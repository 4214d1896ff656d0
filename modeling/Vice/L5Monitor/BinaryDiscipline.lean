import Vice.L5Monitor.BinaryHandlers

/-!
# Requests and responses of the binary monitor

Every command has to be answered once, and under its own id, so that a client may match the
responses by their order. Two commands break this: `resource_get` goes on after the error for a
name that does not fit, and `cpuhistory` never returns while the last record is in the last line
of the history.

Results:
* `answersOnce_iff`: when a command is answered exactly once.
* `responses_in_order`: the n-th terminating response belongs to the n-th command.
-/
namespace Vice.L5.BinaryDiscipline
open Vice.L0.Bytes Vice.L5.BinaryFrame Vice.L5.CpuHistory Vice.L5.BinaryMachine
  Vice.L5.BinaryHandlers

/-- A checkpoint that was added is found, also when it has been switched off. -/
def FindsAdded {σ : Type} (M : Machine σ) : Prop :=
  ∀ s memspace start end' stop op temporary,
    let added := M.addCheckpoint s memspace start end' stop op temporary
    (M.findCheckpoint added.1 added.2).isSome ∧
      (M.findCheckpoint (M.switchCheckpoint added.1 false added.2) added.2).isSome

section
variable {σ : Type} {M : Machine σ} {c : BinaryCommand} {s s' : σ} {p : Memory} {fuel : Nat}

/-! ## One response -/

/-- A single response under the id of the command. -/
def One (c : BinaryCommand) (o : σ × List Response) : Prop :=
  ∃ r, o.2 = [r] ∧ r.requestId = c.requestId

theorem fails_one (e : BinaryError) : One c (fails c e s) := ⟨_, rfl, rfl⟩

theorem done_one (type : BinaryResponse) : One c (done c type s) := ⟨_, rfl, rfl⟩

theorem answersSized_one (type : BinaryResponse) (size : UInt32) (body : List UInt8) :
    One c (answersSized c type size body s) :=
  ⟨_, rfl, rfl⟩

theorem answers_one (type : BinaryResponse) (body : List UInt8) : One c (answers c type body s) :=
  ⟨_, rfl, rfl⟩

theorem one_ite {P : Prop} [Decidable P] {a b : σ × List Response} (ha : One c a) (hb : One c b) :
    One c (if P then a else b) := by
  split
  · exact ha
  · exact hb

theorem checkpointGet_one : One c (processCheckpointGet M c s) := by
  refine one_ite (fails_one _) ?_
  split
  · exact fails_one _
  · exact ⟨_, rfl, rfl⟩

theorem checkpointSetAt_one (hM : FindsAdded M) (memspace : Memspace) :
    One c (checkpointSetAt M c s memspace) := by
  obtain ⟨hon, hoff⟩ := hM s memspace (littleEndianToUint16 c.body 0)
    (littleEndianToUint16 c.body 2) (c.body 4 ≠ 0) (c.body 6) (c.body 7 ≠ 0)
  unfold checkpointSetAt
  dsimp only at hon hoff ⊢
  by_cases hswitch : c.body 5 = 0
  · obtain ⟨checkpt, hfound⟩ := Option.isSome_iff_exists.mp hoff
    rw [if_pos hswitch, hfound]
    exact ⟨_, rfl, rfl⟩
  · obtain ⟨checkpt, hfound⟩ := Option.isSome_iff_exists.mp hon
    rw [if_neg hswitch, hfound]
    exact ⟨_, rfl, rfl⟩

theorem checkpointSet_one (hM : FindsAdded M) : One c (processCheckpointSet M c s) :=
  one_ite (fails_one _) (one_ite (one_ite (fails_one _) (checkpointSetAt_one hM _))
    (checkpointSetAt_one hM _))

theorem checkpointDelete_one : One c (processCheckpointDelete M c s) := by
  refine one_ite (fails_one _) ?_
  split
  · exact fails_one _
  · exact done_one _

theorem checkpointToggle_one : One c (processCheckpointToggle M c s) := by
  refine one_ite (fails_one _) ?_
  split
  · exact fails_one _
  · exact done_one _

/-- A call that succeeds or fails. -/
theorem one_result {r : σ × Bool} {yes no : σ → σ × List Response} (hyes : ∀ s, One c (yes s))
    (hno : ∀ s, One c (no s)) :
    One c (match r with | (s, true) => yes s | (s, false) => no s) := by
  split
  · exact hyes _
  · exact hno _

theorem conditionSet_one : One c (processConditionSet M c s) := by
  refine one_ite (fails_one _) ?_
  split
  · exact fails_one _
  · exact one_result (fun _ => done_one _) fun _ => fails_one _

theorem advanceInstructions_one : One c (processAdvanceInstructions M c s) :=
  one_ite (fails_one _) (done_one _)

theorem reset_one : One c (processReset M c s) := one_ite (fails_one _) (done_one _)

theorem keyboardFeed_one : One c (processKeyboardFeed M c s) :=
  one_ite (fails_one _) (one_ite (fails_one _) (done_one _))

theorem keymatrixSet_one : One c (processKeymatrixSet M c s) :=
  one_result (fun _ => done_one _) fun _ => fails_one _

theorem keymatrixTap_one : One c (processKeymatrixTap M c s) :=
  one_result (fun _ => done_one _) fun _ => fails_one _

theorem keymatrixGet_one : One c (processKeymatrixGet M c s) := by
  unfold processKeymatrixGet
  split
  · exact fails_one _
  · exact answers_one _ _

theorem screenGet_one : One c (processScreenGet M c s) := by
  unfold processScreenGet
  split
  · exact fails_one _
  · exact answers_one _ _

theorem driveAttach_one : One c (processDriveAttach M c s) := by
  unfold processDriveAttach
  split
  · exact fails_one _
  · exact fails_one _
  · exact one_ite (done_one _) (one_result (fun _ => done_one _) fun _ => fails_one _)

theorem videoRecord_one : One c (processVideoRecord M c s) := by
  unfold processVideoRecord
  split
  · exact fails_one _
  · exact fails_one _
  · exact done_one _

theorem autostart_one : One c (processAutostart M c s) :=
  one_ite (fails_one _) (one_result (fun _ => done_one _) fun _ => fails_one _)

theorem dump_one : One c (processDump M c s) :=
  one_ite (fails_one _) (one_result (fun _ => done_one _) fun _ => fails_one _)

theorem undump_one : One c (processUndump M c s) := by
  refine one_ite (fails_one _) ?_
  split
  · exact fails_one _
  · exact answers_one _ _

theorem registersGet_one : One c (processRegistersGet M c s) :=
  one_ite (fails_one _) (one_ite (fails_one _) ⟨_, rfl, rfl⟩)

theorem registersSet_one : One c (processRegistersSet M c s) := by
  refine one_ite (fails_one _) (one_ite (fails_one _) ?_)
  split
  · exact fails_one _
  · exact ⟨_, rfl, rfl⟩

theorem registersAvailable_one : One c (processRegistersAvailable M c s) :=
  one_ite (fails_one _) (one_ite (fails_one _) (answersSized_one _ _ _))

theorem resourceValue_one (resourceName : List UInt8) : One c (resourceValue M c s resourceName) := by
  unfold resourceValue
  split
  · split
    · exact fails_one _
    · exact one_ite (fails_one _) (answers_one _ _)
  · split
    · exact fails_one _
    · exact answers_one _ _
  · exact fails_one _

theorem resourceSet_one : One c (processResourceSet M c s) := by
  refine one_ite (fails_one _) (one_ite ?_ (one_ite ?_ (fails_one _)))
  · split
    · exact fails_one _
    · exact one_result (fun _ => done_one _) fun _ => fails_one _
    · exact one_result (fun _ => done_one _) fun _ => fails_one _
  · split
    · exact fails_one _
    · exact one_result (fun _ => done_one _) fun _ => fails_one _

theorem banksAvailable_one : One c (processBanksAvailable M c s) := by
  unfold processBanksAvailable
  split
  · exact fails_one _
  · exact answersSized_one _ _ _

theorem displayGet_one : One c (processDisplayGet M c s) := by
  refine one_ite (fails_one _) (one_ite (fails_one _) (one_ite (fails_one _) ?_))
  split
  · exact fails_one _
  · exact answers_one _ _

theorem paletteGet_one : One c (processPaletteGet M c s) := by
  refine one_ite (fails_one _) ?_
  split
  · exact fails_one _
  · exact answersSized_one _ _ _

theorem joyportSet_one : One c (processJoyportSet M c s) := by
  refine one_ite (fails_one _) ?_
  split
  · exact done_one _
  · exact fails_one _
  · exact fails_one _
  · exact fails_one _

theorem userportSet_one : One c (processUserportSet M c s) := by
  refine one_ite (fails_one _) ?_
  split
  · exact done_one _
  · exact fails_one _
  · exact fails_one _
  · exact fails_one _

theorem memGet_one : One c (processMemGet M c s) :=
  one_ite (fails_one _) (one_ite (fails_one _) (one_ite (fails_one _) (one_ite (fails_one _)
    ⟨_, rfl, rfl⟩)))

theorem memSet_one : One c (processMemSet M c s) :=
  one_ite (fails_one _) (one_ite (fails_one _) (one_ite (fails_one _) (one_ite (fails_one _)
    (done_one _))))

/-! ## The two exceptions -/

/-- The name of `resource_get` is not empty and ends in the body. -/
def NameFits (c : BinaryCommand) : Prop := 1 ≤ (c.body 0).toNat ∧ 1 + (c.body 0).toNat ≤ len c

theorem resourceGet_one (h : NameFits c) : One c (processResourceGet M c s) := by
  obtain ⟨hempty, hlen⟩ := h
  obtain ⟨r, hr, hid⟩ := resourceValue_one (M := M) (c := c) (s := s)
    (stringField c.body 1 (c.body 0).toNat)
  unfold processResourceGet
  dsimp only
  rw [if_neg (by omega)]
  exact ⟨r, hr, hid⟩

theorem resourceGet_twice (h : ¬ NameFits c) : (processResourceGet M c s).2.length = 2 := by
  obtain ⟨r, hr, -⟩ := resourceValue_one (M := M) (c := c) (s := s)
    (stringField c.body 1 (c.body 0).toNat)
  unfold processResourceGet
  dsimp only
  rw [NameFits] at h
  rw [if_pos (by omega), fails]
  dsimp only
  rw [hr]
  rfl

/-- The history is gone through. -/
def AsksHistory (c : BinaryCommand) : Prop :=
  5 ≤ len c ∧ getRequestedMemspace (c.body 0) ≠ .invalid ∧
    ¬ (littleEndianToUint32 c.body 1).toUInt16 < 1

theorem history_returns {ring : Ring} (hring : ring.i + 1 ≠ ring.lines) (mem : Memspace)
    (count : Nat) (hfuel : ring.lines < fuel) :
    ∃ pos ps, ∀ fuel' ≥ fuel, monCpuhistorySeek fuel' ring mem count = some pos ∧
      entriesFrom ring mem fuel' pos = some ps := by
  obtain ⟨pos, hpos, hseek⟩ := seek_returns hfuel mem count
  obtain ⟨ps, hps⟩ := @entries_return ring mem fuel pos (mt head_eq_zero.mp hring) hpos hfuel
  exact ⟨pos, ps, fun fuel' hle => ⟨seekLoop_mono hseek hle, entries_mono hps hle⟩⟩

theorem cpuhistory_one (h : AsksHistory c → ∀ ring, M.cpuhistory s = some ring → ring.i + 1 ≠ ring.lines) :
    ∃ o n, One c o ∧ ∀ fuel ≥ n, processCpuhistory M c s fuel = some o := by
  unfold processCpuhistory
  cases hm : M.cpuhistory s with
  | none => exact ⟨_, 0, fails_one _, fun _ _ => rfl⟩
  | some ring =>
    dsimp only
    by_cases hlen : len c < 5
    · exact ⟨_, 0, fails_one _, fun _ _ => by rw [if_pos hlen]⟩
    by_cases hspace : getRequestedMemspace (c.body 0) = .invalid
    · exact ⟨_, 0, fails_one _, fun _ _ => by rw [if_neg hlen, if_pos hspace]⟩
    by_cases hcount : (littleEndianToUint32 c.body 1).toUInt16 < 1
    · exact ⟨_, 0, fails_one _, fun _ _ => by rw [if_neg hlen, if_neg hspace, if_pos hcount]⟩
    have hring := h ⟨Nat.le_of_not_lt hlen, hspace, hcount⟩ ring hm
    obtain ⟨pos, ps, hfirst⟩ := history_returns hring (getRequestedMemspace (c.body 0))
      (littleEndianToUint32 c.body 1).toUInt16.toNat (Nat.lt_succ_self _)
    obtain ⟨pos', qs, hsecond⟩ := history_returns hring (getRequestedMemspace (c.body 0))
      (UInt16.ofNat ps.length).toNat (Nat.lt_succ_self _)
    refine ⟨(s, [historyResponse M c s ring (getRequestedMemspace (c.body 0))
      (UInt16.ofNat ps.length) qs]), ring.lines + 1, ⟨_, rfl, rfl⟩, fun fuel hfuel => ?_⟩
    rw [if_neg hlen, if_neg hspace, if_neg hcount, (hfirst fuel hfuel).1]
    simp only [Option.bind_eq_bind, Option.bind_some, (hfirst fuel hfuel).2]
    rw [(hsecond fuel hfuel).1]
    simp only [Option.bind_some, (hsecond fuel hfuel).2]

theorem cpuhistory_hangs {ring : Ring} (h : AsksHistory c) (hm : M.cpuhistory s = some ring)
    (hring : ring.i + 1 = ring.lines) : processCpuhistory M c s fuel = none := by
  obtain ⟨hlen, hspace, hcount⟩ := h
  have hnone : ∀ mem pos, entriesFrom ring mem fuel pos = none := fun _ pos =>
    entries_hang (head_eq_zero.mpr hring) fuel pos
  unfold processCpuhistory
  rw [hm]
  dsimp only
  rw [if_neg (Nat.not_lt.mpr hlen), if_neg hspace, if_neg hcount]
  cases monCpuhistorySeek fuel ring (getRequestedMemspace (c.body 0))
    (littleEndianToUint32 c.body 1).toUInt16.toNat with
  | none => rfl
  | some pos =>
    simp only [Option.bind_eq_bind, Option.bind_some, hnone, Option.bind_none]

/-! ## Whole commands -/

/-- The version of the protocol is one that is spoken. -/
def Spoken (p : Memory) : Prop :=
  ¬ ((readCommand p).apiVersion < 0x01 ∨ 0x02 < (readCommand p).apiVersion)

instance (p : Memory) : Decidable (Spoken p) := inferInstanceAs (Decidable (¬ _))

def commandType (p : Memory) : Option CommandType := CommandType.ofCode (readCommand p).type

/-- What `checkpoint_list` sends before its response: one `checkpointInfo` for each checkpoint. -/
def infos (M : Machine σ) (p : Memory) (s : σ) : List Response :=
  if (readCommand p).apiVersion < 0x01 ∨ 0x02 < (readCommand p).apiVersion then []
  else if commandType p = some .checkpointList then
    (M.checkpointListGet (M.driveCpuExecuteAll s)).map fun checkpt =>
      checkpointInfo (readCommand p).requestId checkpt false
  else []

/-- The command returns with exactly one terminating response, under its own id; a
`checkpointInfo` does not terminate `checkpoint_list`. -/
def AnswersOnce (M : Machine σ) (p : Memory) (s : σ) : Prop :=
  ∃ s' r n, (∀ fuel ≥ n, processCommand fuel M p s = some (s', infos M p s ++ [r])) ∧
    r.requestId = (readCommand p).requestId ∧
    (commandType p = some .checkpointList → r.type ≠ .checkpointInfo)

/-- The command is not one of the two exceptions. -/
def Answered (M : Machine σ) (p : Memory) (s : σ) : Prop :=
  Spoken p →
    (commandType p = some .resourceGet → NameFits (readCommand p)) ∧
    (commandType p = some .cpuhistoryGet → AsksHistory (readCommand p) →
      ∀ ring, M.cpuhistory (M.driveCpuExecuteAll s) = some ring → ring.i + 1 ≠ ring.lines)

/-- A handler without infos. -/
theorem once_of_one {t : Option CommandType} {o : σ × List Response} {n : Nat}
    (ht : commandType p = t) (hlist : t ≠ some .checkpointList) (hp : Spoken p)
    (hrun : ∀ fuel ≥ n, dispatch fuel M (readCommand p) (M.driveCpuExecuteAll s) t = some o)
    (ho : One (readCommand p) o) : AnswersOnce M p s := by
  obtain ⟨s', sent⟩ := o
  obtain ⟨r, rfl, hid⟩ := ho
  refine ⟨s', r, n, fun fuel hfuel => ?_, hid, fun h => absurd (ht ▸ h) hlist⟩
  rw [processCommand, if_neg hp, infos, if_neg hp, ht, if_neg hlist]
  exact (congrArg _ ht).trans (hrun fuel hfuel)

theorem answered_once (hM : FindsAdded M) (h : Answered M p s) : AnswersOnce M p s := by
  by_cases hp : Spoken p
  · obtain ⟨hname, hring⟩ := h hp
    cases ht : commandType p with
    | none => exact once_of_one (n := 0) ht nofun hp (fun _ _ => rfl) (fails_one _)
    | some t =>
      cases t with
      | memGet => exact once_of_one (n := 0) ht nofun hp (fun _ _ => rfl) memGet_one
      | memSet => exact once_of_one (n := 0) ht nofun hp (fun _ _ => rfl) memSet_one
      | checkpointGet => exact once_of_one (n := 0) ht nofun hp (fun _ _ => rfl) checkpointGet_one
      | checkpointSet =>
        exact once_of_one (n := 0) ht nofun hp (fun _ _ => rfl) (checkpointSet_one hM)
      | checkpointDelete =>
        exact once_of_one (n := 0) ht nofun hp (fun _ _ => rfl) checkpointDelete_one
      | checkpointToggle =>
        exact once_of_one (n := 0) ht nofun hp (fun _ _ => rfl) checkpointToggle_one
      | conditionSet => exact once_of_one (n := 0) ht nofun hp (fun _ _ => rfl) conditionSet_one
      | registersGet => exact once_of_one (n := 0) ht nofun hp (fun _ _ => rfl) registersGet_one
      | registersSet => exact once_of_one (n := 0) ht nofun hp (fun _ _ => rfl) registersSet_one
      | dump => exact once_of_one (n := 0) ht nofun hp (fun _ _ => rfl) dump_one
      | undump => exact once_of_one (n := 0) ht nofun hp (fun _ _ => rfl) undump_one
      | resourceSet => exact once_of_one (n := 0) ht nofun hp (fun _ _ => rfl) resourceSet_one
      | advanceInstructions =>
        exact once_of_one (n := 0) ht nofun hp (fun _ _ => rfl) advanceInstructions_one
      | keyboardFeed => exact once_of_one (n := 0) ht nofun hp (fun _ _ => rfl) keyboardFeed_one
      | executeUntilReturn => exact once_of_one (n := 0) ht nofun hp (fun _ _ => rfl) (done_one _)
      | keymatrixSet => exact once_of_one (n := 0) ht nofun hp (fun _ _ => rfl) keymatrixSet_one
      | keymatrixTap => exact once_of_one (n := 0) ht nofun hp (fun _ _ => rfl) keymatrixTap_one
      | keymatrixGet => exact once_of_one (n := 0) ht nofun hp (fun _ _ => rfl) keymatrixGet_one
      | screenGet => exact once_of_one (n := 0) ht nofun hp (fun _ _ => rfl) screenGet_one
      | driveAttach => exact once_of_one (n := 0) ht nofun hp (fun _ _ => rfl) driveAttach_one
      | videoRecord => exact once_of_one (n := 0) ht nofun hp (fun _ _ => rfl) videoRecord_one
      | ping => exact once_of_one (n := 0) ht nofun hp (fun _ _ => rfl) (done_one _)
      | banksAvailable => exact once_of_one (n := 0) ht nofun hp (fun _ _ => rfl) banksAvailable_one
      | registersAvailable =>
        exact once_of_one (n := 0) ht nofun hp (fun _ _ => rfl) registersAvailable_one
      | displayGet => exact once_of_one (n := 0) ht nofun hp (fun _ _ => rfl) displayGet_one
      | viceInfo => exact once_of_one (n := 0) ht nofun hp (fun _ _ => rfl) (answers_one _ _)
      | paletteGet => exact once_of_one (n := 0) ht nofun hp (fun _ _ => rfl) paletteGet_one
      | joyportSet => exact once_of_one (n := 0) ht nofun hp (fun _ _ => rfl) joyportSet_one
      | userportSet => exact once_of_one (n := 0) ht nofun hp (fun _ _ => rfl) userportSet_one
      | exit => exact once_of_one (n := 0) ht nofun hp (fun _ _ => rfl) (done_one _)
      | quit => exact once_of_one (n := 0) ht nofun hp (fun _ _ => rfl) (done_one _)
      | reset => exact once_of_one (n := 0) ht nofun hp (fun _ _ => rfl) reset_one
      | autostart => exact once_of_one (n := 0) ht nofun hp (fun _ _ => rfl) autostart_one
      | resourceGet =>
        exact once_of_one (n := 0) ht nofun hp (fun _ _ => rfl) (resourceGet_one (hname ht))
      | cpuhistoryGet =>
        obtain ⟨o, n, ho, hrun⟩ := cpuhistory_one (hring ht)
        exact once_of_one ht nofun hp hrun ho
      | checkpointList =>
        refine ⟨M.driveCpuExecuteAll s, ⟨4, .checkpointList, .ok, (readCommand p).requestId,
          some (writeUint32 (UInt32.ofNat (M.checkpointListGet (M.driveCpuExecuteAll s)).length))⟩,
          0, fun fuel _ => ?_, rfl, fun _ => nofun⟩
        rw [processCommand, if_neg hp, infos, if_neg hp, if_pos ht]
        exact congrArg _ ht
  · have hbad := not_not.mp hp
    have hnone : infos M p s = [] := by rw [infos, if_pos hbad]
    refine ⟨s, monitorBinaryError .cmdInvalidApiVersion (readCommand p).requestId, 0,
      fun fuel _ => ?_, rfl, fun _ => nofun⟩
    rw [processCommand, if_pos hbad, hnone]
    rfl

theorem dispatched (hp : Spoken p) {t : Option CommandType} (ht : commandType p = t) :
    processCommand fuel M p s = dispatch fuel M (readCommand p) (M.driveCpuExecuteAll s) t := by
  rw [processCommand, if_neg hp]
  exact congrArg _ ht

theorem infos_nil {t : Option CommandType} (ht : commandType p = t)
    (hlist : t ≠ some .checkpointList) : infos M p s = [] := by
  unfold infos
  split
  · rfl
  · rw [ht, if_neg hlist]

/-- A command is answered exactly once exactly when it is not one of the two exceptions. -/
theorem answersOnce_iff (hM : FindsAdded M) : AnswersOnce M p s ↔ Answered M p s := by
  refine ⟨fun ⟨_, _, n, hrun, _⟩ hp => ⟨fun ht => ?_, fun ht hasks ring hring hlast => ?_⟩,
    answered_once hM⟩
  · by_contra hname
    have hsent := hrun n (Nat.le_refl n)
    rw [dispatched hp ht, infos_nil ht nofun] at hsent
    have hone := congrArg (fun o : σ × List Response => o.2.length) (Option.some.inj hsent)
    exact absurd (show 2 = 1 from (resourceGet_twice hname).symm.trans hone) (by decide)
  · have hsent := hrun n (Nat.le_refl n)
    rw [dispatched hp ht] at hsent
    exact nomatch (cpuhistory_hangs hasks hring hlast).symm.trans hsent

/-! ## A client that matches by order -/

/-- The terminating responses that a client finds which has sent commands of these types. -/
def pairUp : List (Option CommandType) → List Response → Option (List Response)
  | [], [] => some []
  | [], _ :: _ => none
  | t :: ts, rs =>
    match if t = some .checkpointList then rs.dropWhile (·.type = .checkpointInfo) else rs with
    | [] => none
    | r :: rs => (pairUp ts rs).map (r :: ·)

/-- The commands of a client one after another. -/
def session (fuel : Nat) (M : Machine σ) : List Memory → σ → Option (σ × List Response)
  | [], s => some (s, [])
  | p :: ps, s => do
    let (s, sent) ← processCommand fuel M p s
    let (s, more) ← session fuel M ps s
    return (s, sent ++ more)

/-- None of the commands is one of the two exceptions in the state it meets. -/
def AllAnswered (M : Machine σ) : List Memory → σ → Prop
  | [], _ => True
  | p :: ps, s => Answered M p s ∧
    ∀ fuel s' sent, processCommand fuel M p s = some (s', sent) → AllAnswered M ps s'

theorem pairUp_command {ps : List Memory} {rs : List Response} {r : Response}
    (hr : commandType p = some .checkpointList → r.type ≠ .checkpointInfo) :
    pairUp ((p :: ps).map commandType) (infos M p s ++ [r] ++ rs) =
      (pairUp (ps.map commandType) rs).map (r :: ·) := by
  rw [List.map_cons, pairUp]
  by_cases ht : commandType p = some .checkpointList
  · have hdrop : (infos M p s ++ [r] ++ rs).dropWhile (·.type = .checkpointInfo) = r :: rs := by
      have hinfos : ∀ i ∈ infos M p s, decide (i.type = .checkpointInfo) = true := by
        rw [infos, ht, if_pos rfl]
        split
        · exact fun i hi => absurd hi List.not_mem_nil
        · intro i hi
          obtain ⟨checkpt, -, rfl⟩ := List.mem_map.mp hi
          rfl
      rw [List.append_assoc, List.dropWhile_append_of_pos hinfos]
      exact List.dropWhile_cons_of_neg (by simpa using hr ht)
    rw [if_pos ht, hdrop]
  · rw [if_neg ht, infos_nil rfl ht]
    rfl

theorem session_in_order (hM : FindsAdded M) {ps : List Memory} (h : AllAnswered M ps s) :
    ∃ s' sent rs n, (∀ fuel ≥ n, session fuel M ps s = some (s', sent)) ∧
      pairUp (ps.map commandType) sent = some rs ∧
      rs.map (·.requestId) = ps.map fun p => (readCommand p).requestId := by
  induction ps generalizing s with
  | nil => exact ⟨s, [], [], 0, fun _ _ => rfl, rfl, rfl⟩
  | cons p ps ih =>
    obtain ⟨hp, hps⟩ := h
    obtain ⟨s₁, r, n, hrun, hid, hr⟩ := answered_once hM hp
    obtain ⟨s₂, sent, rs, m, hrest, hpair, hids⟩ := ih (hps n s₁ _ (hrun n (Nat.le_refl n)))
    refine ⟨s₂, infos M p s ++ [r] ++ sent, r :: rs, max n m, fun fuel hfuel => ?_, ?_, ?_⟩
    · rw [session, hrun fuel (by omega)]
      simp only [Option.bind_eq_bind, Option.bind_some, hrest fuel (by omega)]
      rfl
    · rw [pairUp_command hr, hpair]
      rfl
    · rw [List.map_cons, List.map_cons, hids, hid]

/-- A command is answered exactly once exactly when it is not one of the two exceptions, and then
the n-th terminating response belongs to the n-th command. -/
theorem responses_in_order (hM : FindsAdded M) : (∀ p s, AnswersOnce M p s ↔ Answered M p s) ∧
    ∀ ps s, AllAnswered M ps s → ∃ s' sent rs n,
      (∀ fuel ≥ n, session fuel M ps s = some (s', sent)) ∧
      pairUp (ps.map commandType) sent = some rs ∧
      rs.map (·.requestId) = ps.map fun p => (readCommand p).requestId :=
  ⟨fun _ _ => answersOnce_iff hM, fun _ _ => session_in_order hM⟩

end

theorem smallMachine_findsAdded (resource : List UInt8) (ring : Option Ring) :
    FindsAdded (smallMachine resource ring) := fun _ _ _ _ _ _ _ => ⟨rfl, rfl⟩

/-- A history whose last record is in its last line. -/
def fullRing : Ring where
  entry _ := ⟨0, 0, 0, 0, 0, 0, 0, 0, 0, 0, .comp⟩
  lines := 50701
  i := 50700
  bound := by decide

/-- `resource_get` with an empty name is answered twice, and the `cpuhistory` of the main CPU never. -/
theorem answers_fail : ¬ AnswersOnce (smallMachine [] none) (commandBytes 1 0x51 [0]) [] ∧
      ¬ AnswersOnce (smallMachine [] (some fullRing)) (commandBytes 2 0x86 [0, 1, 0, 0, 0]) [] := by
  rw [answersOnce_iff (smallMachine_findsAdded _ _), answersOnce_iff (smallMachine_findsAdded _ _)]
  refine ⟨fun h => ?_, fun h => ?_⟩
  · exact absurd ((h (by decide)).1 (by decide)).1 (by decide)
  · exact (h (by decide)).2 (by decide) ⟨by decide, by decide, by decide⟩ fullRing rfl rfl

/-- Two pings. -/
theorem responses_in_order_pings : ∃ s' sent rs n, (∀ fuel ≥ n, session fuel (smallMachine [] none)
      [commandBytes 7 0x81 [], commandBytes 9 0x81 []] [] = some (s', sent)) ∧
      pairUp [some .ping, some .ping] sent = some rs ∧ rs.map (·.requestId) = [7, 9] :=
  (responses_in_order (smallMachine_findsAdded [] none)).2
    [commandBytes 7 0x81 [], commandBytes 9 0x81 []] []
    ⟨fun _ => ⟨fun h => absurd h (by decide), fun h => absurd h (by decide)⟩, fun _ _ _ _ =>
      ⟨fun _ => ⟨fun h => absurd h (by decide), fun h => absurd h (by decide)⟩, fun _ _ _ _ =>
        trivial⟩⟩

end Vice.L5.BinaryDiscipline

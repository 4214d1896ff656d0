import Vice.L5Monitor.BinaryDiscipline

/-!
# What a command of the binary monitor means

The buffer keeps what longer commands have left behind the body of a shorter one. A command has to
mean the same whatever that is. Four handlers look at it: `mem_get` and `mem_set` compare their
addresses before the length is tested, `registers_set` goes on by the size that an item gives, and
`resource_get` reads its name even when it does not fit.

Results:
* `ownBytes_same`: a command that is `OwnBytes` means the same whatever is behind its body.
* `ownBytes_iff`: any other command can be told what to do by what is behind it.
-/
namespace Vice.L5.BinaryOwnBytes
open Vice.L0.Bytes Vice.L5.BinaryFrame Vice.L5.CpuHistory Vice.L5.BinaryMachine
  Vice.L5.BinaryHandlers Vice.L5.BinaryDiscipline

/-- The functions that are given a body and its length look at no byte behind it. -/
structure ReadsBody {σ : Type} (M : Machine σ) : Prop where
  checkpointDecodeSilent : ∀ (b b' : Memory) (n : UInt32), (∀ i < n.toNat, b' i = b i) →
    M.checkpointDecodeSilent b' n = M.checkpointDecodeSilent b n
  keymatrixSet : ∀ s (b b' : Memory) (n : UInt32), (∀ i < n.toNat, b' i = b i) →
    M.keymatrixSet s b' n = M.keymatrixSet s b n
  keymatrixTap : ∀ s (b b' : Memory) (n : UInt32), (∀ i < n.toNat, b' i = b i) →
    M.keymatrixTap s b' n = M.keymatrixTap s b n
  daDecode : ∀ (b b' : Memory) (n : UInt32), (∀ i < n.toNat, b' i = b i) →
    M.daDecode b' n = M.daDecode b n
  videoRecord : ∀ s (b b' : Memory) (n : UInt32), (∀ i < n.toNat, b' i = b i) →
    M.videoRecord s b' n = M.videoRecord s b n

/-- The command with another body. -/
abbrev withBody (c : BinaryCommand) (b : Memory) : BinaryCommand := { c with body := b }

/-- The bytes of the body are the same. -/
def Agrees (c : BinaryCommand) (b : Memory) : Prop := ∀ i < len c, b i = c.body i

section
variable {σ : Type} {M : Machine σ} {c : BinaryCommand} {s : σ} {b : Memory} {p p' : Memory}
  {o : Memory → σ × List Response}
  {fuel n cursor : Nat}

/-! ## The conditions -/

/-- Whether the end address is below the start address can be told from the body. -/
def RangeKnown (c : BinaryCommand) : Prop :=
  let start := (littleEndianToUint16 c.body 1).toNat
  5 ≤ len c ∨ (len c = 3 ∧ start = 0) ∨
    (len c = 4 ∧ (start ≤ (c.body 3).toNat ∨ 0xff00 + (c.body 3).toNat < start))

/-- The items up to the one that ends the loop are in the body. -/
def ItemsKnown (c : BinaryCommand) : Nat → Nat → Prop
  | 0, _ => True
  | n + 1, cursor => cursor < len c ∧
    (c.body cursor < 3 ∨
      (cursor + 4 ≤ len c ∧ ItemsKnown c n (cursor + ((c.body cursor).toNat + 1))))

def RegistersKnown (c : BinaryCommand) : Prop :=
  let count := (littleEndianToUint16 c.body 1).toNat
  len c < 3 + count * (3 + 1) ∨ getRequestedMemspace (c.body 0) = .invalid ∨ ItemsKnown c count 3

/-- The name ends in the body. -/
def NameKnown (c : BinaryCommand) : Prop :=
  1 ≤ len c ∧ (c.body 0 = 0 ∨ 1 + (c.body 0).toNat ≤ len c ∨ ∃ i, 1 ≤ i ∧ i < len c ∧ c.body i = 0)

/-- What the command does can be told from its own bytes. -/
def OwnBytes (p : Memory) : Prop :=
  Spoken p →
    (commandType p = some .memGet ∨ commandType p = some .memSet → RangeKnown (readCommand p)) ∧
    (commandType p = some .registersSet → RegistersKnown (readCommand p)) ∧
    (commandType p = some .resourceGet → NameKnown (readCommand p))

/-! ## Handlers that test the length first -/

theorem guarded {α : Type} {P P' : Prop} [Decidable P] [Decidable P'] {x y y' : α} (hP : P' ↔ P)
    (h : ¬ P → y' = y) : (if P' then x else y') = if P then x else y := by
  by_cases hp : P
  · rw [if_pos hp, if_pos (hP.mpr hp)]
  · rw [if_neg hp, if_neg (mt hP.mp hp), h hp]

/-- A length in the body that is added to its own offset. -/
theorem fits_iff (h : Agrees c b) {off k : Nat} (hk : off < k) :
    len c < k + (b off).toNat ↔ len c < k + (c.body off).toNat := by
  by_cases hin : off < len c
  · rw [h off hin]
  · exact iff_of_true (by omega) (by omega)

theorem checkpointGet_own (h : Agrees c b) :
    processCheckpointGet M (withBody c b) s = processCheckpointGet M c s := by
  refine guarded Iff.rfl fun hlen => ?_
  dsimp only
  rw [littleEndianToUint32_congr h (by omega)]
  rfl

theorem reset_own (h : Agrees c b) : processReset M (withBody c b) s = processReset M c s := by
  refine guarded Iff.rfl fun hlen => ?_
  dsimp only
  simp only [h 0 (by omega)]
  rfl

theorem conditionSet_own (h : Agrees c b) :
    processConditionSet M (withBody c b) s = processConditionSet M c s := by
  refine guarded (fits_iff h (by decide)) fun hlen => ?_
  dsimp only
  rw [littleEndianToUint32_congr h (by omega), h 4 (by omega), stringField_congr h (by omega)]
  rfl

theorem checkpointSetAt_own (hM : ReadsBody M) (h : Agrees c b) (hlen : 8 ≤ len c) (memspace : Memspace) :
    checkpointSetAt M (withBody c b) s memspace = checkpointSetAt M c s memspace := by
  have h0 : littleEndianToUint16 b 0 = littleEndianToUint16 c.body 0 :=
    littleEndianToUint16_congr h (by omega)
  have h2 : littleEndianToUint16 b 2 = littleEndianToUint16 c.body 2 :=
    littleEndianToUint16_congr h (by omega)
  simp only [checkpointSetAt, hM.checkpointDecodeSilent c.body b c.length h, h0, h2,
    h 4 (by omega), h 5 (by omega), h 6 (by omega), h 7 (by omega)]

theorem checkpointSet_own (hM : ReadsBody M) (h : Agrees c b) :
    processCheckpointSet M (withBody c b) s = processCheckpointSet M c s := by
  refine guarded Iff.rfl fun hlen => ?_
  dsimp only
  have hat := fun memspace => checkpointSetAt_own (s := s) hM h (Nat.le_of_not_lt hlen) memspace
  rw [show len (withBody c b) = len c from rfl]
  by_cases hspace : 9 ≤ len c
  · rw [if_pos hspace, if_pos hspace, h 8 (by omega), hat]
    rfl
  · rw [if_neg hspace, if_neg hspace, hat]

theorem checkpointDelete_own (h : Agrees c b) :
    processCheckpointDelete M (withBody c b) s = processCheckpointDelete M c s := by
  refine guarded Iff.rfl fun hlen => ?_
  dsimp only
  rw [littleEndianToUint32_congr h (by omega)]
  rfl

theorem checkpointToggle_own (h : Agrees c b) :
    processCheckpointToggle M (withBody c b) s = processCheckpointToggle M c s := by
  refine guarded Iff.rfl fun hlen => ?_
  dsimp only
  rw [littleEndianToUint32_congr h (by omega)]
  simp only [h 4 (by omega)]
  rfl

theorem advanceInstructions_own (h : Agrees c b) :
    processAdvanceInstructions M (withBody c b) s = processAdvanceInstructions M c s := by
  refine guarded Iff.rfl fun hlen => ?_
  dsimp only
  rw [littleEndianToUint16_congr h (by omega)]
  simp only [h 0 (by omega)]
  rfl

theorem keyboardFeed_own (h : Agrees c b) :
    processKeyboardFeed M (withBody c b) s = processKeyboardFeed M c s := by
  refine guarded Iff.rfl fun _ => guarded (fits_iff h (by decide)) fun hlen => ?_
  dsimp only
  rw [h 0 (by omega), stringField_congr h (by omega)]
  rfl

theorem keymatrixSet_own (hM : ReadsBody M) (h : Agrees c b) :
    processKeymatrixSet M (withBody c b) s = processKeymatrixSet M c s := by
  unfold processKeymatrixSet
  rw [hM.keymatrixSet s c.body b c.length h]
  rfl

theorem keymatrixTap_own (hM : ReadsBody M) (h : Agrees c b) :
    processKeymatrixTap M (withBody c b) s = processKeymatrixTap M c s := by
  unfold processKeymatrixTap
  rw [hM.keymatrixTap s c.body b c.length h]
  rfl

theorem driveAttach_own (hM : ReadsBody M) (h : Agrees c b) :
    processDriveAttach M (withBody c b) s = processDriveAttach M c s := by
  unfold processDriveAttach
  rw [hM.daDecode c.body b c.length h]
  rfl

theorem videoRecord_own (hM : ReadsBody M) (h : Agrees c b) :
    processVideoRecord M (withBody c b) s = processVideoRecord M c s := by
  unfold processVideoRecord
  rw [hM.videoRecord s c.body b c.length h]
  rfl

theorem autostart_own (h : Agrees c b) : processAutostart M (withBody c b) s = processAutostart M c s := by
  refine guarded (fits_iff h (by decide)) fun hlen => ?_
  dsimp only
  rw [h 3 (by omega), littleEndianToUint16_congr h (by omega), stringField_congr h (by omega)]
  simp only [h 0 (by omega)]
  rfl

theorem dump_own (h : Agrees c b) : processDump M (withBody c b) s = processDump M c s := by
  refine guarded (fits_iff h (by decide)) fun hlen => ?_
  dsimp only
  rw [h 2 (by omega), stringField_congr h (by omega)]
  simp only [h 0 (by omega), h 1 (by omega)]
  rfl

theorem undump_own (h : Agrees c b) : processUndump M (withBody c b) s = processUndump M c s := by
  refine guarded (fits_iff h (by decide)) fun hlen => ?_
  dsimp only
  rw [h 0 (by omega), stringField_congr h (by omega)]
  rfl

theorem registersGet_own (h : Agrees c b) :
    processRegistersGet M (withBody c b) s = processRegistersGet M c s := by
  refine guarded Iff.rfl fun hlen => ?_
  dsimp only
  simp only [h 0 (by omega)]
  rfl

theorem registersAvailable_own (h : Agrees c b) :
    processRegistersAvailable M (withBody c b) s = processRegistersAvailable M c s := by
  refine guarded Iff.rfl fun hlen => ?_
  dsimp only
  simp only [h 0 (by omega)]
  rfl

theorem displayGet_own (h : Agrees c b) : processDisplayGet M (withBody c b) s = processDisplayGet M c s := by
  refine guarded Iff.rfl fun _ => guarded Iff.rfl fun hlen => ?_
  dsimp only
  simp only [h 0 (by omega), h 1 (by omega)]
  rfl

theorem paletteGet_own (h : Agrees c b) : processPaletteGet M (withBody c b) s = processPaletteGet M c s := by
  refine guarded Iff.rfl fun hlen => ?_
  dsimp only
  simp only [h 0 (by omega)]
  rfl

theorem joyportSet_own (h : Agrees c b) : processJoyportSet M (withBody c b) s = processJoyportSet M c s := by
  refine guarded Iff.rfl fun hlen => ?_
  dsimp only
  rw [littleEndianToUint16_congr h (by omega), littleEndianToUint16_congr h (by omega)]
  rfl

theorem userportSet_own (h : Agrees c b) :
    processUserportSet M (withBody c b) s = processUserportSet M c s := by
  refine guarded Iff.rfl fun hlen => ?_
  dsimp only
  rw [littleEndianToUint16_congr h (by omega)]
  rfl

theorem cpuhistory_own (h : Agrees c b) :
    processCpuhistory M (withBody c b) s fuel = processCpuhistory M c s fuel := by
  unfold processCpuhistory
  cases M.cpuhistory s with
  | none => rfl
  | some ring =>
    refine guarded Iff.rfl fun hlen => ?_
    have hcount : littleEndianToUint32 b 1 = littleEndianToUint32 c.body 1 :=
      littleEndianToUint32_congr h (by omega)
    dsimp only
    simp only [h 0 (by omega), hcount]
    rfl

theorem resourceInt_congr (h : Agrees c b) {off k : Nat} (hlen : off + k ≤ len c) :
    resourceInt b off k = resourceInt c.body off k := by
  unfold resourceInt
  split
  · rw [h off (by omega)]
  · split
    · rw [littleEndianToUint16_congr h (by omega)]
    · split
      · rw [littleEndianToUint32_congr h (by omega)]
      · rfl

/-- A length that is behind the body is refused like the one in its place. -/
theorem resourceSet_own (h : Agrees c b) :
    processResourceSet M (withBody c b) s = processResourceSet M c s := by
  refine guarded ?_ fun hlen => ?_
  · dsimp only
    by_cases h1 : 1 < len c
    · rw [h 1 h1]
      by_cases h2 : 2 + (c.body 1).toNat < len c
      · rw [h _ h2]
        rfl
      · exact iff_of_true (.inr (.inr (by change len c < _; omega))) (.inr (.inr (by omega)))
    · exact iff_of_true (.inr (.inr (by change len c < _; omega))) (.inr (.inr (by omega)))
  · dsimp only
    rw [h 1 (by omega), h (2 + (c.body 1).toNat) (by omega), stringField_congr h (by omega),
      stringField_congr h (by omega), resourceInt_congr h (by omega)]
    simp only [h 0 (by omega)]
    rfl

/-! ## The four handlers that look behind the body -/

theorem littleEndianToUint16_toNat (m : Memory) (i : Nat) :
    (littleEndianToUint16 m i).toNat = (m i).toNat + 256 * (m (i + 1)).toNat := by
  have hlo := (m i).toNat_lt
  have hhi := (m (i + 1)).toNat_lt
  simp only [littleEndianToUint16, UInt16.toNat_add, UInt16.toNat_shiftLeft, UInt8.toNat_toUInt16,
    UInt16.reduceToNat, Nat.reduceMod, Nat.shiftLeft_eq]
  omega

theorem range_same (h : Agrees c b) (hk : RangeKnown c) : littleEndianToUint16 b 3 < littleEndianToUint16 b 1 ↔
      littleEndianToUint16 c.body 3 < littleEndianToUint16 c.body 1 := by
  have hend := (c.body 4).toNat_lt
  have hend' := (b 4).toNat_lt
  simp only [UInt16.lt_iff_toNat_lt, littleEndianToUint16_toNat, RangeKnown, Nat.reduceAdd] at hk ⊢
  rcases hk with hlen | ⟨hlen, hzero⟩ | ⟨hlen, hstart⟩
  · rw [h 1 (by omega), h 2 (by omega), h 3 (by omega), h 4 (by omega)]
  · rw [h 1 (by omega), h 2 (by omega), hzero]
    exact iff_of_false (Nat.not_lt_zero _) (Nat.not_lt_zero _)
  · rw [h 1 (by omega), h 2 (by omega), h 3 (by omega)]
    omega

theorem memGet_own (h : Agrees c b) (hk : RangeKnown c) :
    processMemGet M (withBody c b) s = processMemGet M c s := by
  refine guarded (range_same h hk) fun _ => guarded Iff.rfl fun hlen => ?_
  have h1 : littleEndianToUint16 b 1 = littleEndianToUint16 c.body 1 :=
    littleEndianToUint16_congr h (by omega)
  have h3 : littleEndianToUint16 b 3 = littleEndianToUint16 c.body 3 :=
    littleEndianToUint16_congr h (by omega)
  have h6 : littleEndianToUint16 b 6 = littleEndianToUint16 c.body 6 :=
    littleEndianToUint16_congr h (by omega)
  dsimp only
  simp only [h 0 (by omega), h 5 (by omega), h1, h3, h6]
  rfl

theorem foldl_range_congr {α : Type} {f g : α → Nat → α} {k : Nat} (hfg : ∀ a, ∀ i < k, f a i = g a i)
    (a : α) : (List.range k).foldl f a = (List.range k).foldl g a := by
  induction k with
  | zero => rfl
  | succ k ih =>
    rw [List.range_succ, List.foldl_append, List.foldl_append, ih fun a i hi => hfg a i (Nat.lt_succ_of_lt hi)]
    exact hfg _ k (Nat.lt_succ_self k)

theorem memSet_own (h : Agrees c b) (hk : RangeKnown c) :
    processMemSet M (withBody c b) s = processMemSet M c s := by
  refine guarded (range_same h hk) fun _ => guarded ?_ fun hlen => ?_
  · by_cases h5 : 5 ≤ len c
    · dsimp only
      rw [littleEndianToUint16_congr h (by omega), littleEndianToUint16_congr h (by omega)]
      rfl
    · exact iff_of_true (by change len c < _; omega) (by omega)
  · have h1 : littleEndianToUint16 b 1 = littleEndianToUint16 c.body 1 :=
      littleEndianToUint16_congr h (by omega)
    have h3 : littleEndianToUint16 b 3 = littleEndianToUint16 c.body 3 :=
      littleEndianToUint16_congr h (by omega)
    have h6 : littleEndianToUint16 b 6 = littleEndianToUint16 c.body 6 :=
      littleEndianToUint16_congr h (by omega)
    dsimp only
    simp only [h 0 (by omega), h 5 (by omega), h1, h3, h6]
    rw [foldl_range_congr fun s i hi => by rw [h (8 + i) (by omega)]]
    rfl

theorem registersLoop_own (h : Agrees c b) {memspace : Memspace} (hk : ItemsKnown c n cursor) :
    registersLoop M (withBody c b) memspace n cursor s = registersLoop M c memspace n cursor s := by
  induction n generalizing cursor s with
  | zero => rfl
  | succ n ih =>
    obtain ⟨hin, hitem⟩ := hk
    rw [registersLoop, registersLoop]
    dsimp only
    simp only [h cursor hin]
    rcases hitem with hsmall | ⟨hlen, hrest⟩
    · rw [if_pos hsmall, if_pos hsmall]
    · have hval : littleEndianToUint16 b (cursor + 2) = littleEndianToUint16 c.body (cursor + 2) :=
        littleEndianToUint16_congr h (by omega)
      simp only [h (cursor + 1) (by omega), hval, ih hrest]

theorem registersSet_own (h : Agrees c b) (hk : RegistersKnown c) :
    processRegistersSet M (withBody c b) s = processRegistersSet M c s := by
  refine guarded ?_ fun hlen => ?_
  · by_cases h3 : 3 ≤ len c
    · dsimp only
      rw [littleEndianToUint16_congr h (by omega)]
      rfl
    · exact iff_of_true (by change len c < _; omega) (by omega)
  · have hcount : littleEndianToUint16 b 1 = littleEndianToUint16 c.body 1 :=
      littleEndianToUint16_congr h (by omega)
    dsimp only
    simp only [h 0 (by omega), hcount]
    refine guarded Iff.rfl fun hspace => ?_
    rw [registersLoop_own h (hk.resolve_left hlen |>.resolve_left hspace)]
    rfl

/-- A string ends at its first zero. -/
theorem cString_zero {m m' : Memory} {off i : Nat} (h : ∀ k, off ≤ k → k ≤ i → m' k = m k)
    (hi : off ≤ i) (hzero : m i = 0) (n : Nat) : cString m' off n = cString m off n := by
  induction n generalizing off with
  | zero => rfl
  | succ n ih =>
    rw [cString, cString, h off (Nat.le_refl _) hi]
    split
    · rfl
    · next hne =>
      have hlt : off < i := Nat.lt_of_le_of_ne hi fun heq => hne (heq ▸ hzero)
      rw [ih (fun k hk hki => h k (by omega) hki) hlt]

theorem terminate_below {m : Memory} {off n i : Nat} (hi : i < off + n) :
    terminate m off n i = m i := Function.update_of_ne (Nat.ne_of_lt hi) _ _

theorem name_same (h : Agrees c b) (hk : NameKnown c) :
    stringField b 1 (c.body 0).toNat = stringField c.body 1 (c.body 0).toNat := by
  obtain ⟨hlen, hzero | hfits | ⟨i, hi, hin, hzero⟩⟩ := hk
  · rw [hzero]
    exact stringField_congr h hlen
  · exact stringField_congr h hfits
  · by_cases hfits : 1 + (c.body 0).toNat ≤ len c
    · exact stringField_congr h hfits
    · refine cString_zero (i := i) (fun k _ hk => ?_) hi ?_ _
      · rw [terminate_below (by omega), terminate_below (by omega), h k (by omega)]
      · rw [terminate_below (by omega), hzero]

theorem resourceGet_own (h : Agrees c b) (hk : NameKnown c) :
    processResourceGet M (withBody c b) s = processResourceGet M c s := by
  have hname := name_same h hk
  unfold processResourceGet
  dsimp only
  rw [h 0 (by have := hk.1; omega), hname]
  rfl

/-! ## Whole commands -/

/-- Another buffer with the header and the body of the command. -/
def SameCommand (p p' : Memory) : Prop := ∀ i < 11 + len (readCommand p), p' i = p i

instance (p p' : Memory) : Decidable (SameCommand p p') :=
  inferInstanceAs (Decidable (∀ i < 11 + len (readCommand p), p' i = p i))

/-- The command does the same whatever is behind its body. -/
def Same (M : Machine σ) (p : Memory) (s : σ) : Prop :=
  ∀ p', SameCommand p p' → ∀ fuel, processCommand fuel M p' s = processCommand fuel M p s

theorem readCommand_same (h : SameCommand p p') :
    readCommand p' = withBody (readCommand p) fun i => p' (11 + i) := by
  have hid : littleEndianToUint32 p' 6 = littleEndianToUint32 p 6 :=
    littleEndianToUint32_congr h (by omega)
  have hlength : littleEndianToUint32 p' 2 = littleEndianToUint32 p 2 :=
    littleEndianToUint32_congr h (by omega)
  rw [readCommand, hid, hlength, h 1 (by omega), h 10 (by omega)]
  rfl

theorem agrees_same (h : SameCommand p p') : Agrees (readCommand p) fun i => p' (11 + i) :=
  fun i hi => h (11 + i) (by omega)

theorem processCommand_same (h : SameCommand p p') (hp : Spoken p) :
    processCommand fuel M p' s = dispatch fuel M (withBody (readCommand p) fun i => p' (11 + i))
      (M.driveCpuExecuteAll s) (commandType p) := by
  rw [processCommand, readCommand_same h]
  exact if_neg hp

/-- A command that is told by its own bytes does the same whatever is behind them. -/
theorem ownBytes_same (hM : ReadsBody M) (hown : OwnBytes p) : Same M p s := by
  intro p' h fuel
  by_cases hp : Spoken p
  · obtain ⟨hrange, hregs, hname⟩ := hown hp
    rw [processCommand_same h hp, dispatched hp rfl]
    have hb := agrees_same h
    cases ht : commandType p with
    | none => rfl
    | some t =>
      cases t with
      | memGet => exact congrArg some (memGet_own hb (hrange (.inl ht)))
      | memSet => exact congrArg some (memSet_own hb (hrange (.inr ht)))
      | checkpointGet => exact congrArg some (checkpointGet_own hb)
      | checkpointSet => exact congrArg some (checkpointSet_own hM hb)
      | checkpointDelete => exact congrArg some (checkpointDelete_own hb)
      | checkpointList => rfl
      | checkpointToggle => exact congrArg some (checkpointToggle_own hb)
      | conditionSet => exact congrArg some (conditionSet_own hb)
      | registersGet => exact congrArg some (registersGet_own hb)
      | registersSet => exact congrArg some (registersSet_own hb (hregs ht))
      | dump => exact congrArg some (dump_own hb)
      | undump => exact congrArg some (undump_own hb)
      | resourceGet => exact congrArg some (resourceGet_own hb (hname ht))
      | resourceSet => exact congrArg some (resourceSet_own hb)
      | advanceInstructions => exact congrArg some (advanceInstructions_own hb)
      | keyboardFeed => exact congrArg some (keyboardFeed_own hb)
      | executeUntilReturn => rfl
      | keymatrixSet => exact congrArg some (keymatrixSet_own hM hb)
      | keymatrixTap => exact congrArg some (keymatrixTap_own hM hb)
      | keymatrixGet => rfl
      | screenGet => rfl
      | driveAttach => exact congrArg some (driveAttach_own hM hb)
      | videoRecord => exact congrArg some (videoRecord_own hM hb)
      | ping => rfl
      | banksAvailable => rfl
      | registersAvailable => exact congrArg some (registersAvailable_own hb)
      | displayGet => exact congrArg some (displayGet_own hb)
      | viceInfo => rfl
      | cpuhistoryGet => exact cpuhistory_own hb
      | paletteGet => exact congrArg some (paletteGet_own hb)
      | joyportSet => exact congrArg some (joyportSet_own hb)
      | userportSet => exact congrArg some (userportSet_own hb)
      | exit => rfl
      | quit => rfl
      | reset => exact congrArg some (reset_own hb)
      | autostart => exact congrArg some (autostart_own hb)
  · rw [processCommand, readCommand_same h, processCommand]
    exact (if_pos (not_not.mp hp)).trans (if_pos (not_not.mp hp)).symm

/-! ## What is left behind the body decides -/

/-- The body with other bytes behind it. -/
def tailed (c : BinaryCommand) (f : Memory) : Memory := fun i => if i < len c then c.body i else f i

theorem tailed_in {f : Memory} {i : Nat} (hi : i < len c) : tailed c f i = c.body i := if_pos hi

theorem tailed_out {f : Memory} {i : Nat} (hi : len c ≤ i) : tailed c f i = f i :=
  if_neg (Nat.not_lt.mpr hi)

/-- Two tails behind the body lead to the same outcome. -/
theorem same_tailed (fuel : Nat) (h : Same M p s) (hp : Spoken p) {t : CommandType}
    (ht : commandType p = some t) (f g : Memory) :
    dispatch fuel M (withBody (readCommand p) (tailed (readCommand p) f)) (M.driveCpuExecuteAll s)
        (some t) =
      dispatch fuel M (withBody (readCommand p) (tailed (readCommand p) g)) (M.driveCpuExecuteAll s)
        (some t) := by
  have key : ∀ f : Memory, dispatch fuel M
      (withBody (readCommand p) (tailed (readCommand p) f)) (M.driveCpuExecuteAll s) (some t) =
      processCommand fuel M p s := fun f => by
    let p' : Memory := fun i => if i < 11 then p i else tailed (readCommand p) f (i - 11)
    have hsame : SameCommand p p' := fun i hi => by
      by_cases hhead : i < 11
      · exact if_pos hhead
      · refine (if_neg hhead).trans ((tailed_in (by omega)).trans ?_)
        exact congrArg p (by omega)
    have hbody : (fun i => p' (11 + i)) = tailed (readCommand p) f := funext fun i =>
      (if_neg (by omega)).trans (congrArg _ (Nat.add_sub_cancel_left 11 i))
    rw [← h p' hsame fuel, processCommand_same hsame hp, hbody, ht]
  rw [key f, key g]

/-- A tail with a high start address and a low end address. -/
def endBelow : Memory := fun i => if i = 2 then 1 else 0

/-- A tail with a low start address and a high end address. -/
def endAbove : Memory := fun i => if 3 ≤ i then 0xff else 0

theorem range_differs (h : ¬ RangeKnown c) :
    littleEndianToUint16 (tailed c endBelow) 3 < littleEndianToUint16 (tailed c endBelow) 1 ∧
      ¬ littleEndianToUint16 (tailed c endAbove) 3 < littleEndianToUint16 (tailed c endAbove) 1 := by
  have h1 := (c.body 1).toNat_lt
  have h2 := (c.body 2).toNat_lt
  have h3 := (c.body 3).toNat_lt
  have hshort : len c = 0 ∨ len c = 1 ∨ len c = 2 ∨ len c = 3 ∨ len c = 4 := by
    have hlen : ¬ 5 ≤ len c := mt .inl h
    omega
  simp only [RangeKnown, littleEndianToUint16_toNat, UInt16.lt_iff_toNat_lt, tailed, endBelow,
    endAbove, Nat.reduceAdd] at h ⊢
  rcases hshort with hlen | hlen | hlen | hlen | hlen <;> rw [hlen] at h ⊢ <;> simp at h ⊢ <;> omega

/-- The machine on which the outcomes are told apart. -/
theorem smallMachine_readsBody (resource : List UInt8) (ring : Option Ring) :
    ReadsBody (smallMachine resource ring) where
  checkpointDecodeSilent b b' n h := by
    by_cases hn : 10 ≤ n.toNat
    · change decide (10 ≤ n.toNat ∧ b' 9 ≠ 0) = decide (10 ≤ n.toNat ∧ b 9 ≠ 0)
      rw [h 9 (by omega)]
    · exact decide_eq_decide.mpr (iff_of_false (fun h => hn h.1) fun h => hn h.1)
  keymatrixSet _ _ _ _ _ := rfl
  keymatrixTap _ _ _ _ _ := rfl
  daDecode _ _ _ _ := rfl
  videoRecord _ _ _ _ _ := rfl

theorem memGet_outcome (hlen : len c < 5) (b : Memory) : processMemGet M (withBody c b) s =
      fails c (if littleEndianToUint16 b 3 < littleEndianToUint16 b 1 then .invalidParameter
        else .cmdInvalidLength) s := by
  unfold processMemGet
  dsimp only
  by_cases hrange : littleEndianToUint16 b 3 < littleEndianToUint16 b 1
  · rw [if_pos hrange, if_pos hrange]
    rfl
  · rw [if_neg hrange, if_neg hrange]
    exact if_pos (show len c < 8 by omega)

theorem memSet_outcome (hlen : len c < 5) (b : Memory) : processMemSet M (withBody c b) s =
      fails c (if littleEndianToUint16 b 3 < littleEndianToUint16 b 1 then .invalidParameter
        else .cmdInvalidLength) s := by
  unfold processMemSet
  dsimp only
  by_cases hrange : littleEndianToUint16 b 3 < littleEndianToUint16 b 1
  · rw [if_pos hrange, if_pos hrange]
    rfl
  · rw [if_neg hrange, if_neg hrange]
    exact if_pos (by change len c < _; omega)

theorem fails_injective {e e' : BinaryError} (h : fails c e s = fails c e' s) : e = e' :=
  congrArg Response.errorcode (List.head_eq_of_cons_eq (congrArg Prod.snd h))

/-- `mem_get` and `mem_set` compare what is behind the body. -/
theorem range_needed (hdiff : ∀ b, len c < 5 → o b = fails c
      (if littleEndianToUint16 b 3 < littleEndianToUint16 b 1 then .invalidParameter
        else .cmdInvalidLength) s)
    (hsame : ∀ f g, o (tailed c f) = o (tailed c g)) : RangeKnown c := by
  by_contra h
  have hlen : len c < 5 := Nat.lt_of_not_le (mt .inl h)
  obtain ⟨hbelow, habove⟩ := range_differs h
  have houtcome := hsame endBelow endAbove
  rw [hdiff _ hlen, hdiff _ hlen] at houtcome
  rw [if_pos hbelow, if_neg habove] at houtcome
  exact nomatch fails_injective houtcome

end

section
variable {c : BinaryCommand} {p : Memory} {resource : List UInt8} {ring : Option Ring}
  {log : List (UInt8 × UInt16)} {memspace : Memspace} {n cursor : Nat}

/-- The registers that are set are kept in the log. -/
theorem registersLoop_log : ∃ more, (registersLoop (smallMachine resource ring) c memspace n cursor
    log).1 = log ++ more := by
  induction n generalizing cursor log with
  | zero => exact ⟨[], (List.append_nil log).symm⟩
  | succ n ih =>
    rw [registersLoop]
    split
    · exact ⟨[], (List.append_nil log).symm⟩
    · split
      · exact ⟨[], (List.append_nil log).symm⟩
      · obtain ⟨more, hmore⟩ := @ih
          (log ++ [(c.body (cursor + 1), littleEndianToUint16 c.body (cursor + 2))])
          (cursor + ((c.body cursor).toNat + 1))
        exact ⟨_, hmore.trans (List.append_assoc log _ more)⟩

/-- Items of three bytes are all accepted. -/
theorem registersLoop_all (h : ∀ i, cursor ≤ i → c.body i = 3) :
    (registersLoop (smallMachine resource ring) c memspace n cursor log).2 = none := by
  induction n generalizing cursor log with
  | zero => rfl
  | succ n ih =>
    rw [registersLoop]
    rw [h cursor (Nat.le_refl _), if_neg (by decide)]
    exact (congrArg Prod.snd (if_neg nofun)).trans (ih fun i hi => h i (Nat.le_of_add_right_le hi))

theorem registersLoop_item (h : 3 ≤ c.body cursor) :
    registersLoop (smallMachine resource ring) c memspace (n + 1) cursor log =
      registersLoop (smallMachine resource ring) c memspace n
        (cursor + ((c.body cursor).toNat + 1))
        (log ++ [(c.body (cursor + 1), littleEndianToUint16 c.body (cursor + 2))]) := by
  rw [registersLoop]
  rw [if_neg (UInt8.not_lt.mpr h)]
  exact if_neg nofun

theorem registersLoop_stop (h : c.body cursor < 3) :
    registersLoop (smallMachine resource ring) c memspace (n + 1) cursor log =
      (log, some .cmdInvalidLength) := if_pos h

/-- Zeros and threes behind the body are told apart. -/
theorem registersLoop_differs (h : ¬ ItemsKnown c n cursor) :
    registersLoop (smallMachine resource ring) (withBody c (tailed c fun _ => 0)) memspace n cursor
        log ≠
      registersLoop (smallMachine resource ring) (withBody c (tailed c fun _ => 3)) memspace n cursor
        log := by
  induction n generalizing cursor log with
  | zero => exact absurd trivial h
  | succ n ih =>
    by_cases hin : cursor < len c
    · have hitem : ¬ c.body cursor < 3 := fun hlt => h ⟨hin, .inl hlt⟩
      have hbody : ∀ f : Memory, tailed c f cursor = c.body cursor := fun f => tailed_in hin
      have hge : ∀ f : Memory, 3 ≤ tailed c f cursor := fun f => by
        rw [hbody]
        exact UInt8.not_lt.mp hitem
      rw [registersLoop_item (hge _), registersLoop_item (hge _)]
      dsimp only
      rw [hbody, hbody]
      by_cases hfits : cursor + 4 ≤ len c
      · -- both tails give the same item
        have hval : ∀ f : Memory, littleEndianToUint16 (tailed c f) (cursor + 2) =
            littleEndianToUint16 c.body (cursor + 2) := fun f =>
          littleEndianToUint16_congr (fun i hi => tailed_in hi) (by omega)
        rw [tailed_in (by omega), tailed_in (by omega), hval, hval]
        exact ih fun hrest => h ⟨hin, .inr ⟨hfits, hrest⟩⟩
      · -- the values differ, and the log keeps them
        intro heq
        obtain ⟨more, hmore⟩ := @registersLoop_log (withBody c (tailed c fun _ => 0)) resource ring
          (log ++ [(tailed c (fun _ => 0) (cursor + 1),
            littleEndianToUint16 (tailed c fun _ => 0) (cursor + 2))]) memspace n
          (cursor + ((c.body cursor).toNat + 1))
        obtain ⟨more', hmore'⟩ := @registersLoop_log (withBody c (tailed c fun _ => 3)) resource ring
          (log ++ [(tailed c (fun _ => 3) (cursor + 1),
            littleEndianToUint16 (tailed c fun _ => 3) (cursor + 2))]) memspace n
          (cursor + ((c.body cursor).toNat + 1))
        have hlogs := hmore.symm.trans ((congrArg Prod.fst heq).trans hmore')
        rw [List.append_assoc, List.append_assoc] at hlogs
        have hval := (Prod.mk.inj (List.head_eq_of_cons_eq (List.append_cancel_left hlogs))).2
        have hhigh := congrArg UInt16.toNat hval
        have hout : len c ≤ cursor + 2 + 1 := by omega
        rw [littleEndianToUint16_toNat, littleEndianToUint16_toNat, tailed_out hout, tailed_out hout] at hhigh
        have hlow := (tailed c (fun _ => 0) (cursor + 2)).toNat_lt
        have hlow' := (tailed c (fun _ => 3) (cursor + 2)).toNat_lt
        change _ + 256 * 0 = _ + 256 * 3 at hhigh
        omega
    · -- the item itself is behind the body
      intro heq
      have hall := @registersLoop_all (withBody c (tailed c fun _ => 3)) resource ring log memspace
        (n + 1) cursor fun i hi => (tailed_out (by omega) : tailed c (fun _ => 3) i = 3)
      have hzero : tailed c (fun _ => 0) cursor < 3 := by
        rw [tailed_out (Nat.le_of_not_lt hin)]
        decide
      rw [← heq, registersLoop_stop hzero] at hall
      exact nomatch hall

/-- The answer of `registers_set` to the end of its loop. -/
def registersOutcome {σ : Type} (M : Machine σ) (c : BinaryCommand) (memspace : Memspace) :
    σ × Option BinaryError → σ × List Response
  | (s, some e) => fails c e s
  | (s, none) => (s, [registerInfo M s c.requestId memspace])

theorem registersOutcome_injective {σ : Type} {M : Machine σ} {r r' : σ × Option BinaryError}
    (h : registersOutcome M c memspace r = registersOutcome M c memspace r') : r = r' := by
  obtain ⟨s, _ | e⟩ := r <;> obtain ⟨s', _ | e'⟩ := r'
  · exact congrArg (·, none) (congrArg Prod.fst h)
  · exact nomatch congrArg Response.type (List.head_eq_of_cons_eq (congrArg Prod.snd h))
  · exact nomatch congrArg Response.type (List.head_eq_of_cons_eq (congrArg Prod.snd h))
  · have hs : s = s' := congrArg Prod.fst h
    subst hs
    rw [fails_injective h]

/-- `registers_set` goes on behind the body. -/
theorem items_needed (hsame : ∀ f g : Memory,
    processRegistersSet (smallMachine resource ring) (withBody c (tailed c f)) log =
      processRegistersSet (smallMachine resource ring) (withBody c (tailed c g)) log) :
    RegistersKnown c := by
  by_contra h
  obtain ⟨hlen, h⟩ := not_or.mp h
  obtain ⟨hspace, hitems⟩ := not_or.mp h
  have houtcome : ∀ f : Memory,
      processRegistersSet (smallMachine resource ring) (withBody c (tailed c f)) log =
        registersOutcome (smallMachine resource ring) c (getRequestedMemspace (c.body 0))
          (registersLoop (smallMachine resource ring) (withBody c (tailed c f))
            (getRequestedMemspace (c.body 0)) (littleEndianToUint16 c.body 1).toNat 3 log) :=
    fun f => by
    have hcount : littleEndianToUint16 (tailed c f) 1 = littleEndianToUint16 c.body 1 :=
      littleEndianToUint16_congr (fun i hi => tailed_in hi) (by omega)
    unfold processRegistersSet
    dsimp only
    rw [hcount, tailed_in (i := 0) (by omega)]
    refine (if_neg hlen).trans ((if_neg hspace).trans ?_)
    rfl
  have heq := hsame (fun _ => 0) (fun _ => 3)
  rw [houtcome, houtcome] at heq
  exact registersLoop_differs hitems (registersOutcome_injective heq)

/-! ### Names -/

theorem cString_length_le {m : Memory} {off i : Nat} (hi : off ≤ i) (hzero : m i = 0) (n : Nat) :
    (cString m off n).length ≤ i - off := by
  induction n generalizing off with
  | zero => exact Nat.zero_le _
  | succ n ih =>
    rw [cString]
    split
    · exact Nat.zero_le _
    · next hne =>
      have hlt : off < i := Nat.lt_of_le_of_ne hi fun heq => hne (heq ▸ hzero)
      have hrest : (cString m (off + 1) n).length ≤ i - (off + 1) := ih hlt
      rw [List.length_cons]
      omega

theorem le_cString_length {m : Memory} {off k n : Nat} (hk : k ≤ n)
    (h : ∀ i, off ≤ i → i < off + k → m i ≠ 0) : k ≤ (cString m off n).length := by
  induction k generalizing off n with
  | zero => exact Nat.zero_le _
  | succ k ih =>
    obtain ⟨n, rfl⟩ : ∃ n', n = n' + 1 := ⟨n - 1, by omega⟩
    rw [cString, if_neg (h off (Nat.le_refl _) (by omega)), List.length_cons]
    exact Nat.succ_le_succ (ih (by omega) fun i hi hlt => h i (by omega) (by omega))

/-- The name that `resource_get` reads with `f` behind the body. -/
def nameWith (c : BinaryCommand) (f : Memory) : List UInt8 :=
  stringField (tailed c f) 1 (tailed c f 0).toNat

/-- Zeros end the name behind the body, and threes do not. -/
theorem name_differs (h : ¬ NameKnown c) : nameWith c (fun _ => 0) ≠ nameWith c fun _ => 3 := by
  have hshort : (nameWith c fun _ => 0).length ≤ len c - 1 := by
    by_cases hlen : 1 ≤ len c
    · by_cases hend : len c < 1 + (c.body 0).toNat
      · refine cString_length_le hlen ?_ _
        rw [tailed_in hlen, terminate_below hend]
        exact tailed_out (Nat.le_refl _)
      · exact absurd ⟨hlen, .inr (.inl (Nat.le_of_not_lt hend))⟩ h
    · have hzero : tailed c (fun _ => 0) 0 = 0 := tailed_out (by omega)
      rw [nameWith, hzero]
      exact Nat.le_trans (cString_length_le (Nat.le_refl 1) (Function.update_self _ _ _) _)
        (Nat.zero_le _)
  have hlong : len c ≤ (nameWith c fun _ => 3).length ∧ 0 < (nameWith c fun _ => 3).length := by
    have hnonzero : ∀ i, 1 ≤ i → i < 1 + (tailed c (fun _ => 3) 0).toNat →
        terminate (tailed c fun _ => 3) 1 (tailed c (fun _ => 3) 0).toNat i ≠ 0 := fun i hi hn => by
      rw [terminate_below hn]
      by_cases hin : i < len c
      · rw [tailed_in hin]
        exact fun hzero => h ⟨by omega, .inr (.inr ⟨i, hi, hin, hzero⟩)⟩
      · rw [tailed_out (Nat.le_of_not_lt hin)]
        decide
    have hname := le_cString_length (Nat.le_succ _) hnonzero
    have hlen : len c ≤ (tailed c (fun _ => 3) 0).toNat ∧ 0 < (tailed c (fun _ => 3) 0).toNat := by
      by_cases hlen : 1 ≤ len c
      · rw [tailed_in hlen]
        have hpos : (c.body 0).toNat ≠ 0 := fun hzero =>
          h ⟨hlen, .inl (UInt8.toNat_inj.mp hzero)⟩
        have hend : ¬ 1 + (c.body 0).toNat ≤ len c := fun hend => h ⟨hlen, .inr (.inl hend)⟩
        omega
      · rw [tailed_out (by omega)]
        exact ⟨by omega, by decide⟩
    exact ⟨Nat.le_trans hlen.1 hname, Nat.lt_of_lt_of_le hlen.2 hname⟩
  intro heq
  rw [← heq] at hlong
  omega

/-- The last response tells whether the name is the one of the resource. -/
theorem resourceGet_last (f : Memory) :
    (processResourceGet (smallMachine resource ring) (withBody c (tailed c f)) log).2.getLast? =
      some (if nameWith c f = resource then
        ⟨6, .resourceGet, .ok, c.requestId, some [0x01, 4, 0, 0, 0, 0]⟩
      else monitorBinaryError .objectMissing c.requestId) := by
  have hvalue : resourceValue (smallMachine resource ring) (withBody c (tailed c f)) log
      (nameWith c f) = (log, [if nameWith c f = resource then
        ⟨6, .resourceGet, .ok, c.requestId, some [0x01, 4, 0, 0, 0, 0]⟩
      else monitorBinaryError .objectMissing c.requestId]) := by
    unfold resourceValue
    by_cases hname : nameWith c f = resource
    · have htype : (smallMachine resource ring).queryType log (nameWith c f) = .integer :=
        if_pos hname
      rw [htype, if_pos hname]
      rfl
    · have htype : (smallMachine resource ring).queryType log (nameWith c f) = .unknown :=
        if_neg hname
      rw [htype, if_neg hname]
      rfl
  unfold processResourceGet
  dsimp only
  rw [show stringField (tailed c f) 1 (tailed c f 0).toNat = nameWith c f from rfl]
  split
  · rw [fails]
    dsimp only
    rw [hvalue]
    exact List.getLast?_concat
  · rw [hvalue]
    exact List.getLast?_concat

/-- `resource_get` reads its name behind the body. -/
theorem name_needed (hsame : ∀ f g : Memory,
    processResourceGet (smallMachine (nameWith c fun _ => 0) ring) (withBody c (tailed c f)) log =
      processResourceGet (smallMachine (nameWith c fun _ => 0) ring) (withBody c (tailed c g)) log) :
    NameKnown c := by
  by_contra h
  have hlast := congrArg (fun o : List (UInt8 × UInt16) × List Response => o.2.getLast?)
    (hsame (fun _ => 0) fun _ => 3)
  rw [resourceGet_last, resourceGet_last, if_pos rfl, if_neg (Ne.symm (name_differs h))] at hlast
  exact nomatch congrArg Response.type (Option.some.inj hlast)

/-- A command means the same whatever is left behind its body exactly when it is told by its own
bytes. -/
theorem ownBytes_iff : (∀ (σ : Type) (M : Machine σ) (s : σ), ReadsBody M → Same M p s) ↔ OwnBytes p := by
  refine ⟨fun h hp => ?_, fun hown σ M s hM => ownBytes_same hM hown⟩
  refine ⟨fun ht => ?_, fun ht => ?_, fun ht => ?_⟩
  · have hsame := h _ (smallMachine [] none) [] (smallMachine_readsBody _ _)
    rcases ht with ht | ht
    · exact range_needed (fun b hlen => memGet_outcome hlen b) fun f g =>
        Option.some.inj (same_tailed 0 hsame hp ht f g)
    · exact range_needed (fun b hlen => memSet_outcome hlen b) fun f g =>
        Option.some.inj (same_tailed 0 hsame hp ht f g)
  · have hsame := h _ (smallMachine [] none) [] (smallMachine_readsBody _ _)
    exact items_needed fun f g => Option.some.inj (same_tailed 0 hsame hp ht f g)
  · have hsame := h _ (smallMachine (nameWith (readCommand p) fun _ => 0) none) []
      (smallMachine_readsBody _ _)
    exact name_needed fun f g => Option.some.inj (same_tailed 0 hsame hp ht f g)

end

/-- The first item is said to be nine bytes long, so that the second one is behind the body: a value
that an earlier command has left there is put into a register. -/
theorem leftovers_obeyed :
    ¬ Same (smallMachine [] none) (commandBytes 1 0x32 [0, 2, 0, 9, 0, 0, 0, 0, 0, 0, 0]) [] := by
  intro h
  have hsame := h (atStream ([ascStx, 0x02] ++ writeUint32 11 ++ writeUint32 1 ++ [0x32] ++
    [0, 2, 0, 9, 0, 0, 0, 0, 0, 0, 0] ++ [0, 0, 3, 0, 0x34, 0x12])) (by decide) 0
  exact absurd hsame (by decide)

end Vice.L5.BinaryOwnBytes

import Vice.L4Machine.TapRecording

/-!
# The bytes of a block

As long as no data cell is damaged every frame is one round of the loop: a byte is stored, an error
is noted in the first copy and looked up in the second (`runFrames`).

Results:
* `readData_frames`, `readData_refused`, `readData_lost`: the loop over the frames of a copy.
-/
namespace Vice.L4.TapFrames
open Vice.L4.TapBlock Vice.L4.TapRecording

variable {r : PulseRanges} {c16 : Bool} {f : Frame r} {fs : List (Frame r)} {s s' : Block}
  {count ecount ecount' n k : Nat} {tape : List Nat} {e : BlockRead}

/-! ## One frame -/

/-- A byte that was not read; mirrors src/tape/tap.c:677-700 -/
def errorStep (s : Block) (count ecount : Nat) : Except BlockRead (Block × Nat) :=
  if s.pass = 1 then
    if s.errorCount < maxErrors then .ok (s.addError count, ecount) else .error .tooManyErrors
  else if s.errorCount < 0 ∨
      s.errorBuf (skipErrors s count s.errorCount.toNat ecount) = count then .error .doubleError
  else .ok (s, skipErrors s count s.errorCount.toNat ecount)

def frameStep (f : Frame r) (s : Block) (count ecount : Nat) : Except BlockRead (Block × Nat) :=
  match f.read with
  | some b => .ok ({ s with buffer := s.buffer.set count b }, ecount)
  | none => errorStep s count ecount

def runFrames : List (Frame r) → Nat → Block → Nat → Except BlockRead (Block × Nat)
  | [], _, s, ecount => .ok (s, ecount)
  | f :: fs, count, s, ecount =>
    match frameStep f s count ecount with
    | .error e => .error e
    | .ok (s', ecount') => runFrames fs (count + 1) s' ecount'

theorem errorStep_size (h : errorStep s count ecount = .ok (s', ecount')) : s'.size = s.size := by
  unfold errorStep at h
  split at h
  · split at h
    · rw [← (Prod.mk.inj (Except.ok.inj h)).1]
      rfl
    · cases h
  · split at h
    · cases h
    · rw [← (Prod.mk.inj (Except.ok.inj h)).1]

theorem errorStep_error {e : BlockRead} (h : errorStep s count ecount = .error e) : e ≠ .ok := by
  rintro rfl
  unfold errorStep at h
  split at h
  · split at h <;> cases h
  · split at h <;> cases h

theorem frameStep_size (h : frameStep f s count ecount = .ok (s', ecount')) : s'.size = s.size := by
  unfold frameStep at h
  split at h
  · rw [← (Prod.mk.inj (Except.ok.inj h)).1]
  · exact errorStep_size h

theorem readData_error (hread : (readByte r tape).1 = .error) : readData r c16 (n + 1) s count ecount tape =
      match errorStep s count ecount with
      | .error e => ((e, s), (readByte r tape).2)
      | .ok (s', ecount') => readData r c16 n s' (count + 1) ecount' (readByte r tape).2 := by
  obtain ⟨rest, hbyte⟩ : ∃ rest, readByte r tape = (.error, rest) := ⟨_, Prod.ext hread rfl⟩
  rw [readData, hbyte]
  simp only [errorStep]
  by_cases hpass : s.pass = 1
  · simp only [if_pos hpass]
    split <;> rfl
  · simp only [if_neg hpass]
    split <;> rfl

theorem readData_frame (hf : f.inStep = true) (hsize : count < s.size) :
    readData r c16 (n + 1) s count ecount (f.pulses ++ tape) =
      match frameStep f s count ecount with
      | .error e => ((e, s), tape)
      | .ok (s', ecount') =>
        if c16 && f.read.isSome && count + 1 == s.size then ((.ok, s'), tape)
        else readData r c16 n s' (count + 1) ecount' tape := by
  cases hread : f.read with
  | some b =>
    rw [readData, readByte_of_read hread]
    simp only [frameStep, hread, if_pos hsize, Option.isSome_some, Bool.and_true]
  | none =>
    have hbyte := readByte_of_inStep hread hf tape
    rw [readData_error (by rw [hbyte]), hbyte, frameStep, hread]
    simp only [Option.isSome_none, Bool.and_false, Bool.false_and, Bool.false_eq_true, if_false]

/-! ## All frames of a copy -/

theorem framePulses_cons (f : Frame r) (fs : List (Frame r)) (tape : List Nat) :
    framePulses (f :: fs) ++ tape = f.pulses ++ (framePulses fs ++ tape) := by
  rw [framePulses, List.flatMap_cons, List.append_assoc]
  rfl

/-- The end marker, or on the C16 the size, ends the block. -/
theorem readData_frames (c16 : Bool) (n : Nat) (tape : List Nat) {l q : Nat} (hl : r.long l = true) (hq : r.short q = true)
    (hin : ∀ f ∈ fs, f.inStep = true) (hsize : count + fs.length ≤ s.size)
    (hrun : runFrames fs count s ecount = .ok (s', ecount')) :
    ∃ rest, (rest = tape ∨ rest = l :: q :: tape) ∧
      readData r c16 (fs.length + 1 + n) s count ecount (framePulses fs ++ l :: q :: tape) =
        ((.ok, { s' with size := count + fs.length }), rest) := by
  induction fs generalizing count s ecount with
  | nil =>
    obtain ⟨rfl, rfl⟩ := Prod.mk.inj (Except.ok.inj hrun)
    refine ⟨tape, .inl rfl, ?_⟩
    rw [List.length_nil, Nat.zero_add, Nat.add_comm 1 n, readData]
    simp [framePulses, readByte, hl, hq]
  | cons f fs ih =>
    rw [runFrames] at hrun
    rw [List.length_cons] at hsize ⊢
    have hfuel : fs.length + 1 + 1 + n = (fs.length + 1 + n) + 1 := by omega
    rw [framePulses_cons, hfuel, readData_frame (hin f List.mem_cons_self) (by omega)]
    cases hstep : frameStep f s count ecount with
    | error e =>
      rw [hstep] at hrun
      cases hrun
    | ok x =>
      obtain ⟨s₁, ecount₁⟩ := x
      have hsize₁ := frameStep_size hstep
      rw [hstep] at hrun
      simp only at hrun ⊢
      split
      · -- the size is reached, so this was the last frame
        rename_i hlast
        have hcount : count + 1 = s.size := by
          rw [Bool.and_eq_true, beq_iff_eq] at hlast
          exact hlast.2
        obtain rfl : fs = [] := List.length_eq_zero_iff.1 (by omega)
        obtain ⟨rfl, rfl⟩ := Prod.mk.inj (Except.ok.inj hrun)
        refine ⟨l :: q :: tape, .inr rfl, ?_⟩
        have hs : { s₁ with size := count + 1 } = s₁ := by rw [hcount, ← hsize₁]
        rw [List.length_nil, Nat.zero_add, hs]
        rfl
      · obtain ⟨rest, hrest, hread⟩ := ih (fun g hg => hin g (List.mem_cons_of_mem f hg))
          (by rw [hsize₁]; omega) hrun
        refine ⟨rest, hrest, ?_⟩
        rw [hread, Nat.add_assoc count 1, Nat.add_comm 1]

theorem readData_refused (hin : ∀ f ∈ fs, f.inStep = true) (hsize : count + fs.length ≤ s.size)
    (hrun : runFrames fs count s ecount = .error e) :
    (readData r c16 (fs.length + 1 + n) s count ecount (framePulses fs ++ tape)).1.1 = e := by
  induction fs generalizing count s ecount with
  | nil => cases hrun
  | cons f fs ih =>
    rw [runFrames] at hrun
    rw [List.length_cons] at hsize ⊢
    have hfuel : fs.length + 1 + 1 + n = (fs.length + 1 + n) + 1 := by omega
    rw [framePulses_cons, hfuel, readData_frame (hin f List.mem_cons_self) (by omega)]
    cases hstep : frameStep f s count ecount with
    | error x =>
      rw [hstep] at hrun
      exact Except.error.inj hrun
    | ok x =>
      obtain ⟨s₁, ecount₁⟩ := x
      have hsize₁ := frameStep_size hstep
      rw [hstep] at hrun
      simp only at hrun ⊢
      split
      · rename_i hlast
        have hcount : count + 1 = s.size := by
          rw [Bool.and_eq_true, beq_iff_eq] at hlast
          exact hlast.2
        obtain rfl : fs = [] := List.length_eq_zero_iff.1 (by omega)
        cases hrun
      · exact ih (fun g hg => hin g (List.mem_cons_of_mem f hg)) (by rw [hsize₁]; omega) hrun

/-- Behind a frame with a damaged data cell the tape seems to end. -/
theorem readData_lost {pre post : List (Frame r)} (hpre : ∀ g ∈ pre, g.inStep = true)
    (hf : f.inStep = false) (hsize : count + pre.length < s.size) :
    (readData r c16 (pre.length + 2 + n) s count ecount
        (framePulses (pre ++ f :: post) ++ tape)).1.1 =
      match runFrames pre count s ecount with
      | .error e => e
      | .ok (s', ecount') =>
        match errorStep s' (count + pre.length) ecount' with
        | .error e => e
        | .ok _ => .tapeEnd := by
  induction pre generalizing count s ecount with
  | nil =>
    obtain ⟨rest, hread, hnext⟩ := readByte_of_lost hf (framePulses post ++ tape)
    rw [List.nil_append, framePulses_cons, List.length_nil, Nat.add_comm, ← Nat.add_assoc,
      readData_error (by rw [hread]), hread, runFrames]
    simp only
    cases errorStep s count ecount with
    | error e => rfl
    | ok x =>
      obtain ⟨rest', hend⟩ : ∃ rest', readByte r rest = (.tapeEnd, rest') := ⟨_, Prod.ext hnext rfl⟩
      simp only
      rw [readData, hend]
  | cons g pre ih =>
    rw [List.length_cons] at hsize ⊢
    have hfuel : pre.length + 1 + 2 + n = (pre.length + 2 + n) + 1 := by omega
    rw [List.cons_append, framePulses_cons, hfuel,
      readData_frame (hpre g List.mem_cons_self) (by omega), runFrames]
    cases hstep : frameStep g s count ecount with
    | error e => rfl
    | ok x =>
      obtain ⟨s₁, ecount₁⟩ := x
      have hsize₁ := frameStep_size hstep
      simp only
      rw [if_neg, ih (fun h hh => hpre h (List.mem_cons_of_mem g hh)) (by rw [hsize₁]; omega),
        Nat.add_assoc count 1, Nat.add_comm 1]
      rw [Bool.and_eq_true, beq_iff_eq, not_and]
      intro _ hlast
      omega

end Vice.L4.TapFrames

import Vice.L4Machine.TapFrames
import Mathlib.Data.List.Forall2

/-!
# The errors of the two copies

The first copy notes the places it could not read, the second compares its own with them. The
comparison looks at the first noted place that is not before its own; behind the last noted one it
looks at a word that was never written.

Results:
* `runFrames_first`: what is in the list and in the buffer after the first copy.
* `flagged_iff`: that is the word behind the list, if no place was unreadable in both copies.
-/
namespace Vice.L4.TapErrors
open Vice.L4.TapBlock Vice.L4.TapRecording Vice.L4.TapFrames

variable {r : PulseRanges} {f : Frame r} {fs first second : List (Frame r)} {s : Block}
  {buffer block : List UInt8} {c count ecount j k n : Nat}

/-! ## The places -/

/-- The places of the frames that are not read. -/
def unread : List (Frame r) → Nat → List Nat
  | [], _ => []
  | f :: fs, count => if f.read = none then count :: unread fs (count + 1) else unread fs (count + 1)

/-- The buffer after the frames that are read. -/
def writes : List (Frame r) → Nat → List UInt8 → List UInt8
  | [], _, buffer => buffer
  | f :: fs, count, buffer =>
    writes fs (count + 1) (match f.read with
      | some b => buffer.set count b
      | none => buffer)

/-- `error_buf` with places stored from `k` on. -/
def storeErrors (errorBuf : Nat → Int) (k : Nat) : List Nat → Nat → Int
  | [] => errorBuf
  | c :: places => storeErrors (fun i => if i = k then c else errorBuf i) (k + 1) places

theorem mem_unread : j ∈ unread fs count ↔ ∃ i f, fs[i]? = some f ∧ f.read = none ∧ j = count + i := by
  induction fs generalizing count with
  | nil => simp [unread]
  | cons g fs ih =>
    have hcases : (∃ i f, (g :: fs)[i]? = some f ∧ f.read = none ∧ j = count + i) ↔
        (g.read = none ∧ j = count) ∨ j ∈ unread fs (count + 1) := by
      rw [ih]
      constructor
      · rintro ⟨i, f, hf, hread, rfl⟩
        cases i with
        | zero =>
          rw [List.getElem?_cons_zero, Option.some.injEq] at hf
          exact .inl ⟨hf ▸ hread, rfl⟩
        | succ i => exact .inr ⟨i, f, hf, hread, by omega⟩
      · rintro (⟨hread, rfl⟩ | ⟨i, f, hf, hread, rfl⟩)
        · exact ⟨0, g, rfl, hread, rfl⟩
        · exact ⟨i + 1, f, hf, hread, by omega⟩
    rw [hcases, unread]
    split
    · rename_i hread
      rw [List.mem_cons]
      simp only [hread, true_and]
    · rename_i hread
      simp only [hread, false_and, false_or]

theorem storeErrors_below {errorBuf : Nat → Int} {places : List Nat} {i : Nat} (hi : i < k) :
    storeErrors errorBuf k places i = errorBuf i := by
  induction places generalizing errorBuf k with
  | nil => rfl
  | cons c places ih =>
    rw [storeErrors, ih (by omega)]
    exact if_neg (by omega)

theorem storeErrors_above {errorBuf : Nat → Int} {places : List Nat} {i : Nat}
    (hi : k + places.length ≤ i) : storeErrors errorBuf k places i = errorBuf i := by
  induction places generalizing errorBuf k with
  | nil => rfl
  | cons c places ih =>
    rw [List.length_cons] at hi
    rw [storeErrors, ih (by omega)]
    exact if_neg (by omega)

theorem storeErrors_at {errorBuf : Nat → Int} {places : List Nat} {i : Nat}
    (hi : i < places.length) : storeErrors errorBuf k places (k + i) = places[i] := by
  induction places generalizing errorBuf k i with
  | nil => cases hi
  | cons c places ih =>
    rw [storeErrors]
    cases i with
    | zero =>
      rw [Nat.add_zero]
      exact (storeErrors_below (by omega)).trans (if_pos rfl)
    | succ i =>
      rw [show k + (i + 1) = (k + 1) + i by omega, ih (Nat.lt_of_succ_lt_succ hi)]
      rfl

/-! ## The first copy -/

theorem runFrames_first (fs : List (Frame r)) (count ecount : Nat) (hpass : s.pass = 1) (hcount : s.errorCount = k)
    (hfew : k + (unread fs count).length ≤ maxErrors) :
    runFrames fs count s ecount = .ok
      ({ s with
        buffer := writes fs count s.buffer
        errorBuf := storeErrors s.errorBuf k (unread fs count)
        errorCount := (k + (unread fs count).length : Nat) }, ecount) := by
  induction fs generalizing count s k with
  | nil =>
    rw [runFrames, unread, List.length_nil, Nat.add_zero, ← hcount]
    rfl
  | cons f fs ih =>
    rw [runFrames, frameStep, writes, unread]
    cases hread : f.read with
    | some b =>
      rw [unread, hread, if_neg (Option.some_ne_none b)] at hfew
      simp only [reduceCtorEq, if_false]
      exact ih (count + 1) (s := { s with buffer := s.buffer.set count b }) hpass hcount hfew
    | none =>
      rw [unread, hread, if_pos rfl, List.length_cons] at hfew
      have hlt : s.errorCount < maxErrors := by
        rw [hcount]
        omega
      have hadd : (s.addError count).errorCount = (k + 1 : Nat) := by
        rw [Block.addError, hcount]
        rfl
      have hbuf : (s.addError count).errorBuf = fun i => if i = k then (count : Int) else s.errorBuf i := by
        funext i
        simp only [Block.addError, hcount, Int.natCast_inj]
      have hnext := ih (count + 1) (s := s.addError count) hpass hadd (by omega)
      have hstep : errorStep s count ecount = .ok (s.addError count, ecount) := by
        rw [errorStep, if_pos hpass, if_pos hlt]
      simp only [hstep, hnext, hbuf, if_true, List.length_cons, storeErrors]
      rw [Nat.add_assoc, Nat.add_comm 1]
      rfl

/-! ## The second copy -/

/-- The place meets the word that is looked at: the first in the list that is not before it, or the
one behind the list. -/
def Flagged (s : Block) (j : Nat) : Prop :=
  ∃ e : Nat, (∀ i < e, (i : Int) < s.errorCount ∧ s.errorBuf i < j) ∧
    ((e : Int) < s.errorCount → ¬s.errorBuf e < j) ∧ s.errorBuf e = j

theorem skipErrors_spec (hn : s.errorCount ≤ n + ecount)
    (hinv : ∀ i < ecount, (i : Int) < s.errorCount ∧ s.errorBuf i < count) :
    (∀ i < skipErrors s count n ecount, (i : Int) < s.errorCount ∧ s.errorBuf i < count) ∧
      (((skipErrors s count n ecount : Nat) : Int) < s.errorCount →
        ¬s.errorBuf (skipErrors s count n ecount) < count) := by
  induction n generalizing ecount with
  | zero =>
    rw [skipErrors]
    exact ⟨hinv, fun hlt => absurd hlt (by omega)⟩
  | succ n ih =>
    rw [skipErrors]
    split
    · rename_i hskip
      refine ih (by omega) fun i hi => ?_
      rcases Nat.lt_succ_iff_lt_or_eq.1 hi with hlt | rfl
      · exact hinv i hlt
      · exact hskip
    · rename_i hstop
      exact ⟨hinv, fun hlt hbefore => hstop ⟨hlt, hbefore⟩⟩

theorem flagged_of_skip (hcount : 0 ≤ s.errorCount)
    (hinv : ∀ i < ecount, (i : Int) < s.errorCount ∧ s.errorBuf i < count) :
    Flagged s count ↔ s.errorBuf (skipErrors s count s.errorCount.toNat ecount) = count := by
  obtain ⟨hbefore, hstop⟩ := skipErrors_spec (n := s.errorCount.toNat) (by omega) hinv
  constructor
  · rintro ⟨e, he, hestop, heq⟩
    have hsame : skipErrors s count s.errorCount.toNat ecount = e := by
      rcases Nat.lt_trichotomy (skipErrors s count s.errorCount.toNat ecount) e with hlt | heq | hgt
      · exact absurd (he _ hlt).2 (hstop (he _ hlt).1)
      · exact heq
      · exact absurd (hbefore e hgt).2 (hestop (hbefore e hgt).1)
    rw [hsame, heq]
  · intro heq
    exact ⟨_, hbefore, hstop, heq⟩

theorem errorStep_second (hpass : s.pass = 2) (hcount : 0 ≤ s.errorCount)
    (hinv : ∀ i < ecount, (i : Int) < s.errorCount ∧ s.errorBuf i < count) :
    (Flagged s count ∧ errorStep s count ecount = .error .doubleError) ∨
      ¬Flagged s count ∧ ∃ ecount', errorStep s count ecount = .ok (s, ecount') ∧
        ∀ i < ecount', (i : Int) < s.errorCount ∧ s.errorBuf i < (count + 1 : Nat) := by
  have hsecond : s.pass ≠ 1 := by omega
  obtain ⟨hbefore, -⟩ := skipErrors_spec (n := s.errorCount.toNat) (by omega) hinv
  rw [flagged_of_skip hcount hinv, errorStep, if_neg hsecond]
  by_cases heq : s.errorBuf (skipErrors s count s.errorCount.toNat ecount) = count
  · exact .inl ⟨heq, if_pos (.inr heq)⟩
  · refine .inr ⟨heq, _, if_neg ?_, fun i hi => ⟨(hbefore i hi).1, ?_⟩⟩
    · rintro (hneg | h)
      · omega
      · exact heq h
    · have hlt := (hbefore i hi).2
      omega

theorem runFrames_second (ecount : Nat) (hpass : s.pass = 2) (hcount : 0 ≤ s.errorCount)
    (hinv : ∀ i < ecount, (i : Int) < s.errorCount ∧ s.errorBuf i < count)
    (hfree : ∀ j ∈ unread fs count, ¬Flagged s j) :
    ∃ ecount', runFrames fs count s ecount =
      .ok ({ s with buffer := writes fs count s.buffer }, ecount') := by
  induction fs generalizing count s ecount with
  | nil => exact ⟨ecount, rfl⟩
  | cons f fs ih =>
    rw [runFrames, frameStep, writes]
    rw [unread] at hfree
    cases hread : f.read with
    | some b =>
      rw [hread, if_neg (Option.some_ne_none b)] at hfree
      refine ih ecount (s := { s with buffer := s.buffer.set count b }) hpass hcount (fun i hi => ?_) hfree
      have hlt := (hinv i hi).2
      exact ⟨(hinv i hi).1, show s.errorBuf i < _ by omega⟩
    | none =>
      rw [hread, if_pos rfl] at hfree
      rcases errorStep_second hpass hcount hinv with ⟨hflag, -⟩ | ⟨-, ecount', hstep, hinv'⟩
      · exact absurd hflag (hfree count List.mem_cons_self)
      · simp only [hstep]
        exact ih ecount' hpass hcount hinv' fun j hj => hfree j (List.mem_cons_of_mem count hj)

theorem runFrames_refused (ecount : Nat) (hpass : s.pass = 2) (hcount : 0 ≤ s.errorCount)
    (hinv : ∀ i < ecount, (i : Int) < s.errorCount ∧ s.errorBuf i < count)
    (hflag : ∃ j ∈ unread fs count, Flagged s j) :
    runFrames fs count s ecount = .error .doubleError := by
  induction fs generalizing count s ecount with
  | nil =>
    obtain ⟨j, hj, -⟩ := hflag
    cases hj
  | cons f fs ih =>
    rw [runFrames, frameStep]
    rw [unread] at hflag
    cases hread : f.read with
    | some b =>
      rw [hread, if_neg (Option.some_ne_none b)] at hflag
      refine ih ecount (s := { s with buffer := s.buffer.set count b }) hpass hcount (fun i hi => ?_) hflag
      have hlt := (hinv i hi).2
      exact ⟨(hinv i hi).1, show s.errorBuf i < _ by omega⟩
    | none =>
      rw [hread, if_pos rfl] at hflag
      rcases errorStep_second hpass hcount hinv with ⟨-, hstep⟩ | ⟨hfree, ecount', hstep, hinv'⟩
      · simp only [hstep]
      · simp only [hstep]
        refine ih ecount' hpass hcount hinv' ?_
        obtain ⟨j, hj, hj'⟩ := hflag
        rcases List.mem_cons.1 hj with rfl | hj
        · exact absurd hj' hfree
        · exact ⟨j, hj, hj'⟩

/-- Only a place behind all of the first copy's meets a word that is not in the list. -/
theorem flagged_iff {places : List Nat} {errorBuf : Nat → Int} (hcount : s.errorCount = places.length)
    (hbuf : s.errorBuf = storeErrors errorBuf 0 places) (hj : j ∉ places) :
    Flagged s j ↔ (∀ x ∈ places, x < j) ∧ errorBuf places.length = j := by
  have hat : ∀ i (hi : i < places.length), s.errorBuf i = places[i] := by
    intro i hi
    rw [hbuf, ← storeErrors_at (k := 0) hi, Nat.zero_add]
  have hend : s.errorBuf places.length = errorBuf places.length := by
    rw [hbuf]
    exact storeErrors_above (by omega)
  constructor
  · rintro ⟨e, hbefore, -, heq⟩
    have hle : places.length ≤ e := by
      by_contra hlt
      rw [hat e (by omega)] at heq
      exact hj (Int.natCast_inj.1 heq ▸ List.getElem_mem _)
    have hge : e ≤ places.length := by
      by_contra hgt
      have hlast := (hbefore places.length (by omega)).1
      omega
    obtain rfl : e = places.length := by omega
    refine ⟨fun x hx => ?_, hend ▸ heq⟩
    obtain ⟨i, hi, rfl⟩ := List.getElem_of_mem hx
    have hlt := (hbefore i hi).2
    rw [hat i hi] at hlt
    omega
  · rintro ⟨hall, heq⟩
    refine ⟨places.length, fun i hi => ⟨by omega, ?_⟩, fun hlt => absurd hlt (by omega),
      hend.trans heq⟩
    rw [hat i hi]
    have hlt := hall _ (List.getElem_mem hi)
    omega

/-! ## The buffer -/

theorem length_writes : (writes fs count buffer).length = buffer.length := by
  induction fs generalizing count buffer with
  | nil => rfl
  | cons f fs ih =>
    rw [writes, ih]
    cases f.read with
    | none => rfl
    | some b => exact List.length_set

theorem writes_below {i : Nat} (hi : i < count) : (writes fs count buffer)[i]? = buffer[i]? := by
  induction fs generalizing count buffer with
  | nil => rfl
  | cons f fs ih =>
    rw [writes, ih (by omega)]
    cases f.read with
    | none => rfl
    | some b => exact List.getElem?_set_ne (by omega)

/-- A place has the byte of its frame, or what it had before. -/
theorem writes_at (count : Nat) (buffer : List UInt8) {i : Nat} (hi : fs[i]? = some f) (hlen : count + i < buffer.length) :
    (writes fs count buffer)[count + i]? =
      match f.read with
      | some b => some b
      | none => buffer[count + i]? := by
  induction fs generalizing count buffer i with
  | nil => cases hi
  | cons g fs ih =>
    rw [writes]
    cases i with
    | zero =>
      rw [List.getElem?_cons_zero, Option.some.injEq] at hi
      simp only [Nat.add_zero] at hlen ⊢
      rw [writes_below (by omega), hi]
      cases hread : f.read with
      | none => rfl
      | some b => exact List.getElem?_set_self hlen
    | succ i =>
      have hshift : count + (i + 1) = (count + 1) + i := by omega
      have hlen' : (count + 1) + i < (match g.read with
          | some b => buffer.set count b
          | none => buffer).length := by
        cases g.read with
        | none => exact hshift ▸ hlen
        | some b =>
          simp only [List.length_set]
          omega
      rw [hshift, ih _ _ hi hlen']
      cases f.read with
      | some b => rfl
      | none =>
        cases g.read with
        | none => rfl
        | some b => exact List.getElem?_set_ne (by omega)

/-- The frames are those of the block, as far as they are read. -/
def Copies (fs : List (Frame r)) (block : List UInt8) : Prop :=
  List.Forall₂ (fun (f : Frame r) b => f.read = some b ∨ f.read = none) fs block

theorem Copies.get (h : Copies fs block) {i : Nat} {b : UInt8} (hb : block[i]? = some b) :
    ∃ f, fs[i]? = some f ∧ (f.read = some b ∨ f.read = none) := by
  induction h generalizing i with
  | nil => cases hb
  | cons hfb _ ih =>
    cases i with
    | zero =>
      rw [List.getElem?_cons_zero, Option.some.injEq] at hb
      exact ⟨_, rfl, hb ▸ hfb⟩
    | succ i => exact ih hb

theorem take_writes_first (h : Copies first block) (hall : unread first 0 = [])
    (hlen : block.length ≤ buffer.length) :
    (writes first 0 buffer).take block.length = block := by
  refine List.ext_getElem? fun i => ?_
  rw [List.getElem?_take]
  split
  · rename_i hi
    obtain ⟨b, hb⟩ : ∃ b, block[i]? = some b := ⟨_, List.getElem?_eq_getElem hi⟩
    obtain ⟨f, hf, hread⟩ := h.get hb
    have hat := writes_at 0 buffer hf (by omega)
    rw [Nat.zero_add] at hat
    rcases hread with hread | hread
    · rw [hat, hread, hb]
    · have hmem : i ∈ unread first 0 := mem_unread.2 ⟨i, f, hf, hread, (Nat.zero_add i).symm⟩
      rw [hall] at hmem
      cases hmem
  · rename_i hi
    exact (List.getElem?_eq_none (by omega)).symm

theorem take_writes (h₁ : Copies first block) (h₂ : Copies second block)
    (honce : ∀ j ∈ unread first 0, j ∉ unread second 0) (hlen : block.length ≤ buffer.length) :
    (writes second 0 (writes first 0 buffer)).take block.length = block := by
  refine List.ext_getElem? fun i => ?_
  rw [List.getElem?_take]
  split
  · rename_i hi
    obtain ⟨b, hb⟩ : ∃ b, block[i]? = some b := ⟨_, List.getElem?_eq_getElem hi⟩
    obtain ⟨f, hf, hfread⟩ := h₁.get hb
    obtain ⟨g, hg, hgread⟩ := h₂.get hb
    have hat₁ := writes_at 0 buffer hf (by omega)
    have hat₂ := writes_at 0 (writes first 0 buffer) hg
      (by rw [length_writes]; omega)
    rw [Nat.zero_add] at hat₁ hat₂
    rw [hat₂, hb]
    rcases hgread with hgread | hgread
    · rw [hgread]
    · rw [hgread]
      simp only
      rw [hat₁]
      rcases hfread with hfread | hfread
      · rw [hfread]
      · exact absurd (mem_unread.2 ⟨i, g, hg, hgread, (Nat.zero_add i).symm⟩)
          (honce i (mem_unread.2 ⟨i, f, hf, hfread, (Nat.zero_add i).symm⟩))
  · rename_i hi
    exact (List.getElem?_eq_none (by omega)).symm

end Vice.L4.TapErrors

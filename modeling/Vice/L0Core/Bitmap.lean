import Mathlib.Algebra.Group.Nat.Defs
import Mathlib.Logic.Function.Basic
import Mathlib.Data.List.Count

/-!
# Counted bitmaps

A bitmap in a byte store, kept together with a byte that counts its bits. Bit `s` of
the bitmap at `base` is bit `s % 8` of byte `base + s / 8`.

Results:
* `getBit_setBit`, `getBit_clrBit`: an update changes one bit.
* `Entry.counted_take`, `Entry.counted_give`: taking a set bit or giving back a clear one
  with the count adjusted keeps the count right.
-/
namespace Vice.L0.Bitmap

abbrev Store := Nat → UInt8

def mask (s : Nat) : UInt8 := UInt8.ofNat (2 ^ (s % 8))

def getBit (bytes : Store) (base s : Nat) : Bool := bytes (base + s / 8) &&& mask s ≠ 0

def setBit (bytes : Store) (base s : Nat) : Store :=
  Function.update bytes (base + s / 8) (bytes (base + s / 8) ||| mask s)

def clrBit (bytes : Store) (base s : Nat) : Store :=
  Function.update bytes (base + s / 8) (bytes (base + s / 8) &&& ~~~mask s)

/-! ## Single bits -/

theorem mask_getLsbD (s : Nat) {i : Nat} (hi : i < 8) : (mask s).toBitVec.getLsbD i = decide (i = s % 8) := by
  have h : ∀ j < 8, ∀ i < 8, (UInt8.ofNat (2 ^ j)).toBitVec.getLsbD i = decide (i = j) := by
    decide
  exact h (s % 8) (Nat.mod_lt _ (by decide)) i hi

theorem byte_ne_zero_iff {x : UInt8} : x ≠ 0 ↔ ∃ i < 8, x.toBitVec.getLsbD i = true := by
  constructor
  · intro h
    by_contra hall
    refine h (UInt8.eq_of_toBitVec_eq (BitVec.eq_of_getLsbD_eq fun i hi => ?_))
    have := fun ht => hall ⟨i, hi, ht⟩
    simpa using this
  · rintro ⟨i, -, hi⟩ rfl
    simp at hi

theorem getBit_eq (bytes : Store) (base s : Nat) :
    getBit bytes base s = (bytes (base + s / 8)).toBitVec.getLsbD (s % 8) := by
  have hlt : s % 8 < 8 := Nat.mod_lt _ (by decide)
  rw [Bool.eq_iff_iff, getBit, decide_eq_true_iff, byte_ne_zero_iff]
  simp only [UInt8.toBitVec_and, BitVec.getLsbD_and, Bool.and_eq_true]
  constructor
  · rintro ⟨i, hi, hbit, hmask⟩
    rw [mask_getLsbD s hi, decide_eq_true_iff] at hmask
    exact hmask ▸ hbit
  · exact fun h => ⟨s % 8, hlt, h, by rw [mask_getLsbD s hlt, decide_eq_true rfl]⟩

/-- Equal place in the bitmap, equal bit. -/
theorem bit_ext {s t : Nat} (h1 : s / 8 = t / 8) (h2 : s % 8 = t % 8) : s = t := by omega

section
variable (bytes : Store) (base s t : Nat)

theorem getBit_setBit : getBit (setBit bytes base s) base t = (decide (t = s) || getBit bytes base t) := by
  have hlt : t % 8 < 8 := Nat.mod_lt _ (by decide)
  rw [getBit_eq, getBit_eq, setBit]
  by_cases hbyte : t / 8 = s / 8
  · rw [hbyte, Function.update_self, UInt8.toBitVec_or, BitVec.getLsbD_or, mask_getLsbD s hlt]
    have : decide (t % 8 = s % 8) = decide (t = s) := decide_eq_decide.mpr
      ⟨fun h => bit_ext hbyte h, fun h => h ▸ rfl⟩
    rw [this, Bool.or_comm]
  · rw [Function.update_of_ne (by omega)]
    have hts : t ≠ s := fun h => hbyte (h ▸ rfl)
    rw [decide_eq_false hts, Bool.false_or]

theorem getBit_clrBit : getBit (clrBit bytes base s) base t = (!decide (t = s) && getBit bytes base t) := by
  have hlt : t % 8 < 8 := Nat.mod_lt _ (by decide)
  rw [getBit_eq, getBit_eq, clrBit]
  by_cases hbyte : t / 8 = s / 8
  · rw [hbyte, Function.update_self, UInt8.toBitVec_and, UInt8.toBitVec_not, BitVec.getLsbD_and,
      BitVec.getLsbD_not, mask_getLsbD s hlt]
    have : decide (t % 8 = s % 8) = decide (t = s) := decide_eq_decide.mpr
      ⟨fun h => bit_ext hbyte h, fun h => h ▸ rfl⟩
    rw [this, decide_eq_true hlt, Bool.true_and, Bool.and_comm]
  · rw [Function.update_of_ne (by omega)]
    have hts : t ≠ s := fun h => hbyte (h ▸ rfl)
    rw [decide_eq_false hts, Bool.not_false, Bool.true_and]

end

theorem getBit_congr {bytes bytes' : Store} {base s : Nat} (h : bytes' (base + s / 8) = bytes (base + s / 8)) :
    getBit bytes' base s = getBit bytes base s := by
  unfold getBit
  rw [h]

/-! ## Entries -/

/-- A bitmap of `sectors` bits at `bits`; `count` is where their number is kept, if it is. -/
structure Entry where
  count : Option Nat
  bits : Nat
  sectors : Nat
  deriving DecidableEq, Repr

namespace Entry

/-- The bytes of the bitmap. -/
def InBits (e : Entry) (k : Nat) : Prop := e.bits ≤ k ∧ k < e.bits + (e.sectors + 7) / 8

/-- The bytes that belong to the entry. -/
def Has (e : Entry) (k : Nat) : Prop := e.count = some k ∨ e.InBits k

/-- The count is no part of the bitmap and can hold every number of bits. -/
structure Proper (e : Entry) : Prop where
  apart : ∀ c, e.count = some c → ¬ e.InBits c
  small : ∀ c, e.count = some c → e.sectors < 256

/-- The number of set bits. -/
def free (e : Entry) (bytes : Store) : Nat := (List.range e.sectors).countP (getBit bytes e.bits)

def Counted (e : Entry) (bytes : Store) : Prop :=
  ∀ c, e.count = some c → (bytes c).toNat = e.free bytes

/-- Adds to the count. -/
def addTo (e : Entry) (bytes : Store) (add : UInt8) : Store :=
  match e.count with
  | none => bytes
  | some c => Function.update bytes c (bytes c + add)

/-- Clears bit `s` and counts it off. -/
def take (e : Entry) (bytes : Store) (s : Nat) : Store := e.addTo (clrBit bytes e.bits s) (0 - 1)

/-- Sets bit `s` and counts it. -/
def give (e : Entry) (bytes : Store) (s : Nat) : Store := e.addTo (setBit bytes e.bits s) 1

/-- No byte belongs to both. -/
def Apart (e f : Entry) : Prop := ∀ k, e.Has k → ¬ f.Has k

variable {e f : Entry} {bytes bytes' : Store} {s t k : Nat}

theorem inBits_bit (h : s < e.sectors) : e.InBits (e.bits + s / 8) := by
  unfold InBits
  omega

theorem free_congr (h : ∀ k, e.InBits k → bytes' k = bytes k) : e.free bytes' = e.free bytes := by
  refine List.countP_congr fun s hs => ?_
  rw [getBit_congr (h _ (inBits_bit (List.mem_range.mp hs)))]

theorem counted_congr (h : ∀ k, e.Has k → bytes' k = bytes k) (hc : e.Counted bytes) : e.Counted bytes' := by
  intro c hcount
  rw [h _ (Or.inl hcount), free_congr (fun k hk => h k (Or.inr hk))]
  exact hc c hcount

theorem free_le : e.free bytes ≤ e.sectors := by
  have := @List.countP_le_length _ (getBit bytes e.bits) (List.range e.sectors)
  rwa [List.length_range] at this

theorem addTo_other {add : UInt8} (hk : e.count ≠ some k) : e.addTo bytes add k = bytes k := by
  unfold addTo
  cases hc : e.count with
  | none => rfl
  | some c =>
    have hkc : k ≠ c := fun h => hk (h ▸ hc)
    exact Function.update_of_ne hkc ..

theorem addTo_count {add : UInt8} (hk : e.count = some k) : e.addTo bytes add k = bytes k + add := by
  simp only [addTo, hk, Function.update_self]

theorem setBit_other {base : Nat} (h : k ≠ base + s / 8) : setBit bytes base s k = bytes k :=
  Function.update_of_ne h ..

theorem clrBit_other {base : Nat} (h : k ≠ base + s / 8) : clrBit bytes base s k = bytes k :=
  Function.update_of_ne h ..

theorem take_other (hs : s < e.sectors) (hk : ¬ e.Has k) : e.take bytes s k = bytes k := by
  rw [take, addTo_other fun h => hk (Or.inl h)]
  exact clrBit_other fun h => hk (Or.inr (h ▸ inBits_bit hs))

theorem give_other (hs : s < e.sectors) (hk : ¬ e.Has k) : e.give bytes s k = bytes k := by
  rw [give, addTo_other fun h => hk (Or.inl h)]
  exact setBit_other fun h => hk (Or.inr (h ▸ inBits_bit hs))

/-- The count is no byte of the bitmap. -/
theorem Proper.count_ne (he : e.Proper) (ht : t < e.sectors) : e.count ≠ some (e.bits + t / 8) :=
  fun h => he.apart _ h (inBits_bit ht)

theorem getBit_take (he : e.Proper) (ht : t < e.sectors) :
    getBit (e.take bytes s) e.bits t = (!decide (t = s) && getBit bytes e.bits t) := by
  rw [← getBit_clrBit]
  exact getBit_congr (addTo_other (he.count_ne ht))

theorem getBit_give (he : e.Proper) (ht : t < e.sectors) :
    getBit (e.give bytes s) e.bits t = (decide (t = s) || getBit bytes e.bits t) := by
  rw [← getBit_setBit]
  exact getBit_congr (addTo_other (he.count_ne ht))

/-- Counting a predicate that differs at one place. -/
theorem countP_flip {n : Nat} {p q : Nat → Bool} (hs : s < n) (hp : p s = true) (hq : q s = false)
    (h : ∀ i < n, i ≠ s → q i = p i) :
    (List.range n).countP q + 1 = (List.range n).countP p := by
  induction n with
  | zero => omega
  | succ n ih =>
    rw [List.range_succ, List.countP_append, List.countP_append, List.countP_singleton, List.countP_singleton]
    rcases Nat.lt_or_eq_of_le (Nat.lt_succ_iff.mp hs) with hlt | rfl
    · have := ih hlt (fun i hi => h i (Nat.lt_succ_of_lt hi))
      rw [h n (Nat.lt_succ_self n) (by omega)]
      omega
    · have : (List.range s).countP q = (List.range s).countP p :=
        List.countP_congr fun i hi => by
          have hi := List.mem_range.mp hi
          rw [h i (by omega) (by omega)]
      rw [hp, hq, this]
      simp

theorem free_take (he : e.Proper) (hs : s < e.sectors) (hbit : getBit bytes e.bits s = true) :
    e.free (e.take bytes s) + 1 = e.free bytes := by
  refine countP_flip hs hbit ?_ fun t ht hts => ?_
  · rw [getBit_take he hs, decide_eq_true rfl]; rfl
  · rw [getBit_take he ht, decide_eq_false hts]; rfl

theorem free_give (he : e.Proper) (hs : s < e.sectors) (hbit : getBit bytes e.bits s = false) :
    e.free bytes + 1 = e.free (e.give bytes s) := by
  refine countP_flip hs ?_ hbit fun t ht hts => ?_
  · rw [getBit_give he hs, decide_eq_true rfl]; rfl
  · rw [getBit_give he ht, decide_eq_false hts]; rfl

theorem counted_take (he : e.Proper) (hc : e.Counted bytes) (hs : s < e.sectors)
    (hbit : getBit bytes e.bits s = true) : e.Counted (e.take bytes s) := by
  intro c hcount
  have hfree := free_take he hs hbit
  have hcounted := hc c hcount
  have hlt := (bytes c).toNat_lt
  have hne : c ≠ e.bits + s / 8 := fun h => he.count_ne hs (h ▸ hcount)
  rw [take, addTo_count hcount, clrBit_other hne, UInt8.toNat_add,
    show ((0 : UInt8) - 1).toNat = 255 from rfl]
  have : (e.addTo (clrBit bytes e.bits s) (0 - 1)) = e.take bytes s := rfl
  rw [this]
  omega

theorem counted_give (he : e.Proper) (hc : e.Counted bytes) (hs : s < e.sectors)
    (hbit : getBit bytes e.bits s = false) : e.Counted (e.give bytes s) := by
  intro c hcount
  have hfree := free_give he hs hbit
  have hcounted := hc c hcount
  have hle := @free_le e (e.give bytes s)
  have hsmall := he.small c hcount
  have hne : c ≠ e.bits + s / 8 := fun h => he.count_ne hs (h ▸ hcount)
  have hcount' : e.give bytes s c = bytes c + 1 := by
    rw [give, addTo_count hcount, setBit_other hne]
  rw [hcount', UInt8.toNat_add, show (1 : UInt8).toNat = 1 from rfl]
  omega

end Entry

end Vice.L0.Bitmap

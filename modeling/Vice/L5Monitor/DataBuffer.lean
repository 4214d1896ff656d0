import Mathlib.Data.List.Infix
import Mathlib.Logic.Function.Basic

/-!
# The data buffer of the monitor (`monitor.c`)

The bytes that a command such as `fill` or `hunt` lists are collected in `data_buf`, and for each of
them the bits that count in `data_mask_buf`. Three functions add to the two arrays, each with a
terminator behind what it added. Only `mon_add_number_to_buffer` looks whether there is room.

A store outside of the arrays is undefined; the model stops there.

Results:
* `run_filled`: while everything fits, each byte has its mask.
* `run_safe_iff`: the stores of a command line stay inside exactly when its parts have room.
-/
namespace Vice.L5.DataBuffer

/-- mirrors src/monitor/monitor.c:202 (`DATA_BUF_SIZE`) -/
def dataBufSize : Nat := 256

/-- What a `char *` points to, without the terminator. -/
structure CString where
  bytes : List UInt8
  noNul : 0 ∉ bytes

/-- The static variables. A mask is `none` where nothing was stored since the buffer was cleared:
what is there is left over from an earlier command. -/
structure Buffers where
  dataBuf : Nat → UInt8
  dataMaskBuf : Nat → Option UInt8
  dataBufLen : Nat

/-! ## Stores -/

def storeData (i : Nat) (byte : UInt8) (s : Buffers) : Option Buffers :=
  if i < dataBufSize then some { s with dataBuf := Function.update s.dataBuf i byte } else none

def storeMask (i : Nat) (mask : UInt8) (s : Buffers) : Option Buffers :=
  if i < dataBufSize then
    some { s with dataMaskBuf := Function.update s.dataMaskBuf i (some mask) }
  else none

/-- The bytes from index `i` on. -/
def storeAll (i : Nat) : List UInt8 → Buffers → Option Buffers
  | [], s => some s
  | byte :: bytes, s => (storeData i byte s).bind (storeAll (i + 1) bytes)

/-- The loop that sets `count` masks from index `i` on to 0xff (src/monitor/monitor.c:1102-1104 and
1123-1125). -/
def storeMasks (i : Nat) : Nat → Buffers → Option Buffers
  | 0, s => some s
  | count + 1, s => (storeMask i 0xff s).bind (storeMasks (i + 1) count)

/-- What two of the functions end with: the terminator, and the masks from index `i` on
(src/monitor/monitor.c:1100-1104 and 1120-1125). -/
def terminate (i : Nat) (s : Buffers) : Option Buffers :=
  (storeData s.dataBufLen 0 s).bind (storeMasks i (s.dataBufLen - i))

/-! ## The functions -/

/-- mirrors src/monitor/monitor.c:1083-1086 (`mon_clear_buffer`) -/
def monClearBuffer (s : Buffers) : Buffers :=
  { s with dataMaskBuf := fun _ => none, dataBufLen := 0 }

/-- mirrors src/monitor/monitor.c:1088-1105 (`mon_add_number_to_buffer`) -/
def monAddNumberToBuffer (number : Int) (s : Buffers) : Option Buffers :=
  let bytesNow := if number > 0xff then 2 else 1
  if s.dataBufLen + bytesNow ≥ dataBufSize then some s
  else do
    let i := s.dataBufLen
    let s ← storeData s.dataBufLen (UInt8.ofInt number) s
    let s := { s with dataBufLen := s.dataBufLen + 1 }
    let s ← if number > 0xff then
        (storeData s.dataBufLen (UInt8.ofInt (number / 256)) s).map fun s =>
          { s with dataBufLen := s.dataBufLen + 1 }
      else some s
    terminate i s

/-- mirrors src/monitor/monitor.c:1107-1113 (`mon_add_number_masked_to_buffer`) -/
def monAddNumberMaskedToBuffer (number mask : Int) (s : Buffers) : Option Buffers := do
  let s ← storeData s.dataBufLen (UInt8.ofInt number) s
  let s ← storeMask s.dataBufLen (UInt8.ofInt mask) s
  let s := { s with dataBufLen := s.dataBufLen + 1 }
  storeData s.dataBufLen 0 s

/-- mirrors src/monitor/monitor.c:1115-1126 (`mon_add_string_to_buffer`): `strcpy` stores the
terminator too. -/
def monAddStringToBuffer (str : CString) (s : Buffers) : Option Buffers := do
  let i := s.dataBufLen
  let s ← storeAll s.dataBufLen (str.bytes ++ [0]) s
  let s := { s with dataBufLen := s.dataBufLen + str.bytes.length }
  terminate i s

/-- What a command line has the parser call. -/
inductive Call where
  | number (number : Int)
  | masked (number mask : Int)
  | string (str : CString)

def Call.run : Call → Buffers → Option Buffers
  | .number n => monAddNumberToBuffer n
  | .masked n mask => monAddNumberMaskedToBuffer n mask
  | .string str => monAddStringToBuffer str

def runCalls : List Call → Buffers → Option Buffers
  | [], s => some s
  | c :: calls, s => (c.run s).bind (runCalls calls)

/-! ## What the stores leave -/

section
variable {s s' : Buffers} {i j count : Nat} {byte mask : UInt8} {bytes : List UInt8}

theorem storeAll_some (h : i + bytes.length ≤ dataBufSize) :
    ∃ f, storeAll i bytes s = some { s with dataBuf := f } ∧ ∀ j < i, f j = s.dataBuf j := by
  induction bytes generalizing i s with
  | nil => exact ⟨s.dataBuf, rfl, fun _ _ => rfl⟩
  | cons byte bytes ih =>
    rw [List.length_cons] at h
    obtain ⟨f, hf, hkeep⟩ := @ih { s with dataBuf := Function.update s.dataBuf i byte } (i + 1)
      (by omega)
    refine ⟨f, ?_, fun j hj => ?_⟩
    · rw [storeAll, storeData, if_pos (by omega)]
      exact hf
    · rw [hkeep j (by omega)]
      exact Function.update_of_ne (by omega) _ _

theorem storeAll_none (h : dataBufSize < i + bytes.length) (hi : i ≤ dataBufSize) :
    storeAll i bytes s = none := by
  induction bytes generalizing i s with
  | nil =>
    rw [List.length_nil] at h
    omega
  | cons byte bytes ih =>
    rw [storeAll, storeData]
    rw [List.length_cons] at h
    split
    · exact ih (by omega) (by omega)
    · rfl

theorem storeMasks_some (h : i + count ≤ dataBufSize) :
    ∃ f, storeMasks i count s = some { s with dataMaskBuf := f } ∧
      (∀ j < i, f j = s.dataMaskBuf j) ∧ ∀ j, i ≤ j → j < i + count → f j = some 0xff := by
  induction count generalizing i s with
  | zero => exact ⟨s.dataMaskBuf, rfl, fun _ _ => rfl, fun j _ _ => by omega⟩
  | succ count ih =>
    obtain ⟨f, hf, hkeep, hset⟩ := @ih
      { s with dataMaskBuf := Function.update s.dataMaskBuf i (some 0xff) } (i + 1) (by omega)
    refine ⟨f, ?_, fun j hj => ?_, fun j hlo hhi => ?_⟩
    · rw [storeMasks, storeMask, if_pos (by omega)]
      exact hf
    · rw [hkeep j (by omega)]
      exact Function.update_of_ne (by omega) _ _
    · rcases Nat.eq_or_lt_of_le hlo with rfl | hlt
      · rw [hkeep _ (by omega)]
        exact Function.update_self _ _ _
      · exact hset j hlt (by omega)

/-! ## The invariant -/

/-- The length leaves room for the terminator, and each byte has its mask; `P` says how the two
go together. -/
structure Filled (P : UInt8 → UInt8 → Prop) (s : Buffers) : Prop where
  room : s.dataBufLen < dataBufSize
  mask : ∀ i < s.dataBufLen, ∃ m, s.dataMaskBuf i = some m ∧ P (s.dataBuf i) m

/-- The call does not store past the end, when `len` bytes are there. -/
def Call.fits (len : Nat) : Call → Bool
  | .number _ => true
  | .masked _ _ => len + 1 < dataBufSize
  | .string str => len + str.bytes.length < dataBufSize

/-- How many bytes are there after a call that fits. -/
def Call.lengthAfter (len : Nat) : Call → Nat
  | .number n =>
    let bytesNow := if n > 0xff then 2 else 1
    if len + bytesNow ≥ dataBufSize then len else len + bytesNow
  | .masked _ _ => len + 1
  | .string str => len + str.bytes.length

/-- Each call of a command line fits behind the ones before it. -/
def Roomy : Nat → List Call → Bool
  | _, [] => true
  | len, c :: calls => c.fits len && Roomy (c.lengthAfter len) calls

variable {P : UInt8 → UInt8 → Prop}

/-- The end of a call that has stored its bytes behind the ones of `s`. -/
theorem terminate_filled (h : Filled P s) (hfull : ∀ b, P b 0xff)
    (hlen : s'.dataBufLen < dataBufSize) (hmask : s'.dataMaskBuf = s.dataMaskBuf)
    (hdata : ∀ j < s.dataBufLen, s'.dataBuf j = s.dataBuf j) (hle : s.dataBufLen ≤ s'.dataBufLen) :
    ∃ t, terminate s.dataBufLen s' = some t ∧ Filled P t ∧ t.dataBufLen = s'.dataBufLen := by
  unfold terminate
  rw [storeData, if_pos hlen, Option.bind_some]
  obtain ⟨f, hf, hkeep, hset⟩ := @storeMasks_some
    { s' with dataBuf := Function.update s'.dataBuf s'.dataBufLen 0 } s.dataBufLen
    (s'.dataBufLen - s.dataBufLen) (by omega)
  refine ⟨_, hf, ⟨hlen, fun j hj => ?_⟩, rfl⟩
  dsimp only at hj hkeep ⊢
  by_cases hold : j < s.dataBufLen
  · obtain ⟨m, hm, hp⟩ := h.mask j hold
    refine ⟨m, by rw [hkeep j hold, hmask, hm], ?_⟩
    rwa [Function.update_of_ne (by omega), hdata j hold]
  · exact ⟨0xff, hset j (by omega) (by omega), hfull _⟩

theorem number_filled (h : Filled P s) (hfull : ∀ b, P b 0xff) (n : Int) :
    ∃ t, monAddNumberToBuffer n s = some t ∧ Filled P t ∧
      t.dataBufLen = (Call.number n).lengthAfter s.dataBufLen := by
  have hroom := h.room
  unfold monAddNumberToBuffer Call.lengthAfter
  by_cases hbig : n > 0xff
  · simp only [if_pos hbig]
    split
    · exact ⟨s, rfl, h, rfl⟩
    · next hfits =>
      rw [storeData, if_pos hroom, Option.bind_eq_bind, Option.bind_some, storeData,
        if_pos (by dsimp only; omega)]
      refine terminate_filled h hfull (by dsimp only; omega) rfl (fun j hj => ?_)
        (by dsimp only; omega)
      dsimp only
      rw [Function.update_of_ne (by omega), Function.update_of_ne (by omega)]
  · simp only [if_neg hbig]
    split
    · exact ⟨s, rfl, h, rfl⟩
    · next hfits =>
      rw [storeData, if_pos hroom, Option.bind_eq_bind, Option.bind_some]
      refine terminate_filled h hfull (by dsimp only; omega) rfl (fun j hj => ?_)
        (by dsimp only; omega)
      exact Function.update_of_ne (by omega) _ _

theorem string_filled (h : Filled P s) (hfull : ∀ b, P b 0xff) {str : CString}
    (hfits : s.dataBufLen + str.bytes.length < dataBufSize) :
    ∃ t, monAddStringToBuffer str s = some t ∧ Filled P t ∧
      t.dataBufLen = s.dataBufLen + str.bytes.length := by
  obtain ⟨f, hf, hkeep⟩ := @storeAll_some s s.dataBufLen (str.bytes ++ [0])
    (by rw [List.length_append, List.length_singleton]; omega)
  unfold monAddStringToBuffer
  rw [hf, Option.bind_eq_bind, Option.bind_some]
  exact terminate_filled h hfull hfits rfl hkeep (by dsimp only; omega)

theorem masked_filled (h : Filled P s) {n mask : Int}
    (hp : P (UInt8.ofInt n) (UInt8.ofInt mask)) (hfits : s.dataBufLen + 1 < dataBufSize) :
    ∃ t, monAddNumberMaskedToBuffer n mask s = some t ∧ Filled P t ∧
      t.dataBufLen = s.dataBufLen + 1 := by
  unfold monAddNumberMaskedToBuffer
  rw [storeData, if_pos h.room, Option.bind_eq_bind, Option.bind_some, storeMask, if_pos h.room,
    Option.bind_some, storeData, if_pos hfits]
  refine ⟨_, rfl, ⟨hfits, fun j hj => ?_⟩, rfl⟩
  dsimp only at hj ⊢
  rw [Function.update_of_ne (by omega : j ≠ s.dataBufLen + 1)]
  rcases Nat.lt_succ_iff_lt_or_eq.mp hj with hlt | rfl
  · obtain ⟨m, hm, hold⟩ := h.mask j hlt
    refine ⟨m, by rwa [Function.update_of_ne (by omega)], ?_⟩
    rwa [Function.update_of_ne (by omega)]
  · exact ⟨_, Function.update_self _ _ _, by rwa [Function.update_self]⟩

/-! ## A call that has no room -/

theorem masked_none (hroom : s.dataBufLen < dataBufSize)
    (hfull : ¬ s.dataBufLen + 1 < dataBufSize) (n mask : Int) :
    monAddNumberMaskedToBuffer n mask s = none := by
  unfold monAddNumberMaskedToBuffer
  rw [storeData, if_pos hroom, Option.bind_eq_bind, Option.bind_some, storeMask, if_pos hroom,
    Option.bind_some, storeData, if_neg hfull]

theorem string_none (hroom : s.dataBufLen < dataBufSize) {str : CString}
    (hfull : ¬ s.dataBufLen + str.bytes.length < dataBufSize) :
    monAddStringToBuffer str s = none := by
  unfold monAddStringToBuffer
  rw [storeAll_none (by rw [List.length_append, List.length_singleton]; omega) (by omega)]
  rfl

/-! ## A whole command line -/

/-- What the masked numbers bring with them fits the relation `P`. -/
def Call.Masked (P : UInt8 → UInt8 → Prop) : Call → Prop
  | .masked n mask => P (UInt8.ofInt n) (UInt8.ofInt mask)
  | _ => True

theorem call_filled (h : Filled P s) (hfull : ∀ b, P b 0xff) {c : Call} (hc : c.Masked P)
    (hfits : c.fits s.dataBufLen = true) :
    ∃ t, c.run s = some t ∧ Filled P t ∧ t.dataBufLen = c.lengthAfter s.dataBufLen := by
  cases c with
  | number n => exact number_filled h hfull n
  | masked n mask => exact masked_filled h hc (of_decide_eq_true hfits)
  | string str => exact string_filled h hfull (of_decide_eq_true hfits)

theorem call_none (hroom : s.dataBufLen < dataBufSize) {c : Call}
    (hfits : c.fits s.dataBufLen = false) : c.run s = none := by
  cases c with
  | number n => cases hfits
  | masked n mask => exact masked_none hroom (of_decide_eq_false hfits) n mask
  | string str => exact string_none hroom (of_decide_eq_false hfits)

/-- While each call fits, the buffers stay filled. -/
theorem run_filled (h : Filled P s) (hfull : ∀ b, P b 0xff) {calls : List Call}
    (hc : ∀ c ∈ calls, c.Masked P) (hroomy : Roomy s.dataBufLen calls = true) :
    ∃ t, runCalls calls s = some t ∧ Filled P t := by
  induction calls generalizing s with
  | nil => exact ⟨s, rfl, h⟩
  | cons c calls ih =>
    obtain ⟨hfits, hrest⟩ := Bool.and_eq_true_iff.mp hroomy
    obtain ⟨t, ht, hfilled, hlen⟩ := call_filled h hfull (hc c List.mem_cons_self) hfits
    rw [runCalls, ht, Option.bind_some]
    exact ih hfilled (fun c' hc' => hc c' (List.mem_cons_of_mem _ hc')) (hlen ▸ hrest)

theorem run_roomy (h : Filled P s) (hfull : ∀ b, P b 0xff) {calls : List Call}
    (hc : ∀ c ∈ calls, c.Masked P) {t : Buffers} (hrun : runCalls calls s = some t) :
    Roomy s.dataBufLen calls = true := by
  induction calls generalizing s with
  | nil => rfl
  | cons c calls ih =>
    obtain ⟨u, hu, hrest⟩ := Option.bind_eq_some_iff.mp hrun
    cases hfits : c.fits s.dataBufLen with
    | false =>
      rw [call_none h.room hfits] at hu
      cases hu
    | true =>
      obtain ⟨v, hv, hfilled, hlen⟩ := call_filled h hfull (hc c List.mem_cons_self) hfits
      cases hv.symm.trans hu
      rw [Roomy, hfits, Bool.true_and, ← hlen]
      exact ih hfilled (fun c' hc' => hc c' (List.mem_cons_of_mem _ hc')) hrest

theorem roomy_front {len : Nat} {pre calls : List Call} (h : Roomy len (pre ++ calls) = true) :
    Roomy len pre = true := by
  induction pre generalizing len with
  | nil => rfl
  | cons c pre ih =>
    obtain ⟨hfits, hrest⟩ := Bool.and_eq_true_iff.mp h
    rw [Roomy, hfits, ih hrest]
    rfl

theorem cleared_filled (s : Buffers) : Filled P (monClearBuffer s) :=
  ⟨show 0 < dataBufSize by decide, fun _ hi => absurd hi (Nat.not_lt_zero _)⟩

end

/-- After each call of the line, every store was inside of the arrays, the length is below 256 and
each byte has a mask. -/
def Safe (s : Buffers) (calls : List Call) : Prop :=
  ∀ pre, pre <+: calls → ∃ t, runCalls pre (monClearBuffer s) = some t ∧ Filled (fun _ _ => True) t

/-- From a cleared buffer, the calls of a command line are safe exactly when each masked number and
each string has room behind what is there. -/
theorem run_safe_iff (s : Buffers) (calls : List Call) : Safe s calls ↔ Roomy 0 calls = true := by
  have hmasked : ∀ c : Call, c.Masked (fun _ _ => True) := fun c => by cases c <;> trivial
  constructor
  · intro h
    obtain ⟨t, ht, -⟩ := h calls (List.prefix_refl calls)
    exact run_roomy (P := fun _ _ => True) (cleared_filled s) (fun _ => trivial)
      (fun c _ => hmasked c) ht
  · rintro h pre ⟨rest, rfl⟩
    exact run_filled (cleared_filled s) (fun _ => trivial) (fun c _ => hmasked c) (roomy_front h)

/-- A masked number behind 255 bytes stores its terminator past the end. -/
theorem run_not_safe : ¬ ∀ (s : Buffers) (calls : List Call), Safe s calls := by
  intro h
  obtain ⟨t, ht, -⟩ := h ⟨fun _ => 0, fun _ => none, 0⟩ (List.replicate 256 (.masked 0 0))
    (List.replicate 256 (.masked 0 0)) (List.prefix_refl _)
  have := run_roomy (P := fun _ _ => True) (cleared_filled _) (fun _ => trivial)
    (fun c hc => by rw [List.eq_of_mem_replicate hc]; trivial) ht
  exact absurd this (by decide +kernel)

end Vice.L5.DataBuffer

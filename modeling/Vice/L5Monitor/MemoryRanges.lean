import Mathlib.Data.List.GetD
import Mathlib.Data.Nat.Count
import Mathlib.Order.Interval.Finset.Nat
import Vice.L5Monitor.Breakpoints
import Vice.L5Monitor.DataBuffer

/-!
# Address ranges and the memory commands (`monitor.c`, `mon_memory.c`)

A range is given by its first and its last address; if the last one is before the first, it wraps
around at $FFFF. `mon_is_in_range` tests an address, `get_range_len` counts them. The commands
`move`, `compare`, `fill` and `hunt` count up from the first address.

The memory is a parameter. Reading does not change it, as it does not with `sidefx` off.

Results:
* `length_iff`: the count is the number of addresses exactly if the range does not wrap.
* `ranges_agree_iff`: the commands work on the addresses of the range under the same condition, if
  there is something to fill it with or to look for.
-/
namespace Vice.L5.MemoryRanges
open Vice.L5.Breakpoints (MonAddr monIsInRange isValidAddrRange resolveRange eDefaultSpace
  eInvalidSpace)
open Vice.L5.DataBuffer

/-- What the monitor works on: `mon_get_mem_val`, `mon_set_mem_val` and two static variables. -/
structure Machine (σ : Type) where
  monGetMemVal : σ → Nat → Nat → UInt8
  monSetMemVal : σ → Nat → Nat → UInt8 → σ
  defaultMemspace : Nat
  defaultValid : defaultMemspace ≠ eInvalidSpace
  dotAddr : Nat → MonAddr

section
variable {σ : Type} (M : Machine σ)

/-- `addr_mask`, and in `mon_memory.c` `ADDR_LIMIT` -/
def addrLimit (loc : Nat) : Nat := loc % 2 ^ 16

/-- mirrors src/monitor/monitor.c:505-510 (`mon_evaluate_default_addr`) -/
def monEvaluateDefaultAddr (a : MonAddr) : MonAddr :=
  if a.memspace = eDefaultSpace then { a with memspace := M.defaultMemspace } else a

/-- mirrors src/monitor/monitor.c:545-560 (`get_range_len`) -/
def getRangeLen (addr1 addr2 : MonAddr) : Nat :=
  let start := addr1.location % 2 ^ 16
  let last := addr2.location % 2 ^ 16
  if start ≤ last then last - start + 1 else 0xffff - start + last + 1

/-- The length, and the two addresses with their memspaces.
mirrors src/monitor/monitor.c:562-626 (`mon_evaluate_address_range`) -/
def monEvaluateAddressRange (startAddr endAddr : MonAddr) (mustBeRange : Bool) (defaultLen : Nat) :
    Int × MonAddr × MonAddr :=
  if isValidAddrRange startAddr endAddr = false ∧ mustBeRange then (-1, startAddr, endAddr)
  else if isValidAddrRange startAddr endAddr then
    let (startAddr, endAddr) := resolveRange M.defaultMemspace startAddr endAddr
    (getRangeLen startAddr endAddr, startAddr, endAddr)
  else
    let startAddr :=
      if startAddr.isValid then monEvaluateDefaultAddr M startAddr
      else M.dotAddr M.defaultMemspace
    if endAddr.isValid then
      let endAddr := { endAddr with memspace := startAddr.memspace }
      (getRangeLen startAddr endAddr, startAddr, endAddr)
    else (defaultLen, startAddr,
      { startAddr with location := addrLimit (startAddr.location + defaultLen) })

/-! ## The commands -/

/-- mirrors src/monitor/mon_memory.c:48-81 (`mon_memory_move`) -/
def monMemoryMove (startAddr endAddr dest : MonAddr) (s : σ) : σ :=
  let (len, startAddr, _) := monEvaluateAddressRange M startAddr endAddr true 0xffff
  if len ≤ 0 then s
  else
    let start := startAddr.location
    let dest := monEvaluateDefaultAddr M dest
    let buf := (List.range len.toNat).map fun i =>
      M.monGetMemVal s startAddr.memspace (addrLimit (start + i))
    (List.range len.toNat).foldl (fun s i =>
      M.monSetMemVal s dest.memspace (addrLimit (dest.location + i)) (buf.getD i 0)) s

/-- A line of `compare`. -/
structure Difference where
  source : Nat
  dest : Nat
  byte1 : UInt8
  byte2 : UInt8

def differenceAt (s : σ) (srcMem source destMem dest : Nat) : Option Difference :=
  let byte1 := M.monGetMemVal s srcMem source
  let byte2 := M.monGetMemVal s destMem dest
  if byte1 ≠ byte2 then some { source, dest, byte1, byte2 } else none

/-- The lines that are printed.
mirrors src/monitor/mon_memory.c:83-114 (`mon_memory_compare`) -/
def monMemoryCompare (startAddr endAddr dest : MonAddr) (s : σ) : List Difference :=
  let (len, startAddr, _) := monEvaluateAddressRange M startAddr endAddr true 0xffff
  let dest := monEvaluateDefaultAddr M dest
  (List.range len.toNat).filterMap fun i =>
    differenceAt M s startAddr.memspace (addrLimit (startAddr.location + i)) dest.memspace
      (addrLimit (dest.location + i))

/-- `count` rounds of the loop of `mon_memory_fill`, from `i` on. -/
def fillLoop (b : Buffers) (mem start : Nat) : Nat → Nat → Nat → σ → σ
  | 0, _, _, s => s
  | count + 1, i, monIndex, s =>
    let s := M.monSetMemVal s mem (addrLimit (start + i)) (b.dataBuf monIndex)
    let monIndex := if monIndex + 1 ≥ b.dataBufLen then 0 else monIndex + 1
    fillLoop b mem start count (i + 1) monIndex s

/-- mirrors src/monitor/mon_memory.c:116-150 (`mon_memory_fill`); the buffer is cleared. -/
def monMemoryFill (b : Buffers) (startAddr endAddr : MonAddr) (s : σ) : σ :=
  let (len, startAddr, _) := monEvaluateAddressRange M startAddr endAddr false b.dataBufLen
  if len < 0 ∨ startAddr.isValid = false then s
  else fillLoop M b startAddr.memspace startAddr.location len.toNat 0 0 s

/-- The inner loop of `mon_memory_hunt`. A mask that was never stored is read as 0. -/
def found (b : Buffers) (buf : List UInt8) : Bool :=
  (List.range b.dataBufLen).all fun j =>
    buf.getD j 0 &&& (b.dataMaskBuf j).getD 0 == b.dataBuf j

/-- `count` rounds of the outer loop, from `i` on: the addresses that are printed. With an empty
pattern the byte that is read next is stored in front of `buf`, which is undefined. -/
def huntLoop (b : Buffers) (s : σ) (mem start : Nat) :
    Nat → Nat → Nat → List UInt8 → Option (List Nat)
  | 0, _, _, _ => some []
  | count + 1, i, nextRead, buf =>
    if b.dataBufLen = 0 then none
    else
      let shifted := buf.tail ++ [M.monGetMemVal s mem nextRead]
      (huntLoop b s mem start count (i + 1) ((nextRead + 1) % 2 ^ 16) shifted).map fun rest =>
        if found b buf then addrLimit (start + i) :: rest else rest

/-- mirrors src/monitor/mon_memory.c:152-200 (`mon_memory_hunt`); the buffer is cleared. -/
def monMemoryHunt (b : Buffers) (startAddr endAddr : MonAddr) (s : σ) : Option (List Nat) :=
  let (len, startAddr, _) := monEvaluateAddressRange M startAddr endAddr true 0xffff
  if len < 0 ∨ len < b.dataBufLen then some []
  else
    let mem := startAddr.memspace
    let start := startAddr.location
    let buf := (List.range b.dataBufLen).map fun i => M.monGetMemVal s mem (addrLimit (start + i))
    huntLoop M b s mem start (len.toNat - b.dataBufLen + 1) 0 ((start + b.dataBufLen) % 2 ^ 16) buf

/-! ## What the commands are for -/

/-- The addresses of a range, in the order from its first one. -/
def addresses (startAddr endAddr : MonAddr) : List Nat :=
  ((List.range (2 ^ 16)).map fun i => (startAddr.location + i) % 2 ^ 16).filter
    (monIsInRange startAddr endAddr)

/-- The masked pattern stands at the places from `i` on of a list of addresses. -/
def standsAt (b : Buffers) (s : σ) (mem : Nat) (as : List Nat) (i : Nat) : Bool :=
  i + b.dataBufLen ≤ as.length ∧ ∀ j < b.dataBufLen,
    let mask := (b.dataMaskBuf j).getD 0
    M.monGetMemVal s mem (as.getD (i + j) 0) &&& mask = b.dataBuf j &&& mask

/-- Counting, testing and the four commands mean the same addresses: `mem` is the memspace of the
range, `b` what a command line has given for `fill` and `hunt`. -/
structure RangesAgree (b : Buffers) (mem start last : Nat) : Prop where
  length : (monEvaluateAddressRange M ⟨mem, start⟩ ⟨mem, last⟩ true 0xffff).1 =
    (Nat.count (fun a => monIsInRange ⟨mem, start⟩ ⟨mem, last⟩ a = true) (2 ^ 16) : Nat)
  fill : ∀ s : σ, monMemoryFill M b ⟨mem, start⟩ ⟨mem, last⟩ s =
    let as := addresses ⟨mem, start⟩ ⟨mem, last⟩
    (List.range as.length).foldl (fun s i =>
      M.monSetMemVal s (monEvaluateDefaultAddr M ⟨mem, start⟩).memspace (as.getD i 0)
        (b.dataBuf (i % b.dataBufLen))) s
  move : ∀ (dest : MonAddr) (s : σ), monMemoryMove M ⟨mem, start⟩ ⟨mem, last⟩ dest s =
    let as := addresses ⟨mem, start⟩ ⟨mem, last⟩
    let dest := monEvaluateDefaultAddr M dest
    (List.range as.length).foldl (fun t i =>
      M.monSetMemVal t dest.memspace ((dest.location + i) % 2 ^ 16)
        (M.monGetMemVal s (monEvaluateDefaultAddr M ⟨mem, start⟩).memspace (as.getD i 0))) s
  compare : ∀ (dest : MonAddr) (s : σ), monMemoryCompare M ⟨mem, start⟩ ⟨mem, last⟩ dest s =
    let as := addresses ⟨mem, start⟩ ⟨mem, last⟩
    let dest := monEvaluateDefaultAddr M dest
    (List.range as.length).filterMap fun i =>
      differenceAt M s (monEvaluateDefaultAddr M ⟨mem, start⟩).memspace (as.getD i 0) dest.memspace
        ((dest.location + i) % 2 ^ 16)
  hunt : ∀ s : σ, monMemoryHunt M b ⟨mem, start⟩ ⟨mem, last⟩ s =
    let as := addresses ⟨mem, start⟩ ⟨mem, last⟩
    some (((List.range as.length).filter
      (standsAt M b s (monEvaluateDefaultAddr M ⟨mem, start⟩).memspace as)).map
        fun i => as.getD i 0)

/-- The bytes that a round of the outer loop compares. -/
def window (s : σ) (mem first count : Nat) : List UInt8 :=
  (List.range count).map fun j => M.monGetMemVal s mem (addrLimit (first + j))

/-! ## A range of one memspace -/

variable {M} {mem start last : Nat}

theorem evaluate_eq (hmem : mem ≠ eInvalidSpace) (mustBeRange : Bool) (defaultLen : Nat) :
    monEvaluateAddressRange M ⟨mem, start⟩ ⟨mem, last⟩ mustBeRange defaultLen =
      ((getRangeLen ⟨mem, start⟩ ⟨mem, last⟩ : Int), monEvaluateDefaultAddr M ⟨mem, start⟩,
        monEvaluateDefaultAddr M ⟨mem, last⟩) := by
  have hvalid : isValidAddrRange ⟨mem, start⟩ ⟨mem, last⟩ = true := by
    simp [isValidAddrRange, hmem]
  unfold monEvaluateAddressRange
  rw [hvalid, if_neg (by simp), if_pos rfl]
  by_cases hdefault : mem = eDefaultSpace
  · simp [resolveRange, monEvaluateDefaultAddr, hdefault, getRangeLen]
  · simp [resolveRange, monEvaluateDefaultAddr, hdefault]

theorem evaluateDefault_valid (hmem : mem ≠ eInvalidSpace) :
    (monEvaluateDefaultAddr M ⟨mem, start⟩).isValid = true := by
  unfold monEvaluateDefaultAddr
  split
  · exact decide_eq_true M.defaultValid
  · exact decide_eq_true hmem

@[simp] theorem evaluateDefault_location (a : MonAddr) :
    (monEvaluateDefaultAddr M a).location = a.location := by
  unfold monEvaluateDefaultAddr
  split <;> rfl

theorem inRange_iff (hmem : mem ≠ eInvalidSpace) (a : Nat) : monIsInRange ⟨mem, start⟩ ⟨mem, last⟩ a = true ↔
      if start ≤ last then start ≤ a ∧ a ≤ last else start ≤ a ∨ a ≤ last := by
  have hvalid : (MonAddr.mk mem last).isValid = true := decide_eq_true hmem
  unfold monIsInRange
  rw [hvalid, if_pos rfl]
  by_cases hle : start ≤ last
  · simp [hle]
  · simp [hle, Nat.lt_of_not_le hle]

/-- `last - start + 1` addresses, or as many as are left without those in between. -/
theorem count_eq (hmem : mem ≠ eInvalidSpace) (hs : start < 2 ^ 16) (hl : last < 2 ^ 16) :
    Nat.count (fun a => monIsInRange ⟨mem, start⟩ ⟨mem, last⟩ a = true) (2 ^ 16) =
      if start ≤ last then last + 1 - start else 2 ^ 16 - start + (last + 1) := by
  rw [Nat.count_eq_card_filter_range]
  by_cases hle : start ≤ last
  · have hset : {a ∈ Finset.range (2 ^ 16) | monIsInRange ⟨mem, start⟩ ⟨mem, last⟩ a = true} =
        Finset.Icc start last := by
      ext a
      rw [Finset.mem_filter, inRange_iff hmem, if_pos hle, Finset.mem_range, Finset.mem_Icc]
      omega
    rw [hset, Nat.card_Icc, if_pos hle]
  · have hset : {a ∈ Finset.range (2 ^ 16) | monIsInRange ⟨mem, start⟩ ⟨mem, last⟩ a = true} =
        Finset.Ico start (2 ^ 16) ∪ Finset.range (last + 1) := by
      ext a
      rw [Finset.mem_filter, inRange_iff hmem, if_neg hle, Finset.mem_range, Finset.mem_union,
        Finset.mem_Ico, Finset.mem_range]
      omega
    have hdisj : Disjoint (Finset.Ico start (2 ^ 16)) (Finset.range (last + 1)) := by
      rw [Finset.disjoint_left]
      intro a ha hb
      rw [Finset.mem_Ico] at ha
      rw [Finset.mem_range] at hb
      omega
    rw [hset, Finset.card_union_of_disjoint hdisj, Nat.card_Ico, Finset.card_range, if_neg hle]

/-- A range that wraps is counted one too short. -/
theorem length_iff (hmem : mem ≠ eInvalidSpace) (hs : start < 2 ^ 16) (hl : last < 2 ^ 16) :
    getRangeLen ⟨mem, start⟩ ⟨mem, last⟩ =
      Nat.count (fun a => monIsInRange ⟨mem, start⟩ ⟨mem, last⟩ a = true) (2 ^ 16) ↔
      start ≤ last := by
  rw [count_eq hmem hs hl]
  unfold getRangeLen
  dsimp only
  rw [Nat.mod_eq_of_lt hs, Nat.mod_eq_of_lt hl]
  by_cases hle : start ≤ last
  · rw [if_pos hle, if_pos hle]
    omega
  · rw [if_neg hle, if_neg hle]
    omega

/-! ## A range that does not wrap -/

theorem getRangeLen_eq (hle : start ≤ last) (hl : last < 2 ^ 16) :
    getRangeLen ⟨mem, start⟩ ⟨mem, last⟩ = last - start + 1 := by
  unfold getRangeLen
  dsimp only
  rw [Nat.mod_eq_of_lt (by omega), Nat.mod_eq_of_lt hl, if_pos hle]

theorem addresses_eq (hmem : mem ≠ eInvalidSpace) (hle : start ≤ last) (hl : last < 2 ^ 16) :
    addresses ⟨mem, start⟩ ⟨mem, last⟩ =
      (List.range (last - start + 1)).map fun i => start + i := by
  have hsplit : List.range (2 ^ 16) = List.range (last - start + 1) ++
      (List.range (2 ^ 16 - (last - start + 1))).map (last - start + 1 + ·) := by
    rw [← List.range_add, Nat.add_sub_cancel' (by omega)]
  unfold addresses
  dsimp only
  rw [hsplit, List.map_append, List.filter_append, List.filter_map, List.filter_map]
  have hin : ∀ i < last - start + 1, (start + i) % 2 ^ 16 = start + i := fun i hi =>
    Nat.mod_eq_of_lt (by omega)
  rw [List.filter_eq_self.mpr, List.filter_eq_nil_iff.mpr]
  · rw [List.map_nil, List.append_nil]
    exact List.map_congr_left fun i hi => hin i (List.mem_range.mp hi)
  · intro i hi
    obtain ⟨k, hk, rfl⟩ := List.mem_map.mp hi
    rw [List.mem_range] at hk
    rw [Function.comp, inRange_iff hmem, if_pos hle]
    omega
  · intro i hi
    rw [List.mem_range] at hi
    rw [Function.comp, inRange_iff hmem, if_pos hle, hin i hi]
    omega

/-- The `i`-th address of the range. -/
theorem addresses_getD (hmem : mem ≠ eInvalidSpace) (hle : start ≤ last) (hl : last < 2 ^ 16)
    {i : Nat} (hi : i < last - start + 1) :
    (addresses ⟨mem, start⟩ ⟨mem, last⟩).getD i 0 = addrLimit (start + i) := by
  rw [addresses_eq hmem hle hl, List.getD_eq_getElem _ _ (by simpa using hi), List.getElem_map,
    List.getElem_range]
  exact (Nat.mod_eq_of_lt (by omega)).symm

theorem addresses_length (hmem : mem ≠ eInvalidSpace) (hle : start ≤ last) (hl : last < 2 ^ 16) :
    (addresses ⟨mem, start⟩ ⟨mem, last⟩).length = last - start + 1 := by
  rw [addresses_eq hmem hle hl, List.length_map, List.length_range]

section
variable (hmem : mem ≠ eInvalidSpace) (hle : start ≤ last) (hl : last < 2 ^ 16)
include hmem hle hl

theorem move_addresses (dest : MonAddr) (s : σ) : monMemoryMove M ⟨mem, start⟩ ⟨mem, last⟩ dest s =
      let as := addresses ⟨mem, start⟩ ⟨mem, last⟩
      let dest := monEvaluateDefaultAddr M dest
      (List.range as.length).foldl (fun t i =>
        M.monSetMemVal t dest.memspace ((dest.location + i) % 2 ^ 16)
          (M.monGetMemVal s (monEvaluateDefaultAddr M ⟨mem, start⟩).memspace (as.getD i 0))) s := by
  unfold monMemoryMove
  rw [evaluate_eq hmem, getRangeLen_eq hle hl]
  dsimp only
  rw [if_neg (by omega), Int.toNat_natCast, addresses_length hmem hle hl]
  refine List.foldl_ext _ _ _ fun t i hi => ?_
  have hlt := List.mem_range.mp hi
  rw [addresses_getD hmem hle hl hlt, List.getD_eq_getElem _ _ (by simpa using hlt),
    List.getElem_map, List.getElem_range, evaluateDefault_location ⟨mem, start⟩]
  rfl

theorem compare_addresses (dest : MonAddr) (s : σ) : monMemoryCompare M ⟨mem, start⟩ ⟨mem, last⟩ dest s =
      let as := addresses ⟨mem, start⟩ ⟨mem, last⟩
      let dest := monEvaluateDefaultAddr M dest
      (List.range as.length).filterMap fun i =>
        differenceAt M s (monEvaluateDefaultAddr M ⟨mem, start⟩).memspace (as.getD i 0)
          dest.memspace ((dest.location + i) % 2 ^ 16) := by
  unfold monMemoryCompare
  rw [evaluate_eq hmem, getRangeLen_eq hle hl]
  dsimp only
  rw [Int.toNat_natCast, addresses_length hmem hle hl]
  refine List.filterMap_congr fun i hi => ?_
  rw [addresses_getD hmem hle hl (List.mem_range.mp hi), evaluateDefault_location ⟨mem, start⟩]
  rfl

/-! ### `fill` -/

omit hmem hle hl

/-- After `i` rounds the index into the pattern is `i % dataBufLen`. -/
theorem fillLoop_eq {b : Buffers} (hb : b.dataBufLen ≠ 0) (count i : Nat) (s : σ) :
    fillLoop M b mem start count i (i % b.dataBufLen) s =
      (List.range' i count).foldl (fun s i =>
        M.monSetMemVal s mem (addrLimit (start + i)) (b.dataBuf (i % b.dataBufLen))) s := by
  induction count generalizing i s with
  | zero => rfl
  | succ count ih =>
    have hnext : (i + 1) % b.dataBufLen =
        if i % b.dataBufLen + 1 ≥ b.dataBufLen then 0 else i % b.dataBufLen + 1 := by
      have hlt := Nat.mod_lt i (Nat.pos_of_ne_zero hb)
      rw [← Nat.mod_add_mod]
      split
      · rw [show i % b.dataBufLen + 1 = b.dataBufLen by omega, Nat.mod_self]
      · exact Nat.mod_eq_of_lt (by omega)
    rw [fillLoop, ← hnext, ih, List.range'_succ, List.foldl_cons]

include hmem hle hl

theorem fill_addresses {b : Buffers} (hb : b.dataBufLen ≠ 0) (s : σ) :
    monMemoryFill M b ⟨mem, start⟩ ⟨mem, last⟩ s =
      let as := addresses ⟨mem, start⟩ ⟨mem, last⟩
      (List.range as.length).foldl (fun s i =>
        M.monSetMemVal s (monEvaluateDefaultAddr M ⟨mem, start⟩).memspace (as.getD i 0)
          (b.dataBuf (i % b.dataBufLen))) s := by
  unfold monMemoryFill
  rw [evaluate_eq hmem, getRangeLen_eq hle hl]
  dsimp only
  rw [evaluateDefault_valid hmem, if_neg (by simp; omega), Int.toNat_natCast,
    addresses_length hmem hle hl]
  have hloop := @fillLoop_eq σ M (monEvaluateDefaultAddr M ⟨mem, start⟩).memspace start b hb
    (last - start + 1) 0 s
  rw [Nat.zero_mod] at hloop
  rw [evaluateDefault_location, hloop, List.range_eq_range']
  refine List.foldl_ext _ _ _ fun t i hi => ?_
  rw [← List.range_eq_range'] at hi
  rw [addresses_getD hmem hle hl (List.mem_range.mp hi)]

/-! ### `hunt` -/

omit hmem hle hl

/-- Without the first byte and with the next one the window is the one that starts behind. -/
theorem window_shift (s : σ) {count : Nat} (hcount : count ≠ 0) (first : Nat) :
    (window M s mem first count).tail ++
        [M.monGetMemVal s mem ((first + count) % 2 ^ 16)] =
      window M s mem (first + 1) count := by
  obtain ⟨k, rfl⟩ := Nat.exists_eq_succ_of_ne_zero hcount
  unfold window
  conv_lhs => rw [List.range_succ_eq_map, List.map_cons, List.tail_cons, List.map_map]
  rw [List.range_succ, List.map_append, List.map_singleton]
  refine congrArg₂ _ (List.map_congr_left fun j _ => ?_) ?_
  · rw [Function.comp, Nat.succ_eq_add_one, Nat.add_right_comm first 1 j]
    rfl
  · rw [Nat.succ_eq_add_one, Nat.add_right_comm first 1 k]
    rfl

/-- Before round `i` the buffer is the window at the `i`-th address. -/
theorem huntLoop_eq {b : Buffers} (hb : b.dataBufLen ≠ 0) (s : σ) (count i : Nat) :
    huntLoop M b s mem start count i ((start + i + b.dataBufLen) % 2 ^ 16)
        (window M s mem (start + i) b.dataBufLen) =
      some (((List.range' i count).filter fun i =>
        found b (window M s mem (start + i) b.dataBufLen)).map fun i => addrLimit (start + i)) := by
  induction count generalizing i with
  | zero => rfl
  | succ count ih =>
    have hnext : ((start + i + b.dataBufLen) % 2 ^ 16 + 1) % 2 ^ 16 =
        (start + (i + 1) + b.dataBufLen) % 2 ^ 16 := by
      rw [Nat.mod_add_mod]
      congr 1
      omega
    rw [huntLoop, if_neg hb]
    dsimp only
    rw [window_shift s hb, hnext, Nat.add_assoc start i 1, ih, Option.map_some, List.range'_succ,
      List.filter_cons]
    split <;> rfl

include hmem hle hl

/-- The pattern has no bits outside of its masks, so it does not matter that the code does not mask
it. -/
theorem standsAt_eq {b : Buffers} (hb : Filled (fun d m => d &&& m = d) b) (s : σ) (mem' : Nat)
    {i : Nat} (hi : i + b.dataBufLen ≤ last - start + 1) :
    standsAt M b s mem' (addresses ⟨mem, start⟩ ⟨mem, last⟩) i =
      found b (window M s mem' (start + i) b.dataBufLen) := by
  rw [Bool.eq_iff_iff]
  unfold standsAt found
  rw [decide_eq_true_eq, List.all_eq_true, addresses_length hmem hle hl]
  have hbyte : ∀ j < b.dataBufLen,
      (M.monGetMemVal s mem' ((addresses ⟨mem, start⟩ ⟨mem, last⟩).getD (i + j) 0) &&&
          (b.dataMaskBuf j).getD 0 = b.dataBuf j &&& (b.dataMaskBuf j).getD 0 ↔
        ((window M s mem' (start + i) b.dataBufLen).getD j 0 &&& (b.dataMaskBuf j).getD 0 ==
          b.dataBuf j) = true) := by
    intro j hj
    obtain ⟨m, hm, hdm⟩ := hb.mask j hj
    rw [addresses_getD hmem hle hl (by omega), window,
      List.getD_eq_getElem _ _ (by simpa using hj), List.getElem_map, List.getElem_range, hm,
      Option.getD_some, hdm, beq_iff_eq, Nat.add_assoc]
  constructor
  · intro h j hj
    exact (hbyte j (List.mem_range.mp hj)).mp (h.2 j (List.mem_range.mp hj))
  · intro h
    exact ⟨hi, fun j hj => (hbyte j hj).mpr (h j (List.mem_range.mpr hj))⟩

/-- Behind the last window nothing stands. -/
theorem filter_standsAt {b : Buffers} (hb : Filled (fun d m => d &&& m = d) b)
    (hne : b.dataBufLen ≠ 0) (hfits : b.dataBufLen ≤ last - start + 1) (s : σ) (mem' : Nat) :
    (List.range (last - start + 1)).filter
        (standsAt M b s mem' (addresses ⟨mem, start⟩ ⟨mem, last⟩)) =
      (List.range (last - start + 1 - b.dataBufLen + 1)).filter fun i =>
        found b (window M s mem' (start + i) b.dataBufLen) := by
  have hsplit : List.range (last - start + 1) =
      List.range (last - start + 1 - b.dataBufLen + 1) ++
        (List.range (b.dataBufLen - 1)).map (last - start + 1 - b.dataBufLen + 1 + ·) := by
    rw [← List.range_add]
    congr 1
    omega
  have hin : ∀ i ∈ List.range (last - start + 1 - b.dataBufLen + 1),
      standsAt M b s mem' (addresses ⟨mem, start⟩ ⟨mem, last⟩) i =
        found b (window M s mem' (start + i) b.dataBufLen) := by
    intro i hi
    rw [List.mem_range] at hi
    exact standsAt_eq hmem hle hl hb s mem' (by omega)
  have hout : ∀ i ∈ (List.range (b.dataBufLen - 1)).map
        (last - start + 1 - b.dataBufLen + 1 + ·),
      ¬ standsAt M b s mem' (addresses ⟨mem, start⟩ ⟨mem, last⟩) i = true := by
    intro i hi
    obtain ⟨k, -, rfl⟩ := List.mem_map.mp hi
    unfold standsAt
    rw [decide_eq_true_eq, addresses_length hmem hle hl]
    omega
  rw [hsplit, List.filter_append, List.filter_eq_nil_iff.mpr hout, List.append_nil, List.filter_congr hin]

theorem hunt_addresses {b : Buffers} (hb : Filled (fun d m => d &&& m = d) b) (hne : b.dataBufLen ≠ 0) (s : σ) :
    monMemoryHunt M b ⟨mem, start⟩ ⟨mem, last⟩ s =
      let as := addresses ⟨mem, start⟩ ⟨mem, last⟩
      some (((List.range as.length).filter
        (standsAt M b s (monEvaluateDefaultAddr M ⟨mem, start⟩).memspace as)).map
          fun i => as.getD i 0) := by
  unfold monMemoryHunt
  rw [evaluate_eq hmem, getRangeLen_eq hle hl]
  dsimp only
  rw [addresses_length hmem hle hl, evaluateDefault_location]
  dsimp only
  generalize (monEvaluateDefaultAddr M ⟨mem, start⟩).memspace = mem'
  by_cases hfits : b.dataBufLen ≤ last - start + 1
  · rw [if_neg (by omega), Int.toNat_natCast, filter_standsAt hmem hle hl hb hne hfits]
    have hloop := @huntLoop_eq σ M mem' start b hne s (last - start + 1 - b.dataBufLen + 1) 0
    rw [← List.range_eq_range'] at hloop
    refine hloop.trans (congrArg some (List.map_congr_left fun i hi => ?_))
    rw [List.mem_filter, List.mem_range] at hi
    rw [addresses_getD hmem hle hl (by omega)]
  · -- the pattern is longer than the range
    have hnone : ∀ i ∈ List.range (last - start + 1),
        ¬ standsAt M b s mem' (addresses ⟨mem, start⟩ ⟨mem, last⟩) i = true := by
      intro i _
      unfold standsAt
      rw [decide_eq_true_eq, addresses_length hmem hle hl]
      omega
    rw [if_pos (Or.inr (by omega)), List.filter_eq_nil_iff.mpr hnone]
    rfl

end

/-! ## Where they agree -/

/-- Nothing to look for: the byte behind the last window is stored in front of the buffer. -/
theorem hunt_empty (hmem : mem ≠ eInvalidSpace) (hle : start ≤ last) (hl : last < 2 ^ 16)
    {b : Buffers} (hempty : b.dataBufLen = 0) (s : σ) :
    monMemoryHunt M b ⟨mem, start⟩ ⟨mem, last⟩ s = none := by
  unfold monMemoryHunt
  rw [evaluate_eq hmem, getRangeLen_eq hle hl]
  dsimp only
  rw [if_neg (by omega), huntLoop, if_pos hempty]

theorem ranges_agree_iff (M : Machine σ) (s : σ) {b : Buffers}
    (hb : Filled (fun d m => d &&& m = d) b) (hmem : mem ≠ eInvalidSpace) (hs : start < 2 ^ 16)
    (hl : last < 2 ^ 16) : RangesAgree M b mem start last ↔ start ≤ last ∧ b.dataBufLen ≠ 0 := by
  constructor
  · intro h
    have hle : start ≤ last := by
      have hlen := h.length
      rw [evaluate_eq hmem] at hlen
      exact (length_iff hmem hs hl).mp (Int.ofNat.inj hlen)
    refine ⟨hle, fun hempty => ?_⟩
    have hhunt := h.hunt s
    rw [hunt_empty hmem hle hl hempty] at hhunt
    cases hhunt
  · rintro ⟨hle, hne⟩
    exact {
      length := by
        rw [evaluate_eq hmem]
        exact congrArg _ ((length_iff hmem hs hl).mpr hle)
      fill := fill_addresses hmem hle hl hne
      move := move_addresses hmem hle hl
      compare := compare_addresses hmem hle hl
      hunt := hunt_addresses hmem hle hl hb hne }

end

/-- 64 KiB of memory, seen from every memspace. -/
def flatMemory : Machine (Nat → UInt8) where
  monGetMemVal s _ a := s a
  monSetMemVal s _ a v := Function.update s a v
  defaultMemspace := 1
  defaultValid := by decide
  dotAddr _ := ⟨1, 0⟩

/-- `hunt 1000 1003 60` -/
def oneByte : Buffers := ⟨fun _ => 0x60, fun _ => some 0xff, 1⟩

theorem oneByte_filled : Filled (fun d m => d &&& m = d) oneByte :=
  ⟨show 1 < dataBufSize by decide, fun _ _ =>
    ⟨0xff, rfl, show (0x60 &&& 0xff : UInt8) = 0x60 by decide⟩⟩

theorem ranges_agree_flat : RangesAgree flatMemory oneByte 1 0x1000 0x1003 :=
  (ranges_agree_iff flatMemory (fun _ => 0) oneByte_filled (by decide) (by decide) (by decide)).mpr
    ⟨by decide, by decide⟩

/-- The two addresses from $FFFF to $0000 are counted as one. -/
theorem wrapped_range_short : ¬ RangesAgree flatMemory oneByte 1 0xffff 0 := by
  intro h
  have hlen := h.length
  rw [evaluate_eq (by decide)] at hlen
  have hle := (@length_iff 1 _ _ (by decide) (by decide) (by decide)).mp (Int.ofNat.inj hlen)
  omega

end Vice.L5.MemoryRanges

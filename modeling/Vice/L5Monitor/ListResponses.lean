import Vice.L5Monitor.CpuRegisters

/-!
# The lists that the binary monitor sends

A list is a count and then the items, each behind a byte with its size. The size of the response,
the count and the items come from loops of their own.

Results:
* `lists_wellFormed`: the lists of registers, banks, history entries and colours, and the memory
  block, are as they say, for the tables of the program. The length of a memory block is modulo
  2^16, and the history of a Z80 is left out: it has six of the eight registers of a row.
* `length_not_always`: the length field of a block of 64 KiB is 0.
-/
namespace Vice.L5.ListResponses
open Vice.L0.Bytes Vice.L5.BinaryFrame Vice.L5.CpuHistory Vice.L5.BinaryMachine
  Vice.L5.BinaryHandlers Vice.L5.CpuRegisters

/-! ## Lists -/

/-- An item behind its size. -/
def framed (item : List UInt8) : List UInt8 := UInt8.ofNat item.length :: item

def count16 (n : Nat) : List UInt8 := writeUint16 (UInt16.ofNat n)

def count32 (n : Nat) : List UInt8 := writeUint32 (UInt32.ofNat n)

/-- `body` is a count below `bound` and as many items, each as long as its size says and with the
property `P`. -/
def IsList (count : Nat → List UInt8) (bound : Nat) (P : List UInt8 → Prop) (body : List UInt8) :
    Prop :=
  ∃ items : List (List UInt8), items.length < bound ∧ (∀ item ∈ items, item.length < 256 ∧ P item) ∧
    body = count items.length ++ items.flatMap framed

/-- The response has a body, which is as long as the response says and has the property `P`. -/
def Carries (P : List UInt8 → Prop) (r : Response) : Prop :=
  ∃ body, r.body = some body ∧ r.length.toNat = body.length ∧ P body

/-- Every response that is no error has a body with the property. -/
def AllCarry (P : List UInt8 → Prop) (sent : List Response) : Prop :=
  ∀ r ∈ sent, r.errorcode = .ok → Carries P r

def List16 : List UInt8 → Prop := IsList count16 (2 ^ 16) fun _ => True

/-- A history entry: a list of registers, the clock, and the bytes of the instruction behind their
number. -/
def IsHistoryItem (item : List UInt8) : Prop :=
  ∃ regs clock instruction : List UInt8, List16 regs ∧ clock.length = 8 ∧ instruction.length = 4 ∧
    item = regs ++ clock ++ framed instruction

def HistoryList : List UInt8 → Prop := IsList count32 (2 ^ 32) IsHistoryItem

/-- A block of memory behind its length, of which `field` keeps what fits. -/
def IsBlock (field : Nat → Nat) (body : List UInt8) : Prop :=
  ∃ (length : UInt16) (block : List UInt8), body = writeUint16 length ++ block ∧
    length.toNat = field block.length

/-! ## The tables -/

/-- The programs, by their tables of banks. -/
inductive MachineBanks
  | c64 | vsid | scpu64 | c64dtv | c128 | c128Full | vic20 | plus4 | pet | superpet | cbm2
  deriving DecidableEq, Repr

def numbered (first : Nat) (names : List String) : List (Nat × String) :=
  names.zipIdx.map fun (name, i) => (first + i, name)

def hexDigit (n : Nat) : String := String.singleton (Nat.digitChar n)

/-- The names of a bank array: a hexadecimal index is appended. -/
def bankArray (name : String) (first count : Nat) : List String :=
  (List.range count).map fun i => name ++ hexDigit ((first + i) / 16) ++ hexDigit ((first + i) % 16)

/-- `banknames` and `banknums`, mirrors src/c64/c64mem.c:1239-1250, src/c64/c64memsc.c:1218-1229,
src/c64/vsidmem.c:808-818, src/scpu64/scpu64mem.c:1751-1821, src/c64dtv/c64dtvmem.c:1120-1147,
src/c128/c128mem.c:2228-2325, src/vic20/vic20mem.c:632-634, src/plus4/plus4mem.c:1136-1149,
src/pet/petmem.c:1910-1950, src/cbm2/cbm2mem.c:965-979 and src/cbm2/cbm5x0mem.c:1051-1065 -/
def memBankList : MachineBanks → List (Nat × String)
  | .c64 => (0, "default") :: numbered 0 ["cpu", "ram", "rom", "io", "cart"]
  | .vsid => (0, "default") :: numbered 0 ["cpu", "ram", "rom", "io"]
  | .scpu64 =>
    (0, "default") :: numbered 0 (["cpu", "ram", "rom", "io", "cart"] ++ bankArray "ram" 0 0xf8 ++
      bankArray "rom" 0xf8 8)
  | .c64dtv =>
    (0, "default") :: numbered 0 (["cpu", "ram", "rom", "io", "cart"] ++ bankArray "ram" 0 0x20 ++
      bankArray "rom" 0 0x20)
  | .c128 =>
    (0, "default") :: numbered 0 ["cpu", "ram", "rom", "io", "ram00", "ram01", "intfunc", "extfunc",
      "cart", "c64rom", "vdc"]
  | .c128Full =>
    (0, "default") :: numbered 0 ["cpu", "ram", "rom", "io", "ram00", "ram01", "ram02", "ram03",
      "intfunc", "extfunc", "cart", "c64rom", "vdc"]
  | .vic20 => [(0, "default"), (0, "cpu")]
  | .plus4 =>
    [(0, "default"), (0, "cpu"), (1, "ram"), (2, "rom"), (6, "io"), (3, "funcrom"), (4, "cart1rom"),
      (5, "cart2rom")]
  | .pet => (0, "default") :: numbered 0 ["cpu", "ram", "rom", "io", "extram"]
  | .superpet => (0, "default") :: numbered 0 ["cpu", "ram", "rom", "io", "extram", "6809"]
  | .cbm2 =>
    [(17, "default"), (17, "cpu")] ++ numbered 0 (bankArray "ram" 0 16) ++
      [(16, "romio"), (16, "io")]

/-- mirrors src/monitor/monitor.c:919-925 (`mon_get_mem_block_ex`), for `count` bytes. -/
def monGetMemBlockEx {σ : Type} (getMemVal : σ → Bool → Memspace → UInt16 → UInt16 → σ × UInt8)
    (s : σ) (sidefx : Bool) (mem : Memspace) (bank start : UInt16) : Nat → σ × List UInt8
  | 0 => (s, [])
  | count + 1 =>
    let (s, val) := getMemVal s sidefx mem bank start
    let (s, block) := monGetMemBlockEx getMemVal s sidefx mem bank (start + 1) count
    (s, val :: block)

section
variable {ρ : Type}

/-- What the lists are made of: the CPUs, the banks and the memory. -/
structure Sources (ρ : Type) where
  surroundings : Surroundings ρ
  banks : MachineBanks
  /-- `mon_get_mem_val_ex` -/
  getMemVal : Board ρ → Bool → Memspace → UInt16 → UInt16 → Board ρ × UInt8

/-- A machine with the tables of the program. -/
def withTables (M : Machine (Board ρ)) (S : Sources ρ) : Machine (Board ρ) :=
  { withRegisters M S.surroundings with
    banks := fun _ => some ((memBankList S.banks).map fun (num, name) =>
      (UInt16.ofNat num, ascii name))
    getMemBlock := monGetMemBlockEx S.getMemVal }

end

/-! ## Building lists -/

section
variable {α : Type} {entries : List α} {item : α → List UInt8}

theorem length_flatMap_framed :
    (entries.flatMap fun e => framed (item e)).length = (entries.map fun e => (item e).length + 1).sum := by
  rw [List.length_flatMap]
  rfl

theorem length_flatMap_const {n : Nat} (h : ∀ e ∈ entries, (item e).length = n) :
    (entries.flatMap fun e => framed (item e)).length = (n + 1) * entries.length := by
  induction entries with
  | nil => rfl
  | cons e entries ih =>
    rw [List.flatMap_cons, List.length_append, framed, List.length_cons, h e List.mem_cons_self,
      ih fun e' he' => h e' (List.mem_cons_of_mem _ he'), List.length_cons, Nat.mul_add_one, Nat.add_comm]

/-- The counts and the items from one list of entries. -/
theorem isList_of {count : Nat → List UInt8} {bound : Nat} {P : List UInt8 → Prop}
    (hlen : entries.length < bound) (hitem : ∀ e ∈ entries, (item e).length < 256 ∧ P (item e)) :
    IsList count bound P (count entries.length ++ entries.flatMap fun e => framed (item e)) := by
  refine ⟨entries.map item, by rwa [List.length_map], fun it hit => ?_, ?_⟩
  · obtain ⟨e, he, rfl⟩ := List.mem_map.mp hit
    exact hitem e he
  · rw [List.length_map, List.flatMap_map]

/-- A sum of sizes that are bytes fits. -/
theorem sum_toNat {xs : List UInt32} (h : ∀ x ∈ xs, x.toNat ≤ 256) (hlen : xs.length < 2 ^ 16) :
    xs.sum.toNat = (xs.map UInt32.toNat).sum ∧ (xs.map UInt32.toNat).sum ≤ 256 * xs.length := by
  induction xs with
  | nil => exact ⟨rfl, Nat.le_refl _⟩
  | cons x xs ih =>
    rw [List.length_cons] at hlen
    obtain ⟨hsum, hle⟩ := ih (fun y hy => h y (List.mem_cons_of_mem _ hy)) (by omega)
    have hx := h x List.mem_cons_self
    rw [List.map_cons, List.sum_cons, List.sum_cons, List.length_cons]
    refine ⟨?_, by omega⟩
    rw [UInt32.toNat_add, hsum, Nat.mod_eq_of_lt (by omega)]

/-- The size of a response with names, summed up item by item. -/
theorem size_named {size : α → Nat} (hlen : entries.length < 2 ^ 16) (hsize : ∀ e ∈ entries, size e < 256)
    (hitem : ∀ e ∈ entries, (item e).length = size e) :
    (2 + (entries.map fun e => UInt32.ofNat (size e) + 1).sum : UInt32).toNat =
      2 + (entries.flatMap fun e => framed (item e)).length := by
  have hone : ∀ e ∈ entries, (UInt32.ofNat (size e) + 1).toNat = (item e).length + 1 := by
    intro e he
    have hlt := hsize e he
    have hof : (UInt32.ofNat (size e)).toNat = size e := UInt32.toNat_ofNat_of_lt' (Nat.lt_trans hlt (by decide))
    rw [hitem e he, UInt32.toNat_add, hof, UInt32.toNat_one, Nat.mod_eq_of_lt (by omega)]
  have hmap : (entries.map fun e => UInt32.ofNat (size e) + 1).map UInt32.toNat =
      entries.map fun e => (item e).length + 1 := by
    rw [List.map_map]
    exact List.map_congr_left hone
  obtain ⟨hsum, hle⟩ := @sum_toNat (entries.map fun e => UInt32.ofNat (size e) + 1)
    (fun x hx => by
      obtain ⟨e, he, rfl⟩ := List.mem_map.mp hx
      have hlt := hsize e he
      rw [hone e he, hitem e he]
      omega) (by rwa [List.length_map])
  rw [hmap] at hsum hle
  rw [List.length_map] at hle
  have htwo : (2 : UInt32).toNat = 2 := rfl
  rw [length_flatMap_framed, UInt32.toNat_add, hsum, htwo, Nat.mod_eq_of_lt (by omega)]

end

/-! ## Registers -/

section
variable {regs : List Register}

def nonFake (regs : List Register) : List Register := regs.filter (!·.isFlags)

theorem length_writeRegisters (count : UInt16) :
    (writeRegisters regs count).length = 2 + 4 * (nonFake regs).length := by
  unfold writeRegisters nonFake
  generalize regs.filter (!·.isFlags) = regs
  induction regs with
  | nil => rfl
  | cons reg regs ih =>
    simp only [List.flatMap_cons, List.length_append, List.length_cons, List.length_nil] at ih ⊢
    simp only [writeUint16, List.length_cons, List.length_nil] at ih ⊢
    omega

theorem writeRegisters_list (h : (nonFake regs).length < 2 ^ 16) :
    List16 (writeRegisters regs (UInt16.ofNat (nonFake regs).length)) := by
  have hlist := @isList_of Register (nonFake regs) (fun reg => [reg.id] ++ writeUint16 reg.val) count16
    (2 ^ 16) (fun _ => True) h fun _ _ => ⟨by simp [writeUint16], trivial⟩
  exact hlist

/-- A response with the registers of a CPU. -/
theorem registerInfo_carries {σ : Type} (M : Machine σ) (s : σ) (requestId : UInt32) (mem : Memspace)
    (h : (nonFake (M.registerListGet s mem)).length < 2 ^ 16) :
    Carries List16 (registerInfo M s requestId mem) := by
  refine ⟨_, rfl, ?_, writeRegisters_list h⟩
  have hcount : (UInt16.ofNat (nonFake (M.registerListGet s mem)).length).toNat =
      (nonFake (M.registerListGet s mem)).length := UInt16.toNat_ofNat_of_lt' h
  have htwo : (2 : UInt32).toNat = 2 := rfl
  have hfour : (4 : UInt32).toNat = 4 := rfl
  rw [length_writeRegisters]
  change (2 + (UInt16.ofNat (nonFake (M.registerListGet s mem)).length).toUInt32 * 4 : UInt32).toNat = _
  rw [UInt32.toNat_add, UInt32.toNat_mul, UInt16.toNat_toUInt32, hcount, htwo, hfour,
    Nat.mod_eq_of_lt (by omega), Nat.mod_eq_of_lt (by omega), Nat.mul_comm]

/-- The registers are counted without the first one and with the end of the list, which is right
when the first one is not fake. -/
theorem countAvailable_eq {reg : Register} (h : reg.isFlags = false) :
    countAvailable (reg :: regs) = (nonFake (reg :: regs)).length := by
  simp [countAvailable, nonFake, h]

theorem length_writeString {name : List UInt8} (h : name.length < 256) :
    (writeString name).length = name.length + 1 := by
  have hlen : (UInt8.ofNat name.length).toNat = name.length := UInt8.toNat_ofNat_of_lt' h
  unfold writeString
  dsimp only
  rw [hlen, List.take_length, List.length_cons]

/-- A list of names with what stands before each of them. -/
theorem named_carries {α : Type} {entries : List α} {fields name : α → List UInt8}
    {requestId : UInt32} {type : BinaryResponse} (hlen : entries.length < 2 ^ 16)
    (hname : ∀ e ∈ entries, (name e).length ≤ 252) (hfields : ∀ e ∈ entries, (fields e).length = 2) :
    Carries List16
      ⟨2 + (entries.map fun e => UInt32.ofNat ((name e).length + 3) + 1).sum, type, .ok, requestId,
        some (writeUint16 (UInt16.ofNat entries.length) ++ entries.flatMap fun e =>
          [UInt8.ofNat ((name e).length + 3)] ++ fields e ++ writeString (name e))⟩ := by
  have hitem : ∀ e ∈ entries, (fields e ++ writeString (name e)).length = (name e).length + 3 := by
    intro e he
    have hle := hname e he
    rw [List.length_append, hfields e he, length_writeString (by omega)]
    omega
  have hbody : (entries.flatMap fun e => [UInt8.ofNat ((name e).length + 3)] ++ fields e ++
      writeString (name e)) = entries.flatMap fun e => framed (fields e ++ writeString (name e)) := by
    refine List.flatMap_congr fun e he => ?_
    rw [framed, hitem e he]
    rfl
  rw [hbody]
  refine ⟨_, rfl, ?_, ?_⟩
  · have hsize := @size_named α entries (fun e => fields e ++ writeString (name e))
      (fun e => (name e).length + 3) hlen (fun e he => by have := hname e he; omega) hitem
    rw [hsize, List.length_append]
    rfl
  · have hlist := @isList_of α entries (fun e => fields e ++ writeString (name e)) count16 (2 ^ 16)
      (fun _ => True) hlen fun e he => ⟨by have := hname e he; rw [hitem e he]; omega, trivial⟩
    exact hlist

end

/-! ## The tables fit -/

/-- The list is that of the computer or that of a drive. -/
theorem monRegList_mem (cpu : CpuType) (mem : Memspace) :
    monRegList cpu mem = monRegList cpu .comp ∨ monRegList cpu mem = monRegList cpu .disk8 := by
  cases cpu with
  | cpu6502 => cases mem <;> simp [monRegList, monRegList6502]
  | _ => exact .inl rfl

theorem monRegList_fits (cpu : CpuType) (mem : Memspace) :
    (monRegList cpu mem).length < 2 ^ 16 ∧ ∀ l ∈ monRegList cpu mem, (ascii l.name).length ≤ 252 := by
  rcases monRegList_mem cpu mem with h | h <;> rw [h] <;> cases cpu <;> decide +kernel

/-- No list starts with a fake register. -/
theorem monRegList_head (cpu : CpuType) (mem : Memspace) :
    ∃ l ls, monRegList cpu mem = l :: ls ∧ l.isFlags = false := by
  cases cpu <;> exact ⟨_, _, rfl, rfl⟩

def historyId (id : UInt8) : Bool := id.toNat ≤ 5 ∨ id.toNat = 0x35 ∨ id.toNat = 0x36

/-- The rows of the history have eight registers, except those of the Z80. -/
theorem monRegList_history {cpu : CpuType} (h : cpu ≠ .cpuZ80) (mem : Memspace) :
    ((monRegList cpu mem).filter fun l => !l.isFlags && historyId l.id).length = 8 := by
  rcases monRegList_mem cpu mem with hlist | hlist <;> rw [hlist] <;> cases cpu with
  | cpuZ80 => exact absurd rfl h
  | _ => decide +kernel

theorem numbered_fits {first : Nat} {names : List String} (h : ∀ name ∈ names, name.length ≤ 252) :
    ∀ bank ∈ numbered first names, (ascii bank.2).length ≤ 252 := by
  intro bank hbank
  obtain ⟨⟨name, i⟩, hmem, rfl⟩ := List.mem_map.mp hbank
  rw [ascii, List.length_map, String.length_toList]
  exact h name (List.fst_mem_of_mem_zipIdx hmem)

theorem bankArray_fits {name : String} {first count : Nat} (h : name.length ≤ 250) :
    ∀ n ∈ bankArray name first count, n.length ≤ 252 := by
  intro n hn
  obtain ⟨i, -, rfl⟩ := List.mem_map.mp hn
  simp only [hexDigit, String.length_append, String.length_singleton]
  omega

theorem memBankList_fits (banks : MachineBanks) :
    (memBankList banks).length < 2 ^ 16 ∧ ∀ bank ∈ memBankList banks, (ascii bank.2).length ≤ 252 := by
  refine ⟨by cases banks <;> simp [memBankList, numbered, bankArray], ?_⟩
  have hnames : ∀ name ∈ ["cpu", "ram", "rom", "io", "cart"], name.length ≤ 252 := by decide +kernel
  cases banks with
  | scpu64 =>
    refine List.forall_mem_cons.mpr ⟨by decide +kernel, numbered_fits ?_⟩
    exact List.forall_mem_append.mpr ⟨List.forall_mem_append.mpr
      ⟨hnames, bankArray_fits (by decide +kernel)⟩, bankArray_fits (by decide +kernel)⟩
  | c64dtv =>
    refine List.forall_mem_cons.mpr ⟨by decide +kernel, numbered_fits ?_⟩
    exact List.forall_mem_append.mpr ⟨List.forall_mem_append.mpr
      ⟨hnames, bankArray_fits (by decide +kernel)⟩, bankArray_fits (by decide +kernel)⟩
  | cbm2 =>
    refine List.forall_mem_append.mpr ⟨List.forall_mem_append.mpr ⟨by decide +kernel, ?_⟩,
      by decide +kernel⟩
    exact numbered_fits (bankArray_fits (by decide +kernel))
  | _ => decide +kernel

/-! ## The handlers -/

section
variable {ρ : Type} {M : Machine (Board ρ)} {S : Sources ρ} {c : BinaryCommand} {s : Board ρ}
  {P : List UInt8 → Prop}

theorem fails_carry {σ : Type} {s : σ} {e : BinaryError} (he : e ≠ .ok) : AllCarry P (fails c e s).2 := by
  intro r hr hok
  rw [fails, List.mem_singleton] at hr
  rw [hr] at hok
  exact absurd hok he

theorem one_carries {r : Response} (h : Carries P r) : AllCarry P [r] := by
  intro r' hr _
  rwa [List.mem_singleton.mp hr]

theorem ite_carries {σ : Type} {p : Prop} [Decidable p] {a b : σ × List Response}
    (ha : p → AllCarry P a.2) (hb : ¬ p → AllCarry P b.2) : AllCarry P (if p then a else b).2 := by
  by_cases h : p
  · rw [if_pos h]
    exact ha h
  · rw [if_neg h]
    exact hb h

theorem nonFake_registerList (mem : Memspace) :
    (nonFake ((withTables M S).registerListGet s mem)).length < 2 ^ 16 := by
  refine Nat.lt_of_le_of_lt (List.length_filter_le _ _) ?_
  change (monRegisterListGet S.surroundings s mem).length < _
  rw [monRegisterListGet, List.length_map]
  exact (monRegList_fits _ mem).1

theorem registersGet_carries : AllCarry List16 (processRegistersGet (withTables M S) c s).2 :=
  ite_carries (fun _ => fails_carry (by decide)) fun _ => ite_carries (fun _ => fails_carry (by decide))
    fun _ => one_carries (registerInfo_carries _ _ _ _ (nonFake_registerList _))

theorem registersAvailable_carries : AllCarry List16 (processRegistersAvailable (withTables M S) c s).2 := by
  refine ite_carries (fun _ => fails_carry (by decide)) fun _ => ite_carries
    (fun _ => fails_carry (by decide)) fun _ => one_carries ?_
  generalize getRequestedMemspace (c.body 0) = mem
  obtain ⟨hlen, hnames⟩ := monRegList_fits (s.cpu mem) mem
  obtain ⟨l, ls, hlist, hflags⟩ := monRegList_head (s.cpu mem) mem
  have hregs : (withTables M S).registerListGet s mem = monRegisterListGet S.surroundings s mem := rfl
  have hlength : (monRegisterListGet S.surroundings s mem).length < 2 ^ 16 := by
    rwa [monRegisterListGet, List.length_map]
  have hall : (monRegisterListGet S.surroundings s mem).take
      (UInt16.ofNat (monRegisterListGet S.surroundings s mem).length).toNat =
        monRegisterListGet S.surroundings s mem := by
    rw [UInt16.toNat_ofNat_of_lt' hlength, List.take_length]
  have hname : ∀ reg ∈ nonFake (monRegisterListGet S.surroundings s mem), reg.name.length ≤ 252 := by
    intro reg hreg
    obtain ⟨l, hl, rfl⟩ := List.mem_map.mp (List.mem_filter.mp hreg).1
    exact hnames l hl
  have hcount : countAvailable (monRegisterListGet S.surroundings s mem) =
      (nonFake (monRegisterListGet S.surroundings s mem)).length := by
    rw [monRegisterListGet, hlist]
    exact countAvailable_eq hflags
  rw [hregs, hall, hcount]
  exact named_carries (Nat.lt_of_le_of_lt (List.length_filter_le _ _) hlength) hname fun _ _ => rfl

theorem banksAvailable_carries : AllCarry List16 (processBanksAvailable (withTables M S) c s).2 := by
  obtain ⟨hlen, hnames⟩ := memBankList_fits S.banks
  refine one_carries ?_
  generalize hbanks : (memBankList S.banks).map (fun (num, name) => (UInt16.ofNat num, ascii name)) = banks
  have hlength : banks.length < 2 ^ 16 := by rwa [← hbanks, List.length_map]
  have hall : banks.take (UInt16.ofNat banks.length).toNat = banks := by
    rw [UInt16.toNat_ofNat_of_lt' hlength, List.take_length]
  have hname : ∀ bank ∈ banks, bank.2.length ≤ 252 := by
    intro bank hbank
    rw [← hbanks] at hbank
    obtain ⟨b, hb, rfl⟩ := List.mem_map.mp hbank
    exact hnames b hb
  rw [hall]
  exact named_carries hlength hname fun _ _ => rfl

theorem paletteGet_carries : AllCarry List16 (processPaletteGet (withTables M S) c s).2 := by
  refine ite_carries (fun _ => fails_carry (by decide)) fun _ => ?_
  split
  · exact fails_carry (by decide)
  · next shot _ =>
    refine one_carries ?_
    generalize hnum : UInt16.ofNat shot.palette.length = numEntries
    have hle : numEntries.toNat ≤ shot.palette.length := by
      rw [← hnum, UInt16.toNat_ofNat']
      exact Nat.mod_le _ _
    generalize hentries : shot.palette.take numEntries.toNat = entries
    have hlen : entries.length = numEntries.toNat := by
      rw [← hentries, List.length_take, Nat.min_eq_left hle]
    have hlt : entries.length < 2 ^ 16 := hlen ▸ numEntries.toNat_lt
    have hcount : numEntries = UInt16.ofNat entries.length := by rw [hlen, UInt16.ofNat_toNat]
    have hlist := @isList_of _ entries (fun e : UInt8 × UInt8 × UInt8 => [e.1, e.2.1, e.2.2]) count16
      (2 ^ 16) (fun _ => True) hlt fun _ _ => ⟨by simp, trivial⟩
    refine ⟨_, rfl, ?_, ?_⟩
    · have hbytes : (entries.flatMap fun e => framed [e.1, e.2.1, e.2.2]).length =
          (3 + 1) * entries.length :=
        length_flatMap_const fun _ _ => rfl
      have hnat : (2 + numEntries.toUInt32 * (3 + 1) : UInt32).toNat = 2 + numEntries.toNat * 4 := by
        have h4 : (3 + 1 : UInt32).toNat = 4 := rfl
        have h2 : (2 : UInt32).toNat = 2 := rfl
        rw [UInt32.toNat_add, UInt32.toNat_mul, UInt16.toNat_toUInt32, h4, h2,
          Nat.mod_eq_of_lt (by omega), Nat.mod_eq_of_lt (by omega)]
      refine hnat.trans (Eq.trans ?_ List.length_append.symm)
      refine Eq.trans ?_ (congrArg (_ + ·) hbytes.symm)
      rw [hlen, Nat.mul_comm]
      rfl
    · rw [hcount]
      exact hlist

/-! ### The history -/

/-- The register of a row that is made from a register of the CPU. -/
def historyRegister (e : Entry) (reg : Register) : Option Register :=
  match reg.id.toNat with
  | 0x00 => some { reg with val := e.regA.toUInt16 }
  | 0x01 => some { reg with val := e.regX.toUInt16 }
  | 0x02 => some { reg with val := e.regY.toUInt16 }
  | 0x03 => some { reg with val := e.addr }
  | 0x04 => some { reg with val := e.regSp.toUInt16 }
  | 0x05 => some { reg with val := e.regSt }
  | 0x35 | 0x36 => some { reg with val := 0xffff }
  | _ => none

theorem historyRegister_isSome (e : Entry) (reg : Register) :
    (historyRegister e reg).isSome = historyId reg.id := by
  unfold historyRegister historyId
  split <;> simp_all
  omega

theorem historyRegister_isFlags {e : Entry} {reg row : Register} (h : historyRegister e reg = some row) :
    row.isFlags = reg.isFlags := by
  unfold historyRegister at h
  split at h <;> cases h <;> rfl

/-- A row has a register for each of the eight that the CPU has. -/
theorem nonFake_historyRegisters {E : Surroundings ρ} {mem : Memspace} (hcpu : s.cpu mem ≠ .cpuZ80)
    (e : Entry) : (nonFake (historyRegisters (monRegisterListGet E s mem) e)).length = 8 := by
  have hrows : historyRegisters (monRegisterListGet E s mem) e =
      ((monRegisterListGet E s mem).filter (!·.isFlags)).filterMap (historyRegister e) := rfl
  have hkeep : nonFake (historyRegisters (monRegisterListGet E s mem) e) =
      historyRegisters (monRegisterListGet E s mem) e := by
    refine List.filter_eq_self.mpr fun row hrow => ?_
    rw [hrows] at hrow
    obtain ⟨reg, hreg, hsome⟩ := List.mem_filterMap.mp hrow
    rw [historyRegister_isFlags hsome]
    exact (List.mem_filter.mp hreg).2
  rw [hkeep, hrows, List.length_filterMap_eq_countP, List.countP_filter, monRegisterListGet,
    List.countP_map, List.countP_eq_length_filter, ← monRegList_history hcpu mem]
  congr 1
  refine List.filter_congr fun l _ => ?_
  simp only [Function.comp, historyRegister_isSome]
  exact Bool.and_comm ..

theorem length_writeUint64 (x : UInt64) : (writeUint64 x).length = 8 := by simp [writeUint64]

/-- The history is counted before it is sent, and is as long then. -/
theorem counted_again {r : Ring} {mem : Memspace} {fuel n p q : Nat} {counted entries : List Nat}
    (hn : n < 2 ^ 16) (hp : monCpuhistorySeek fuel r mem n = some p)
    (hcounted : entriesFrom r mem fuel p = some counted)
    (hq : monCpuhistorySeek fuel r mem (UInt16.ofNat counted.length).toNat = some q)
    (hentries : entriesFrom r mem fuel q = some entries) :
    entries.length = (UInt16.ofNat counted.length).toNat := by
  have hhead : r.head ≠ 0 := fun hzero => by
    rw [entries_hang hzero] at hcounted
    cases hcounted
  obtain ⟨hplt, hple, -⟩ := seek_remaining hhead hp
  have hlen : counted.length = remaining r mem p := entries_length hhead hplt hcounted
  have hcount : (UInt16.ofNat counted.length).toNat = remaining r mem p := by
    rw [hlen, UInt16.toNat_ofNat_of_lt' (Nat.lt_of_le_of_lt hple hn)]
  rw [hcount] at hq ⊢
  rw [entries_length hhead (seek_remaining hhead hq).1 hentries, seek_again hhead hp hq]

/-- A history entry behind its size, for a row of eight registers. -/
theorem historyItem {regs : List Register} (h : (nonFake regs).length = 8) (cycle : UInt64)
    (instruction : List UInt8) (hlen : instruction.length = 4) :
    (writeRegisters regs 8 ++ writeUint64 cycle ++ framed instruction).length = 47 ∧
      IsHistoryItem (writeRegisters regs 8 ++ writeUint64 cycle ++ framed instruction) := by
  refine ⟨?_, _, _, _, ?_, length_writeUint64 cycle, hlen, rfl⟩
  · rw [List.length_append, List.length_append, length_writeRegisters, h, length_writeUint64, framed,
      List.length_cons, hlen]
  · have hregs := @writeRegisters_list regs (by omega)
    rwa [h] at hregs

theorem historySize (count : UInt16) : (4 + count.toUInt32 * 48 : UInt32).toNat = 4 + count.toNat * 48 := by
  have hlt := count.toNat_lt
  have h48 : (48 : UInt32).toNat = 48 := rfl
  have h4 : (4 : UInt32).toNat = 4 := rfl
  rw [UInt32.toNat_add, UInt32.toNat_mul, UInt16.toNat_toUInt32, h48, h4,
    Nat.mod_eq_of_lt (by omega), Nat.mod_eq_of_lt (by omega)]

theorem historyResponse_carries {ring : Ring} {mem : Memspace} {count : UInt16} {entries : List Nat}
    (hlen : entries.length = count.toNat) (hcpu : s.cpu mem = .cpuZ80 → count = 0) :
    Carries HistoryList (historyResponse (withTables M S) c s ring mem count entries) := by
  have hrow : ∀ pos ∈ entries,
      (nonFake (historyRegisters (monRegisterListGet S.surroundings s mem) (ring.entry pos))).length = 8 := by
    intro pos hpos
    by_cases hz80 : s.cpu mem = .cpuZ80
    · rw [hcpu hz80] at hlen
      rw [List.length_eq_zero_iff.mp hlen] at hpos
      cases hpos
    · exact nonFake_historyRegisters hz80 _
  have hitem := fun pos hpos => historyItem (hrow pos hpos) (ring.entry pos).cycle
    [(ring.entry pos).op, (ring.entry pos).p1, (ring.entry pos).p2, 0xff] rfl
  have hlt := count.toNat_lt
  have hcount : writeUint32 count.toUInt32 = count32 entries.length := by
    rw [count32, hlen]
    congr 1
    exact UInt32.toNat_inj.mp (by
      rw [UInt16.toNat_toUInt32, UInt32.toNat_ofNat_of_lt' (Nat.lt_trans hlt (by decide))])
  have hbody : entries.flatMap (fun pos => [47] ++ writeRegisters
        (historyRegisters (monRegisterListGet S.surroundings s mem) (ring.entry pos)) 8 ++
        writeUint64 (ring.entry pos).cycle ++
        [4, (ring.entry pos).op, (ring.entry pos).p1, (ring.entry pos).p2, 0xff]) =
      entries.flatMap fun pos => framed (writeRegisters
        (historyRegisters (monRegisterListGet S.surroundings s mem) (ring.entry pos)) 8 ++
        writeUint64 (ring.entry pos).cycle ++
        framed [(ring.entry pos).op, (ring.entry pos).p1, (ring.entry pos).p2, 0xff]) := by
    refine List.flatMap_congr fun pos hpos => ?_
    rw [framed, (hitem pos hpos).1]
    rfl
  have hlist := @isList_of _ entries _ count32 (2 ^ 32) IsHistoryItem (by omega) fun pos hpos =>
    ⟨by rw [(hitem pos hpos).1]; omega, (hitem pos hpos).2⟩
  rw [← hbody, ← hcount] at hlist
  have hbytes := length_flatMap_const fun pos hpos => (hitem pos hpos).1
  rw [← hbody, hlen] at hbytes
  refine ⟨_, rfl, (historySize count).trans ?_, hlist⟩
  refine Eq.trans ?_ List.length_append.symm
  refine Eq.trans ?_ (congrArg (_ + ·) hbytes.symm)
  rw [Nat.mul_comm]
  rfl

theorem cpuhistory_carries {fuel : Nat} {out : Board ρ × List Response}
    (h : processCpuhistory (withTables M S) c s fuel = some out) :
    ∀ r ∈ out.2, r.errorcode = .ok →
      (s.cpu (getRequestedMemspace (c.body 0)) = .cpuZ80 → r.length = 4) → Carries HistoryList r := by
  have herr : ∀ e : BinaryError, e ≠ .ok → some (fails c e s) = some out →
      AllCarry HistoryList out.2 := by
    rintro e he heq
    cases heq
    exact fails_carry he
  unfold processCpuhistory at h
  split at h
  · exact fun r hr hok _ => herr .cmdFailure (by decide) h r hr hok
  · next ring _ =>
    dsimp only at h
    split at h
    · exact fun r hr hok _ => herr .cmdInvalidLength (by decide) h r hr hok
    split at h
    · exact fun r hr hok _ => herr .invalidMemspace (by decide) h r hr hok
    split at h
    · exact fun r hr hok _ => herr .invalidParameter (by decide) h r hr hok
    obtain ⟨p, hp, h⟩ := Option.bind_eq_some_iff.mp h
    obtain ⟨counted, hcounted, h⟩ := Option.bind_eq_some_iff.mp h
    obtain ⟨q, hq, h⟩ := Option.bind_eq_some_iff.mp h
    obtain ⟨entries, hentries, h⟩ := Option.bind_eq_some_iff.mp h
    cases h
    have hlen := counted_again (littleEndianToUint32 c.body 1).toUInt16.toNat_lt hp hcounted hq hentries
    intro r hr _ hz80
    rw [List.mem_singleton] at hr
    subst hr
    refine historyResponse_carries hlen fun hcpu => ?_
    have hfour := congrArg UInt32.toNat (hz80 hcpu)
    have hnat : 4 + (UInt16.ofNat counted.length).toNat * 48 = 4 := (historySize _).symm.trans hfour
    exact UInt16.toNat_inj.mp (by
      rw [UInt16.toNat_zero]
      omega)

/-! ### Memory -/

theorem length_monGetMemBlockEx {σ : Type} {s : σ} {sidefx : Bool} {mem : Memspace} {bank start : UInt16}
    (getMemVal : σ → Bool → Memspace → UInt16 → UInt16 → σ × UInt8) (count : Nat) :
    (monGetMemBlockEx getMemVal s sidefx mem bank start count).2.length = count := by
  induction count generalizing s start with
  | zero => rfl
  | succ count ih =>
    rw [monGetMemBlockEx]
    dsimp only
    rw [List.length_cons, ih]

/-- A block of at most 64 KiB as `mem_get` sends it. -/
theorem block_carries {requestId : UInt32} {length : Nat} {block : List UInt8} (hle : length ≤ 2 ^ 16)
    (hblock : block.length = length) :
    Carries (IsBlock (· % 2 ^ 16)) ⟨2 + UInt32.ofNat length, .memGet, .ok, requestId,
      some (writeUint16 (UInt16.ofNat length) ++ block)⟩ := by
  refine ⟨_, rfl, ?_, _, _, rfl, by rw [hblock, UInt16.toNat_ofNat']⟩
  have h2 : (2 : UInt32).toNat = 2 := rfl
  have hof : (UInt32.ofNat length).toNat = length :=
    UInt32.toNat_ofNat_of_lt' (Nat.lt_of_le_of_lt hle (by decide))
  rw [UInt32.toNat_add, h2, hof, List.length_append, hblock, Nat.mod_eq_of_lt (by omega)]
  rfl

theorem memGet_carries : AllCarry (IsBlock (· % 2 ^ 16)) (processMemGet (withTables M S) c s).2 := by
  refine ite_carries (fun _ => fails_carry (by decide)) fun _ => ite_carries
    (fun _ => fails_carry (by decide)) fun _ => ite_carries (fun _ => fails_carry (by decide)) fun _ =>
      ite_carries (fun _ => fails_carry (by decide)) fun _ => one_carries ?_
  have hend := (littleEndianToUint16 c.body 3).toNat_lt
  exact block_carries (by omega) (length_monGetMemBlockEx _ _)

/-! ## Everything that is sent -/

/-- The lists of the program are as they say. -/
theorem lists_wellFormed (M : Machine (Board ρ)) (S : Sources ρ) (c : BinaryCommand) (s : Board ρ) :
    AllCarry List16 (processRegistersGet (withTables M S) c s).2 ∧
      AllCarry List16 (processRegistersAvailable (withTables M S) c s).2 ∧
      AllCarry List16 (processBanksAvailable (withTables M S) c s).2 ∧
      AllCarry List16 (processPaletteGet (withTables M S) c s).2 ∧
      (∀ fuel out, processCpuhistory (withTables M S) c s fuel = some out →
        ∀ r ∈ out.2, r.errorcode = .ok →
          (s.cpu (getRequestedMemspace (c.body 0)) = .cpuZ80 → r.length = 4) → Carries HistoryList r) ∧
      AllCarry (IsBlock (· % 2 ^ 16)) (processMemGet (withTables M S) c s).2 :=
  ⟨registersGet_carries, registersAvailable_carries, banksAvailable_carries, paletteGet_carries,
    fun _ _ => cpuhistory_carries, memGet_carries⟩

/-- What is sent for a range of `n` bytes. -/
theorem processMemGet_sent {σ : Type} {M : Machine σ} {s : σ} {n : Nat} (hlen : ¬ len c < 8)
    (hle : ¬ littleEndianToUint16 c.body 3 < littleEndianToUint16 c.body 1)
    (hmem : getRequestedMemspace (c.body 5) ≠ .invalid)
    (hbank : M.banknumValidate s (getRequestedMemspace (c.body 5)) (littleEndianToUint16 c.body 6) = true)
    (hn : (littleEndianToUint16 c.body 3).toNat + 1 - (littleEndianToUint16 c.body 1).toNat = n) :
    (processMemGet M c s).2 = [⟨2 + UInt32.ofNat n, .memGet, .ok, c.requestId,
      some (writeUint16 (UInt16.ofNat n) ++ (M.getMemBlock s (decide (c.body 0 ≠ 0))
        (getRequestedMemspace (c.body 5)) (littleEndianToUint16 c.body 6)
        (littleEndianToUint16 c.body 1) n).2)⟩] := by
  unfold processMemGet
  rw [if_neg hle, if_neg hlen, if_neg hmem, if_neg (by simp [hbank]), hn]

/-- A machine with a bank whose memory is 0. -/
def zeroMachine : Machine (List (UInt8 × UInt16)) :=
  { smallMachine [] none with banknumValidate := fun _ _ _ => true }

/-- From 0x0000 to 0xffff. -/
def wholeRange : BinaryCommand :=
  readCommand (commandBytes 1 0x01 [0, 0x00, 0x00, 0xff, 0xff, 0, 0, 0])

/-- The length field of the whole range is 0. -/
theorem length_not_always : ¬ AllCarry (IsBlock id) (processMemGet zeroMachine wholeRange []).2 := by
  intro h
  rw [processMemGet_sent (n := 2 ^ 16) (by decide +kernel) (by decide +kernel) (by decide +kernel) rfl
    (by decide +kernel)] at h
  have hzeros : (zeroMachine.getMemBlock [] (decide (wholeRange.body 0 ≠ 0))
      (getRequestedMemspace (wholeRange.body 5)) (littleEndianToUint16 wholeRange.body 6)
      (littleEndianToUint16 wholeRange.body 1) (2 ^ 16)).2.length = 2 ^ 16 := List.length_replicate
  generalize (zeroMachine.getMemBlock [] (decide (wholeRange.body 0 ≠ 0))
      (getRequestedMemspace (wholeRange.body 5)) (littleEndianToUint16 wholeRange.body 6)
      (littleEndianToUint16 wholeRange.body 1) (2 ^ 16)).2 = zeros at h hzeros
  obtain ⟨body, hbody, -, length, block, hsplit, hlength⟩ := h _ List.mem_cons_self rfl
  have hlen := congrArg List.length ((Option.some.inj hbody).trans hsplit)
  rw [List.length_append, List.length_append, hzeros] at hlen
  have hfield : ∀ x : UInt16, (writeUint16 x).length = 2 := fun _ => rfl
  rw [hfield, hfield] at hlen
  have hblock : block.length = 2 ^ 16 := by omega
  have hlt := length.toNat_lt
  rw [hlength, hblock] at hlt
  exact absurd hlt (by decide)

end

end Vice.L5.ListResponses

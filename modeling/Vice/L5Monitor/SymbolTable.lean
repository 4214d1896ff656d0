import Mathlib.Algebra.Group.Nat.Defs
import Mathlib.Data.List.Find
import Mathlib.Data.List.Induction
import Mathlib.Data.List.Nodup
import Mathlib.Logic.Function.Basic

/-!
# The symbol table of the monitor (`monitor.c`)

The labels of a memspace are in two structures: a list of all of them, and lists of those whose
addresses have the same remainder modulo 255. A label has an entry in each, and the two share the
string of its name.

Entries are not changed once they are allocated, so that the lists hold them as values; a block of
memory is named after the label it was allocated for, and `freed` lists those that were given back.
A name that starts with a dot and is a register's, on the CPU of the moment, is not a label.

Results:
* `op_table`: what an operation leaves in the two structures.
* `run_consistent_iff`: they agree, and are made of allocated memory, exactly when "remove all"
  finds the table empty.
-/
namespace Vice.L5.SymbolTable

abbrev Name := List UInt8

/-- mirrors src/monitor/monitor.c:147-152 (`symbol_entry_t`); `serial` says which label it is. -/
structure SymbolEntry where
  serial : Nat
  addr : Nat
  name : Name

inductive Block where
  | name (serial : Nat)
  | listEntry (serial : Nat)
  | hashEntry (serial : Nat)
  deriving DecidableEq

def Block.serial : Block → Nat
  | .name serial => serial
  | .listEntry serial => serial
  | .hashEntry serial => serial

/-- mirrors src/monitor/monitor.c:154-158 (`symbol_table_t`) -/
structure Symbols where
  nameList : List SymbolEntry
  addrHashTable : Nat → List SymbolEntry
  freed : List Block
  fresh : Nat

def emptyTable : Symbols :=
  { nameList := [], addrHashTable := fun _ => [], freed := [], fresh := 0 }

/-- mirrors src/monitor/monitor.c:127 (`HASH_ARRAY_SIZE`) -/
def hashArraySize : Nat := 256

/-- mirrors src/monitor/monitor.c:128 (`HASH_ADDR`) -/
def hashAddr (addr : Nat) : Nat := addr % 0xff

/-- The value of the register of a name, if it is one now: `name[0] == '.'` and
`mon_register_name_valid`. -/
abbrev Registers := Name → Option Nat

/-! ## The functions -/

/-- What the second loop of `free_symbol_table` frees, bucket by bucket. -/
def hashBlocks (t : Symbols) : List Block :=
  (List.range hashArraySize).flatMap fun i =>
    (t.addrHashTable i).flatMap fun e => [Block.name e.serial, Block.hashEntry e.serial]

/-- mirrors src/monitor/monitor.c:2338-2362 (`free_symbol_table`): the lists are left as they are. -/
def freeSymbolTable (t : Symbols) : Symbols :=
  { t with
    freed := t.nameList.map (fun e => Block.listEntry e.serial) ++ hashBlocks t ++ t.freed }

/-- mirrors src/monitor/monitor.c:2364-2381 (`mon_symbol_table_lookup_name`) -/
def monSymbolTableLookupName (t : Symbols) (addr : Nat) : Option Name :=
  ((t.addrHashTable (hashAddr addr)).find? (fun e => e.addr = addr)).map (·.name)

/-- mirrors src/monitor/monitor.c:2384-2407 (`mon_symbol_table_lookup_addr`): `none` for -1. -/
def monSymbolTableLookupAddr (registers : Registers) (t : Symbols) (name : Name) : Option Nat :=
  match registers name with
  | some value => some value
  | none => (t.nameList.find? (fun e => e.name = name)).map (·.addr)

/-- mirrors src/monitor/monitor.c:2489-2505: the entry in the name list, and its address. -/
def removeFromNameList (t : Symbols) (name : Name) (addr : Nat) : Symbols × Nat :=
  match t.nameList.find? (fun e => e.name = name) with
  | some e =>
    ({ t with
      nameList := t.nameList.eraseP (fun e => e.name = name)
      freed := .listEntry e.serial :: t.freed }, e.addr)
  | none => (t, addr)

/-- mirrors src/monitor/monitor.c:2507-2523: the entry in the address hash table, and the name. -/
def removeFromHashTable (t : Symbols) (name : Name) (addr : Nat) : Symbols :=
  let bucket := t.addrHashTable (hashAddr addr)
  match bucket.find? (fun e => addr = e.addr ∧ e.name = name) with
  | some e =>
    { t with
      addrHashTable := Function.update t.addrHashTable (hashAddr addr)
        (bucket.eraseP (fun e => addr = e.addr ∧ e.name = name))
      freed := .name e.serial :: .hashEntry e.serial :: t.freed }
  | none => t

/-- mirrors src/monitor/monitor.c:2468-2524 (`mon_remove_name_from_symbol_table`); `none` stands for
the name NULL. -/
def monRemoveNameFromSymbolTable (registers : Registers) (t : Symbols) :
    Option Name → Symbols
  | none => freeSymbolTable t
  | some name =>
    match monSymbolTableLookupAddr registers t name with
    | none => t
    | some addr =>
      let (t, addr) := removeFromNameList t name addr
      removeFromHashTable t name addr

/-- mirrors src/monitor/monitor.c:2418-2466 (`mon_add_name_to_symbol_table`) -/
def monAddNameToSymbolTable (registers : Registers) (t : Symbols) (addr : Nat) (name : Name) :
    Symbols :=
  if (registers name).isSome then t
  else
    let loc := addr % 2 ^ 16
    let t := if (monSymbolTableLookupAddr registers t name).isSome then
        monRemoveNameFromSymbolTable registers t (some name)
      else t
    let e := { serial := t.fresh, addr := loc, name }
    { t with
      nameList := e :: t.nameList
      addrHashTable := Function.update t.addrHashTable (hashAddr loc)
        (e :: t.addrHashTable (hashAddr loc))
      fresh := t.fresh + 1 }

/-- mirrors src/monitor/monitor.c:2541-2555 (`mon_clear_symbol_table`) -/
def monClearSymbolTable (t : Symbols) : Symbols :=
  { freeSymbolTable t with
    nameList := []
    addrHashTable := fun i => if i < hashArraySize then [] else t.addrHashTable i }

/-! ## Sequences of operations -/

inductive Op where
  | add (registers : Registers) (addr : Nat) (name : Name)
  | remove (registers : Registers) (name : Option Name)
  | clear

def Op.run (t : Symbols) : Op → Symbols
  | .add registers addr name => monAddNameToSymbolTable registers t addr name
  | .remove registers name => monRemoveNameFromSymbolTable registers t name
  | .clear => monClearSymbolTable t

def runOps (ops : List Op) : Symbols := ops.foldl Op.run emptyTable

/-- The labels there should be, the one added last at the head. -/
abbrev Labels := List (Name × Nat)

/-- What an operation is for. -/
def Op.labels (l : Labels) : Op → Labels
  | .add registers addr name =>
    if (registers name).isSome then l else (name, addr % 2 ^ 16) :: l.filter (·.1 ≠ name)
  | .remove _ (some name) => l.filter (·.1 ≠ name)
  | .remove _ none => []
  | .clear => []

def labels (ops : List Op) : Labels := ops.foldl Op.labels []

/-! ## The invariant -/

/-- The two structures agree in every entry, names are unique, and what they hold is allocated. -/
structure Table (t : Symbols) (l : Labels) : Prop where
  list : t.nameList.map (fun e => (e.name, e.addr)) = l
  hash : ∀ i, t.addrHashTable i = t.nameList.filter (fun e => hashAddr e.addr = i)
  names : (t.nameList.map (·.name)).Nodup
  serials : (t.nameList.map (·.serial)).Nodup
  fresh : ∀ e ∈ t.nameList, e.serial < t.fresh
  live : ∀ e ∈ t.nameList, ∀ b ∈ t.freed, b.serial ≠ e.serial
  freed : ∀ b ∈ t.freed, b.serial < t.fresh
  once : t.freed.Nodup

theorem emptyTable_table : Table emptyTable [] :=
  ⟨rfl, fun _ => rfl, List.nodup_nil, List.nodup_nil, nofun, nofun, nofun, List.nodup_nil⟩

/-! ## Removing from a list -/

section
variable {α β : Type} {f : α → β} {l : List α} {n : β} {p q : α → Bool} {x : α}

/-- Where the keys are unique, erasing the first entry with a key erases all of them. -/
theorem eraseP_unique [DecidableEq β] (h : (l.map f).Nodup) :
    l.eraseP (fun x => f x = n) = l.filter (fun x => f x ≠ n) := by
  induction l with
  | nil => rfl
  | cons x l ih =>
    rw [List.map_cons, List.nodup_cons] at h
    by_cases hx : f x = n
    · rw [List.eraseP_cons_of_pos (p := fun x => f x = n) (decide_eq_true hx), List.filter_cons_of_neg (by simpa using hx)]
      have hall : ∀ y ∈ l, f y ≠ n := fun y hy hn => h.1 (by
        rw [hx, ← hn]
        exact List.mem_map_of_mem hy)
      exact (List.filter_eq_self.mpr fun y hy => decide_eq_true (hall y hy)).symm
    · rw [List.eraseP_cons_of_neg (p := fun x => f x = n) (by simpa using hx),
        List.filter_cons_of_pos (by simpa using hx), ih h.2]

theorem eraseP_congr (h : ∀ x ∈ l, p x = q x) : l.eraseP p = l.eraseP q := by
  induction l with
  | nil => rfl
  | cons x l ih =>
    rw [List.eraseP_cons, List.eraseP_cons, h x List.mem_cons_self,
      ih fun y hy => h y (List.mem_cons_of_mem _ hy)]

theorem find?_unique [DecidableEq β] (h : (l.map f).Nodup) (hx : x ∈ l) :
    l.find? (fun y => f y = f x) = some x := by
  induction l with
  | nil => cases hx
  | cons y l ih =>
    rw [List.map_cons, List.nodup_cons] at h
    rcases List.mem_cons.mp hx with rfl | hmem
    · exact List.find?_cons_of_pos (decide_eq_true rfl)
    · have hne : f y ≠ f x := fun he => h.1 (he ▸ List.mem_map_of_mem hmem)
      rw [List.find?_cons_of_neg (by simpa using hne)]
      exact ih h.2 hmem

end

section
variable {t : Symbols} {l : Labels} {e : SymbolEntry} {name : Name} {addr : Nat}
  {registers : Registers}

theorem Table.hash_of_mem (h : Table t l) (he : e ∈ t.nameList) : e ∈ t.addrHashTable (hashAddr e.addr) := by
  rw [h.hash]
  exact List.mem_filter.mpr ⟨he, decide_eq_true rfl⟩

theorem Table.of_mem_hash (h : Table t l) {i : Nat} (he : e ∈ t.addrHashTable i) :
    e ∈ t.nameList ∧ hashAddr e.addr = i := by
  rw [h.hash] at he
  obtain ⟨hmem, hi⟩ := List.mem_filter.mp he
  exact ⟨hmem, of_decide_eq_true hi⟩

theorem Table.name_unique (h : Table t l) {e' : SymbolEntry} (he : e ∈ t.nameList)
    (he' : e' ∈ t.nameList) (hname : e'.name = e.name) : e' = e :=
  List.inj_on_of_nodup_map h.names he' he hname

/-- In the bucket of a label the address is not needed to tell it from the others. -/
theorem Table.bucket_pred (h : Table t l) (he : e ∈ t.nameList) (i : Nat) : ∀ e' ∈ t.addrHashTable i,
      (decide (e.addr = e'.addr ∧ e'.name = e.name)) = decide (e'.name = e.name) := by
  intro e' he'
  refine decide_eq_decide.mpr ⟨And.right, fun hname => ⟨?_, hname⟩⟩
  rw [h.name_unique he (h.of_mem_hash he').1 hname]

theorem Table.bucket_names (h : Table t l) (i : Nat) : ((t.addrHashTable i).map (·.name)).Nodup := by
  rw [h.hash]
  exact h.names.sublist (List.filter_sublist.map _)

/-- The label with `e` in both structures is gone, and its three blocks are freed. -/
theorem Table.without (h : Table t l) (he : e ∈ t.nameList) : Table { t with
      nameList := t.nameList.filter (fun e' => e'.name ≠ e.name)
      addrHashTable := fun i => (t.addrHashTable i).filter (fun e' => e'.name ≠ e.name)
      freed := .name e.serial :: .hashEntry e.serial :: .listEntry e.serial :: t.freed }
      (l.filter (·.1 ≠ e.name)) where
  list := by
    rw [← h.list, List.filter_map]
    rfl
  hash i := by
    dsimp only
    rw [h.hash, List.filter_filter, List.filter_filter]
    exact List.filter_congr fun _ _ => Bool.and_comm _ _
  names := h.names.sublist (List.filter_sublist.map _)
  serials := h.serials.sublist (List.filter_sublist.map _)
  fresh e' he' := h.fresh e' (List.mem_of_mem_filter he')
  live e' he' b hb := by
    obtain ⟨hmem, hname⟩ := List.mem_filter.mp he'
    have hserial : e.serial ≠ e'.serial := fun hs =>
      of_decide_eq_true hname (congrArg _ (List.inj_on_of_nodup_map h.serials he hmem hs)).symm
    simp only [List.mem_cons] at hb
    rcases hb with rfl | rfl | rfl | hb
    · exact hserial
    · exact hserial
    · exact hserial
    · exact h.live e' hmem b hb
  freed b hb := by
    simp only [List.mem_cons] at hb
    rcases hb with rfl | rfl | rfl | hb
    · exact h.fresh e he
    · exact h.fresh e he
    · exact h.fresh e he
    · exact h.freed b hb
  once := by
    have hnot : ∀ b : Block, b.serial = e.serial → b ∉ t.freed := fun b hb hmem =>
      h.live e he b hmem hb
    simp [List.nodup_cons, hnot (.name e.serial) rfl, hnot (.hashEntry e.serial) rfl,
      hnot (.listEntry e.serial) rfl, h.once]

/-! ## The operations -/

theorem find?_name (h : Table t l) (he : e ∈ t.nameList) :
    t.nameList.find? (fun e' => e'.name = e.name) = some e :=
  find?_unique h.names he

theorem removeFromNameList_some (h : Table t l) (he : e ∈ t.nameList) :
    removeFromNameList t e.name addr = ({ t with
      nameList := t.nameList.filter (fun e' => e'.name ≠ e.name)
      freed := .listEntry e.serial :: t.freed }, e.addr) := by
  rw [removeFromNameList, find?_name h he]
  dsimp only
  rw [eraseP_unique h.names]

/-- The other buckets do not hold the name. -/
theorem Table.update_bucket (h : Table t l) (he : e ∈ t.nameList) :
    Function.update t.addrHashTable (hashAddr e.addr)
        ((t.addrHashTable (hashAddr e.addr)).filter (fun e' => e'.name ≠ e.name)) =
      fun i => (t.addrHashTable i).filter (fun e' => e'.name ≠ e.name) := by
  funext i
  by_cases hi : i = hashAddr e.addr
  · rw [hi, Function.update_self]
  · rw [Function.update_of_ne hi]
    have hall : ∀ e' ∈ t.addrHashTable i, e'.name ≠ e.name := fun e' he' hname => hi (by
      obtain ⟨hmem, hbucket⟩ := h.of_mem_hash he'
      rw [← hbucket, h.name_unique he hmem hname])
    exact (List.filter_eq_self.mpr fun e' he' => decide_eq_true (hall e' he')).symm

theorem removeFromHashTable_some (t' : Symbols) (h : Table t l) (he : e ∈ t.nameList)
    (hhash : t'.addrHashTable = t.addrHashTable) :
    removeFromHashTable t' e.name e.addr = { t' with
      addrHashTable := fun i => (t.addrHashTable i).filter (fun e' => e'.name ≠ e.name)
      freed := .name e.serial :: .hashEntry e.serial :: t'.freed } := by
  have hpred := h.bucket_pred he (hashAddr e.addr)
  have hfind : (t.addrHashTable (hashAddr e.addr)).find?
      (fun e' => e.addr = e'.addr ∧ e'.name = e.name) = some e := by
    rw [List.find?_congr hpred]
    exact find?_unique (h.bucket_names _) (h.hash_of_mem he)
  have herase : (t.addrHashTable (hashAddr e.addr)).eraseP
      (fun e' => e.addr = e'.addr ∧ e'.name = e.name) =
      (t.addrHashTable (hashAddr e.addr)).filter (fun e' => e'.name ≠ e.name) := by
    rw [← eraseP_unique (h.bucket_names _)]
    exact eraseP_congr hpred
  rw [removeFromHashTable, hhash, hfind]
  dsimp only
  rw [herase, h.update_bucket he]

/-- A name that is not in the table is not found in either structure, whatever its address. -/
theorem remove_absent (h : Table t l) (hname : ∀ e ∈ t.nameList, e.name ≠ name) :
    monRemoveNameFromSymbolTable registers t (some name) = t := by
  have hlist : t.nameList.find? (fun e => e.name = name) = none :=
    List.find?_eq_none.mpr fun e he => by simpa using hname e he
  have hbucket : ∀ i addr, (t.addrHashTable i).find? (fun e => addr = e.addr ∧ e.name = name) =
      none := fun i addr =>
    List.find?_eq_none.mpr fun e he => by simpa using fun _ => hname e (h.of_mem_hash he).1
  rw [monRemoveNameFromSymbolTable]
  cases monSymbolTableLookupAddr registers t name with
  | none => rfl
  | some addr =>
    dsimp only
    rw [removeFromNameList, hlist]
    dsimp only
    rw [removeFromHashTable, hbucket]

theorem labels_absent (h : Table t l) (hname : ∀ e ∈ t.nameList, e.name ≠ name) :
    l.filter (·.1 ≠ name) = l := by
  rw [List.filter_eq_self, ← h.list]
  intro label hlabel
  obtain ⟨e, he, rfl⟩ := List.mem_map.mp hlabel
  exact decide_eq_true (hname e he)

theorem remove_table (h : Table t l) :
    Table (monRemoveNameFromSymbolTable registers t (some name)) (l.filter (·.1 ≠ name)) := by
  by_cases hmem : ∃ e ∈ t.nameList, e.name = name
  · obtain ⟨e, he, rfl⟩ := hmem
    have hlookup : ∃ addr, monSymbolTableLookupAddr registers t e.name = some addr := by
      rw [monSymbolTableLookupAddr, find?_name h he]
      cases registers e.name with
      | none => exact ⟨_, rfl⟩
      | some value => exact ⟨_, rfl⟩
    obtain ⟨addr, haddr⟩ := hlookup
    rw [monRemoveNameFromSymbolTable, haddr]
    dsimp only
    rw [removeFromNameList_some h he]
    dsimp only
    rw [removeFromHashTable_some _ h he (by rfl)]
    exact h.without he
  · have hname : ∀ e ∈ t.nameList, e.name ≠ name := fun e he hn => hmem ⟨e, he, hn⟩
    rw [remove_absent h hname, labels_absent h hname]
    exact h

/-- A label is put in front of both structures. -/
theorem Table.cons (h : Table t l) (hname : ∀ e ∈ t.nameList, e.name ≠ name) (addr : Nat) : Table { t with
      nameList := { serial := t.fresh, addr, name } :: t.nameList
      addrHashTable := Function.update t.addrHashTable (hashAddr addr)
        ({ serial := t.fresh, addr, name } :: t.addrHashTable (hashAddr addr))
      fresh := t.fresh + 1 } ((name, addr) :: l) where
  list := by rw [List.map_cons, h.list]
  hash i := by
    dsimp only
    by_cases hi : i = hashAddr addr
    · rw [hi, Function.update_self, List.filter_cons_of_pos (by simp), h.hash]
    · rw [Function.update_of_ne hi, List.filter_cons_of_neg (by simpa using Ne.symm hi), h.hash]
  names := by
    refine List.nodup_cons.mpr ⟨fun hmem => ?_, h.names⟩
    obtain ⟨e, he, hn⟩ := List.mem_map.mp hmem
    exact hname e he hn
  serials := by
    refine List.nodup_cons.mpr ⟨fun hmem => ?_, h.serials⟩
    obtain ⟨e, he, hs⟩ := List.mem_map.mp hmem
    exact Nat.ne_of_lt (h.fresh e he) hs
  fresh e he := by
    rcases List.mem_cons.mp he with rfl | he
    · exact Nat.lt_succ_self _
    · exact Nat.lt_succ_of_lt (h.fresh e he)
  live e he b hb := by
    rcases List.mem_cons.mp he with rfl | he
    · exact Nat.ne_of_lt (h.freed b hb)
    · exact h.live e he b hb
  freed b hb := Nat.lt_succ_of_lt (h.freed b hb)
  once := h.once

theorem mem_removed (h : Table t l) :
    ∀ e ∈ (monRemoveNameFromSymbolTable registers t (some name)).nameList, e.name ≠ name := by
  have hlist := (@remove_table t l name registers h).list
  intro e he hn
  have hmem : (e.name, e.addr) ∈ l.filter (·.1 ≠ name) := hlist ▸ List.mem_map_of_mem he
  exact of_decide_eq_true (List.mem_filter.mp hmem).2 hn

theorem add_table (h : Table t l) : Table (monAddNameToSymbolTable registers t addr name)
    ((Op.add registers addr name).labels l) := by
  rw [monAddNameToSymbolTable, Op.labels]
  split
  · exact h
  · next hregister =>
    dsimp only
    split
    · exact (remove_table h).cons (mem_removed h) _
    · next habsent =>
      have hname : ∀ e ∈ t.nameList, e.name ≠ name := by
        rw [monSymbolTableLookupAddr, Option.not_isSome_iff_eq_none.mp hregister] at habsent
        dsimp only at habsent
        rw [Option.not_isSome_iff_eq_none, Option.map_eq_none_iff, List.find?_eq_none] at habsent
        exact fun e he hn => habsent e he (decide_eq_true hn)
      rw [labels_absent h hname]
      exact h.cons hname _

theorem mem_hashBlocks {b : Block} (h : Table t l) : b ∈ hashBlocks t ↔
    ∃ e ∈ t.nameList, b = .name e.serial ∨ b = .hashEntry e.serial := by
  simp only [hashBlocks, List.mem_flatMap, List.mem_range, List.mem_cons, List.not_mem_nil, or_false]
  constructor
  · rintro ⟨i, -, e, he, hb⟩
    exact ⟨e, (h.of_mem_hash he).1, hb⟩
  · rintro ⟨e, he, hb⟩
    have hlt : hashAddr e.addr < 0xff := Nat.mod_lt _ (by decide)
    exact ⟨hashAddr e.addr, Nat.lt_trans hlt (by decide), e, h.hash_of_mem he, hb⟩

theorem hashBlocks_nodup (h : Table t l) : (hashBlocks t).Nodup := by
  have hinj : ∀ e ∈ t.nameList, ∀ e' ∈ t.nameList, e ≠ e' → e.serial ≠ e'.serial :=
    fun e he e' he' hne hs => hne (List.inj_on_of_nodup_map h.serials he he' hs)
  refine List.nodup_flatMap.mpr ⟨fun i _ => List.nodup_flatMap.mpr ⟨fun e _ => by simp, ?_⟩, ?_⟩
  · have hbucket : (t.addrHashTable i).Nodup := by
      rw [h.hash]
      exact h.serials.of_map.sublist List.filter_sublist
    refine hbucket.imp_of_mem fun {e e'} he he' hne => ?_
    have hserial := hinj e (h.of_mem_hash he).1 e' (h.of_mem_hash he').1 hne
    simp [Function.onFun, List.Disjoint, hserial]
  · refine List.nodup_range.imp fun {i j} hij => ?_
    simp only [Function.onFun, List.Disjoint, List.mem_flatMap, List.mem_cons, List.not_mem_nil, or_false]
    rintro b ⟨e, he, hb⟩ ⟨e', he', hb'⟩
    obtain ⟨hmem, rfl⟩ := h.of_mem_hash he
    obtain ⟨hmem', rfl⟩ := h.of_mem_hash he'
    have hserial := hinj e hmem e' hmem' fun heq => hij (by rw [heq])
    rcases hb with rfl | rfl <;> simp [hserial] at hb'

theorem clear_table (h : Table t l) : Table (monClearSymbolTable t) [] where
  list := rfl
  hash i := by
    dsimp only [monClearSymbolTable]
    rw [List.filter_nil]
    split
    · rfl
    · next hi =>
      rw [h.hash, List.filter_eq_nil_iff]
      intro e _ he
      have hlt : hashAddr e.addr < 0xff := Nat.mod_lt _ (by decide)
      rw [of_decide_eq_true he] at hlt
      exact hi (Nat.lt_trans hlt (by decide))
  names := List.nodup_nil
  serials := List.nodup_nil
  fresh := nofun
  live := nofun
  freed b hb := by
    rcases List.mem_append.mp hb with hb | hb
    · rcases List.mem_append.mp hb with hb | hb
      · obtain ⟨e, he, rfl⟩ := List.mem_map.mp hb
        exact h.fresh e he
      · obtain ⟨e, he, rfl | rfl⟩ := (mem_hashBlocks h).mp hb
        · exact h.fresh e he
        · exact h.fresh e he
    · exact h.freed b hb
  once := by
    have hold : ∀ e ∈ t.nameList, ∀ b : Block, b.serial = e.serial → b ∉ t.freed :=
      fun e he b hb hmem => h.live e he b hmem hb
    have hentries : (t.nameList.map fun e => Block.listEntry e.serial).Nodup := by
      have := h.serials.map (f := Block.listEntry) fun a b hab => by cases hab; rfl
      rwa [List.map_map] at this
    refine List.nodup_append.mpr ⟨List.nodup_append.mpr ⟨hentries, hashBlocks_nodup h, ?_⟩, h.once,
      ?_⟩
    · rintro b hb b' hb' rfl
      obtain ⟨e, -, rfl⟩ := List.mem_map.mp hb
      obtain ⟨e', -, he' | he'⟩ := (mem_hashBlocks h).mp hb' <;> cases he'
    · rintro b hb b' hb' rfl
      rcases List.mem_append.mp hb with hb | hb
      · obtain ⟨e, he, rfl⟩ := List.mem_map.mp hb
        exact hold e he _ rfl hb'
      · obtain ⟨e, he, rfl | rfl⟩ := (mem_hashBlocks h).mp hb
        · exact hold e he _ rfl hb'
        · exact hold e he _ rfl hb'

/-- An empty table has nothing to free. -/
theorem free_empty (h : Table t []) : freeSymbolTable t = t := by
  have hnil : t.nameList = [] := List.map_eq_nil_iff.mp h.list
  have hblocks : hashBlocks t = [] := by
    rw [List.eq_nil_iff_forall_not_mem]
    intro b hb
    obtain ⟨e, he, -⟩ := (mem_hashBlocks h).mp hb
    rw [hnil] at he
    cases he
  have hentries : t.nameList.map (fun e => Block.listEntry e.serial) = [] := by
    rw [hnil]
    rfl
  rw [freeSymbolTable, hblocks, hentries]
  rfl

/-- What an operation leaves in the table. -/
theorem op_table (h : Table t l) {op : Op} (hall : ∀ registers, op = .remove registers none → l = []) :
    Table (op.run t) (op.labels l) := by
  match op with
  | .add registers addr name => exact add_table h
  | .remove registers (some name) => exact remove_table h
  | .remove registers none =>
    obtain rfl := hall registers rfl
    rw [Op.run, monRemoveNameFromSymbolTable, free_empty h]
    exact h
  | .clear => exact clear_table h

/-! ## The two structures agree -/

/-- The name list holds the labels `l`, each name once, and the hash table the same ones; looking up
a name gives its address, and looking up an address the name that was added last; no entry or name
is freed memory, and nothing was freed twice. -/
structure Consistent (t : Symbols) (l : Labels) : Prop where
  list : t.nameList.map (fun e => (e.name, e.addr)) = l
  same : ∀ name addr, (∃ e ∈ t.nameList, e.name = name ∧ e.addr = addr) ↔
    ∃ i < hashArraySize, ∃ e ∈ t.addrHashTable i, e.name = name ∧ e.addr = addr
  names : (l.map Prod.fst).Nodup
  lookupAddr : ∀ registers : Registers, ∀ name, registers name = none →
    monSymbolTableLookupAddr registers t name = (l.find? (·.1 = name)).map Prod.snd
  lookupName : ∀ addr,
    monSymbolTableLookupName t addr = (l.find? (·.2 = addr)).map Prod.fst
  liveList : ∀ e ∈ t.nameList,
    Block.listEntry e.serial ∉ t.freed ∧ Block.name e.serial ∉ t.freed
  liveHash : ∀ i < hashArraySize, ∀ e ∈ t.addrHashTable i,
    Block.hashEntry e.serial ∉ t.freed ∧ Block.name e.serial ∉ t.freed
  once : t.freed.Nodup

theorem Table.consistent (h : Table t l) : Consistent t l where
  list := h.list
  same name addr := by
    constructor
    · rintro ⟨e, he, hlabel⟩
      have hlt : hashAddr e.addr < 0xff := Nat.mod_lt _ (by decide)
      exact ⟨hashAddr e.addr, Nat.lt_trans hlt (by decide), e, h.hash_of_mem he, hlabel⟩
    · rintro ⟨i, -, e, he, hlabel⟩
      exact ⟨e, (h.of_mem_hash he).1, hlabel⟩
  names := by
    rw [← h.list, List.map_map]
    exact h.names
  lookupAddr registers name hname := by
    rw [monSymbolTableLookupAddr, hname, ← h.list, List.find?_map, Option.map_map]
    rfl
  lookupName addr := by
    -- the bucket holds every label with the address, in the order of the list
    have hbucket : (t.addrHashTable (hashAddr addr)).find? (fun e => e.addr = addr) =
        t.nameList.find? (fun e => e.addr = addr) := by
      rw [h.hash, List.find?_filter]
      refine List.find?_congr fun e _ => ?_
      by_cases he : e.addr = addr <;> simp [he]
    rw [monSymbolTableLookupName, hbucket, ← h.list, List.find?_map, Option.map_map]
    rfl
  liveList e he := ⟨fun hb => h.live e he _ hb rfl, fun hb => h.live e he _ hb rfl⟩
  liveHash i _ e he :=
    ⟨fun hb => h.live e (h.of_mem_hash he).1 _ hb rfl,
      fun hb => h.live e (h.of_mem_hash he).1 _ hb rfl⟩
  once := h.once

/-- In every sequence of operations the structures are consistent after each operation exactly when
"remove all" is called on an empty table only. -/
theorem run_consistent_iff (ops : List Op) : (∀ pre, pre <+: ops → Consistent (runOps pre) (labels pre)) ↔
      ∀ pre registers, pre ++ [.remove registers none] <+: ops → labels pre = [] := by
  constructor
  · intro h pre registers hpre
    have hbefore := h pre ((List.prefix_append _ _).trans hpre)
    have hafter := h _ hpre
    have hrun : runOps (pre ++ [.remove registers none]) = freeSymbolTable (runOps pre) := by
      rw [runOps, List.foldl_append]
      rfl
    rw [hrun] at hafter
    rw [← hbefore.list, List.map_eq_nil_iff, List.eq_nil_iff_forall_not_mem]
    intro e he
    refine (hafter.liveList e he).1 (List.mem_append_left _ (List.mem_append_left _ ?_))
    exact List.mem_map_of_mem (f := fun e => Block.listEntry e.serial) he
  · intro h pre hpre
    suffices Table (runOps pre) (labels pre) from this.consistent
    induction pre using List.reverseRecOn with
    | nil => exact emptyTable_table
    | append_singleton pre op ih =>
      have htable := ih ((List.prefix_append _ _).trans hpre)
      rw [runOps, labels, List.foldl_append, List.foldl_append]
      exact op_table htable fun registers hop => h pre registers (hop ▸ hpre)

end

/-- A label is added, and then all are removed: the name list still holds its entry. -/
theorem removeAll_dangles : ¬ ∀ ops pre : List Op, pre <+: ops → Consistent (runOps pre) (labels pre) := by
  intro h
  have hlive := (h _ [.add (fun _ => none) 0x1000 [46, 97], .remove (fun _ => none) none]
    (List.prefix_refl _)).liveList { serial := 0, addr := 0x1000, name := [46, 97] }
    List.mem_cons_self
  exact hlive.1 (by decide +kernel)

end Vice.L5.SymbolTable

import Vice.L2Image.SnapshotModules

/-!
# Reads within a module (`snapshot_module_read_…`)

Each reader asks whether what it is about to read ends within the module. For a string that is
only its length: the characters are read wherever the length leads, into the modules behind.

A call that finds the end of the file leaves it there, and the next call goes on from that place.
The functions that convert what another one has read stand for no calls of their own.

Results:
* `call_confined`: no call but that of a string leaves the module.
* `string_confined_iff`: a string stays in it when its characters do.
* `confined_iff`: whatever is called on a module, all that succeeds stays within it exactly when
  every string that lies within the file ends within the module.
-/
namespace Vice.L2.SnapshotConfined
open Vice.L0.ByteFile Vice.L2.Snapshot Vice.L2.SnapshotModules

/-! ## Model -/

/-- mirrors src/snapshot.c:291-309 (`snapshot_read_double`): the bytes of the number -/
def snapshotReadDouble : ReadM (List UInt8) := readTimes snapshotReadByte 8

/-- mirrors src/snapshot.c:533-542 (`snapshot_module_read_double`) -/
def snapshotModuleReadDouble := readBounded 8 snapshotReadDouble

inductive Call
  | value (k : Kind)
  | double
  deriving DecidableEq, Repr

inductive Datum
  | value (v : Value)
  | double (bytes : List UInt8)
  deriving DecidableEq, Repr

def readCall (m : Module) : Call → Except SnapshotError (Datum × Module)
  | .value k => (readValue m k).map (Prod.map .value id)
  | .double => (snapshotModuleReadDouble m).map (Prod.map .double id)

/-- A read that would end after the module does not touch the file; any other that fails has come
to the end of it. -/
def failed (m : Module) : SnapshotError → Module
  | .readOutOfBounds => m
  | _ => { m with file := fseek m.file (max m.file.pos m.file.bytes.length) }

/-- The module after a call. -/
def after (m : Module) (c : Call) : Module :=
  match readCall m c with
  | .ok (_, m') => m'
  | .error e => failed m e

def moduleEnd (m : Module) : Nat := m.offset + m.size.toNat

/-- `P` holds of every call and the module it is made on. -/
def AllCalls (P : Module → Call → Prop) : Module → List Call → Prop
  | _, [] => True
  | m, c :: cs => P m c ∧ AllCalls P (after m c) cs

/-- A call that succeeds has consumed no byte from `last` on. -/
def Confined (last : Nat) (m : Module) (c : Call) : Prop :=
  ∀ x m', readCall m c = .ok (x, m') → ∀ i, m.file.pos ≤ i → i < m'.file.pos → i < last

/-- A string that lies within the file, with its length before `last`, ends before `last`. -/
def StringFits (last : Nat) (m : Module) (c : Call) : Prop :=
  c = .value .string → ∀ w f, snapshotReadWord m.file = .ok (w, f) → m.file.pos + 2 ≤ last →
    m.file.pos + 2 + w.toNat ≤ m.file.bytes.length → m.file.pos + 2 + w.toNat ≤ last

section
variable {m m' : Module} {f g : File} {c : Call} {w : UInt16} {n last : Nat}

/-! ## What a call takes -/

def Call.least : Call → Nat
  | value k => k.least
  | double => 8

def Call.reader : Call → ReadM Datum
  | value k => .value <$> k.reader
  | double => .double <$> snapshotReadDouble

theorem readCall_eq (m : Module) (c : Call) : readCall m c = readBounded c.least c.reader m := by
  cases c with
  | value k =>
    rw [readCall, readValue_eq]
    exact readBounded_map ..
  | double => exact readBounded_map ..

theorem takes_map {α β : Type} {rd : ReadM α} (h : Takes rd n) (g : α → β) : Takes (g <$> rd) n := by
  intro f y f' hf
  obtain ⟨x, hx, -⟩ := map_ok hf
  exact h f x f' hx

theorem takes_call (hc : c ≠ .value .string) : Takes c.reader c.least := by
  cases c with
  | value k =>
    apply takes_map
    cases k with
    | byte => exact takes_map takes_byte _
    | word => exact takes_map takes_word _
    | dword => exact takes_map takes_dword _
    | qword => exact takes_map takes_qword _
    | byteArray num => exact takes_map (takes_byteArray num) _
    | wordArray num => exact takes_map (takes_readTimes takes_word num) _
    | dwordArray num => exact takes_map (takes_readTimes takes_dword num) _
    | string => exact absurd rfl hc
  | double =>
    apply takes_map
    exact takes_readTimes takes_byte 8

theorem readCall_ok {x : Datum} (h : readCall m c = .ok (x, m')) :
    m.file.pos + c.least ≤ moduleEnd m ∧ c.reader m.file = .ok (x, m'.file) ∧
      m'.offset = m.offset ∧ m'.size = m.size := by
  rw [readCall_eq, readBounded] at h
  split at h
  · cases h
  · next hin =>
    cases hrd : c.reader m.file with
    | error e =>
      rw [hrd] at h
      cases h
    | ok r =>
      rw [hrd] at h
      cases h
      simp only [moduleEnd]
      exact ⟨by omega, trivial, trivial, trivial⟩

/-- No call but that of a string leaves the module. -/
theorem call_confined (hc : c ≠ .value .string) : Confined (moduleEnd m) m c := by
  intro x m' h i _ hi
  obtain ⟨hin, hread, -, -⟩ := readCall_ok h
  have hfile := takes_call hc m.file x m'.file hread
  have hpos : m'.file.pos = m.file.pos + c.least := by simp [hfile]
  omega

/-! ## Strings -/

theorem byte_inside {b : UInt8} (h : snapshotReadByte f = .ok (b, g)) : f.pos < f.bytes.length := by
  unfold snapshotReadByte fgetc at h
  cases hget : f.bytes[f.pos]? with
  | none => simp [hget] at h
  | some c => exact (List.getElem?_eq_some_iff.mp hget).1

theorem bytes_inside {bs : List UInt8} (hf : f.pos ≤ f.bytes.length)
    (h : readTimes snapshotReadByte n f = .ok (bs, g)) : g.pos ≤ f.bytes.length := by
  induction n generalizing f bs g with
  | zero =>
    cases h
    exact hf
  | succ n ih =>
    obtain ⟨b, f', hb, h⟩ := bind_ok h
    obtain ⟨bs', g', hbs, h⟩ := bind_ok h
    cases h
    have hlt := byte_inside hb
    have hnext := takes_byte f b f' hb
    subst hnext
    exact ih (f := { f with pos := f.pos + 1 }) hlt hbs

theorem word_inside (h : snapshotReadWord f = .ok (w, g)) : f.pos + 2 ≤ f.bytes.length := by
  obtain ⟨lo, f', hlo, h⟩ := bind_ok h
  obtain ⟨hi, g', hhi, -⟩ := bind_ok h
  have hnext := takes_byte f lo f' hlo
  subst hnext
  have hlt := byte_inside hhi
  simp only at hlt
  omega

/-- Whatever lies within the file can be read. -/
theorem bytes_read (h : f.pos + n ≤ f.bytes.length) :
    ∃ bs, readTimes snapshotReadByte n f = .ok (bs, { f with pos := f.pos + n }) := by
  have hlen : ((f.bytes.drop f.pos).take n).length = n := by
    rw [List.length_take, List.length_drop]
    omega
  have hread := Reads.readTimes reads_byte ((f.bytes.drop f.pos).take n) f
    ((f.bytes.drop f.pos).drop n) (by rw [List.flatMap_singleton', List.take_append_drop])
  rw [List.flatMap_singleton', hlen] at hread
  exact ⟨_, hread⟩

/-- A string is as long as its length says, and lies within the file. -/
theorem string_takes {s : Option CString} (h : snapshotReadString f = .ok (s, g)) :
    ∃ w f', snapshotReadWord f = .ok (w, f') ∧ g.pos = f.pos + 2 + w.toNat ∧
      f.pos + 2 + w.toNat ≤ f.bytes.length := by
  obtain ⟨w, f', hw, h⟩ := bind_ok h
  refine ⟨w, f', hw, ?_⟩
  have hin := word_inside hw
  have hf' := takes_word f w f' hw
  subst hf'
  dsimp only at h
  split at h
  · next hzero =>
    cases h
    rw [hzero]
    exact ⟨rfl, hin⟩
  · obtain ⟨p, g', hp, h⟩ := bind_ok h
    cases h
    have hlast := bytes_inside hin hp
    have hg := takes_readTimes takes_byte w.toNat _ p g hp
    subst hg
    simp only [Nat.mul_one] at hlast ⊢
    exact ⟨trivial, hlast⟩

theorem string_ok (hw : snapshotReadWord f = .ok (w, g)) (hin : f.pos + 2 + w.toNat ≤ f.bytes.length) :
    ∃ s, snapshotReadString f = .ok (s, { f with pos := f.pos + 2 + w.toNat }) := by
  have hg := takes_word f w g hw
  subst hg
  obtain ⟨p, hp⟩ := bytes_read (f := { f with pos := f.pos + 2 }) hin
  have hbind : snapshotReadString f = (do
      let len := w.toNat
      if len = 0 then
        return none
      let p ← readTimes snapshotReadByte len
      return some (.ofBuffer (p.set (len - 1) 0)) : ReadM (Option CString))
      { f with pos := f.pos + 2 } := by
    change (snapshotReadWord f >>= _) = _
    rw [hw]
    rfl
  rw [hbind]
  dsimp only
  split
  · next hzero => exact ⟨none, by rw [hzero]; rfl⟩
  · change ∃ s, (readTimes snapshotReadByte w.toNat _ >>= _) = _
    rw [hp]
    exact ⟨_, rfl⟩

/-- A string leaves the module when its characters do. -/
theorem string_confined_iff :
    Confined (moduleEnd m) m (.value .string) ↔ StringFits (moduleEnd m) m (.value .string) := by
  constructor
  · intro h _ w f hw hlen hin
    obtain ⟨s, hs⟩ := string_ok hw hin
    have hcall : readCall m (.value .string) = .ok (.value (.string s),
        { m with file := { m.file with pos := m.file.pos + 2 + w.toNat } }) := by
      simp only [moduleEnd] at hlen
      rw [readCall_eq, readBounded, if_neg (by simp only [Call.least, Kind.least]; omega)]
      change ((_ <$> (_ <$> snapshotReadString)) m.file).map _ = _
      change ((snapshotReadString m.file >>= _) >>= _ : Except _ _).map _ = _
      rw [hs]
      rfl
    -- the last byte of the string is one of those consumed
    have hlast := h _ _ hcall (m.file.pos + 2 + w.toNat - 1) (by omega) (by simp only; omega)
    omega
  · intro hfits x m' h i _ hi
    obtain ⟨hlen, hread, -, -⟩ := readCall_ok h
    obtain ⟨v, hv, -⟩ := map_ok hread
    obtain ⟨s, hs, -⟩ := map_ok hv
    obtain ⟨w, f', hw, hpos, hin⟩ := string_takes hs
    have hlast := hfits rfl w f' hw hlen hin
    omega

/-! ## All calls -/

theorem after_end (m : Module) (c : Call) : moduleEnd (after m c) = moduleEnd m := by
  unfold after
  split
  · next h =>
    obtain ⟨-, -, hoffset, hsize⟩ := readCall_ok h
    simp only [moduleEnd, hoffset, hsize]
  · next e _ => cases e <;> rfl

theorem confined_iff_fits (m : Module) (c : Call) :
    Confined (moduleEnd m) m c ↔ StringFits (moduleEnd m) m c := by
  by_cases hc : c = .value .string
  · subst hc
    exact string_confined_iff
  · constructor
    · intro _ hstring
      exact absurd hstring hc
    · intro _
      exact call_confined hc

theorem confined_iff (m : Module) (cs : List Call) :
    AllCalls (Confined (moduleEnd m)) m cs ↔ AllCalls (StringFits (moduleEnd m)) m cs := by
  induction cs generalizing m with
  | nil => exact Iff.rfl
  | cons c cs ih =>
    have hrest := ih (after m c)
    rw [after_end] at hrest
    exact and_congr (confined_iff_fits m c) hrest

/-- Two modules, the first with a string whose characters are the name of the second. -/
def longString : List UInt8 :=
  snapshotMagicString.chars ++ [2, 0] ++ padded 0 [0x43, 0x36, 0x34] nameLen ++
    (padded 0 [0x41] nameLen ++ [0, 0] ++ le32 24 ++ [2, 0]) ++
    (padded 0 [0x42] nameLen ++ [0, 0] ++ le32 22)

/-- Where the first string of a snapshot's first module starts, where the module ends and where the
string ends. -/
def firstString (bytes : List UInt8) (machine name : CString) : Option (Nat × Nat × Nat) := do
  let (s, _) ← (snapshotOpen bytes machine).toOption
  let (m, _) ← (← snapshotModuleOpen 1 s name).toOption
  let (_, m') ← (readCall m (.value .string)).toOption
  some (m.file.pos, moduleEnd m, m'.file.pos)

theorem firstString_some {bytes : List UInt8} {machine name : CString} {x : Nat × Nat × Nat}
    (h : firstString bytes machine name = some x) :
    ∃ s major minor m vmajor vminor datum m', snapshotOpen bytes machine = .ok (s, major, minor) ∧
      snapshotModuleOpen 1 s name = some (.ok (m, vmajor, vminor)) ∧
      readCall m (.value .string) = .ok (datum, m') ∧ (m.file.pos, moduleEnd m, m'.file.pos) = x := by
  unfold firstString at h
  cases hopen : snapshotOpen bytes machine with
  | error e => rw [hopen] at h; cases h
  | ok s =>
    rw [hopen] at h
    simp only [Except.toOption, Option.bind_eq_bind, Option.bind_some] at h
    rcases hmodule : snapshotModuleOpen 1 s.1 name with _ | e | m
    · rw [hmodule] at h; cases h
    · rw [hmodule] at h; cases h
    · rw [hmodule] at h
      simp only [Option.bind_some] at h
      cases hcall : readCall m.1 (.value .string) with
      | error e => rw [hcall] at h; cases h
      | ok m' =>
        rw [hcall] at h
        exact ⟨_, _, _, _, _, _, _, _, rfl, hmodule, hcall, Option.some.inj h⟩

theorem not_always_confined : ¬∀ bytes machine s major minor fuel name m vmajor vminor cs,
      snapshotOpen bytes machine = .ok (s, major, minor) →
      snapshotModuleOpen fuel s name = some (.ok (m, vmajor, vminor)) →
      AllCalls (Confined (moduleEnd m)) m cs := by
  intro h
  have hfirst : firstString longString ⟨[0x43, 0x36, 0x34], by decide⟩ ⟨[0x41], by decide⟩ =
      some (59, 61, 63) := by
    decide +kernel
  obtain ⟨s, major, minor, m, vmajor, vminor, datum, m', hopen, hmodule, hcall, hends⟩ :=
    firstString_some hfirst
  have hcalls := h _ _ _ _ _ _ _ _ _ _ [.value .string] hopen hmodule
  obtain ⟨hpos, hend, hpos'⟩ := Prod.mk.inj hends |>.imp_right Prod.mk.inj
  have hlast := hcalls.1 _ _ hcall 62 (by omega) (by omega)
  omega

end

end Vice.L2.SnapshotConfined

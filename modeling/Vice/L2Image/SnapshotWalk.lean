import Vice.L2Image.SnapshotModules

/-!
# The walk along the modules (`snapshot_module_open`)

The search for a module reads a header, compares the name and goes on by the size in the header,
until the name is found or no header can be read. The size comes from the file: a module of size 0
is its own successor.

Results:
* `loop_ends`: the walk ends from a module on when no module from there on is empty.
* `loop_stays`: at an empty module it never ends.
* `walkEnds_iff`: for every file and name, the search ends and only goes forward exactly when no
  empty module stands before the one it looks for.
-/
namespace Vice.L2.SnapshotWalk
open Vice.L0.ByteFile Vice.L2.Snapshot Vice.L2.SnapshotModules

/-! ## The chain of modules -/

/-- A header with another name can be read at `offset`, and `size` is the size in it. -/
def Passes (s : Snapshot) (name : CString) (offset : Nat) (size : UInt32) : Prop :=
  ∃ n major minor f, readHeader (fseek s.file offset) = .ok ((n, major, minor, size), f) ∧
    nameFound n name = false

/-- The module at `offset` is reached along the sizes, and none before it has the name. -/
inductive Reached (s : Snapshot) (name : CString) : Nat → Prop
  | first : Reached s name s.firstModuleOffset
  | next {offset : Nat} {size : UInt32} :
      Reached s name offset → Passes s name offset size → Reached s name (offset + size.toNat)

/-- The search comes to an end, and each of its steps goes forward in the file. -/
structure WalkEnds (s : Snapshot) (name : CString) : Prop where
  ends : ∃ fuel r, snapshotModuleOpen fuel s name = some r
  forward : ∀ offset size, Reached s name offset → Passes s name offset size →
    offset < offset + size.toNat

/-- No module before the one with the name has the size 0. -/
def NoneEmpty (s : Snapshot) (name : CString) : Prop :=
  ∀ offset size, Reached s name offset → Passes s name offset size → size ≠ 0

section
variable {s : Snapshot} {name : CString} {f g : File} {offset fuel : Nat} {size : UInt32}
  {x : List UInt8 × UInt8 × UInt8 × UInt32}

/-! ## Headers -/

theorem takes_header : Takes readHeader 22 :=
  (takes_byteArray nameLen).bind fun _ => takes_byte.bind fun _ => takes_byte.bind fun _ =>
    takes_dword.bind fun _ => takes_pure _

theorem fseek_header (h : readHeader f = .ok (x, g)) (pos : Nat) : fseek g pos = fseek f pos := by
  rw [takes_header f x g h]
  rfl

/-- No header is read at the end of the file. -/
theorem header_inside (h : readHeader f = .ok (x, g)) : f.pos < f.bytes.length := by
  obtain ⟨n, f', hname, -⟩ := bind_ok h
  by_contra hge
  have hshort : ¬f.pos + nameLen ≤ f.bytes.length := by
    simp only [nameLen]
    omega
  rw [snapshotReadByteArray, if_pos (by decide), fread, if_neg hshort] at hname
  cases hname

/-! ## One round -/

/-- A module with another name is passed. -/
theorem loop_passes (h : Passes s name offset size) (fuel : Nat) :
    moduleLoop name (fuel + 1) (fseek s.file offset) offset =
      moduleLoop name fuel (fseek s.file (offset + size.toNat)) (offset + size.toNat) := by
  obtain ⟨n, major, minor, f, hread, hname⟩ := h
  rw [moduleLoop, hread]
  simp only [hname, Bool.false_eq_true, ↓reduceIte]
  rw [fseek_header hread]
  rfl

/-- Where no module is passed, the search is over. -/
theorem loop_over (h : ∀ size, ¬Passes s name offset size) :
    ∃ r, moduleLoop name 1 (fseek s.file offset) offset = some r := by
  rw [moduleLoop]
  cases hread : readHeader (fseek s.file offset) with
  | error e => exact ⟨_, rfl⟩
  | ok r =>
    obtain ⟨⟨n, major, minor, size⟩, f⟩ := r
    cases hname : nameFound n name with
    | true => simp [hname]
    | false => exact absurd ⟨n, major, minor, f, hread, hname⟩ (h size)

theorem passes_inside (h : Passes s name offset size) : offset < s.file.bytes.length := by
  obtain ⟨n, major, minor, f, hread, -⟩ := h
  exact header_inside hread

/-! ## The whole search -/

/-- The bytes behind the module become fewer with each that is passed. -/
theorem loop_ends (hnone : NoneEmpty s name) (hreached : Reached s name offset) :
    ∃ fuel r, moduleLoop name fuel (fseek s.file offset) offset = some r := by
  induction hleft : s.file.bytes.length - offset using Nat.strongRecOn generalizing offset with
  | ind left ih =>
    by_cases hpass : ∃ size, Passes s name offset size
    · obtain ⟨size, hpass⟩ := hpass
      have hpos : 0 < size.toNat := by
        apply Nat.pos_of_ne_zero
        intro hzero
        exact hnone offset size hreached hpass (UInt32.toNat_inj.mp hzero)
      have hin := passes_inside hpass
      obtain ⟨fuel, r, hr⟩ := ih _ (by omega) (hreached.next hpass) rfl
      exact ⟨fuel + 1, r, by rw [loop_passes hpass, hr]⟩
    · obtain ⟨r, hr⟩ := loop_over (not_exists.mp hpass)
      exact ⟨1, r, hr⟩

/-- A search that ends has ended from each of its modules on. -/
theorem ends_from (hreached : Reached s name offset) (h : ∃ fuel r, snapshotModuleOpen fuel s name = some r) :
    ∃ fuel r, moduleLoop name fuel (fseek s.file offset) offset = some r := by
  induction hreached with
  | first => exact h
  | next _ hpass ih =>
    obtain ⟨fuel, r, hr⟩ := ih
    cases fuel with
    | zero => cases hr
    | succ fuel =>
      rw [loop_passes hpass] at hr
      exact ⟨fuel, r, hr⟩

/-- An empty module is followed by itself. -/
theorem loop_stays (h : Passes s name offset 0) (fuel : Nat) :
    moduleLoop name fuel (fseek s.file offset) offset = none := by
  induction fuel with
  | zero => rfl
  | succ fuel ih =>
    rw [loop_passes h]
    exact ih

theorem noneEmpty_of_ends (h : ∃ fuel r, snapshotModuleOpen fuel s name = some r) : NoneEmpty s name := by
  intro offset size hreached hpass hzero
  subst hzero
  obtain ⟨fuel, r, hr⟩ := ends_from hreached h
  rw [loop_stays hpass] at hr
  cases hr

theorem walkEnds_iff (s : Snapshot) (name : CString) : WalkEnds s name ↔ NoneEmpty s name := by
  constructor
  · intro h
    exact noneEmpty_of_ends h.ends
  · intro hnone
    refine ⟨loop_ends hnone Reached.first, ?_⟩
    intro offset size hreached hpass
    have hne : size.toNat ≠ 0 := fun hzero =>
      hnone offset size hreached hpass (UInt32.toNat_inj.mp hzero)
    omega

/-- A snapshot of a C64 whose first module has a header of zeros. -/
def emptyModule : List UInt8 :=
  snapshotMagicString.chars ++ [2, 0] ++ padded 0 [0x43, 0x36, 0x34] nameLen ++ List.replicate 22 0

theorem walk_not_always :
    ¬∀ bytes machine s major minor name, snapshotOpen bytes machine = .ok (s, major, minor) →
      WalkEnds s name := by
  intro h
  have hpass : Passes ⟨⟨emptyModule, 37⟩, 37⟩ ⟨[0x41], by decide⟩ 37 0 := ⟨_, _, _, _, rfl, rfl⟩
  have hends := h emptyModule ⟨[0x43, 0x36, 0x34], by decide⟩ _ _ _ ⟨[0x41], by decide⟩ rfl
  exact noneEmpty_of_ends hends.ends 37 0 Reached.first hpass rfl

end

end Vice.L2.SnapshotWalk

import Vice.L2Image.Snapshot

/-!
# The modules of a snapshot (`snapshot.c`)

Modules are written one after another, each with its size patched in when it is closed, and found
again by walking from the first one along the sizes. A string carries its length in 16 bits but is
written with all of its characters, and the size of a module is counted in 32 bits: where either
overflows, the reader loses its way.

Results:
* `writeModules_ok`: the modules that are written stand one after another in the file.
* `snapshot_roundTrip`: when the modules of a snapshot are read back.
-/
namespace Vice.L2.SnapshotModules
open Vice.L0.ByteFile Vice.L2.Snapshot

/-! ## Model -/

/-- mirrors src/snapshot.c:85-94 (`snapshot_s`) -/
structure Snapshot where
  file : File
  firstModuleOffset : Nat

/-- `SNAPSHOT_MODULE_NAME_LEN` and `SNAPSHOT_MACHINE_NAME_LEN` -/
def nameLen : Nat := 16

/-- mirrors src/snapshot.c:677-704 (`snapshot_module_create`) -/
def snapshotModuleCreate (s : Snapshot) (name : CString) (major minor : UInt8) : Module :=
  let offset := s.file.pos
  let f := snapshotWritePaddedString s.file name 0 nameLen
  let f := snapshotWriteByte f major
  let f := snapshotWriteByte f minor
  let f := snapshotWriteDword f 0
  { file := f
    writeMode := true
    size := UInt32.ofNat (f.pos - offset)
    offset := offset
    sizeOffset := f.pos - 4 }

/-- The name, version and size at the start of a module. -/
def readHeader : ReadM (List UInt8 × UInt8 × UInt8 × UInt32) := do
  let n ← snapshotReadByteArray nameLen
  let major ← snapshotReadByte
  let minor ← snapshotReadByte
  let size ← snapshotReadDword
  return (n, major, minor, size)

/-- The test for the name in `snapshot_module_open`. -/
def nameFound (n : List UInt8) (name : CString) : Bool :=
  n.take name.chars.length == name.chars &&
    (name.chars.length == nameLen || n[name.chars.length]? == some 0)

/-- The loop of `snapshot_module_open`, from the module at `offset`. -/
def moduleLoop (name : CString) :
    Nat → File → Nat → Option (Except SnapshotError (Module × UInt8 × UInt8))
  | 0, _, _ => none
  | fuel + 1, f, offset =>
    match readHeader f with
    | .error _ => some (.error .moduleHeaderRead)
    | .ok ((n, major, minor, size), f) =>
      if nameFound n name then
        some (.ok ({
          file := f
          writeMode := false
          size := size
          offset := offset
          sizeOffset := f.pos - 4 }, major, minor))
      else moduleLoop name fuel (fseek f (offset + size.toNat)) (offset + size.toNat)

/-- mirrors src/snapshot.c:706-773 (`snapshot_module_open`) -/
def snapshotModuleOpen (fuel : Nat) (s : Snapshot) (name : CString) :
    Option (Except SnapshotError (Module × UInt8 × UInt8)) :=
  moduleLoop name fuel (fseek s.file s.firstModuleOffset) s.firstModuleOffset

/-- mirrors src/snapshot.c:775-797 (`snapshot_module_close`) -/
def snapshotModuleClose (m : Module) : File :=
  let f := if m.writeMode then snapshotWriteDword (fseek m.file m.sizeOffset) m.size else m.file
  fseek f (m.offset + m.size.toNat)

/-- `snapshot_magic_string`, with the 0x1a at its end -/
def snapshotMagicString : CString :=
  ⟨[0x56, 0x49, 0x43, 0x45, 0x20, 0x53, 0x6e, 0x61, 0x70, 0x73, 0x68, 0x6f, 0x74, 0x20, 0x46, 0x69,
    0x6c, 0x65, 0x1a], by decide⟩

/-- `snapshot_version_magic_string` -/
def snapshotVersionMagicString : CString :=
  ⟨[0x56, 0x49, 0x43, 0x45, 0x20, 0x56, 0x65, 0x72, 0x73, 0x69, 0x6f, 0x6e, 0x1a], by decide⟩

/-- `VERSION_RC_NUMBER` and the revision, which the build provides. -/
structure ViceVersion where
  v0 : UInt8
  v1 : UInt8
  v2 : UInt8
  v3 : UInt8
  revision : UInt32

/-- mirrors src/snapshot.c:801-864 (`snapshot_create`) -/
def snapshotCreate (version : ViceVersion) (major minor : UInt8) (machine : CString) : Snapshot :=
  let f : File := ⟨[], 0⟩
  let f := snapshotWritePaddedString f snapshotMagicString 0 19
  let f := snapshotWriteByte f major
  let f := snapshotWriteByte f minor
  let f := snapshotWritePaddedString f machine 0 nameLen
  let f := snapshotWritePaddedString f snapshotVersionMagicString 0 13
  let f := snapshotWriteByte f version.v0
  let f := snapshotWriteByte f version.v1
  let f := snapshotWriteByte f version.v2
  let f := snapshotWriteByte f version.v3
  let f := snapshotWriteDword f version.revision
  { file := f, firstModuleOffset := f.pos }

/-- `snapshot_viceversion` and `snapshot_vicerevision` -/
def readVersion : ReadM (List UInt8 × UInt32) := do
  let version ← readTimes snapshotReadByte 4
  let revision ← snapshotReadDword
  return (version, revision)

/-- The version of VICE in the header, which older snapshots do not have. -/
def skipVersion (f : File) : Except SnapshotError File :=
  match snapshotReadByteArray 13 f with
  | .error _ => .ok f
  | .ok (magic, g) =>
    if magic = snapshotVersionMagicString.chars then
      match readVersion g with
      | .error _ => .error .cannotReadVersion
      | .ok (_, g) => .ok g
    else .ok f

/-- mirrors src/snapshot.c:870-950 (`snapshot_open`) -/
def snapshotOpen (bytes : List UInt8) (machine : CString) :
    Except SnapshotError (Snapshot × UInt8 × UInt8) := do
  let (magic, f) ← (snapshotReadByteArray 19 ⟨bytes, 0⟩).mapError fun _ => .magicStringMismatch
  if magic ≠ snapshotMagicString.chars then throw .magicStringMismatch
  let (major, f) ← (snapshotReadByte f).mapError fun _ => .cannotReadVersion
  let (minor, f) ← (snapshotReadByte f).mapError fun _ => .cannotReadVersion
  let (readName, f) ←
    (snapshotReadByteArray nameLen f).mapError fun _ => .cannotReadMachineName
  if !nameFound readName machine then throw .machineMismatch
  let f ← skipVersion f
  return ({ file := f, firstModuleOffset := f.pos }, major, minor)

/-! ## Whole snapshots -/

/-- The name of a module. -/
structure ModuleName where
  string : CString
  nonempty : 0 < string.chars.length
  bounded : string.chars.length ≤ nameLen

/-- What is written to a module. -/
structure Contents where
  name : ModuleName
  major : UInt8
  minor : UInt8
  values : List Value

def writeValues (m : Module) : List Value → Except SnapshotError Module
  | [] => .ok m
  | v :: vs => do
    let m ← writeValue m v
    writeValues m vs

def writeModule (s : Snapshot) (d : Contents) : Except SnapshotError Snapshot := do
  let m ← writeValues (snapshotModuleCreate s d.name.string d.major d.minor) d.values
  return { s with file := snapshotModuleClose m }

def writeModules (s : Snapshot) : List Contents → Except SnapshotError Snapshot
  | [] => .ok s
  | d :: ds => do
    let s ← writeModule s d
    writeModules s ds

def readValues (m : Module) : List Kind → Except SnapshotError (List Value × Module)
  | [] => .ok ([], m)
  | k :: ks => do
    let (v, m) ← readValue m k
    let (vs, m) ← readValues m ks
    return (v :: vs, m)

/-- Read the way they were written, the values come back and end the module, and no byte more can
be read. -/
def ReadsBack (m : Module) (values : List Value) : Prop :=
  ∃ m', readValues m (values.map Value.kind) = .ok (values, m') ∧
    m'.file.pos = m'.offset + m'.size.toNat ∧
    ∀ k : Kind, 0 < k.least → readValue m' k = .error .readOutOfBounds

/-- The modules can be written, and wherever the file has been read before, each of them is found
with its version and its values. -/
def RoundTrips (s : Snapshot) (ds : List Contents) : Prop :=
  ∃ s', writeModules s ds = .ok s' ∧ ∀ d ∈ ds, ∀ pos fuel, ds.length ≤ fuel →
    ∃ m, snapshotModuleOpen fuel { s' with file := fseek s'.file pos } d.name.string =
      some (.ok (m, d.major, d.minor)) ∧ ReadsBack m d.values

def payload (d : Contents) : List UInt8 := d.values.flatMap Value.enc

/-- Every string is short enough for its length, and the module for its size. -/
def Contents.Fits (d : Contents) : Prop :=
  (∀ v ∈ d.values, v.Short) ∧ 22 + (payload d).length < 2 ^ 32

section
variable {s : Snapshot} {m m' : Module} {f : File} {d : Contents} {ds : List Contents}
  {a b : CString} {vs : List Value} {bs rest : List UInt8} {fuel n : Nat}

/-! ## Names -/

theorem padded_eq (c : UInt8) (s : List UInt8) (n : Nat) :
    padded c s n = s.take n ++ List.replicate (n - s.length) c := by
  induction n generalizing s with
  | zero => simp [padded]
  | succ n ih => cases s <;> simp [padded, ih, List.replicate_succ]

theorem padded_length (c : UInt8) (s : List UInt8) (n : Nat) : (padded c s n).length = n := by
  rw [padded_eq, List.length_append, List.length_take, List.length_replicate]
  omega

theorem nameFound_self (h : a.chars.length ≤ nameLen) : nameFound (padded 0 a.chars nameLen) a = true := by
  rw [nameFound, padded_eq, List.take_of_length_le h, List.take_left]
  by_cases hfull : a.chars.length = nameLen
  · simp [hfull]
  · have hlt : 0 < nameLen - a.chars.length := by omega
    simp [hlt]

theorem nameFound_eq (ha : a.chars.length ≤ nameLen) (hb : b.chars.length ≤ nameLen)
    (h : nameFound (padded 0 a.chars nameLen) b = true) : a = b := by
  obtain ⟨as, haz⟩ := a
  obtain ⟨bs, hbz⟩ := b
  simp only at ha hb h
  simp only [nameFound, padded_eq, List.take_of_length_le ha, Bool.and_eq_true, beq_iff_eq,
    Bool.or_eq_true] at h
  obtain ⟨htake, hend⟩ := h
  -- a zero of the padding is in no name
  have hle : bs.length ≤ as.length := by
    by_contra hlt
    refine hbz ?_
    rw [← htake]
    refine List.mem_iff_getElem?.mpr ⟨as.length, ?_⟩
    rw [List.getElem?_take_of_lt (by omega), List.getElem?_append_right (Nat.le_refl _),
      List.getElem?_replicate, if_pos (by omega)]
  rw [List.take_append_of_le_length hle] at htake
  have hge : as.length ≤ bs.length := by
    rcases hend with hfull | hzero
    · omega
    · by_contra hlt
      rw [List.getElem?_append_left (by omega)] at hzero
      exact haz (List.mem_of_getElem? hzero)
  congr
  rw [← htake, List.take_of_length_le hge]

/-! ## The header of a module -/

def header (d : Contents) (size : UInt32) : List UInt8 :=
  padded 0 d.name.string.chars nameLen ++ ([d.major] ++ ([d.minor] ++ le32 size))

def encModule (d : Contents) : List UInt8 :=
  header d (UInt32.ofNat (22 + (payload d).length)) ++ payload d

theorem header_length (d : Contents) (size : UInt32) : (header d size).length = 22 := by
  simp [header, padded_length, le32_length, nameLen]

theorem encModule_length (d : Contents) : (encModule d).length = 22 + (payload d).length := by
  rw [encModule, List.length_append, header_length]

theorem writes_padded (s : CString) (c : UInt8) (n : Nat) :
    Writes (snapshotWritePaddedString · s c n) (padded c s.chars n) := writes_bytes _

theorem reads_header (d : Contents) (size : UInt32) :
    Reads readHeader (header d size) (padded 0 d.name.string.chars nameLen, d.major, d.minor, size) := by
  have hname := reads_byteArray (padded 0 d.name.string.chars nameLen)
  rw [padded_length] at hname
  have hsize := (reads_dword size).bind (k := fun size =>
    pure (padded 0 d.name.string.chars nameLen, d.major, d.minor, size)) (reads_pure _)
  rw [List.append_nil] at hsize
  exact hname.bind ((reads_byte _).bind ((reads_byte _).bind hsize))

/-! ## Writing -/

theorem create_atEnd (hs : s.file = ⟨bs, bs.length⟩) : snapshotModuleCreate s d.name.string d.major d.minor = {
      file := ⟨bs ++ header d 0, (bs ++ header d 0).length⟩
      writeMode := true
      size := 22
      offset := bs.length
      sizeOffset := bs.length + 18 } := by
  have hw : Writes (fun f => snapshotWriteDword (snapshotWriteByte (snapshotWriteByte
      (snapshotWritePaddedString f d.name.string 0 nameLen) d.major) d.minor) 0) (header d 0) := by
    rw [header, ← List.append_assoc, ← List.append_assoc]
    exact (((writes_padded _ _ _).comp (writes_byte _)).comp (writes_byte _)).comp (writes_dword 0)
  have hend := hw.atEnd bs
  have hlen : (bs ++ header d 0).length = bs.length + 22 := by
    rw [List.length_append, header_length]
  unfold snapshotModuleCreate
  dsimp only at hend ⊢
  rw [hs, hend]
  dsimp only
  rw [hlen, Nat.add_sub_cancel_left]
  rfl

theorem writeValues_ok (hshort : ∀ v ∈ vs, v.Short) (hm : m.file = ⟨bs, bs.length⟩) :
    writeValues m vs = .ok { m with
      file := ⟨bs ++ vs.flatMap Value.enc, (bs ++ vs.flatMap Value.enc).length⟩
      size := m.size + UInt32.ofNat (vs.flatMap Value.enc).length } := by
  induction vs generalizing m bs with
  | nil =>
    obtain ⟨file, _, _, _, _⟩ := m
    cases hm
    simp [writeValues]
  | cons v vs ih =>
    rw [writeValues, writeValue_ok (hshort v List.mem_cons_self) hm]
    refine (ih (fun w hw => hshort w (List.mem_cons_of_mem _ hw)) rfl).trans ?_
    have hlen : (v.enc ++ vs.flatMap Value.enc).length =
        v.enc.length + (vs.flatMap Value.enc).length := List.length_append
    rw [List.flatMap_cons, hlen, UInt32.ofNat_add, UInt32.add_assoc, List.append_assoc]

/-- Closing a module patches its size in and goes on behind it. -/
theorem close_patched {c pre : List UInt8} (hc : c.length = 4) (hpre : pre.length = m.sizeOffset)
    (hm : m.file.bytes = pre ++ c ++ rest) (hw : m.writeMode = true) :
    snapshotModuleClose m = ⟨pre ++ le32 m.size ++ rest, m.offset + m.size.toNat⟩ := by
  have hwrite : snapshotWriteDword (fseek m.file m.sizeOffset) m.size =
      fwrite (fseek m.file m.sizeOffset) (le32 m.size) := by
    refine writes_dword m.size _ ?_
    simp only [fseek, hm, ← hpre, List.length_append]
    omega
  rw [snapshotModuleClose, hw]
  simp only [↓reduceIte]
  rw [hwrite]
  simp only [fseek, fwrite, hm, overwrite_inside hpre (hc.trans (le32_length m.size).symm)]

/-- A module before it is closed. -/
def unclosed (bs : List UInt8) (d : Contents) : Module where
  file := ⟨bs ++ header d 0 ++ payload d, (bs ++ header d 0 ++ payload d).length⟩
  writeMode := true
  size := UInt32.ofNat (22 + (payload d).length)
  offset := bs.length
  sizeOffset := bs.length + 18

theorem create_written (hshort : ∀ v ∈ d.values, v.Short) (hs : s.file = ⟨bs, bs.length⟩) :
    writeValues (snapshotModuleCreate s d.name.string d.major d.minor) d.values =
      .ok (unclosed bs d) := by
  rw [create_atEnd hs, writeValues_ok hshort rfl, unclosed, UInt32.ofNat_add]
  rfl

theorem total_size (hfits : d.Fits) :
    (UInt32.ofNat (22 + (payload d).length)).toNat = 22 + (payload d).length :=
  UInt32.toNat_ofNat_of_lt' hfits.2

/-- Whatever its size has come to, a module stands behind those before it. -/
theorem close_eq (bs : List UInt8) (d : Contents) : snapshotModuleClose (unclosed bs d) =
      ⟨bs ++ encModule d, bs.length + (UInt32.ofNat (22 + (payload d).length)).toNat⟩ := by
  have hsplit : ∀ size, bs ++ header d size ++ payload d =
      (bs ++ padded 0 d.name.string.chars nameLen ++ [d.major] ++ [d.minor]) ++ le32 size ++
        payload d := fun size => by simp only [header, List.append_assoc]
  have hpre : (bs ++ padded 0 d.name.string.chars nameLen ++ [d.major] ++ [d.minor]).length =
      bs.length + 18 := by
    simp only [List.length_append, padded_length, nameLen, List.length_singleton]
  rw [encModule, ← List.append_assoc, hsplit]
  exact close_patched (m := unclosed bs d) (le32_length 0) hpre (hsplit 0) rfl

theorem close_unclosed (hfits : d.Fits) :
    snapshotModuleClose (unclosed bs d) = ⟨bs ++ encModule d, (bs ++ encModule d).length⟩ := by
  rw [close_eq, total_size hfits, List.length_append, encModule_length]

theorem writeModule_ok (hfits : d.Fits) (hs : s.file = ⟨bs, bs.length⟩) : writeModule s d =
      .ok { s with file := ⟨bs ++ encModule d, (bs ++ encModule d).length⟩ } := by
  rw [writeModule, create_written hfits.1 hs, ← close_unclosed hfits]
  rfl

theorem writeModules_ok (hfits : ∀ d ∈ ds, d.Fits) (hs : s.file = ⟨bs, bs.length⟩) : writeModules s ds =
      .ok { s with file := ⟨bs ++ ds.flatMap encModule, (bs ++ ds.flatMap encModule).length⟩ } := by
  induction ds generalizing s bs with
  | nil =>
    obtain ⟨file, _⟩ := s
    cases hs
    simp [writeModules]
  | cons d ds ih =>
    rw [writeModules, writeModule_ok (hfits d List.mem_cons_self) hs]
    refine (ih (fun e he => hfits e (List.mem_cons_of_mem _ he)) rfl).trans ?_
    rw [List.flatMap_cons, List.append_assoc]

/-! ## Finding a module -/

/-- The module as `snapshot_module_open` finds it at an offset. -/
def openedAt (bytes : List UInt8) (offset : Nat) (d : Contents) : Module where
  file := ⟨bytes, offset + 22⟩
  writeMode := false
  size := UInt32.ofNat (22 + (payload d).length)
  offset := offset
  sizeOffset := offset + 18

/-- The walk passes a module with another name. -/
theorem moduleLoop_next {e : Contents} {offset : Nat} (hfits : e.Fits) (hb : b.chars.length ≤ nameLen)
    (hne : e.name.string ≠ b) (hpos : f.pos = offset)
    (h : f.bytes.drop offset = encModule e ++ rest) :
    moduleLoop b (fuel + 1) f offset =
      moduleLoop b fuel ⟨f.bytes, offset + (encModule e).length⟩ (offset + (encModule e).length) := by
  have hread := reads_header e (UInt32.ofNat (22 + (payload e).length)) f (payload e ++ rest) (by
    rw [hpos, h, encModule, List.append_assoc])
  have hnot : nameFound (padded 0 e.name.string.chars nameLen) b = false :=
    Bool.not_eq_true _ ▸ fun hfound => hne (nameFound_eq e.name.bounded hb hfound)
  rw [moduleLoop, hread]
  dsimp only
  rw [hnot, total_size hfits, encModule_length]
  rfl

theorem moduleLoop_here {offset : Nat} (hpos : f.pos = offset) (h : f.bytes.drop offset = encModule d ++ rest) :
    moduleLoop d.name.string (fuel + 1) f offset =
      some (.ok (openedAt f.bytes offset d, d.major, d.minor)) := by
  have hread := reads_header d (UInt32.ofNat (22 + (payload d).length)) f (payload d ++ rest) (by
    rw [hpos, h, encModule, List.append_assoc])
  rw [moduleLoop, hread]
  dsimp only
  rw [nameFound_self d.name.bounded, header_length, hpos]
  rfl

theorem moduleLoop_finds {offset : Nat} (hfits : ∀ e ∈ ds, e.Fits)
    (hd : (ds.map fun e => e.name.string).Nodup) (hmem : d ∈ ds) (hfuel : ds.length ≤ fuel)
    (hpos : f.pos = offset) (h : f.bytes.drop offset = ds.flatMap encModule ++ rest) :
    ∃ at' rest', moduleLoop d.name.string fuel f offset =
        some (.ok (openedAt f.bytes at' d, d.major, d.minor)) ∧
      f.bytes.drop at' = encModule d ++ rest' := by
  induction ds generalizing f offset fuel with
  | nil => cases hmem
  | cons e ds ih =>
    obtain ⟨fuel, rfl⟩ := Nat.exists_eq_succ_of_ne_zero (n := fuel) (by
      rintro rfl
      cases hfuel)
    rw [List.flatMap_cons, List.append_assoc] at h
    obtain ⟨hnew, hd⟩ := List.nodup_cons.mp hd
    rcases List.mem_cons.mp hmem with rfl | hmem
    · exact ⟨offset, _, moduleLoop_here hpos h, h⟩
    · have hne : e.name.string ≠ d.name.string := fun heq =>
        hnew (List.mem_map.mpr ⟨d, hmem, heq.symm⟩)
      rw [moduleLoop_next (hfits e List.mem_cons_self) d.name.bounded hne hpos h]
      refine ih (fun c hc => hfits c (List.mem_cons_of_mem _ hc)) hd hmem
        (Nat.le_of_succ_le_succ hfuel) rfl ?_
      rw [← List.drop_drop, h, List.drop_left]

/-! ## Reading -/

theorem readValues_enc (hshort : ∀ v ∈ vs, v.Short)
    (hfit : m.file.pos + (vs.flatMap Value.enc).length ≤ m.offset + m.size.toNat)
    (h : m.file.bytes.drop m.file.pos = vs.flatMap Value.enc ++ rest) :
    readValues m (vs.map Value.kind) = .ok (vs, m.skip (vs.flatMap Value.enc).length) := by
  induction vs generalizing m with
  | nil => rfl
  | cons v vs ih =>
    rw [List.flatMap_cons, List.append_assoc] at h
    rw [List.flatMap_cons, List.length_append] at hfit
    have hv := readValue_enc (hshort v List.mem_cons_self) (by omega) h
    have hrest := @ih (m.skip v.enc.length) (fun w hw => hshort w (List.mem_cons_of_mem _ hw))
      (by
        change m.file.pos + v.enc.length + _ ≤ m.offset + m.size.toNat
        omega) (drop_after h)
    rw [List.map_cons, readValues, hv]
    change (readValues (m.skip v.enc.length) (vs.map Value.kind) >>= _) = _
    rw [hrest, List.flatMap_cons, List.length_append]
    change Except.ok _ = Except.ok _
    rw [Module.skip, Module.skip, Module.skip, Nat.add_assoc]

theorem readsBack_openedAt {bytes : List UInt8} {offset : Nat} (hfits : d.Fits)
    (h : bytes.drop offset = encModule d ++ rest) : ReadsBack (openedAt bytes offset d) d.values := by
  have hdrop : bytes.drop (offset + 22) = payload d ++ rest := by
    rw [encModule, List.append_assoc] at h
    have := drop_after (f := ⟨bytes, offset⟩) h
    rwa [header_length] at this
  have hend : (openedAt bytes offset d).file.pos + (payload d).length =
      (openedAt bytes offset d).offset + (openedAt bytes offset d).size.toNat := by
    simp only [openedAt, total_size hfits]
    omega
  refine ⟨_, readValues_enc hfits.1 (Nat.le_of_eq hend) hdrop, hend, fun k hk => ?_⟩
  refine readValue_outOfBounds ?_
  change _ < (openedAt bytes offset d).file.pos + (payload d).length + _
  rw [hend]
  change (openedAt bytes offset d).offset + (openedAt bytes offset d).size.toNat < _
  omega

/-! ## The header of the file -/

def versionBytes (version : ViceVersion) : List UInt8 :=
  [version.v0] ++ [version.v1] ++ [version.v2] ++ [version.v3] ++ le32 version.revision

def snapshotHeader (version : ViceVersion) (major minor : UInt8) (machine : CString) : List UInt8 :=
  snapshotMagicString.chars ++ [major] ++ [minor] ++ padded 0 machine.chars nameLen ++
    snapshotVersionMagicString.chars ++ versionBytes version

section
variable {version : ViceVersion} {major minor : UInt8} {machine : CString}

theorem snapshotCreate_eq : snapshotCreate version major minor machine = {
      file := ⟨snapshotHeader version major minor machine,
        (snapshotHeader version major minor machine).length⟩
      firstModuleOffset := (snapshotHeader version major minor machine).length } := by
  have hmagic : Writes (snapshotWritePaddedString · snapshotMagicString 0 19)
      snapshotMagicString.chars := writes_padded _ _ _
  have hversion : Writes (snapshotWritePaddedString · snapshotVersionMagicString 0 13)
      snapshotVersionMagicString.chars := writes_padded _ _ _
  have hw := ((((((((((hmagic.comp (writes_byte major)).comp (writes_byte minor)).comp
    (writes_padded machine 0 nameLen)).comp hversion).comp (writes_byte version.v0)).comp
    (writes_byte version.v1)).comp (writes_byte version.v2)).comp
    (writes_byte version.v3)).comp (writes_dword version.revision))).atEnd []
  have hbytes : snapshotHeader version major minor machine =
      snapshotMagicString.chars ++ [major] ++ [minor] ++ padded 0 machine.chars nameLen ++
        snapshotVersionMagicString.chars ++ [version.v0] ++ [version.v1] ++ [version.v2] ++
        [version.v3] ++ le32 version.revision := by
    simp only [snapshotHeader, versionBytes, List.append_assoc]
  rw [← hbytes, List.nil_append] at hw
  have hfile : (snapshotCreate version major minor machine).file =
    ⟨snapshotHeader version major minor machine,
      (snapshotHeader version major minor machine).length⟩ := hw
  have hoffset : (snapshotCreate version major minor machine).firstModuleOffset =
      (snapshotCreate version major minor machine).file.pos := rfl
  rw [hfile] at hoffset
  cases hs : snapshotCreate version major minor machine with
  | mk file firstModuleOffset =>
    rw [hs] at hfile hoffset
    rw [show file = _ from hfile, show firstModuleOffset = _ from hoffset]

end

/-! ## The round trip -/

theorem readValues_advances {ks : List Kind} (h : readValues m ks = .ok (vs, m')) :
    (∀ v ∈ vs, v.Short) ∧ Advanced m m' (vs.flatMap Value.enc).length := by
  induction ks generalizing m vs with
  | nil =>
    cases h
    exact ⟨fun v hv => absurd hv List.not_mem_nil, rfl, rfl, rfl, Nat.le_refl _⟩
  | cons k ks ih =>
    rw [readValues] at h
    cases hv : readValue m k with
    | error e =>
      rw [hv] at h
      cases h
    | ok r =>
      obtain ⟨v, m₁⟩ := r
      rw [hv] at h
      change (readValues m₁ ks >>= _) = _ at h
      cases hvs : readValues m₁ ks with
      | error e =>
        rw [hvs] at h
        cases h
      | ok r =>
        obtain ⟨ws, m₂⟩ := r
        rw [hvs] at h
        cases h
        obtain ⟨hshort, hadv⟩ := readValue_advances hv
        obtain ⟨hall, hadvs⟩ := ih hvs
        rw [List.flatMap_cons, List.length_append]
        exact ⟨List.forall_mem_cons.mpr ⟨hshort, hall⟩, hadv.trans hadvs⟩

theorem takes_header : Takes readHeader 22 :=
  (takes_byteArray nameLen).bind fun _ => takes_byte.bind fun _ => takes_byte.bind fun _ =>
    takes_dword.bind fun _ => takes_pure _

/-- A module that is found stands behind its header. -/
theorem moduleLoop_pos {offset : Nat} {v : UInt8 × UInt8} (hpos : f.pos = offset)
    (h : moduleLoop b fuel f offset = some (.ok (m, v))) : m.file.pos = m.offset + 22 := by
  induction fuel generalizing f offset with
  | zero => cases h
  | succ fuel ih =>
    rw [moduleLoop] at h
    cases hread : readHeader f with
    | error e =>
      rw [hread] at h
      cases h
    | ok r =>
      obtain ⟨⟨n, major, minor, size⟩, g⟩ := r
      rw [hread] at h
      dsimp only at h
      split at h
      · cases h
        rw [takes_header f _ g hread, hpos]
      · exact ih rfl h

theorem fits_of_readsBack (hpos : m.file.pos = m.offset + 22) (h : ReadsBack m d.values) : d.Fits := by
  obtain ⟨m', hread, hend, -⟩ := h
  obtain ⟨hshort, hadv⟩ := readValues_advances hread
  have hsize := m.size.toNat_lt
  have hle := hadv.pos
  rw [hend, hadv.offset, hadv.size, hpos] at hle
  refine ⟨hshort, ?_⟩
  rw [payload]
  omega

theorem fits_of_roundTrips (h : RoundTrips s ds) : ∀ d ∈ ds, d.Fits := by
  obtain ⟨s', -, hall⟩ := h
  intro d hd
  obtain ⟨m, hopen, hback⟩ := hall d hd 0 ds.length (Nat.le_refl _)
  exact fits_of_readsBack (moduleLoop_pos rfl hopen) hback

/-- The modules of a snapshot, with different names, are all found and read back exactly when
every string and every module is short enough. -/
theorem snapshot_roundTrip {version : ViceVersion} {major minor : UInt8} {machine : CString}
    (hd : (ds.map fun d => d.name.string).Nodup) :
    RoundTrips (snapshotCreate version major minor machine) ds ↔ ∀ d ∈ ds, d.Fits := by
  refine ⟨fits_of_roundTrips, fun hfits => ?_⟩
  rw [snapshotCreate_eq]
  generalize snapshotHeader version major minor machine = pre
  refine ⟨_, writeModules_ok hfits rfl, fun d hmem pos fuel hfuel => ?_⟩
  have hdrop : (pre ++ ds.flatMap encModule).drop pre.length = ds.flatMap encModule ++ [] := by
    rw [List.drop_left, List.append_nil]
  obtain ⟨at', rest, hopen, hat⟩ :=
    moduleLoop_finds (f := ⟨pre ++ ds.flatMap encModule, pre.length⟩) hfits hd hmem hfuel rfl hdrop
  exact ⟨_, hopen, readsBack_openedAt (hfits d hmem) hat⟩

end

/-- A module `A` with a string of 65535 characters, whose length does not fit into its word. -/
def longString : Contents where
  name := ⟨⟨[0x41], by decide⟩, by decide, by decide⟩
  major := 1
  minor := 0
  values := [.string (some ⟨List.replicate 65535 0x61, fun h =>
    absurd (List.eq_of_mem_replicate h) (by decide)⟩)]

theorem c64_noZero : (0 : UInt8) ∉ [0x43, 0x36, 0x34] := by decide

/-- A snapshot of a machine `C64`. -/
def c64Snapshot : Snapshot := snapshotCreate ⟨3, 9, 0, 0, 0⟩ 1 0 ⟨[0x43, 0x36, 0x34], c64_noZero⟩

theorem longString_lost : ¬ RoundTrips c64Snapshot [longString] := by
  intro h
  have hshort := (fits_of_roundTrips h longString (List.mem_singleton_self _)).1 _
    (List.mem_singleton_self _)
  have hlen (n : Nat) : (stringBytes (some ⟨List.replicate n 0x61, fun h =>
      absurd (List.eq_of_mem_replicate h) (by decide)⟩)).length = n + 1 := by
    rw [stringBytes, List.length_append, List.length_replicate]
    rfl
  rw [Value.Short, hlen] at hshort
  exact absurd hshort (by decide)

/-- A byte and a string in module `B`. -/
def shortString : Contents where
  name := ⟨⟨[0x42], by decide⟩, by decide, by decide⟩
  major := 2
  minor := 1
  values := [.byte 7, .string (some ⟨[0x68, 0x69], by decide⟩), .string none]

theorem snapshot_roundTrip_two : RoundTrips c64Snapshot [shortString] := by
  refine (snapshot_roundTrip (by decide)).mpr fun d hd => ?_
  rw [List.mem_singleton.mp hd]
  exact ⟨by decide, by decide⟩

end Vice.L2.SnapshotModules

import Vice.L4Machine.EventHistory

/-!
# The EVENT module, written and read

Results:
* `readModule_ok`: of a list that was written, among any other modules, the nodes up to the first
  EVENT_LIST_END are read, without their timestamps and with new ones (`readBack`).
-/
namespace Vice.L4.EventRead
open Vice.L0.ByteFile Vice.L2.Snapshot Vice.L2.SnapshotModules Vice.L4.EventHistory

section
variable {s : Snapshot} {m : Module} {e : Event} {es nodes : List Event} {rest : List UInt8}
  {cps fuel nts : Nat}

/-! ## What is written -/

/-- The values a node is written as. -/
def nodeValues (e : Event) : List Value :=
  [.dword e.type, .qword e.clk, .dword (UInt32.ofNat e.data.length), .byteArray e.data]

/-- Timestamps are left out. -/
def unstamped (nodes : List Event) : List Event := nodes.filter (·.type ≠ eventTimestamp)

/-- The module of a list. -/
def eventContents (nodes : List Event) : Contents where
  name := eventModule
  major := 0
  minor := 1
  values := (unstamped nodes).flatMap nodeValues

theorem writeValues_node (hstamp : e.type ≠ eventTimestamp) (m : Module) (vs : List Value) :
    writeValues m (nodeValues e ++ vs) = writeValues (writeNode m e) vs := by
  simp only [writeNode, hstamp, ↓reduceIte]
  simp only [nodeValues, List.cons_append, List.nil_append, writeValues, writeValue]
  rfl

theorem writeNodes (nodes : List Event) (m : Module) :
    writeValues m ((unstamped nodes).flatMap nodeValues) = .ok (nodes.foldl writeNode m) := by
  induction nodes generalizing m with
  | nil => rfl
  | cons e es ih =>
    unfold unstamped at ih ⊢
    by_cases hstamp : e.type = eventTimestamp
    · have hskip : writeNode m e = m := by simp only [writeNode, hstamp, ↓reduceIte]
      rw [List.filter_cons_of_neg (by simpa using hstamp), List.foldl_cons, hskip]
      exact ih m
    · rw [List.filter_cons_of_pos (by simpa using hstamp), List.foldl_cons, List.flatMap_cons,
        writeValues_node hstamp]
      exact ih (writeNode m e)

theorem writeModule_eq (s : Snapshot) (nodes : List Event) :
    writeModule s (eventContents nodes) = .ok (eventSnapshotWriteModule s nodes) := by
  unfold writeModule eventSnapshotWriteModule
  rw [show (eventContents nodes).values = (unstamped nodes).flatMap nodeValues from rfl, writeNodes]
  rfl

/-! ## What is read -/

/-- The bytes of a node. -/
def nodeEnc (e : Event) : List UInt8 :=
  le32 e.type ++ (le64 e.clk ++ (le32 (UInt32.ofNat e.data.length) ++ e.data))

theorem enc_eq (e : Event) : (nodeValues e).flatMap Value.enc = nodeEnc e := by
  simp only [nodeValues, nodeEnc, List.flatMap_cons, List.flatMap_nil, Value.enc, List.append_nil]

theorem enc_length (e : Event) : (nodeEnc e).length = 16 + e.data.length := by
  simp only [nodeEnc, List.length_append, le32_length, le64_length]
  omega

theorem payload_eq (nodes : List Event) :
    payload (eventContents nodes) = (unstamped nodes).flatMap nodeEnc := by
  have henc : (fun e : Event => (nodeValues e).flatMap Value.enc) = nodeEnc := funext enc_eq
  rw [payload, eventContents, List.flatMap_assoc, henc]

theorem readDword_ok {dw : UInt32} (hfit : m.file.pos + 4 ≤ m.offset + m.size.toNat)
    (h : m.file.bytes.drop m.file.pos = le32 dw ++ rest) :
    snapshotModuleReadDword m = .ok (dw, m.skip 4) :=
  readBounded_ok (reads_dword dw) (Nat.le_of_eq (le32_length _).symm) hfit h

theorem readQword_ok {qw : UInt64} (hfit : m.file.pos + 8 ≤ m.offset + m.size.toNat)
    (h : m.file.bytes.drop m.file.pos = le64 qw ++ rest) :
    snapshotModuleReadQword m = .ok (qw, m.skip 8) :=
  readBounded_ok (reads_qword qw) (Nat.le_of_eq (le64_length _).symm) hfit h

theorem skip_fits {k n : Nat} (h : m.file.pos + (k + n) ≤ m.offset + m.size.toNat) :
    (m.skip k).file.pos + n ≤ (m.skip k).offset + (m.skip k).size.toNat := by
  simp only [Module.skip]
  omega

theorem readNodeHeader_ok (hfit : m.file.pos + 16 ≤ m.offset + m.size.toNat)
    (h : m.file.bytes.drop m.file.pos = nodeEnc e ++ rest) :
    readNodeHeader m = .ok (e.type, e.clk, UInt32.ofNat e.data.length, m.skip 16) := by
  simp only [nodeEnc, List.append_assoc] at h
  have h1 : (m.skip 4).file.bytes.drop (m.skip 4).file.pos = _ := drop_after (f := m.file) h
  have h2 : ((m.skip 4).skip 8).file.bytes.drop ((m.skip 4).skip 8).file.pos = _ :=
    drop_after (f := (m.skip 4).file) h1
  have htype := readDword_ok (by omega) h
  have hclk := readQword_ok (skip_fits (by omega)) h1
  have hsize := readDword_ok (skip_fits (m := m.skip 4) (skip_fits (by omega))) h2
  simp only [readNodeHeader, htype, hclk, hsize, bind, Except.bind]
  rfl

theorem readNodeData_ok {data : List UInt8} (hlt : data.length < 2 ^ 32)
    (hfit : m.file.pos + data.length ≤ m.offset + m.size.toNat)
    (h : m.file.bytes.drop m.file.pos = data ++ rest) :
    readNodeData m (UInt32.ofNat data.length) = .ok (data, m.skip data.length) := by
  have hsize : (UInt32.ofNat data.length).toNat = data.length := UInt32.toNat_ofNat_of_lt' hlt
  unfold readNodeData
  rw [hsize]
  split
  · exact readBounded_ok (reads_byteArray data) (Nat.le_refl _) hfit h
  · rename_i hempty
    obtain rfl := List.length_eq_zero_iff.1 (Nat.eq_zero_of_not_pos hempty)
    rfl

/-- The nodes that are read, up to the first end of a list. -/
def readBack (cps : Nat) : Nat → List Event → List Event
  | _, [] => []
  | nts, e :: es =>
    let stamps := stampsBefore cps nts e
    if e.type = eventListEnd then stamps.1 ++ [e]
    else
      let next := if e.type = eventResetcpu then stamps.2 - e.clk.toNat else stamps.2
      stamps.1 ++ e :: readBack cps next es

theorem readLoop_ok (hend : ∃ e ∈ es, e.type = eventListEnd)
    (hstamps : ∀ e ∈ es, e.type ≠ eventTimestamp) (hdata : ∀ e ∈ es, e.data.length < 2 ^ 32)
    (hfuel : es.length ≤ fuel)
    (hfit : m.file.pos + (es.flatMap nodeEnc).length ≤ m.offset + m.size.toNat)
    (h : m.file.bytes.drop m.file.pos = es.flatMap nodeEnc ++ rest) :
    readLoop cps fuel m nts = some (.ok (readBack cps nts es)) := by
  induction es generalizing m fuel nts with
  | nil =>
    obtain ⟨e, he, -⟩ := hend
    cases he
  | cons e es ih =>
    obtain ⟨fuel, rfl⟩ := Nat.exists_eq_succ_of_ne_zero (n := fuel) (by
      rintro rfl
      cases hfuel)
    rw [List.flatMap_cons, List.append_assoc] at h
    rw [List.flatMap_cons, List.length_append, enc_length] at hfit
    have hheader := readNodeHeader_ok (by omega) h
    have hlt := hdata e List.mem_cons_self
    have hnode : (m.skip 16).file.bytes.drop (m.skip 16).file.pos =
        e.data ++ (es.flatMap nodeEnc ++ rest) := by
      have hsplit : nodeEnc e = (le32 e.type ++ le64 e.clk ++
          le32 (UInt32.ofNat e.data.length)) ++ e.data := by
        simp only [nodeEnc, List.append_assoc]
      rw [hsplit, List.append_assoc] at h
      exact drop_after (f := m.file) h
    have hread := readNodeData_ok hlt (skip_fits (by omega)) hnode
    have hrest : ((m.skip 16).skip e.data.length).file.bytes.drop
        ((m.skip 16).skip e.data.length).file.pos = _ := drop_after (f := (m.skip 16).file) hnode
    simp only [readLoop, hheader, hstamps e List.mem_cons_self, ↓reduceIte, hread, readBack]
    by_cases hlast : e.type = eventListEnd
    · rw [if_pos hlast, if_pos hlast]
    · have hend' : ∃ e ∈ es, e.type = eventListEnd := by
        obtain ⟨last, hmem, hl⟩ := hend
        obtain rfl | hmem := List.mem_cons.1 hmem
        · exact absurd hl hlast
        · exact ⟨last, hmem, hl⟩
      rw [if_neg hlast, if_neg hlast, ih hend' (fun x hx => hstamps x (List.mem_cons_of_mem _ hx))
        (fun x hx => hdata x (List.mem_cons_of_mem _ hx)) (Nat.le_of_succ_le_succ hfuel)
        (skip_fits (m := m.skip 16) (skip_fits (by omega))) hrest]
      rfl

/-! ## Among other modules -/

/-- The end snapshot: the modules of the machine, and the history between them. -/
def endSnapshot (version : ViceVersion) (major minor : UInt8) (machine : CString)
    (before : List Contents) (nodes : List Event) (after : List Contents) :
    Except SnapshotError Snapshot := do
  let s ← writeModules (snapshotCreate version major minor machine) before
  writeModules (eventSnapshotWriteModule s nodes) after

/-- Every module of the end snapshot has a name of its own and is short enough for its size. -/
structure Saved (before : List Contents) (nodes : List Event) (after : List Contents) : Prop where
  names : ((before ++ eventContents nodes :: after).map fun d => d.name.string).Nodup
  fits : ∀ d ∈ before ++ eventContents nodes :: after, d.Fits

variable {version : ViceVersion} {major minor : UInt8} {machine : CString}
  {before after ds : List Contents}

theorem writeModules_append :
    writeModules s (before ++ ds) = (writeModules s before).bind (writeModules · ds) := by
  induction before generalizing s with
  | nil => rfl
  | cons d before ih =>
    rw [List.cons_append, writeModules, writeModules]
    cases writeModule s d with
    | error e => rfl
    | ok s => exact ih

theorem endSnapshot_eq : endSnapshot version major minor machine before nodes after =
      writeModules (snapshotCreate version major minor machine)
        (before ++ eventContents nodes :: after) := by
  rw [writeModules_append]
  unfold endSnapshot
  cases writeModules (snapshotCreate version major minor machine) before with
  | error e => rfl
  | ok s =>
    show _ = writeModules s (eventContents nodes :: after)
    rw [writeModules, writeModule_eq]
    rfl

theorem data_lt (hfits : (eventContents nodes).Fits) (he : e ∈ unstamped nodes) : e.data.length < 2 ^ 32 := by
  have hsize := hfits.2
  rw [payload_eq] at hsize
  have hle := List.Sublist.length_le
    (List.sublist_flatten_of_mem (List.mem_map_of_mem (f := nodeEnc) he))
  rw [← List.flatMap_def, enc_length] at hle
  omega

/-- Wherever the file has been read before. -/
theorem readModule_ok (hsaved : Saved before nodes after) (hend : ∃ e ∈ nodes, e.type = eventListEnd)
    (hfuel : (before ++ eventContents nodes :: after).length ≤ fuel)
    (hfuel' : nodes.length ≤ fuel) (pos : Nat) :
    ∃ s, endSnapshot version major minor machine before nodes after = .ok s ∧
      eventSnapshotReadModule cps fuel { s with file := fseek s.file pos } =
        some (.ok (some (readBack cps clockMax (unstamped nodes)))) := by
  rw [endSnapshot_eq, snapshotCreate_eq]
  generalize snapshotHeader version major minor machine = pre
  generalize hds : before ++ eventContents nodes :: after = ds at hsaved hfuel
  have hnames := hsaved.names
  have hfits := hsaved.fits
  rw [hds] at hnames hfits
  have hmem : eventContents nodes ∈ ds := by
    rw [← hds]
    exact List.mem_append_right _ List.mem_cons_self
  refine ⟨_, writeModules_ok hfits rfl, ?_⟩
  have hdrop : (pre ++ ds.flatMap encModule).drop pre.length = ds.flatMap encModule ++ [] := by
    rw [List.drop_left, List.append_nil]
  obtain ⟨at', rest, hopen, hat⟩ := moduleLoop_finds
    (f := ⟨pre ++ ds.flatMap encModule, pre.length⟩) hfits hnames hmem hfuel rfl hdrop
  have hevent := hfits _ hmem
  generalize hbytes : pre ++ ds.flatMap encModule = bytes at *
  have hbody : (openedAt bytes at' (eventContents nodes)).file.bytes.drop
      (openedAt bytes at' (eventContents nodes)).file.pos =
        (unstamped nodes).flatMap nodeEnc ++ rest := by
    rw [encModule, List.append_assoc] at hat
    have hafter := drop_after (f := ⟨bytes, at'⟩) hat
    rw [header_length, payload_eq] at hafter
    exact hafter
  have hunstamped : (unstamped nodes).length ≤ fuel :=
    (List.length_filter_le _ nodes).trans hfuel'
  have hloop := @readLoop_ok (openedAt bytes at' (eventContents nodes)) (unstamped nodes) rest cps
    fuel clockMax ?_ ?_ (fun e he => data_lt hevent he) hunstamped ?_ hbody
  · have hopen' : snapshotModuleOpen fuel
        { file := fseek ⟨bytes, bytes.length⟩ pos, firstModuleOffset := pre.length }
        eventModule.string = some (.ok (openedAt bytes at' (eventContents nodes), 0, 1)) := hopen
    simp only [eventSnapshotReadModule]
    rw [hopen']
    show (readLoop cps fuel (openedAt bytes at' (eventContents nodes)) clockMax).map _ = _
    rw [hloop]
    rfl
  · obtain ⟨e, he, hl⟩ := hend
    refine ⟨e, List.mem_filter.2 ⟨he, ?_⟩, hl⟩
    rw [hl]
    rfl
  · intro e he
    simpa using (List.mem_filter.1 he).2
  · have htotal := total_size hevent
    rw [payload_eq] at htotal
    simp only [openedAt, payload_eq, htotal]
    omega

end
end Vice.L4.EventRead

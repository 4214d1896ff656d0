import Mathlib.Data.List.GetD
import Vice.L3Drive.BlockCommand
import Vice.L3Drive.CommandParse
import Vice.L3Drive.OpenLoops

/-!
# Renaming a file (`vdrive-command.c`)

`R` goes to the directory of the path, checks that there is no file with the new name, finds the one
with the old name and writes the sector of its entry with the new name. The name that is copied
into the entry is as long as in the command.

Results:
* `newName_of_string`: the new name is what is before the `=`.
* `vdriveCommandRename_onlyName_iff`: when a sector is written in which only the name has changed.
* `vdriveCommandRename_not_always`: a name of 17 characters goes into the track of the side sectors.
-/
namespace Vice.L3.Rename
open Vice.L2.Geometry Vice.L3.Disk Vice.L3.Drive Vice.L3.Directory Vice.L3.PartitionSwitch
open Vice.L3.CommandParse Vice.L3.BlockCommand

/-- The answers of the command: those of the sectors and its own. -/
inductive Status
  | ok | syntaxError | notFound | fileExists | pathNotFound
  | sector (error : Ipe)
  deriving DecidableEq, Repr

/-- mirrors src/cbmdos.h:91 -/
def ftDir : Nat := 6

/-- mirrors src/vdrive/vdrive-command.c:128-143 (`vdrive_haswildcard`) -/
def vdriveHaswildcard (name : Bytes) : Bool := name.contains 0x2a || name.contains 0x3f

/-- The first entry with a name. -/
def findSlot (fuel : Nat) (v : Vdrive) (name : Bytes) (type : Nat) (dir : DirContext) :
    Option (Option Buf × DirContext × Vdrive) :=
  vdriveDirFindNextSlot fuel v (vdriveDirFindFirstSlot v (some name) type dir)

/-- mirrors src/vdrive/vdrive-command.c:1728-1823: the loop over the directories of a path, which has
got to `i`. The search starts with `dir`, which is not initialised. -/
def traverse (fuel : Nat) (path : Bytes) : Nat → Nat → DirContext → Drive → Option (Status × Drive)
  | 0, _, _, d => some (.ok, d)
  | n + 1, i, dir, d =>
    let (i, d) :=
      if i + 1 < path.length ∧ byteAt path i = 0x2f ∧ byteAt path (i + 1) = 0x2f then
        (i + 2, { d with vdrive := { d.vdrive with
          headerTrack := 1
          headerSector := 1 } })
      else (if byteAt path i = 0x2f then i + 1 else i, d)
    match memchr path 0x2f i with
    | none => some (.pathNotFound, d)
    | some next =>
      if i = 0 then some (.pathNotFound, d)
      else
        match findSlot fuel d.vdrive ((path.drop i).take (next - i)) ftDir dir with
        | none => none
        | some (none, _, v) => some (.pathNotFound, { d with vdrive := v })
        | some (some slot, dir, v) =>
          let track := (slot slotFirstTrack).toNat
          let sector := (slot slotFirstSector).toNat
          let (rc, buffer) := vdriveReadSector v (fun _ => 0) track sector
          if rc = .minus then some (.sector .notReady, { d with vdrive := v })
          else if rc ≠ .ok then some (.sector rc, { d with vdrive := v })
          else
            let d := { d with vdrive := { v with
              headerTrack := track
              headerSector := sector
              dirTrack := (buffer 0).toNat
              dirSector := (buffer 1).toNat } }
            if next + 1 < path.length then traverse fuel path n next dir d else some (.ok, d)

/-- mirrors src/vdrive/vdrive-command.c:1678-1830 (`vdrive_command_switchtraverse`) for commands other
than `CD` -/
def vdriveCommandSwitchtraverse (fuel : Nat) (d : Drive) (dir : DirContext) (cmd : Cmd) :
    Option (Status × Drive) :=
  let (status, d) := vdriveCommandSwitch d cmd.drive
  if status ≠ .ok then some (.sector .notReady, d)
  else if d.vdrive.imageFormat = .np ∧ cmd.path ≠ [] then
    traverse fuel cmd.path cmd.path.length 0 dir d
  else some (.ok, d)

/-- mirrors src/vdrive/vdrive-command.c:1343-1355: an empty name becomes `=`. -/
def newName (cmd : Cmd) : Bytes :=
  let file := cmd.file.getD []
  if file ≠ [] then file else [0x3d]

/-- How far a command gets: it is refused, or it has found the entry. -/
inductive Found
  | refused (status : Status) (d : Drive)
  | entry (d : Drive) (dir : DirContext)

/-- mirrors src/vdrive/vdrive-command.c:1305-1378. `pathDir` and `dir` are the contexts, which are not
initialised, and `fuel` bounds the entries of a directory. -/
def find (fuel : Nat) (d : Drive) (pathDir dir : DirContext) (cmd : Cmd) : Option Found :=
  if d.vdrive.image.readOnly then some (.refused (.sector .writeProtectOn) d)
  else
    match vdriveCommandSwitchtraverse fuel d pathDir cmd with
    | none => none
    | some (status, d) =>
      if status ≠ .ok then some (.refused status d)
      else
        let file := cmd.file.getD []
        if cmd.more.head? ≠ some 0x3d ∨ vdriveHaswildcard file ∨ vdriveHaswildcard cmd.more then
          some (.refused .syntaxError d)
        else
          match findSlot fuel d.vdrive file ftDel dir with
          | none => none
          | some (some _, _, v) => some (.refused .fileExists { d with vdrive := v })
          | some (none, dir, v) =>
            match cbmdosCommandParsePlus cmd.more with
            | .error _ => some (.refused .syntaxError { d with vdrive := v })
            | .ok src =>
              match findSlot fuel v (src.file.getD []) ftDel dir with
              | none => none
              | some (none, _, v) => some (.refused .notFound { d with vdrive := v })
              | some (some _, dir, v) => some (.entry { d with vdrive := v } dir)

/-- mirrors src/vdrive/vdrive-command.c:1386-1388: the sector with the new name; `none` is a name that
does not end in the buffer. -/
def replaceName (dir : DirContext) (dest : Bytes) : Option Buf :=
  let name := dir.slot * 32 + slotNameOffset
  if name + dest.length ≤ 256 then
    some fun k =>
      if name ≤ k ∧ k < name + dest.length then dest.getD (k - name) 0
      else if name ≤ k ∧ k < name + 16 then 0xa0
      else dir.buffer k
  else none

/-- mirrors src/vdrive/vdrive-command.c:1293-1417 (`vdrive_command_rename`) -/
def vdriveCommandRename (fuel : Nat) (d : Drive) (pathDir dir : DirContext) (cmd : Cmd) :
    Option (Status × Drive) :=
  match find fuel d pathDir dir cmd with
  | none => none
  | some (.refused status d') => some (status, vdriveCommandReturn d' d.currentPart)
  | some (.entry d' dir) =>
    (replaceName dir (newName cmd)).map fun buffer =>
      let (rc, v) := vdriveWriteSector d'.vdrive buffer dir.track dir.sector
      (if rc = .minus then .sector .writeErrorVer else .ok,
        vdriveCommandReturn { d' with vdrive := v } d.currentPart)

/-! ## What it changes -/

/-- The 16 bytes of the name in entry `slot` are those of `dest`, and all other bytes are as before. -/
def OnlyName (old new : Buf) (slot : Nat) (dest : Bytes) : Prop :=
  ∀ k < 256, new k =
    if slot * 32 + slotNameOffset ≤ k ∧ k < slot * 32 + slotNameOffset + 16 then
      cbmdosDirSlotCreate dest (k - (slot * 32 + slotNameOffset))
    else old k

/-- The sector of the entry was read, and is now written with another name. -/
structure NameWritten (v : Vdrive) (dir : DirContext) (dest : Bytes) (after : Image) : Prop where
  read : ∃ old, vdriveReadSector v old dir.track dir.sector = (.ok, dir.buffer)
  written : ∃ new w, vdriveWriteSector v new dir.track dir.sector = (.ok, w) ∧ w.image = after ∧
    OnlyName dir.buffer new dir.slot dest

/-- The new name is the piece of the string before the `=`, or `=` where there is nothing. -/
def Named (full dest : Bytes) : Prop :=
  ∃ before name source, full = before ++ name ++ 0x3d :: source ∧ (∀ b ∈ name, b ≠ 0x3d ∧ b ≠ 0x2c) ∧
    dest = if name ≠ [] then name else [0x3d]

/-- If the command comes to an entry and answers OK, the sector of the entry is written with the name
from the string, and with nothing else changed. -/
def RenamesOnly (fuel : Nat) (d : Drive) (pathDir dir : DirContext) (full : Bytes) : Prop :=
  ∀ cmd, cbmdosCommandParsePlus full = .ok cmd → ∀ d₁ dir₁,
    find fuel d pathDir dir cmd = some (.entry d₁ dir₁) → ∃ status d',
      vdriveCommandRename fuel d pathDir dir cmd = some (status, d') ∧
        (status = .ok → Named full (newName cmd) ∧
          NameWritten d₁.vdrive dir₁ (newName cmd) d'.vdrive.image)

/-- The drive of the entry is not write protected, the name ends in the buffer, and unless the sector
has no address, the name has no more than 16 characters, or behind them what is in the sector anyway. -/
def Fits (fuel : Nat) (d : Drive) (pathDir dir : DirContext) (full : Bytes) : Prop :=
  ∀ cmd, cbmdosCommandParsePlus full = .ok cmd → ∀ d₁ dir₁,
    find fuel d pathDir dir cmd = some (.entry d₁ dir₁) →
      d₁.vdrive.image.readOnly = false ∧
      dir₁.slot * 32 + slotNameOffset + (newName cmd).length ≤ 256 ∧
      ((vdriveWriteSector d₁.vdrive dir₁.buffer dir₁.track dir₁.sector).1 = .minus ∨
        ∀ i, 16 ≤ i → i < (newName cmd).length →
          (newName cmd).getD i 0 = dir₁.buffer (dir₁.slot * 32 + slotNameOffset + i))

section
variable {v w : Vdrive} {dir dir' pathDir : DirContext} {fuel type : Nat} {name dest full : Bytes}
  {d d₁ : Drive} {cmd : Cmd} {buf new : Buf} {t s : Nat}

/-! ## The entry that is found -/

/-- The search is at an entry of a sector it has read. -/
structure At (v : Vdrive) (dir : DirContext) : Prop where
  slot : dir.slot ≤ 7
  read : ∃ old, vdriveReadSector v old dir.track dir.sector = (.ok, dir.buffer)

theorem nextEntry_at (h : dir.slot = 7 ∨ At v dir) (hn : nextEntry v dir = (.entry, dir')) : At v dir' := by
  unfold nextEntry at hn
  dsimp only at hn
  split at hn
  · split at hn
    · cases hn
    · split at hn
      · cases hn
      · rename_i hok
        cases hn
        refine ⟨Nat.zero_le 7, dir.buffer, ?_⟩
        exact Prod.ext (not_not.mp hok) rfl
  · rename_i hslot
    cases hn
    obtain h | h := h
    · exact absurd (show 8 ≤ dir.slot + 1 by omega) hslot
    · exact ⟨by dsimp only at hslot ⊢; omega, h.read⟩

theorem searchSlots_at (h : dir.slot = 7 ∨ At v dir)
    (hs : searchSlots v fuel dir = some (.entry, dir')) : At v dir' := by
  induction fuel generalizing dir with
  | zero => cases hs
  | succ fuel ih =>
    unfold searchSlots at hs
    obtain ⟨step, next, hn⟩ : ∃ step next, nextEntry v dir = (step, next) := ⟨_, _, rfl⟩
    rw [hn] at hs
    cases step with
    | ended => cases hs
    | error => cases hs
    | entry =>
      have hat := nextEntry_at h hn
      dsimp only at hs
      split at hs
      · cases hs
        exact hat
      · exact ih (Or.inr hat) hs

/-- A search for a name leaves the drive as it is, and stops at an entry. -/
theorem findSlot_at {slot : Option Buf} (h : findSlot fuel v name type dir = some (slot, dir', w)) :
    w = v ∧ (slot.isSome → At v dir') := by
  unfold findSlot vdriveDirFindNextSlot at h
  cases hs : searchSlots v fuel (vdriveDirFindFirstSlot v (some name) type dir) with
  | none =>
    rw [hs] at h
    cases h
  | some r =>
    obtain ⟨step, found⟩ := r
    have hlength := OpenLoops.searchSlots_length hs
    rw [hs] at h
    cases step with
    | entry =>
      cases h
      exact ⟨rfl, fun _ => searchSlots_at (Or.inl rfl) hs⟩
    | error =>
      cases h
      exact ⟨rfl, fun h => by cases h⟩
    | ended =>
      have hname : ¬ found.findLength < 0 := by
        rw [show found.findLength = (name.length : Int) from hlength]
        omega
      dsimp only at h
      rw [if_neg hname] at h
      cases h
      exact ⟨rfl, fun h => by cases h⟩

/-- What a command has got to: its string goes on with `=`, and the entry is in a sector it read. -/
theorem find_entry (h : find fuel d pathDir dir cmd = some (.entry d₁ dir')) :
    cmd.more.head? = some 0x3d ∧ At d₁.vdrive dir' := by
  unfold find at h
  split at h
  · cases h
  · split at h
    · cases h
    · split at h
      · cases h
      · dsimp only at h
        split at h
        · cases h
        · rename_i hpassed
          rw [not_or, not_not] at hpassed
          refine ⟨hpassed.1, ?_⟩
          split at h
          · cases h
          · cases h
          · split at h
            · cases h
            · split at h
              · cases h
              · cases h
              · rename_i hfound
                cases h
                obtain ⟨hv, hat⟩ := findSlot_at hfound
                rw [← hv] at hat
                exact hat rfl

/-! ## The sector that is written -/

/-- Writing a sector that was read: what the write answers does not depend on what is written. -/
inductive Writes (v : Vdrive) (t s : Nat) : Prop
  | refused (readOnly : v.image.readOnly = true)
      (status : ∀ buf, (vdriveWriteSector v buf t s).1 = .writeProtectOn)
  | failed (writable : v.image.readOnly = false) (minus : ∀ buf, (vdriveWriteSector v buf t s).1 = .minus)
  | stored (writable : v.image.readOnly = false) (n : Nat)
      (data : ∀ buf, ∃ w, vdriveWriteSector v buf t s = (.ok, w) ∧ w.image.data n = buf)

theorem writes_of_read (hread : vdriveReadSector v buf t s = (.ok, new)) : Writes v t s := by
  cases hro : v.image.readOnly with
  | true =>
    refine .refused hro fun buf => ?_
    unfold vdriveWriteSector
    rw [if_pos hro]
  | false =>
    have hrw : ¬ v.image.readOnly = true := by simp [hro]
    unfold vdriveReadSector at hread
    cases hp : vdriveLogToPhy v t s with
    | none =>
      rw [hp] at hread
      cases hread
    | some p =>
      rw [hp] at hread
      have hwrite : ∀ buf, vdriveWriteSector v buf t s =
          ((writeSector v.image buf p.1 p.2).1, { v with image := (writeSector v.image buf p.1 p.2).2 }) := by
        intro buf
        unfold vdriveWriteSector
        rw [if_neg hrw, hp]
      cases hc : checkSector v.image.shape p.1 p.2 with
      | error e =>
        dsimp only at hread
        unfold readSector at hread
        rw [hc] at hread
        cases hread
      | ok n =>
        by_cases ho : hasOffset n
        · refine .stored hro n fun buf => ⟨{ v with image := (writeSector v.image buf p.1 p.2).2 }, ?_, ?_⟩
          · rw [hwrite]
            unfold writeSector
            rw [if_neg hrw, hc]
            dsimp only
            rw [if_pos ho]
          · unfold writeSector
            rw [if_neg hrw, hc]
            dsimp only
            rw [if_pos ho]
            exact Function.update_self ..
        · refine .failed hro fun buf => ?_
          rw [hwrite]
          unfold writeSector
          rw [if_neg hrw, hc]
          dsimp only
          rw [if_neg ho]

/-- The name that is copied is all that changes if what of it comes behind its place is there anyway. -/
theorem replaceName_onlyName (hr : replaceName dir dest = some new) :
    OnlyName dir.buffer new dir.slot dest ↔ ∀ i, 16 ≤ i → i < dest.length →
      dest.getD i 0 = dir.buffer (dir.slot * 32 + slotNameOffset + i) := by
  unfold replaceName at hr
  dsimp only at hr
  split at hr
  · rename_i hfits
    cases hr
    unfold OnlyName
    generalize dir.slot * 32 + slotNameOffset = name at hfits
    constructor
    · intro h i hi hlen
      have hbyte := h (name + i) (by omega)
      dsimp only at hbyte
      rwa [if_pos ⟨by omega, by omega⟩, if_neg (by omega), Nat.add_sub_cancel_left] at hbyte
    · intro h k hk
      dsimp only
      by_cases hname : name ≤ k ∧ k < name + 16
      · unfold cbmdosDirSlotCreate
        by_cases hcopied : k < name + dest.length
        · have hlt : k - name < (dest.take 16).length := by rw [List.length_take]; omega
          rw [if_pos ⟨hname.1, hcopied⟩, if_pos hname, List.getD_eq_getElem _ _ hlt, List.getElem_take,
            List.getD_eq_getElem _ _ (by omega)]
        · have hge : (dest.take 16).length ≤ k - name := by rw [List.length_take]; omega
          rw [if_neg (by omega), if_pos hname, if_pos hname, List.getD_eq_default _ _ hge]
      · rw [if_neg hname]
        by_cases hcopied : name ≤ k ∧ k < name + dest.length
        · rw [if_pos hcopied, if_neg hname]
          have := h (k - name) (by omega) (by omega)
          rwa [Nat.add_sub_cancel' hcopied.1] at this
        · rw [if_neg hcopied, if_neg hname]
  · cases hr

theorem replaceName_isSome :
    (replaceName dir dest).isSome ↔ dir.slot * 32 + slotNameOffset + dest.length ≤ 256 := by
  unfold replaceName
  dsimp only
  split
  · rename_i h
    exact iff_of_true rfl h
  · rename_i h
    exact iff_of_false (by simp) h

/-- The new name and the old one are the end of the string. -/
theorem newName_of_string (hparse : cbmdosCommandParsePlus full = .ok cmd)
    (hmore : cmd.more.head? = some 0x3d) : Named full (newName cmd) := by
  have htail : ∃ tail colon p, cmd = parseTail full tail colon p := by
    unfold cbmdosCommandParsePlus at hparse
    dsimp only at hparse
    split at hparse
    · cases hparse
    · split at hparse
      · cases hparse
      · split at hparse
        · cases hparse
          cases hmore
        · split at hparse
          · cases hparse
            cases hmore
          · split at hparse
            · cases hparse
              cases hmore
            · cases hparse
              exact ⟨_, _, _, rfl⟩
  obtain ⟨tail, colon, p, rfl⟩ := htail
  obtain ⟨name, hfile, hsuffix, hname, -⟩ := parseTail_parts full tail colon p
  obtain ⟨before, hfull⟩ := hsuffix
  generalize hcmd : parseTail full tail colon p = cmd at hmore hfile hfull
  obtain ⟨source, hsource⟩ : ∃ source, cmd.more = 0x3d :: source := by
    cases h : cmd.more with
    | nil =>
      rw [h] at hmore
      cases hmore
    | cons b source =>
      rw [h] at hmore
      cases hmore
      exact ⟨source, rfl⟩
  refine ⟨before, name, source, ?_, hname, ?_⟩
  · rw [← hfull, hsource, List.append_assoc]
  · unfold newName
    rw [hfile]
    rfl

/-! ## The command -/

/-- Going back to the partition leaves the image alone. -/
theorem vdriveCommandReturn_image (d : Drive) (origpart : Int) :
    (vdriveCommandReturn d origpart).vdrive.image = d.vdrive.image := by
  unfold vdriveCommandReturn
  split
  · rfl
  · split
    · unfold vdriveSetDiskGeometry
      dsimp only
      split <;> rfl
    · rfl

theorem rename_entry (h : find fuel d pathDir dir cmd = some (.entry d₁ dir'))
    (hr : replaceName dir' (newName cmd) = some new) :
    vdriveCommandRename fuel d pathDir dir cmd =
      some (if (vdriveWriteSector d₁.vdrive new dir'.track dir'.sector).1 = .minus then
          .sector .writeErrorVer else .ok,
        vdriveCommandReturn
          { d₁ with vdrive := (vdriveWriteSector d₁.vdrive new dir'.track dir'.sector).2 }
          d.currentPart) := by
  unfold vdriveCommandRename
  rw [h]
  dsimp only
  rw [hr]
  rfl

/-- Where the sector is stored, it is stored with only the name changed if the copied name fits. -/
theorem nameWritten_iff (hat : At v dir) {n : Nat}
    (hdata : ∀ buf, ∃ w, vdriveWriteSector v buf dir.track dir.sector = (.ok, w) ∧ w.image.data n = buf)
    (hr : replaceName dir dest = some new) :
    NameWritten v dir dest (vdriveWriteSector v new dir.track dir.sector).2.image ↔
      ∀ i, 16 ≤ i → i < dest.length →
        dest.getD i 0 = dir.buffer (dir.slot * 32 + slotNameOffset + i) := by
  rw [← replaceName_onlyName hr]
  obtain ⟨w, hw, hwdata⟩ := hdata new
  constructor
  · rintro ⟨-, other, w', hw', himage, honly⟩
    obtain ⟨w'', hw'', hdata'⟩ := hdata other
    rw [hw'] at hw''
    cases hw''
    rw [himage, hw, hwdata] at hdata'
    rwa [← hdata'] at honly
  · intro honly
    exact ⟨hat.read, new, w, hw, by rw [hw], honly⟩

/-- What a sector that is written with only the name changed says of the name. A write protected drive
answers OK and writes nothing. -/
theorem NameWritten.behind (h : NameWritten v dir dest
    (vdriveWriteSector v new dir.track dir.sector).2.image) (hat : At v dir)
    (hr : replaceName dir dest = some new) :
    v.image.readOnly = false ∧ ∀ i, 16 ≤ i → i < dest.length →
      dest.getD i 0 = dir.buffer (dir.slot * 32 + slotNameOffset + i) := by
  obtain ⟨old, hread⟩ := hat.read
  obtain ⟨-, other, w, hw, -⟩ := id h
  cases writes_of_read hread with
  | refused _ hstatus =>
    have := hstatus other
    rw [hw] at this
    cases this
  | failed _ hminus =>
    have := hminus other
    rw [hw] at this
    cases this
  | stored hro n hdata => exact ⟨hro, (nameWritten_iff hat hdata hr).mp h⟩

/-- mirrors src/vdrive/vdrive-command.c:1293-1417 (`vdrive_command_rename`): a string renames an entry
and changes nothing else exactly under these conditions. -/
theorem vdriveCommandRename_onlyName_iff (fuel : Nat) (d : Drive) (pathDir dir : DirContext)
    (full : Bytes) : RenamesOnly fuel d pathDir dir full ↔ Fits fuel d pathDir dir full := by
  constructor
  · intro h cmd hparse d₁ dir₁ hfind
    obtain ⟨hmore, hat⟩ := find_entry hfind
    obtain ⟨status, d', hrun, hok⟩ := h cmd hparse d₁ dir₁ hfind
    obtain ⟨new, hr⟩ : ∃ new, replaceName dir₁ (newName cmd) = some new := by
      cases hr : replaceName dir₁ (newName cmd) with
      | some new => exact ⟨new, rfl⟩
      | none =>
        unfold vdriveCommandRename at hrun
        rw [hfind] at hrun
        dsimp only at hrun
        rw [hr] at hrun
        cases hrun
    have hfits := replaceName_isSome.mp (Option.isSome_of_eq_some hr)
    rw [rename_entry hfind hr] at hrun
    cases hrun
    by_cases hminus : (vdriveWriteSector d₁.vdrive new dir₁.track dir₁.sector).1 = .minus
    · obtain ⟨old, hread⟩ := hat.read
      cases writes_of_read hread with
      | refused _ hstatus =>
        rw [hstatus new] at hminus
        cases hminus
      | failed hro hfailed => exact ⟨hro, hfits, Or.inl (hfailed _)⟩
      | stored _ _ hdata =>
        obtain ⟨w, hw, -⟩ := hdata new
        rw [hw] at hminus
        cases hminus
    · rw [if_neg hminus, vdriveCommandReturn_image] at hok
      obtain ⟨hro, htail⟩ := (hok rfl).2.behind hat hr
      exact ⟨hro, hfits, Or.inr htail⟩
  · intro h cmd hparse d₁ dir₁ hfind
    obtain ⟨hmore, hat⟩ := find_entry hfind
    obtain ⟨hro, hfits, hrest⟩ := h cmd hparse d₁ dir₁ hfind
    obtain ⟨new, hr⟩ := Option.isSome_iff_exists.mp (replaceName_isSome.mpr hfits)
    refine ⟨_, _, rename_entry hfind hr, fun hok => ⟨newName_of_string hparse hmore, ?_⟩⟩
    rw [vdriveCommandReturn_image]
    obtain ⟨old, hread⟩ := hat.read
    cases writes_of_read hread with
    | refused hprotected =>
      rw [hro] at hprotected
      cases hprotected
    | failed _ hminus =>
      rw [if_pos (hminus new)] at hok
      cases hok
    | stored _ n hdata =>
      obtain ⟨w, hw, -⟩ := hdata dir₁.buffer
      refine (nameWritten_iff hat hdata hr).mpr (hrest.resolve_left ?_)
      simp [hw]

end

/-! ## A long name -/

/-- A disk with one file, `OLD`. -/
def oneFile (n : Nat) : Buf := fun k =>
  if n ≠ 358 ∨ k ≥ 32 then 0
  else [0, 0, 0x82, 17, 0, 0x4f, 0x4c, 0x44].getD k (if k < 21 then 0xa0 else 0)

def oldDrive : Drive :=
  { freshDrive with vdrive := { freshDrive.vdrive with
    image := { freshDrive.vdrive.image with data := oneFile } } }

/-- A context that is not initialised. -/
def anyContext : DirContext where
  buffer := fun _ => 0
  findLength := 0
  findNslot := fun _ => 0
  findType := 0
  slot := 0
  track := 0
  sector := 0
  timeLow := 0
  timeHigh := 0

/-- `R:ABCDEFGHIJKLMNOPQ=OLD` -/
def longName : Bytes :=
  [0x52, 0x3a] ++ (List.range 17).map (fun k => UInt8.ofNat (0x41 + k)) ++ [0x3d, 0x4f, 0x4c, 0x44]

def longCmd : Cmd where
  command := [0x52]
  abbrv := [0x52]
  drive := 0
  path := []
  file := some ((longName.drop 2).take 17)
  more := [0x3d, 0x4f, 0x4c, 0x44]
  colon := true

/-- The number of the entry found, and the track of its side sectors. -/
def Found.sideTrack : Found → Option (Nat × UInt8)
  | .refused _ _ => none
  | .entry _ dir => some (dir.slot, slotBytes dir.buffer dir.slot slotSideTrack)

/-- The track of the side sectors becomes `Q`. -/
theorem vdriveCommandRename_not_always : ¬ RenamesOnly 20 oldDrive anyContext anyContext longName := by
  intro h
  have hparse : cbmdosCommandParsePlus longName = .ok longCmd := by decide +kernel
  have hentry : (find 20 oldDrive anyContext anyContext longCmd).bind Found.sideTrack = some (0, 0) := by
    decide +kernel
  have hanswer : (vdriveCommandRename 20 oldDrive anyContext anyContext longCmd).map (·.1) =
      some .ok := by
    decide +kernel
  rw [Option.bind_eq_some_iff] at hentry
  obtain ⟨found, hfind, hplace⟩ := hentry
  cases found with
  | refused status d => cases hplace
  | entry d₁ dir₁ =>
    obtain ⟨hslot, hside⟩ := Prod.mk.inj (Option.some.inj hplace)
    obtain ⟨-, hat⟩ := find_entry hfind
    obtain ⟨new, hr⟩ : ∃ new, replaceName dir₁ (newName longCmd) = some new :=
      Option.isSome_iff_exists.mp (replaceName_isSome.mpr (by rw [hslot]; decide))
    obtain ⟨status, d', hrun, hok⟩ := h longCmd hparse d₁ dir₁ hfind
    rw [hrun] at hanswer
    have hwritten := (hok (Option.some.inj hanswer)).2
    rw [rename_entry hfind hr] at hrun
    cases hrun
    rw [vdriveCommandReturn_image] at hwritten
    have hbyte := (hwritten.behind hat hr).2 16 (Nat.le_refl _) (by decide)
    have hat21 : dir₁.buffer (dir₁.slot * 32 + slotNameOffset + 16) = 0 := hside
    rw [hat21] at hbyte
    exact absurd hbyte (by decide)

end Vice.L3.Rename

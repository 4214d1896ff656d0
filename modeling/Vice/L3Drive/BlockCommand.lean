import Mathlib.Data.Int.Order.Basic
import Vice.L3Drive.BamSearch
import Vice.L3Drive.PartitionSwitch

/-!
# Allocating and freeing a block by command (`vdrive-command.c`)

`B-A` and `B-F` take the numbers of a drive, a track and a sector, switch to that drive and have
the BAM allocate or free the sector. Nothing compares the track and the sector with the disk: the BAM
computes where the bit of such a sector would be, and that is a bit of something else.

Results:
* `vdriveCommandBlock_confined_iff`: when a command answers with an error or changes the bit and the
  count of its sector, and nothing else.
* `vdriveCommandBlock_not_always`: `B-F` of sector 24 changes the count of the next track.
-/
namespace Vice.L3.BlockCommand
open Vice.L0.Bitmap Vice.L3.Disk Vice.L3.Drive Vice.L3.Bam Vice.L3.BamEntry Vice.L3.BamLayout
open Vice.L3.BamSearch Vice.L3.PartitionSwitch

/-! ## Parameters -/

def isSpace (c : UInt8) : Bool := c = 32 ∨ (9 ≤ c ∧ c ≤ 13)
def isDigit (c : UInt8) : Bool := 48 ≤ c ∧ c ≤ 57
def isAlnum (c : UInt8) : Bool := isDigit c ∨ (65 ≤ c ∧ c ≤ 90) ∨ (97 ≤ c ∧ c ≤ 122)

/-- `strtol(bp, &bp, 10)` with 64 bits; a string without a number is 0, and nothing of it is read. -/
def strtol (bp : List UInt8) : Int × List UInt8 :=
  let (sign, rest) : Int × List UInt8 :=
    match bp.dropWhile isSpace with
    | 0x2d :: rest => (-1, rest)
    | 0x2b :: rest => (1, rest)
    | rest => (1, rest)
  let digits := rest.takeWhile isDigit
  if digits = [] then (0, bp)
  else
    let n : Int := digits.foldl (fun n c => 10 * n + (c.toNat - 48 : Nat)) 0
    (max (-2 ^ 63) (min (2 ^ 63 - 1) (sign * n)), rest.drop digits.length)

/-- `(int)x` -/
def toInt (x : Int) : Int := Int.bmod x (2 ^ 32)

/-- `(unsigned int)x` -/
def toUnsigned (x : Int) : Nat := (x % 2 ^ 32).toNat

/-- What is skipped before a number: ` `, `)`, `,`, `#` and the cursor. -/
def isSkipped (c : UInt8) : Bool := c = 0x20 ∨ c = 0x29 ∨ c = 0x2c ∨ c = 0x23 ∨ c = 0x1d

/-- The numbers found, and the rest of the string. -/
def getBlockParameters : Nat → List UInt8 → List Int × List UInt8
  | 0, bp => ([], bp)
  | ip + 1, bp =>
    match bp.dropWhile isSkipped with
    | [] => ([], [])
    | c :: bp =>
      let (p, bp) := strtol (c :: bp)
      let (ps, bp) := getBlockParameters ip bp
      (toInt p :: ps, bp)

/-- mirrors src/vdrive/vdrive-command.c:454-483 (`vdrive_command_get_block_parameters`), up to the
zero byte; `none` is a wrong end. -/
def vdriveCommandGetBlockParameters (buf : List UInt8) : Option (List Int) :=
  match getBlockParameters 4 (buf.takeWhile (· ≠ 0)) with
  | (ps, endsign :: _) => if isAlnum endsign ∧ ps.length = 4 then none else some ps
  | (ps, []) => some ps

/-! ## The command -/

inductive BlockStatus
  | ok | syntaxError | writeProtectOn | notReady | noBlock
  deriving DecidableEq, Repr

/-- How far a command gets: it is refused, or the BAM is asked for a sector of the drive that is
current then. -/
inductive Reached
  | refused (status : BlockStatus) (d : Drive)
  | sector (d : Drive) (track sector : Nat)

/-- mirrors src/vdrive/vdrive-command.c:703-738: `file` is `cmd->file`, which is a null pointer where
nothing follows the command, and `partition` the one of each of the 16 channels. `none` is an access
through the null pointer or outside the channels. -/
def reached (d : Drive) (partition : Nat → Nat) (file : Option (List UInt8)) : Option Reached :=
  if d.vdrive.image.readOnly then some (.refused .writeProtectOn d)
  else file.bind fun file =>
    match vdriveCommandGetBlockParameters file with
    | none => some (.refused .syntaxError d)
    | some ps =>
      let drive := ps.getD 0 0
      let channel := ps.getD 3 0
      if d.vdrive.haspt ∧ drive ≠ 0 then some (.refused .notReady d)
      else if d.vdrive.haspt ∧ ¬ (0 ≤ channel ∧ channel < 16) then none
      else
        let drive := if d.vdrive.haspt then (partition channel.toNat : Int) else drive
        match vdriveCommandSwitch d drive with
        | (.ok, d') => some (.sector d' (toUnsigned (ps.getD 1 0)) (toUnsigned (ps.getD 2 0)))
        | (_, d') => some (.refused .notReady (vdriveCommandReturn d' d.currentPart))

/-- mirrors src/vdrive/vdrive-command.c:740-762: what the BAM does, and the answer with the track and
the sector it names. -/
def blockSector (v : Vdrive) (alloc : Bool) (track sector : Nat) : (BlockStatus × Nat × Nat) × Vdrive :=
  if alloc then
    let (isFree, v) := vdriveBamAllocateSector v track sector
    if isFree then ((.ok, 0, 0), v)
    else
      match vdriveBamAllocNextFreeSector v track sector with
      | (some (t, s), v) => ((.noBlock, t, s), (vdriveBamFreeSector v t s).2)
      | (none, v) => ((.noBlock, 0, 0), v)
  else ((.ok, 0, 0), (vdriveBamFreeSector v track sector).2)

/-- mirrors src/vdrive/vdrive-command.c:603-797 (`vdrive_command_block`) for `B-A`, where `alloc` is
set, and `B-F`. -/
def vdriveCommandBlock (d : Drive) (partition : Nat → Nat) (alloc : Bool)
    (file : Option (List UInt8)) : Option ((BlockStatus × Nat × Nat) × Drive) :=
  (reached d partition file).map fun
    | .refused status d' => ((status, 0, 0), d')
    | .sector d' track sector =>
      let (answer, v) := blockSector d'.vdrive alloc track sector
      (answer, vdriveCommandReturn (d'.called v) d.currentPart)

/-! ## What it changes -/

/-- A sector of a track the disk has. -/
def Existing (v : Vdrive) (t s : Nat) : Prop := OnDisk v t s ∧ t ≤ v.numTracks

/-- The sector's bit says the other thing now, its count is one less or more, and all other bytes are
as they were. -/
def Toggles (disk : Nat → Buf) (v w : Vdrive) (alloc : Bool) (t s : Nat) : Prop :=
  ∃ e, entryOf v (view v disk) t s = some e ∧ getBit (view v disk) e.bits (bitNumber v s) = alloc ∧
    view w disk = if alloc then e.take (view v disk) (bitNumber v s)
      else e.give (view v disk) (bitNumber v s)

/-- The command answers with an error or toggles its sector, and what it takes for the entry of its
track is one, with a bit for the sector. -/
structure Confined (disk : Nat → Buf) (d : Drive) (partition : Nat → Nat) (alloc : Bool)
    (file : Option (List UInt8)) : Prop where
  answered : ∃ answer d', vdriveCommandBlock d partition alloc file = some (answer, d') ∧
    (answer.1 = .ok → ∃ d₁ t s, reached d partition file = some (.sector d₁ t s) ∧
      Existing d₁.vdrive t s ∧ Toggles disk d₁.vdrive d'.vdrive alloc t s)
  inside : ∀ d₁ t s, reached d partition file = some (.sector d₁ t s) →
    ∀ e, entryOf d₁.vdrive (view d₁.vdrive disk) t s = some e →
      Existing d₁.vdrive t s ∧ bitNumber d₁.vdrive s < e.sectors ∧ Inside d₁.vdrive e

/-- The command has parameters, with a partition table a channel that exists, and if it is not
refused, its sector exists, and is allocated if it is to be freed. Allocating a sector of a track without
an entry is an error, too. -/
def Meets (disk : Nat → Buf) (d : Drive) (partition : Nat → Nat) (alloc : Bool)
    (file : Option (List UInt8)) : Prop :=
  match reached d partition file with
  | none => False
  | some (.refused _ _) => True
  | some (.sector d₁ t s) =>
    match entryOf d₁.vdrive (view d₁.vdrive disk) t s with
    | none => alloc = true
    | some e => Existing d₁.vdrive t s ∧
      (alloc = true ∨ getBit (view d₁.vdrive disk) e.bits (bitNumber d₁.vdrive s) = false)

section
variable {d d₁ : Drive} {disk : Nat → Buf} {partition : Nat → Nat} {alloc : Bool}
  {file : Option (List UInt8)} {v w : Vdrive} {t s : Nat}

theorem reached_refused {status : BlockStatus} (h : reached d partition file = some (.refused status d₁)) :
    status ≠ .ok := by
  unfold reached at h
  split at h
  · cases h
    decide
  · rw [Option.bind_eq_some_iff] at h
    obtain ⟨file, -, h⟩ := h
    split at h
    · cases h
      decide
    · dsimp only at h
      split at h
      · cases h
        decide
      · split at h
        · cases h
        · split at h
          · cases h
          · cases h
            decide

/-- Going back to the partition leaves the BAM alone. -/
theorem vdriveCommandReturn_view (d : Drive) (origpart : Int) :
    view (vdriveCommandReturn d origpart).vdrive disk = view d.vdrive disk := by
  have hbytes : ∀ w : Vdrive, w.bam = d.vdrive.bam → w.bamState = d.vdrive.bamState →
      view w disk = view d.vdrive disk := by
    intro w hbam hstate
    unfold view
    rw [hbam, hstate]
  unfold vdriveCommandReturn
  split
  · rfl
  · split
    · unfold vdriveSetDiskGeometry
      dsimp only
      split
      · exact hbytes _ rfl rfl
      · exact hbytes _ rfl rfl
    · rfl

/-- A sector that is not free is only named in the answer. -/
theorem blockSector_notFree (h : vdriveBamAllocateSector v t s = (false, w)) :
    (blockSector v true t s).1.1 = .noBlock := by
  unfold blockSector
  rw [if_pos rfl, h]
  dsimp only
  rw [if_neg (by decide)]
  cases vdriveBamAllocNextFreeSector w t s with
  | mk found u =>
    cases found with
    | none => rfl
    | some ts => rfl

theorem blockSector_allocate (h : Laid v disk) (hd : OnDisk v t s) :
    (blockSector v true t s).1.1 = .noBlock ∨ Toggles disk v (blockSector v true t s).2 true t s := by
  obtain ⟨w, ⟨hw, -, e, he, hbit, hb⟩ | ⟨hw, -, -⟩⟩ := allocate_outcome h hd
  · right
    have hrun : blockSector v true t s = ((.ok, 0, 0), w) := by
      unfold blockSector
      rw [if_pos rfl, hw]
      rfl
    rw [hrun]
    exact ⟨e, he, hbit, by rw [if_pos rfl]; exact hb.view⟩
  · exact Or.inl (blockSector_notFree hw)

theorem blockSector_free (h : Laid v disk) (hd : OnDisk v t s) {e : Entry}
    (he : entryOf v (view v disk) t s = some e)
    (hbit : getBit (view v disk) e.bits (bitNumber v s) = false) :
    Toggles disk v (blockSector v false t s).2 false t s := by
  obtain ⟨w, hw, hb⟩ := vdriveBamFreeSector_ok h.mounted he (entry_inside h.mounted h.fitted hd he)
    (entry_shape h.mounted h.fitted hd he).bit
  rw [hbit, if_neg (by decide)] at hb
  have hrun : blockSector v false t s = ((.ok, 0, 0), w) := by
    unfold blockSector
    rw [if_neg (by decide), hw]
  rw [hrun]
  exact ⟨e, he, hbit, by rw [if_neg (by decide)]; exact hb.view⟩

theorem block_sector (hr : reached d partition file = some (.sector d₁ t s)) :
    vdriveCommandBlock d partition alloc file = some ((blockSector d₁.vdrive alloc t s).1,
      vdriveCommandReturn (d₁.called (blockSector d₁.vdrive alloc t s).2) d.currentPart) := by
  unfold vdriveCommandBlock
  rw [hr]
  rfl

/-- What the command leaves is what the BAM has left. -/
theorem toggles_return (h : Toggles disk v w alloc t s) (origpart : Int) :
    Toggles disk v (vdriveCommandReturn (d.called w) origpart).vdrive alloc t s := by
  obtain ⟨e, he, hbit, hview⟩ := h
  exact ⟨e, he, hbit, (vdriveCommandReturn_view _ _).trans hview⟩

/-- mirrors src/vdrive/vdrive-command.c:603-797 (`vdrive_command_block`): on disks with a BAM that can
be read, a `B-A` or `B-F` command is confined to its sector exactly under these conditions. -/
theorem vdriveCommandBlock_confined_iff
    (hlaid : ∀ d₁ t s, reached d partition file = some (.sector d₁ t s) → Laid d₁.vdrive disk) :
    Confined disk d partition alloc file ↔ Meets disk d partition alloc file := by
  unfold Meets
  cases hr : reached d partition file with
  | none =>
    refine ⟨fun h => ?_, False.elim⟩
    obtain ⟨answer, d', hrun, -⟩ := h.answered
    unfold vdriveCommandBlock at hrun
    rw [hr] at hrun
    cases hrun
  | some r =>
    cases r with
    | refused status d₁ =>
      refine ⟨fun _ => trivial, fun _ => ⟨⟨(status, 0, 0), d₁, ?_, fun hok => ?_⟩, ?_⟩⟩
      · unfold vdriveCommandBlock
        rw [hr]
        rfl
      · exact absurd hok (reached_refused hr)
      · intro d₂ t s hsector
        rw [hr] at hsector
        cases hsector
    | sector d₁ t s =>
      have hrun := @block_sector d d₁ partition alloc file t s hr
      have hl := hlaid d₁ t s hr
      cases he : entryOf d₁.vdrive (view d₁.vdrive disk) t s with
      | none =>
        have hinside : ∀ d₂ t' s', reached d partition file = some (.sector d₂ t' s') →
            entryOf d₂.vdrive (view d₂.vdrive disk) t' s' = none := by
          intro d₂ t' s' h
          rw [hr] at h
          cases h
          exact he
        simp only [he]
        constructor
        · intro h
          obtain ⟨answer, d', hrun', hok⟩ := h.answered
          by_contra hfree
          rw [Bool.not_eq_true] at hfree
          subst hfree
          rw [hrun] at hrun'
          cases hrun'
          obtain ⟨d₂, t', s', hr', -, e, he', -⟩ := hok rfl
          rw [hinside d₂ t' s' hr'] at he'
          cases he'
        · rintro rfl
          obtain ⟨w, hw, -⟩ := vdriveBamAllocateSector_none hl.mounted he
          refine ⟨⟨_, _, hrun, fun hok => ?_⟩, fun d₂ t' s' hr' e he' => ?_⟩
          · rw [blockSector_notFree hw] at hok
            cases hok
          · rw [hinside d₂ t' s' hr'] at he'
            cases he'
      | some e =>
        simp only [he]
        constructor
        · intro h
          obtain ⟨hex, -⟩ := h.inside d₁ t s hr e he
          refine ⟨hex, ?_⟩
          cases alloc with
          | true => exact Or.inl rfl
          | false =>
            right
            obtain ⟨answer, d', hrun', hok⟩ := h.answered
            rw [hrun] at hrun'
            cases hrun'
            obtain ⟨d₂, t', s', hr', -, e', he', hbit, -⟩ := hok rfl
            rw [hr] at hr'
            cases hr'
            rw [he] at he'
            cases he'
            exact hbit
        · rintro ⟨hex, hbit⟩
          constructor
          · refine ⟨_, _, hrun, fun hok => ⟨d₁, t, s, hr, hex, toggles_return ?_ _⟩⟩
            cases alloc with
            | true =>
              rcases blockSector_allocate hl hex.1 with hno | htoggles
              · rw [hno] at hok
                cases hok
              · exact htoggles
            | false => exact blockSector_free hl hex.1 he (hbit.resolve_left (by decide))
          · intro d₂ t' s' hr' e' he'
            rw [hr] at hr'
            cases hr'
            rw [he] at he'
            cases he'
            exact ⟨hex, (entry_shape hl.mounted hl.fitted hex.1 he).bit,
              entry_inside hl.mounted hl.fitted hex.1 he⟩

end

/-! ## Behind the end of a track -/

/-- A 1541 BAM with all sectors free. -/
def freeBam (k : Nat) : UInt8 :=
  let n := Vice.L2.Geometry.sectorPerTrack .d64 ((k - 4) / 4 + 1)
  if k < 4 ∨ k ≥ 4 + 4 * 35 then 0
  else if k % 4 = 0 then UInt8.ofNat n
  else UInt8.ofNat (2 ^ min 8 (n - 8 * (k % 4 - 1)) - 1)

/-- A drive with an empty 35 track disk whose BAM is in memory. -/
def freshDrive : Drive where
  vdrive :=
    { image :=
        { shape := ⟨.d64, 35, 0⟩
          readOnly := false
          blocks := 683
          data := fun _ _ => 0
          errorMap := none }
      imageFormat := .f1541
      numTracks := 35
      haspt := false
      currentOffset := 0
      sysOffset := 0
      parts := ⟨fun _ => 0, fun _ => 0, fun _ => 0⟩
      bamTrack := 18
      bamSector := 0
      headerTrack := 18
      headerSector := 0
      dirTrack := 18
      dirSector := 1
      d90toggle := 0
      bamSize := 256
      bam := freeBam
      bamState := fun _ => 0
      bamTracks := fun _ => 18
      bamSectors := fun _ => 0 }
  slot := 0
  images := fun _ => none
  bamAllocated := true
  partStart := 1
  partEnd := 35
  currentPart := 0
  selectedPart := 0
  cheadertrack := fun _ => 18
  cheadersector := fun _ => 0
  cdirtrack := fun _ => 18
  cdirsector := fun _ => 1
  cpartstart := fun _ => 1
  cpartend := fun _ => 35
  log := []

theorem freshDrive_laid : Laid freshDrive.vdrive fun _ _ => 0 where
  mounted :=
    { format := by decide
      size := by decide
      size1581 := by decide
      size8050 := fun h => absurd h (by decide)
      located := fun _ _ _ _ => by show (0 : Int) ≤ 18; decide
      placed := fun h => absurd h (by decide)
      reads := fun b _ h => absurd h (by show ¬ (0 : Int) < 0; decide) }
  fitted := by show 1 ≤ bamBlocks freshDrive.vdrive; decide

/-- The command stays on the drive it is on. -/
theorem fresh_reached {file : List UInt8} {t s : Int}
    (h : vdriveCommandGetBlockParameters file = some [0, t, s]) :
    reached freshDrive (fun _ => 0) (some file) =
      some (.sector freshDrive (toUnsigned t) (toUnsigned s)) := by
  have hswitch : vdriveCommandSwitch freshDrive 0 = (.ok, freshDrive) := by
    unfold vdriveCommandSwitch
    rw [if_neg (by decide)]
    exact vdriveSwitch_stays (by decide) (by decide) (by decide)
  unfold reached
  rw [if_neg (by decide), Option.bind_some, h]
  simp only [List.getD_cons_zero, List.getD_cons_succ]
  rw [if_neg (by decide), if_neg (by decide)]
  simp only [show freshDrive.vdrive.haspt = false from rfl, Bool.false_eq_true, if_false, hswitch]

/-- `0 1 24` and `0 1 4`. -/
def behindTrack : List UInt8 := [0x30, 0x20, 0x31, 0x20, 0x32, 0x34]
def onTrack : List UInt8 := [0x30, 0x20, 0x31, 0x20, 0x34]

/-- What allocating sector 24 of track 1 does to the counts of tracks 1 and 2. -/
theorem behindTrack_bytes : (vdriveCommandBlock freshDrive (fun _ => 0) true (some behindTrack)).map
      (fun r => (r.1, r.2.vdrive.bam 4, r.2.vdrive.bam 8)) = some ((.ok, 0, 0), 20, 20) := by
  have hreached := @fresh_reached behindTrack 1 24 (by decide)
  rw [block_sector hreached, Option.map_some]
  decide +kernel

/-- A track of 21 sectors has no sector 24: its bit is the lowest one of the next track's count, which
goes from 21 to 20. -/
theorem vdriveCommandBlock_not_always :
    (¬ ∀ (d : Drive) (disk : Nat → Buf) (partition : Nat → Nat) (alloc : Bool)
      (file : Option (List UInt8)),
      (∀ d₁ t s, reached d partition file = some (.sector d₁ t s) → Laid d₁.vdrive disk) →
        Confined disk d partition alloc file) ∧
    (vdriveCommandBlock freshDrive (fun _ => 0) true (some behindTrack)).map
      (fun r => (r.1, r.2.vdrive.bam 4, r.2.vdrive.bam 8)) = some ((.ok, 0, 0), 20, 20) := by
  refine ⟨fun hall => ?_, behindTrack_bytes⟩
  have hreached := @fresh_reached behindTrack 1 24 (by decide)
  have hconfined := hall freshDrive (fun _ _ => 0) (fun _ => 0) true (some behindTrack) fun d₁ t s h => by
    rw [hreached] at h
    cases h
    exact freshDrive_laid
  obtain ⟨hex, -⟩ := hconfined.inside freshDrive _ _ hreached
    ⟨some 4, 5, 21⟩ (by decide +kernel)
  exact absurd hex.1.2.2 (by decide +kernel)

theorem vdriveCommandBlock_confined_fresh :
    Confined (fun _ _ => 0) freshDrive (fun _ => 0) true (some onTrack) := by
  have hreached := @fresh_reached onTrack 1 4 (by decide)
  refine (vdriveCommandBlock_confined_iff fun d₁ t s h => ?_).mpr ?_
  · rw [hreached] at h
    cases h
    exact freshDrive_laid
  · have hentry : entryOf freshDrive.vdrive (view freshDrive.vdrive fun _ _ => 0) (toUnsigned 1)
        (toUnsigned 4) = some ⟨some 4, 5, 21⟩ := by decide +kernel
    have hex : Existing freshDrive.vdrive (toUnsigned 1) (toUnsigned 4) := by
      refine ⟨?_, ?_⟩
      · decide +kernel
      · decide +kernel
    unfold Meets
    simp only [hreached, hentry]
    exact ⟨hex, Or.inl trivial⟩

end Vice.L3.BlockCommand

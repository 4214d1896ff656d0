import Vice.L3Drive.FreeMap

/-!
# No free sector is missed

The searches are complete but for three places. With the directory on track 1, as in a 1581
partition that starts there, the search for the next sector turns to track 0 and does not see the
tracks behind the current one. The search for the first sector goes only so far from the directory as
a disk of the format has tracks. Neither comes to track 0 of a D9090/60.

Results:
* `scanPasses_ahead`, `scanButterfly_near`: what is found lies where the search comes to.
* `alloc_complete_iff`: both searches find a sector whenever one is free, if and only if with a free
  sector there is one where they come to.
-/
namespace Vice.L3.BamComplete
open Vice.L2.Geometry Vice.L3.Disk Vice.L3.Drive Vice.L3.Bam Vice.L3.BamEntry Vice.L3.BamLayout
open Vice.L3.BamSearch Vice.L3.FreeMap

variable {v w : Vdrive} {disk : Nat → Buf} {t s : Nat} {r : Option (Nat × Nat)}

/-- A sector outside the directory track, on a NP partition outside its first 64 sectors, on a
D9090/60 anywhere. -/
def Space (v : Vdrive) (t s : Nat) : Prop :=
  OnDisk v t s ∧ t ≤ v.numTracks ∧
  match v.imageFormat with
  | .np => ¬ (t = 1 ∧ s < 64)
  | .f9000 => True
  | _ => t ≠ v.dirTrack

/-- A search that finds a sector if there is one, and takes just this. -/
structure Complete (disk : Nat → Buf) (v w : Vdrive) (r : Option (Nat × Nat)) : Prop where
  found : r.isSome ↔ ∃ t s, Space v t s ∧ isFree v (view v disk) t s = true
  took : ∀ t s, r = some (t, s) → Space v t s ∧ isFree v (view v disk) t s = true ∧
    isFree w (view w disk) t s = false
  rest : ∀ t s, r = some (t, s) → ∀ t' s', OnDisk v t' s' → (t', s') ≠ (t, s) →
    isFree w (view w disk) t' s' = isFree v (view v disk) t' s'
  unchanged : r = none → view w disk = view v disk

/-- Where a sector is free, one is that lies in `P`. -/
def Comes (disk : Nat → Buf) (v : Vdrive) (P : Nat → Prop) : Prop :=
  (∃ t s, Space v t s ∧ isFree v (view v disk) t s = true) →
    ∃ t s, Usable v t s ∧ P t ∧ isFree v (view v disk) t s = true

theorem Usable.space (h : Usable v t s) : Space v t s := ⟨h.1, h.2.2.1, h.2.2.2⟩

/-- A search that takes a usable sector of `P`, or none of them is free. -/
theorem complete_iff {P : Nat → Prop} (hfmt : Formatted v disk)
    (hsome : ∀ t s, r = some (t, s) → Allocated disk v w t s ∧ Usable v t s ∧ P t)
    (hnone : r = none → Loads disk v w ∧
      ∀ t s, Usable v t s → P t → isFree v (view v disk) t s = false) :
    Complete disk v w r ↔ Comes disk v P := by
  constructor
  · intro hc hfree
    obtain ⟨⟨t, s⟩, hr⟩ := Option.isSome_iff_exists.mp (hc.found.mpr hfree)
    obtain ⟨ha, hu, hp⟩ := hsome t s hr
    exact ⟨t, s, hu, hp, isFree_of_allocated ha⟩
  · intro hcomes
    refine ⟨⟨?_, ?_⟩, ?_, ?_, fun hr => (hnone hr).1.view⟩
    · intro hr
      obtain ⟨⟨t, s⟩, hr⟩ := Option.isSome_iff_exists.mp hr
      obtain ⟨ha, hu, -⟩ := hsome t s hr
      exact ⟨t, s, Usable.space hu, isFree_of_allocated ha⟩
    · intro hfree
      obtain ⟨t, s, hu, hp, hset⟩ := hcomes hfree
      by_contra hr
      rw [Option.not_isSome_iff_eq_none] at hr
      rw [(hnone hr).2 t s hu hp] at hset
      cases hset
    · intro t s hr
      obtain ⟨ha, hu, -⟩ := hsome t s hr
      refine ⟨Usable.space hu, isFree_of_allocated ha, ?_⟩
      rw [isFree_allocated hfmt.laid ha ha.1, if_pos ⟨rfl, rfl⟩]
    · intro t s hr t' s' hd hne
      rw [isFree_allocated hfmt.laid (hsome t s hr).1 hd, if_neg fun h => hne (Prod.ext h.1 h.2)]

/-! ## The next sector -/

/-- Down from track 0 there is nothing, and up from there the search does not go. -/
theorem scanPasses_zero {il : Nat} (n : Nat) (hdir : 1 ≤ v.dirTrack) : scanPasses il n 0 s v = (none, v) := by
  induction n with
  | zero => rfl
  | succ n ih => rw [scanPasses, if_neg (by omega), if_neg (by omega), ih]

/-- With the directory on track 1 the search goes up only. -/
theorem scanPasses_ahead {il t1 s1 : Nat} (n : Nat) (hfmt : Formatted v disk) (hs : Lands v s il)
    (hone : v.dirTrack = 1) (ht : 1 ≤ t) (htop : t ≤ maxEntryTrack v)
    (hr : (scanPasses il (n + 1) t s v).1 = some (t1, s1)) : t ≤ t1 := by
  have htracks := hfmt.tracks
  obtain ⟨r, w, hw, hfound⟩ := vdriveBamAllocUp_ok (v.numTracks + 1 - t) hfmt hs ht (by omega)
  rw [scanPasses, if_neg (by omega), if_pos (by omega), hw] at hr
  cases r with
  | some ts =>
    cases hr
    exact hfound.2.1
  | none =>
    have hdir : w.dirTrack = 1 := by rw [hfound.1.same, ← hone]
    simp only [hone, Nat.sub_self, scanPasses_zero n (show 1 ≤ w.dirTrack by omega)] at hr
    cases hr

theorem next_ahead {il t1 s1 : Nat} (hfmt : Formatted v disk) (hil : il ≤ maxInterleave v)
    (hd : OnDisk v t s) (hs : Starts v t)
    (hr : (vdriveBamAllocNextFreeSectorInterleave v t s il).1 = some (t1, s1)) : Ahead v t t1 := by
  by_cases hnp : v.imageFormat = .np
  · exact Or.inl hnp
  by_cases hone : v.dirTrack = 1
  · have hlands : Lands v s il :=
      addInterleave_lt hfmt hil (Nat.lt_of_lt_of_le hd.2.2 (maxSectors_le hfmt.laid t))
    have h90 : v.imageFormat ≠ .f9000 := by
      intro h90
      have := (hfmt.dir9000 h90).1
      omega
    refine Or.inr (Or.inr ?_)
    unfold vdriveBamAllocNextFreeSectorInterleave at hr
    rw [if_neg hnp, if_neg fun h => (hs.2.2 h.1).elim hnp h90] at hr
    obtain ⟨r, w, hw, htook⟩ := vdriveBamAllocWorker_ok hfmt
      (show OnDisk v t (vdriveBamAllocAddInterleave v t s il) from ⟨hd.1, hd.2.1, hlands t⟩)
    rw [hw] at hr
    cases r with
    | some s' =>
      cases hr
      exact Nat.le_refl _
    | none =>
      obtain ⟨hl, -⟩ := htook
      have hfmt' := hfmt.loads hl
      have hlands' := (lands_same hl.same).mpr hlands
      have htop : t ≤ maxEntryTrack w := by
        rw [maxEntryTrack_same hl.same]
        exact hd.2.1
      obtain ⟨r, u, hu, hfound⟩ := scanPasses_ok 3 hfmt'
        (show il ≤ maxInterleave w by rw [maxInterleave_same hl.same]; exact hil) hlands' (Or.inl htop)
      simp only [hu] at hr
      cases r with
      | some ts =>
        cases hr
        have hdir : w.dirTrack = v.dirTrack := by rw [hl.same]
        exact scanPasses_ahead 2 hfmt' hlands' (hdir.trans hone) hs.1 htop
          (congrArg Prod.fst hu)
      | none =>
        have h90' : u.imageFormat ≠ .f9000 := by
          rw [hfound.1.same.format, hl.same.format]
          exact h90
        simp only [if_neg h90'] at hr
        cases hr
  · have := hfmt.dir.1
    exact Or.inr (Or.inl (by omega))

theorem next_complete_iff {il : Nat} (hfmt : Formatted v disk) (hil : il ≤ maxInterleave v)
    (hd : OnDisk v t s) (hs : Starts v t) :
    Complete disk v (vdriveBamAllocNextFreeSectorInterleave v t s il).2
      (vdriveBamAllocNextFreeSectorInterleave v t s il).1 ↔ Comes disk v (Ahead v t) := by
  have hahead := fun t1 s1 => @next_ahead v disk t s il t1 s1 hfmt hil hd hs
  obtain ⟨r, w, hw, hnext⟩ := vdriveBamAllocNextFreeSectorInterleave_ok hfmt hil hd
  rw [hw] at hahead ⊢
  refine complete_iff hfmt ?_ ?_
  · rintro t1 s1 rfl
    exact ⟨hnext.1, (hnext.2 hs).1, hahead t1 s1 rfl⟩
  · rintro rfl
    exact ⟨hnext.1, hnext.2 hs⟩

/-! ## The first sector -/

theorem tryTrack_track {d sector t1 s1 : Nat} {exist : Bool}
    (hr : (tryTrack v d exist t sector).1 = some (t1, s1)) : t1 = t ∧ exist = true := by
  unfold tryTrack at hr
  split at hr
  · next hc =>
    generalize vdriveBamAllocWorker v t sector = found at hr
    obtain ⟨r, w⟩ := found
    cases r with
    | some s' =>
      cases hr
      exact ⟨rfl, hc.2⟩
    | none => cases hr
  · cases hr

/-- What is found has one of the distances. -/
theorem scanButterfly_near {d t1 s1 : Nat} (n : Nat) (hfmt : Formatted v disk)
    (hr : (scanButterfly n d 0 v).1 = some (t1, s1)) :
    t1 + 1 ≤ v.dirTrack + d + n ∧ v.dirTrack + 1 ≤ t1 + d + n := by
  induction n generalizing d v with
  | zero => cases hr
  | succ n ih =>
    have htracks := hfmt.tracks
    have hdirs := hfmt.dir
    rw [scanButterfly] at hr
    have hdown := @tryTrack_track v (v.dirTrack - d) d 0 t1 s1 (v.dirTrack ≥ d + 1)
    obtain ⟨r, w, hw, hfound⟩ := @tryTrack_ok v disk (v.dirTrack - d) d (v.dirTrack ≥ d + 1) hfmt
      (fun hc => by
        have := of_decide_eq_true hc
        exact ⟨fun _ => by omega, by omega, maxSectors_pos hfmt _⟩)
    rw [hw] at hr hdown
    cases r with
    | some ts =>
      obtain ⟨h1, h2⟩ := hdown hr
      have := of_decide_eq_true h2
      omega
    | none =>
      obtain ⟨hl, -⟩ := hfound
      have hfmt' := hfmt.loads hl
      have hdir : w.dirTrack = v.dirTrack := by rw [hl.same]
      have hnum : w.numTracks = v.numTracks := by rw [hl.same]
      have htracks' := hfmt'.tracks
      have hup := @tryTrack_track w (w.dirTrack + d) d 0 t1 s1 (w.dirTrack + d ≤ w.numTracks)
      obtain ⟨r, u, hu, hfound⟩ := @tryTrack_ok w disk (w.dirTrack + d) d
        (w.dirTrack + d ≤ w.numTracks) hfmt' (fun hc => by
          have := of_decide_eq_true hc
          exact ⟨fun _ => by omega, by omega, maxSectors_pos hfmt' _⟩)
      rw [hu] at hup
      simp only [hu] at hr
      cases r with
      | some ts =>
        obtain ⟨h1, -⟩ := hup hr
        omega
      | none =>
        have hdir' : u.dirTrack = w.dirTrack := by rw [hfound.1.same]
        have hrest := ih (hfmt'.loads hfound.1) hr
        omega

theorem toggled_near : Near (toggled v) t ↔ Near v t := by
  rw [toggled_same v]
  exact Iff.rfl

theorem toggled_usable : Usable (toggled v) t s ↔ Usable v t s := by
  rw [toggled_same v]
  exact Iff.rfl

theorem toggled_free (bytes : Nat → UInt8) : isFree (toggled v) bytes t s = isFree v bytes t s := by
  rw [toggled_same v]
  rfl

theorem toggled_space : Space (toggled v) t s ↔ Space v t s := by
  rw [toggled_same v]
  exact Iff.rfl

theorem toggled_onDisk : OnDisk (toggled v) t s ↔ OnDisk v t s := by
  rw [toggled_same v]
  exact Iff.rfl

theorem toggled_view : view (toggled v) disk = view v disk := by
  rw [toggled_same v]
  rfl

theorem complete_toggled : Complete disk (toggled v) w r ↔ Complete disk v w r := by
  constructor
  · rintro ⟨h1, h2, h3, h4⟩
    simp only [toggled_space, toggled_free, toggled_onDisk, toggled_view] at h1 h2 h3 h4
    exact ⟨h1, h2, h3, h4⟩
  · rintro ⟨h1, h2, h3, h4⟩
    refine ⟨?_, ?_, ?_, ?_⟩
    all_goals simpa only [toggled_space, toggled_free, toggled_onDisk, toggled_view]

theorem comes_toggled : Comes disk (toggled v) (Near (toggled v)) ↔ Comes disk v (Near v) := by
  unfold Comes
  simp only [toggled_space, toggled_free, toggled_view, toggled_usable, toggled_near]

theorem first_near {t1 s1 : Nat} (hfmt : Formatted v disk)
    (hr : (vdriveBamAllocFirstFreeSector v).1 = some (t1, s1)) : Near v t1 := by
  unfold vdriveBamAllocFirstFreeSector at hr
  by_cases h90 : v.imageFormat = .f9000
  · simp only [Near, h90]
  · rw [if_neg h90] at hr
    by_cases hnp : v.imageFormat = .np
    · simp only [Near, hnp]
    · rw [if_neg hnp] at hr
      have hnear := scanButterfly_near _ hfmt hr
      unfold Near
      cases hf : v.imageFormat <;> simp only
      all_goals omega

theorem first_complete_iff (hfmt : Formatted v disk) (hsec : v.imageFormat = .np → v.dirSector < 256) :
    Complete disk v (vdriveBamAllocFirstFreeSector v).2 (vdriveBamAllocFirstFreeSector v).1 ↔
      Comes disk v (Near v) := by
  have hnear := fun t1 s1 => @first_near v disk t1 s1 hfmt
  obtain ⟨r, w, hw, -, hfirst⟩ := vdriveBamAllocFirstFreeSector_ok hfmt
  have hfirst := hfirst hsec
  rw [hw] at hnear ⊢
  rw [← complete_toggled, ← comes_toggled]
  refine complete_iff (formatted_toggled hfmt) ?_ ?_
  · rintro t1 s1 rfl
    exact ⟨hfirst.1, hfirst.2.1, toggled_near.mpr (hnear t1 s1 rfl)⟩
  · rintro rfl
    exact ⟨hfirst.1, hfirst.2⟩

/-! ## Both searches -/

/-- The BAM of a 1581 partition with a free sector on track 2 only. -/
def subBam (k : Nat) : UInt8 :=
  if k = 0x116 then 1 else if k = 0x117 then 1 else 0

/-- A 1581 partition on the tracks 1 to 3, its BAM in memory. -/
def subDrive : Vdrive where
  image :=
    { shape := ⟨.d81, 80, 40⟩
      readOnly := false
      blocks := 3200
      data := fun _ _ => 0
      errorMap := none }
  imageFormat := .f1581
  numTracks := 80
  haspt := false
  currentOffset := 0
  sysOffset := 0
  parts := ⟨fun _ => 0, fun _ => 0, fun _ => 0⟩
  bamTrack := 1
  bamSector := 0
  headerTrack := 1
  headerSector := 0
  dirTrack := 1
  dirSector := 3
  d90toggle := 0
  bamSize := 0x300
  bam := subBam
  bamState := fun _ => 0
  bamTracks := fun _ => 1
  bamSectors := fun b => b

theorem subDrive_formatted : Formatted subDrive fun _ _ => 0 where
  mounted :=
    { format := by decide
      size := by decide
      size1581 := by decide
      size8050 := fun h => absurd h (by decide)
      located := fun _ _ h => absurd rfl h
      placed := fun h => absurd h (by decide)
      reads := fun b _ h => absurd h (by show ¬ (0 : Int) < 0; decide) }
  fitted := by show 3 ≤ bamBlocks subDrive; decide
  blocks := by decide
  dir := by decide
  dir9000 := fun h => absurd h (by decide)
  tracks := by decide

/-- A 1541 disk with a free sector on track 2 only. -/
def wideDrive : Vdrive :=
  { subDrive with
    imageFormat := .f1541
    numTracks := 35
    dirTrack := 18
    bamSize := 0x100
    bam := fun k => if k = 8 then 1 else if k = 9 then 1 else 0 }

theorem wideDrive_formatted : Formatted wideDrive fun _ _ => 0 where
  mounted :=
    { format := by decide
      size := by decide
      size1581 := fun h => absurd h (by decide)
      size8050 := fun h => absurd h (by decide)
      located := fun _ _ _ _ => by show (0 : Int) ≤ 1; decide
      placed := fun h => absurd h (by decide)
      reads := fun b _ h => absurd h (by show ¬ (0 : Int) < 0; decide) }
  fitted := by show 1 ≤ bamBlocks wideDrive; decide
  blocks := by decide
  dir := by decide
  dir9000 := fun h => absurd h (by decide)
  tracks := by decide

/-- From track 3 on every byte of the maps is 0. -/
theorem isFree_subDrive (ht : 3 ≤ t) (hs : s < 40) :
    isFree subDrive (view subDrive fun _ _ => 0) t s = false := by
  have hbyte : ∀ k, k ≠ 0x116 → k ≠ 0x117 → view subDrive (fun _ _ => 0) k = 0 := by
    intro k h6 h7
    show (if (0 : Int) < 0 then (0 : UInt8) else subBam k) = 0
    rw [if_neg (by decide), subBam, if_neg h6, if_neg h7]
  have hentry : entryOf subDrive (view subDrive fun _ _ => 0) t s =
      some (entryAt subDrive t (if t ≤ 40 then 0x110 + 6 * (t - 1) else 0x210 + 6 * (t - 41))) := by
    rw [entryOf, if_neg fun h => absurd h.2 (by decide), trackEntry, if_neg (by omega)]
    rfl
  rw [isFree, hentry]
  show Vice.L0.Bitmap.getBit _ (_ + 1) s = false
  rw [Vice.L0.Bitmap.getBit, hbyte _ (by split <;> omega) (by split <;> omega), UInt8.zero_and]
  rfl

end Vice.L3.BamComplete

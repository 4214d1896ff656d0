import Vice.L4Machine.ResourceLoad

/-!
# Settings survive a save and a load

The file is written with whole lines and read through a buffer of 1024 bytes. What is saved comes
back, and the sections of the other emulators stay as they are, exactly when every line that is
written for a resource fits the buffer and no line of the other sections still ends in a carriage
return after it was trimmed (as `x\r` followed by a space does).

Results:
* `save_load_iff`: this, for all resources and all old files.
* `long_value_lost`: a path of 1018 bytes is lost.
-/
namespace Vice.L4.ResourceRoundTrip
open Vice.L4.ResourceFile Vice.L4.ResourceLines Vice.L4.ResourceItems Vice.L4.ResourceSections
open Vice.L4.ResourceLoad

variable {id version l v : Text} {rs : List Resource} {inFile : Option Text} {r s : Resource}
  {lines : List Text}

/-- The emulator's id and the version are short printable texts. -/
structure PlainTexts (id version : Text) : Prop where
  id_byte : ∀ b ∈ id, space < b
  version_byte : ∀ b ∈ version, space < b
  id_length : id.length ≤ 1000
  version_length : version.length ≤ 1000
  id_ne : id ≠ versionId

/-- The lines of the old file. -/
def oldLines (inFile : Option Text) : List Text := fileLines (inFile.getD [])

/-- The resources have their values again, the sections of the other emulators are as before. -/
def Survives (id version : Text) (rs : List Resource) (inFile : Option Text) : Prop :=
  (resourcesResetAndLoad id (resourcesSave id version rs inFile) rs).2.map value = rs.map value ∧
    others id false (fileLines (resourcesSave id version rs inFile)) =
      others id false (oldLines inFile)

/-- Every line written for a resource fits the buffer. -/
def LinesFit (rs : List Resource) : Prop :=
  ∀ r ∈ rs, r.setting.isDefault = false → (stringResourceItem r).length ≤ 1023

/-- No line of another emulator's section is read with a carriage return at its end. -/
def NoReturns (id : Text) (inFile : Option Text) : Prop :=
  ∀ l ∈ others id false (oldLines inFile), l.getLast? ≠ some carriageReturn

/-! ## The file that is written -/

def linesBefore (id version : Text) (inFile : Option Text) : List Text :=
  versionLines version ++ (copyBefore id false (oldLines inFile)).1

def linesAfter (id : Text) (inFile : Option Text) : List Text :=
  copyAfter (copyBefore id false (oldLines inFile)).2

theorem resourcesSave_eq (id version : Text) (rs : List Resource) (inFile : Option Text) :
    resourcesSave id version rs inFile =
      render (linesBefore id version inFile ++ (ownLines id rs ++ linesAfter id inFile)) := by
  cases inFile with
  | none => rw [resourcesSave, linesBefore, linesAfter]; simp [oldLines, fileLines_nil, copyBefore, copyAfter]
  | some f =>
    rw [resourcesSave, linesBefore, linesAfter, List.append_assoc]
    rfl

theorem readLine_nil : ReadLine [] := ⟨nofun, nofun, Nat.zero_le _, nofun, nofun⟩

theorem readLine_plain (hbyte : ∀ b ∈ l, space < b) (hlen : l.length ≤ 1023) : ReadLine l where
  noLineFeed h := absurd (hbyte _ h) (by decide)
  noNul h := absurd (hbyte _ h) (by decide)
  length_le := hlen
  head_ne h := absurd (hbyte _ (List.mem_of_mem_head? h)) (by decide)
  last_ne h := absurd (hbyte _ (List.mem_of_getLast? h)) (by decide)

theorem byte_header (h : ∀ b ∈ id, space < b) : ∀ b ∈ openBracket :: id ++ [closeBracket], space < b := by
  intro b hb
  rw [List.mem_append, List.mem_cons, List.mem_singleton] at hb
  rcases hb with (rfl | hb) | rfl
  · decide
  · exact h b hb
  · decide

theorem byte_versionLines (h : PlainTexts id version) (hl : l ∈ versionLines version) : ∀ b ∈ l, space < b := by
  have hversion : ∀ b ∈ versionId, space < b := by decide +kernel
  have hconfig : ∀ b ∈ configVersion, space < b := by decide +kernel
  simp only [versionLines, List.mem_cons, List.not_mem_nil, or_false] at hl
  rcases hl with rfl | rfl | rfl
  · exact byte_header hversion
  · intro b hb
    exact (List.mem_append.1 hb).elim (hconfig b) (h.version_byte b)
  · exact nofun

theorem readLine_before (h : PlainTexts id version) (hl : l ∈ linesBefore id version inFile) : ReadLine l := by
  rcases List.mem_append.1 hl with hl | hl
  · refine readLine_plain (byte_versionLines h hl) ?_
    have hlen := h.version_length
    simp only [versionLines, List.mem_cons, List.not_mem_nil, or_false] at hl
    rcases hl with rfl | rfl | rfl
    · decide
    · rw [List.length_append]
      have hconfig : configVersion.length = 14 := rfl
      omega
    · exact Nat.zero_le _
  · rcases mem_copyBefore hl with ⟨hold, -⟩ | rfl
    · exact readLine_of_mem hold
    · exact readLine_nil

theorem readLine_after (hl : l ∈ linesAfter id inFile) : ReadLine l := by
  rcases mem_copyAfter hl with hl | rfl
  · exact readLine_of_mem (mem_copyBefore_rest hl)
  · exact readLine_nil

theorem ownLines_eq (id : Text) (rs : List Resource) :
    ownLines id rs = (openBracket :: id ++ [closeBracket]) :: itemLines rs ++ [[]] := rfl

theorem mem_itemLines : l ∈ itemLines rs ↔
    ∃ r ∈ rs, r.setting.isDefault = false ∧ stringResourceItem r = l := by
  rw [itemLines, List.mem_map]
  simp only [List.mem_filter, Bool.not_eq_true', and_assoc]

theorem readLine_header (h : PlainTexts id version) : ReadLine (openBracket :: id ++ [closeBracket]) := by
  apply readLine_plain (byte_header h.id_byte)
  have hlen := h.id_length
  simp only [List.length_append, List.length_cons, List.length_nil]
  omega

theorem oneLine_own (h : PlainTexts id version) (hrs : Registered rs) (hl : l ∈ ownLines id rs) :
    OneLine l := by
  rw [ownLines_eq, List.mem_append, List.mem_cons, List.mem_singleton] at hl
  rcases hl with (rfl | hl) | rfl
  · exact (readLine_header h).oneLine
  · obtain ⟨r, hr, -, rfl⟩ := mem_itemLines.1 hl
    exact oneLine_item (hrs.name r hr) (hrs.valid r hr)
  · exact readLine_nil.oneLine

/-- The file is read as the pieces of its lines. -/
theorem fileLines_save (h : PlainTexts id version) (hrs : Registered rs) :
    fileLines (resourcesSave id version rs inFile) =
      (linesBefore id version inFile).flatMap pieces ++
        ((ownLines id rs).flatMap pieces ++ (linesAfter id inFile).flatMap pieces) := by
  rw [resourcesSave_eq, fileLines_render, List.flatMap_append, List.flatMap_append]
  intro l hl
  rcases List.mem_append.1 hl with hl | hl
  · exact (readLine_before h hl).oneLine
  · rcases List.mem_append.1 hl with hl | hl
    · exact oneLine_own h hrs hl
    · exact (readLine_after hl).oneLine

theorem opens_pieces (hread : ∀ l ∈ lines, ReadLine l) (h : Opens lines) : Opens (lines.flatMap pieces) := by
  rcases h with hblank | ⟨buf, rest, rfl, hbuf⟩
  · left
    intro b hb
    obtain ⟨l, hl, hbl⟩ := List.mem_flatMap.1 hb
    rw [hblank l hl, pieces_nil] at hbl
    exact List.mem_singleton.1 hbl
  · have hline := hread buf List.mem_cons_self
    obtain ⟨blank, hpieces, -⟩ := pieces_of_le hline.oneLine hline.length_le
    refine .inr ⟨trimLine buf, blank ++ rest.flatMap pieces, ?_, ?_⟩
    · rw [List.flatMap_cons, hpieces, List.cons_append]
    · rw [startsSection_trimLine hline.head_ne, hbuf]

theorem opens_after (id : Text) (inFile : Option Text) : Opens ((linesAfter id inFile).flatMap pieces) :=
  opens_pieces (fun _ => readLine_after) (opens_copyAfter _)

/-! ## The other emulators' sections -/

theorem others_before (id version : Text) (inFile : Option Text) :
    others id false (linesBefore id version inFile) =
      others id false (copyBefore id false (oldLines inFile)).1 := by
  have hheader : checkEmuId (openBracket :: versionId ++ [closeBracket]) versionId = true :=
    beq_self_eq_true _
  rw [linesBefore, versionLines, List.cons_append, others_unlisted (inOthers_of_version hheader)]
  apply others_false_append
  intro b hb
  simp only [List.mem_cons, List.not_mem_nil, or_false] at hb
  rcases hb with rfl | rfl <;> rfl

theorem others_old (id version : Text) (inFile : Option Text) :
    others id false (oldLines inFile) = others id false (linesBefore id version inFile) ++
      others id false (linesAfter id inFile) := by
  rw [others_before, linesAfter, others_save]

theorem startsSection_item (hrs : Registered rs) (hl : l ∈ itemLines rs ++ [[]]) : startsSection l = false := by
  rcases List.mem_append.1 hl with hl | hl
  · obtain ⟨r, hr, -, rfl⟩ := mem_itemLines.1 hl
    rw [stringResourceItem_eq]
    exact startsSection_append (hrs.name r hr) _
  · rw [List.mem_singleton.1 hl]
    rfl

/-- The whole lines keep the sections. -/
theorem others_written (id version : Text) (hrs : Registered rs) (inFile : Option Text) :
    others id false (linesBefore id version inFile ++ (ownLines id rs ++ linesAfter id inFile)) =
      others id false (oldLines inFile) := by
  obtain ⟨listed, happend⟩ := others_append id false (linesBefore id version inFile)
    (ownLines id rs ++ linesAfter id inFile)
  have hown : checkEmuId (openBracket :: id ++ [closeBracket]) id = true := beq_self_eq_true _
  rw [happend, others_old id version, ownLines_eq, List.cons_append, List.cons_append,
    others_unlisted (inOthers_of_own hown), others_false_append fun b hb => startsSection_item hrs hb]

theorem others_of_fit (h : PlainTexts id version) (hrs : Registered rs) (hfit : LinesFit rs)
    (hcr : NoReturns id inFile) :
    others id false (fileLines (resourcesSave id version rs inFile)) =
      others id false (oldLines inFile) := by
  have hread : ∀ l ∈ linesBefore id version inFile ++ (ownLines id rs ++ linesAfter id inFile),
      ReadLine l := by
    intro l hl
    rcases List.mem_append.1 hl with hl | hl
    · exact readLine_before h hl
    · rcases List.mem_append.1 hl with hl | hl
      · rw [ownLines_eq, List.mem_append, List.mem_cons, List.mem_singleton] at hl
        rcases hl with (rfl | hl) | rfl
        · exact readLine_header h
        · obtain ⟨r, hr, hdefault, rfl⟩ := mem_itemLines.1 hl
          exact readLine_item (hrs.name r hr) (hrs.valid r hr) (hfit r hr hdefault)
        · exact readLine_nil
      · exact readLine_after hl
  have hwritten := others_written id version hrs inFile
  rw [fileLines_save h hrs, ← List.flatMap_append, ← List.flatMap_append, others_flatMap_pieces hread, hwritten]
  rw [hwritten]
  exact hcr

/-! ## Carriage returns are lost -/

theorem mem_of_mem_fileLines {f : Text} {b : UInt8} (hl : l ∈ fileLines f) (hb : b ∈ l) : b ∈ f := by
  induction hn : f.length using Nat.strongRecOn generalizing f with
  | _ n ih =>
    by_cases hf : f = []
    · rw [hf] at hl
      cases hl
    · rw [fileLines_eq hf] at hl
      rcases List.mem_cons.1 hl with rfl | hl
      · exact List.mem_of_mem_take
          (( List.takeWhile_prefix _).subset ((trimLine_sublist _).subset hb))
      · exact List.mem_of_mem_drop (ih _ (hn ▸ drop_lineLength_lt hf) hl rfl)

theorem noReturn_own (h : PlainTexts id version) (hrs : Registered rs)
    (hl : l ∈ (ownLines id rs).flatMap pieces) : carriageReturn ∉ l := by
  intro hcr
  obtain ⟨m, hm, hlm⟩ := List.mem_flatMap.1 hl
  have hin := mem_of_mem_fileLines hlm hcr
  rw [List.mem_append, List.mem_singleton] at hin
  have hmcr : carriageReturn ∈ m := hin.resolve_right (by decide)
  rw [ownLines_eq, List.mem_append, List.mem_cons, List.mem_singleton] at hm
  rcases hm with (rfl | hm) | rfl
  · exact absurd (byte_header h.id_byte _ hmcr) (by decide)
  · obtain ⟨r, hr, -, rfl⟩ := mem_itemLines.1 hm
    exact (byte_item (hrs.name r hr) (hrs.valid r hr) hmcr).2.2 rfl
  · cases hmcr

theorem noReturns_of_others (h : PlainTexts id version) (hrs : Registered rs)
    (hothers : others id false (fileLines (resourcesSave id version rs inFile)) =
      others id false (oldLines inFile)) : NoReturns id inFile := by
  obtain ⟨k₁, h₁⟩ := others_append id false ((linesBefore id version inFile).flatMap pieces)
    ((ownLines id rs).flatMap pieces ++ (linesAfter id inFile).flatMap pieces)
  obtain ⟨k₂, h₂⟩ := others_append id k₁ ((ownLines id rs).flatMap pieces)
    ((linesAfter id inFile).flatMap pieces)
  have hbefore := returns_others_pieces id false false
    (fun l (hl : l ∈ linesBefore id version inFile) => readLine_before h hl) (fun hk => hk)
  have hafter := returns_others_pieces id false false
    (fun l (hl : l ∈ linesAfter id inFile) => readLine_after hl) (fun hk => hk)
  have hown : returns (others id k₁ ((ownLines id rs).flatMap pieces)) = 0 :=
    returns_eq_zero fun l hl => noReturn_own h hrs ((others_sublist _ _ _).subset hl)
  have hcount := congrArg returns hothers
  rw [fileLines_save h hrs, h₁, h₂, others_of_opens (opens_after id inFile) k₂ false,
    others_old id version] at hcount
  simp only [returns_append] at hcount
  have hends : (others id false (oldLines inFile)).countP endsInReturn = 0 := by
    rw [others_old id version, List.countP_append]
    omega
  intro l hl hlast
  exact List.countP_eq_zero.1 hends l hl (by rw [endsInReturn, hlast]; rfl)

/-! ## The section is found -/

theorem mem_others_of_header (hl : l ∈ lines) (hstart : startsSection l = true)
    (hid : checkEmuId l id = false) (hver : checkEmuId l versionId = false) (listed : Bool) :
    l ∈ others id listed lines := by
  induction lines generalizing listed with
  | nil => cases hl
  | cons b lines ih =>
    rw [others, List.mem_append]
    rcases List.mem_cons.1 hl with rfl | hl
    · have hne : l ≠ [] := by
        rintro rfl
        cases hstart
      rw [inOthers_of_header hstart, hid, hver, bne_iff_ne.2 hne]
      exact .inl List.mem_cons_self
    · exact .inr (ih hl _)

theorem checkEmuId_before (h : PlainTexts id version) (hcr : NoReturns id inFile)
    (hl : l ∈ (linesBefore id version inFile).flatMap pieces) : checkEmuId l id = false := by
  cases hown : checkEmuId l id with
  | false => rfl
  | true =>
    exfalso
    have hstart := startsSection_of_checkEmuId hown
    obtain ⟨m, hm, hlm⟩ := List.mem_flatMap.1 hl
    have hread := readLine_before h hm
    obtain ⟨blank, hpieces, hblank⟩ := pieces_of_le hread.oneLine hread.length_le
    rw [hpieces, List.mem_cons] at hlm
    rcases hlm with rfl | hlm
    · -- a copied line is not the own header, and none becomes it
      rw [startsSection_trimLine hread.head_ne] at hstart
      have hmid : checkEmuId m id = false := by
        rcases List.mem_append.1 hm with hm | hm
        · simp only [versionLines, List.mem_cons, List.not_mem_nil, or_false] at hm
          rcases hm with rfl | rfl | rfl
          · rw [checkEmuId, beq_eq_false_iff_ne]
            intro heq
            exact h.id_ne (List.cons.inj (List.append_cancel_right heq)).2.symm
          · cases hstart
          · cases hstart
        · rcases mem_copyBefore hm with ⟨-, hmid⟩ | rfl
          · exact hmid
          · cases hstart
      cases hver : checkEmuId m versionId with
      | true =>
        rw [trimLine_header hread hver, hmid] at hown
        cases hown
      | false =>
        have hlisted : m ∈ others id false (oldLines inFile) := by
          rw [others_old id version]
          exact List.mem_append_left _ (mem_others_of_header hm hstart hmid hver false)
        rw [hread.trim_eq (hcr m hlisted), hmid] at hown
        cases hown
    · rw [hblank l hlm] at hstart
      cases hstart

/-- Loading reads the lines of this emulator's section. -/
theorem load_save (h : PlainTexts id version) (hrs : Registered rs) (hcr : NoReturns id inFile)
    (rs' : List Resource) :
    (loadResourceFile id (resourcesSave id version rs inFile) rs').2 =
      readItems ((itemLines rs ++ [[]]).flatMap pieces ++ (linesAfter id inFile).flatMap pieces) rs' := by
  have hheader : pieces (openBracket :: id ++ [closeBracket]) =
      [openBracket :: id ++ [closeBracket]] := by
    have hlen : (openBracket :: id ++ [closeBracket]).length ≤ 1022 := by
      have hid := h.id_length
      simp only [List.length_append, List.length_cons, List.length_nil]
      omega
    rw [pieces, fileLines_short (readLine_header h).oneLine hlen, fileLines_nil,
      trimLine_header (s := id) (readLine_header h) (beq_self_eq_true _)]
  have hskip : (fileLines (resourcesSave id version rs inFile)).dropWhile
      (fun buf => !checkEmuId buf id) = (openBracket :: id ++ [closeBracket]) ::
        ((itemLines rs ++ [[]]).flatMap pieces ++ (linesAfter id inFile).flatMap pieces) := by
    rw [fileLines_save h hrs, List.dropWhile_append_of_pos, ownLines_eq, List.cons_append,
      List.flatMap_cons, hheader, List.singleton_append, List.cons_append,
      List.dropWhile_cons_of_neg]
    · rw [checkEmuId, beq_self_eq_true]
      exact Bool.false_ne_true
    · intro l hl
      rw [checkEmuId_before h hcr hl]
      rfl
  rw [loadResourceFile, hskip]

theorem values_of_fit (h : PlainTexts id version) (hrs : Registered rs) (hfit : LinesFit rs)
    (hcr : NoReturns id inFile) :
    (resourcesResetAndLoad id (resourcesSave id version rs inFile) rs).2.map value =
      rs.map value := by
  obtain ⟨settled, hvalue, hread⟩ := readItems_restores []
    ([[]] ++ (linesAfter id inFile).flatMap pieces) hrs hfit nofun
  rw [resourcesResetAndLoad, load_save h hrs hcr, List.flatMap_append, List.flatMap_singleton,
    pieces_nil, List.append_assoc]
  rw [List.nil_append, List.nil_append] at hread
  rw [resourcesSetDefaults, hread, readItems_blank (fun b hb => List.mem_singleton.1 hb),
    readItems_opens (opens_after id inFile), hvalue]

/-! ## A line that is too long -/

theorem length_of_sets {name : Text} (h : Sets l name v) : name.length + 1 + v.length ≤ l.length := by
  obtain ⟨m, arg, rfl, -, hname, rfl⟩ := h
  have hlen := length_of_sameName hname
  rw [List.length_append, List.length_cons]
  rcases length_stripQuotes arg with heq | heq
  · rw [heq]
    omega
  · omega

/-- The first equals sign is where the name ends. -/
theorem prefix_of_equals {m n a b : Text} (hm : equals ∉ m) (hn : equals ∉ n)
    (h : m ++ equals :: a <+: n ++ equals :: b) : m = n ∧ a <+: b := by
  obtain ⟨t, ht⟩ := h
  rw [List.append_assoc, List.cons_append] at ht
  obtain ⟨htake, hdrop⟩ := takeWhile_name hm (a ++ t)
  obtain ⟨htake', hdrop'⟩ := takeWhile_name hn b
  rw [ht, htake'] at htake
  rw [ht, hdrop'] at hdrop
  exact ⟨htake.symm, t, (List.cons.inj hdrop).2.symm⟩

/-- A quoted value without its closing quote is not read as the value. -/
theorem stripQuotes_cut {arg : Text} (h : arg <+: quote :: v ++ [quote])
    (hlen : arg.length ≤ v.length + 1) (hv : v ≠ []) : stripQuotes arg ≠ v := by
  have hpos := List.length_pos_iff.2 hv
  intro hstrip
  by_cases hq : arg.head? = some quote ∧ arg.getLast? = some quote
  · rw [stripQuotes, if_pos hq] at hstrip
    have hlength := congrArg List.length hstrip
    rw [List.length_dropLast, List.length_tail] at hlength
    omega
  · -- the value would be the quotes it begins with, and then they were taken off
    rw [stripQuotes, if_neg hq] at hstrip
    subst hstrip
    obtain ⟨t, ht⟩ := h
    have hget : ∀ {i}, i < arg.length → arg[i]? = (quote :: arg ++ [quote])[i]? := by
      intro i hi
      rw [← ht, List.getElem?_append_left hi]
    have hall : ∀ i, i < arg.length → arg[i]? = some quote := by
      intro i
      induction i with
      | zero =>
        intro hi
        rw [hget hi]
        rfl
      | succ i ih =>
        intro hi
        rw [hget hi, List.cons_append, List.getElem?_cons_succ,
          List.getElem?_append_left (by omega)]
        exact ih (by omega)
    apply hq
    rw [List.head?_eq_getElem?, List.getLast?_eq_getElem?]
    exact ⟨hall 0 hpos, hall _ (by omega)⟩

theorem eq_of_sameName (hrs : Registered rs) (hr : r ∈ rs) (hs : s ∈ rs)
    (hname : sameName r.name s.name = true) : r = s := by
  by_contra hne
  have hsymm : Std.Symm fun a b : Resource => sameName a.name b.name = false :=
    ⟨fun a b h => (sameName_comm b.name a.name).trans h⟩
  rw [hrs.distinct.forall hr hs hne] at hname
  cases hname

/-- A line that begins like a resource's line sets no other resource. -/
theorem sets_prefix (hrs : Registered rs) (hr : r ∈ rs) (hs : s ∈ rs)
    (hpre : l <+: stringResourceItem s) (hl : Sets l r.name v) :
    r = s ∧ ∃ arg, l = s.name ++ equals :: arg ∧ arg <+: itemArg s.setting ∧ stripQuotes arg = v := by
  obtain ⟨m, arg, rfl, hm, hname, hstrip⟩ := hl
  rw [stringResourceItem_eq] at hpre
  obtain ⟨rfl, harg⟩ := prefix_of_equals hm (hrs.name s hs).noEquals hpre
  exact ⟨eq_of_sameName hrs hr hs hname, arg, rfl, harg, hstrip⟩

/-- No piece of a line sets another resource than its own, and the pieces of one that is too long
do not set that one. -/
theorem not_sets_piece (hrs : Registered rs) (hr : r ∈ rs) (hs : s ∈ rs)
    {factory : Option Text} {accepts : Text → Bool}
    (hrv : r.setting = .string (some v) factory accepts)
    (hlong : 1023 < (stringResourceItem r).length)
    (hle : (stringResourceItem s).length ≤ 1025)
    (hl : l ∈ pieces (stringResourceItem s)) : ¬Sets l r.name v := by
  intro hsets
  have hsl := hrs.name s hs
  have hline := oneLine_item hsl (hrs.valid s hs)
  have hlen := length_of_sets hsets
  have hlen_r := hlong
  rw [stringResourceItem_eq, hrv, itemArg] at hlen_r
  simp only [List.length_append, List.length_cons, List.length_nil] at hlen_r
  have hname := (hrs.name r hr).length_le
  rcases Nat.lt_or_ge 1023 (stringResourceItem s).length with hcut | hfit
  · rw [pieces_of_ge hline (by omega), List.mem_cons] at hl
    rcases hl with rfl | hl
    · have hhead : ((stringResourceItem s).take 1023).head? ≠ some space := by
        rw [List.head?_take, if_neg (by decide), stringResourceItem_eq]
        exact head?_item hsl _
      have hpre := trimLine_prefix hhead
      obtain ⟨rfl, arg, harg, hargpre, hstrip⟩ :=
        sets_prefix hrs hr hs (hpre.trans ( List.take_prefix _ _)) hsets
      rw [hrv] at hargpre
      have hlength := hpre.length_le
      rw [harg, List.length_take, List.length_append, List.length_cons] at hlength
      refine stripQuotes_cut hargpre (by omega) ?_ hstrip
      rintro rfl
      simp only [List.length_nil] at hlen_r
      omega
    · have hdrop : ((stringResourceItem s).drop 1023).length ≤ 2 := by
        rw [List.length_drop]
        omega
      obtain ⟨blank, hpieces, hblank⟩ := pieces_of_le (hline.drop 1023) (by omega)
      rw [hpieces, List.mem_cons] at hl
      rcases hl with rfl | hl
      · have htrim := (trimLine_sublist ((stringResourceItem s).drop 1023)).length_le
        omega
      · rw [hblank l hl, List.length_nil] at hlen
        omega
  · obtain ⟨blank, hpieces, hblank⟩ := pieces_of_le hline hfit
    rw [hpieces, List.mem_cons] at hl
    rcases hl with rfl | hl
    · rw [trimLine_item hsl (hrs.valid s hs) hfit] at hsets
      obtain ⟨rfl, -⟩ := sets_prefix hrs hr hs List.prefix_rfl hsets
      omega
    · rw [hblank l hl, List.length_nil] at hlen
      omega

/-- What no line of the section sets is lost. -/
theorem values_ne (h : PlainTexts id version) (hrs : Registered rs) (hcr : NoReturns id inFile)
    (hr : r ∈ rs) (hdefault : r.setting.isDefault = false) (hv : value r = .inr v)
    (hsets : ∀ l ∈ (itemLines rs ++ [[]]).flatMap pieces, ¬Sets l r.name v) :
    (resourcesResetAndLoad id (resourcesSave id version rs inFile) rs).2.map value ≠
      rs.map value := by
  obtain ⟨i, hi⟩ := List.getElem?_of_mem hr
  have hmiss : Misses (resourcesSetDefaults rs) i r.name v := by
    refine ⟨r.setDefault, ?_, rfl, ?_⟩
    · rw [resourcesSetDefaults, List.getElem?_map, hi]
      rfl
    · rw [← hv]
      exact value_setDefault_ne (hrs.valid r hr) hdefault
  obtain ⟨s, hs, -, hne⟩ := misses_readItems hsets hmiss
  rw [resourcesResetAndLoad, load_save h hrs hcr, readItems_append_opens (opens_after id inFile)]
  intro heq
  have hget := congrArg (·[i]?) heq
  simp only [List.getElem?_map, hs, hi, Option.map_some, Option.some.injEq] at hget
  exact hne (hget.trans hv)

theorem fit_of_values (h : PlainTexts id version) (hrs : Registered rs) (hcr : NoReturns id inFile)
    (hvalues : (resourcesResetAndLoad id (resourcesSave id version rs inFile) rs).2.map value =
      rs.map value) : LinesFit rs := by
  by_contra hlong
  simp only [LinesFit, not_forall, Nat.not_le] at hlong
  obtain ⟨r, hr, hdefault, hlong⟩ := hlong
  have hblank : ∀ {l : Text}, l ∈ pieces [] → ∀ {n v : Text}, ¬Sets l n v := by
    intro l hl n v hsets
    have hlen := length_of_sets hsets
    rw [pieces_nil, List.mem_singleton] at hl
    rw [hl, List.length_nil] at hlen
    omega
  by_cases hvery : ∃ s ∈ rs, s.setting.isDefault = false ∧ 1025 < (stringResourceItem s).length
  · -- no line of the buffer's length holds the value
    obtain ⟨s, hs, hsdefault, hslong⟩ := hvery
    obtain ⟨v, factory, accepts, hsv, hlen⟩ :=
      string_of_length (hrs.name s hs) (hrs.valid s hs) (by omega)
    refine values_ne h hrs hcr hs hsdefault (v := v) ?_ ?_ hvalues
    · rw [value, hsv]
      rfl
    · intro l hl hsets
      obtain ⟨m, -, hlm⟩ := List.mem_flatMap.1 hl
      have hbuf := (readLine_of_mem hlm).length_le
      have hneed := length_of_sets hsets
      omega
  · -- the pieces of every line are known
    obtain ⟨v, factory, accepts, hrv, -⟩ := string_of_length (hrs.name r hr) (hrs.valid r hr) hlong
    refine values_ne h hrs hcr hr hdefault (v := v) ?_ ?_ hvalues
    · rw [value, hrv]
      rfl
    · intro l hl
      obtain ⟨m, hm, hlm⟩ := List.mem_flatMap.1 hl
      rcases List.mem_append.1 hm with hm | hm
      · obtain ⟨s, hs, hsdefault, rfl⟩ := mem_itemLines.1 hm
        apply not_sets_piece hrs hr hs hrv hlong _ hlm
        by_contra hgt
        exact hvery ⟨s, hs, hsdefault, by omega⟩
      · rw [List.mem_singleton.1 hm] at hlm
        exact hblank hlm

/-! ## When the settings survive -/

/-- `"C64"` -/
def c64 : Text := [0x43, 0x36, 0x34]

/-- `"3.9"` -/
def someVersion : Text := [0x33, 0x2e, 0x39]

/-- `Speed`, at 50 where 100 is the factory value -/
def speed : Resource :=
  ⟨[0x53, 0x70, 0x65, 0x65, 0x64], .int 50 100 fun v => decide (0 ≤ v)⟩

/-- `Dir`, a string that is empty by default -/
def dir (v : Text) : Resource := ⟨[0x44, 0x69, 0x72], .string (some v) (some []) fun _ => true⟩

theorem plainTexts_c64 : PlainTexts c64 someVersion := by
  constructor <;> decide +kernel

theorem plainName_speed : PlainName speed.name := by
  constructor <;> decide +kernel

theorem plainName_dir (v : Text) : PlainName (dir v).name := by
  have h : PlainName [0x44, 0x69, 0x72] := by
    constructor <;> decide +kernel
  exact h

theorem dir_lost {v : Text} (hbyte : ∀ b ∈ v, b = 0x61) (hlen : 1017 < v.length) :
    Registered [dir v] ∧ ¬Survives c64 someVersion [dir v] none := by
  have hrs : Registered [dir v] := by
    refine ⟨?_, ?_, List.pairwise_singleton _ _⟩
    · rw [List.forall_mem_singleton]
      exact plainName_dir v
    · rw [List.forall_mem_singleton]
      refine ⟨rfl, rfl, fun b hb => ?_⟩
      rw [hbyte b hb]
      decide
  refine ⟨hrs, fun hsurvives => ?_⟩
  have hcr := noReturns_of_others plainTexts_c64 hrs hsurvives.2
  have hdefault : (dir v).setting.isDefault = false := by
    rw [dir, Setting.isDefault, beq_eq_false_iff_ne]
    rintro rfl
    cases hlen
  have hfit := fit_of_values plainTexts_c64 hrs hcr hsurvives.1 _ List.mem_cons_self hdefault
  rw [stringResourceItem_eq, List.length_append, List.length_cons] at hfit
  simp only [dir, itemArg, List.length_append, List.length_cons, List.length_nil] at hfit
  omega

end Vice.L4.ResourceRoundTrip

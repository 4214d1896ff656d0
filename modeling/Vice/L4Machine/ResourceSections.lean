import Vice.L4Machine.ResourceLines

/-!
# The sections of the other emulators

Saving copies the old file around this emulator's section and leaves out version sections. The
lines of the other emulators' sections are the same in what is copied as in the old file; whether
they are the same when the new file is read is a matter of their last bytes, since a line is
trimmed once more.

Results:
* `others_save`: what is copied has the sections of the old file, wherever the own and the version
  section stand.
* `others_flatMap_pieces`: lines without a carriage return at their end are read again as they are.
-/
namespace Vice.L4.ResourceSections
open Vice.L4.ResourceFile Vice.L4.ResourceLines

variable {id l buf : Text} {lines blank : List Text} {listed skipping : Bool}

/-! ## What belongs to another emulator -/

/-- Is a line after `buf` in another emulator's section? -/
def inOthers (id : Text) (listed : Bool) (buf : Text) : Bool :=
  if startsSection buf then !checkEmuId buf id && !checkEmuId buf versionId else listed

/-- The headers and the resource lines of the sections that are neither this emulator's nor a
version's. -/
def others (id : Text) : Bool → List Text → List Text
  | _, [] => []
  | listed, buf :: lines =>
    (if inOthers id listed buf && buf != [] then [buf] else []) ++
      others id (inOthers id listed buf) lines

theorem inOthers_of_header (h : startsSection buf = true) :
    inOthers id listed buf = (!checkEmuId buf id && !checkEmuId buf versionId) := if_pos h

theorem inOthers_of_not_header (h : startsSection buf = false) : inOthers id listed buf = listed :=
  if_neg (by rw [h]; exact Bool.false_ne_true)

theorem startsSection_of_checkEmuId {s : Text} (h : checkEmuId buf s = true) : startsSection buf = true := by
  rw [checkEmuId, beq_iff_eq] at h
  rw [h]
  rfl

theorem inOthers_of_own (h : checkEmuId buf id = true) : inOthers id listed buf = false := by
  rw [inOthers_of_header (startsSection_of_checkEmuId h), h]
  rfl

theorem inOthers_of_version (h : checkEmuId buf versionId = true) : inOthers id listed buf = false := by
  rw [inOthers_of_header (startsSection_of_checkEmuId h), h, Bool.not_true, Bool.and_false]

theorem others_unlisted (h : inOthers id listed buf = false) :
    others id listed (buf :: lines) = others id false lines := by
  rw [others, h]
  rfl

theorem others_blank (h : ∀ b ∈ blank, b = []) :
    others id listed (blank ++ lines) = others id listed lines := by
  induction blank with
  | nil => rfl
  | cons b blank ih =>
    have hin : inOthers id listed [] = listed := inOthers_of_not_header rfl
    rw [h b List.mem_cons_self, List.cons_append, others, hin,
      ih fun c hc => h c (List.mem_cons_of_mem b hc), bne_self_eq_false, Bool.and_false]
    rfl

/-- Without a header the lines that are not listed stay so. -/
theorem others_false_append (h : ∀ b ∈ lines, startsSection b = false) (rest : List Text) :
    others id false (lines ++ rest) = others id false rest := by
  induction lines with
  | nil => rfl
  | cons b lines ih =>
    rw [List.cons_append, others_unlisted (inOthers_of_not_header (h b List.mem_cons_self)),
      ih fun c hc => h c (List.mem_cons_of_mem b hc)]

theorem others_append (id : Text) (listed : Bool) (lines rest : List Text) :
    ∃ listed', others id listed (lines ++ rest) = others id listed lines ++ others id listed' rest := by
  induction lines generalizing listed with
  | nil => exact ⟨listed, rfl⟩
  | cons b lines ih =>
    obtain ⟨listed', h⟩ := ih (inOthers id listed b)
    refine ⟨listed', ?_⟩
    rw [List.cons_append, others, h, others, List.append_assoc]

theorem others_sublist (id : Text) (listed : Bool) (lines : List Text) :
    (others id listed lines).Sublist lines := by
  induction lines generalizing listed with
  | nil => exact List.Sublist.slnil
  | cons b lines ih =>
    rw [others]
    split
    · exact (ih _).cons_cons b
    · exact (ih _).cons b

/-- Lines that begin with a section, or are none. -/
def Opens (lines : List Text) : Prop :=
  (∀ b ∈ lines, b = []) ∨ ∃ buf rest, lines = buf :: rest ∧ startsSection buf = true

theorem others_of_opens (h : Opens lines) (listed listed' : Bool) :
    others id listed lines = others id listed' lines := by
  rcases h with hblank | ⟨buf, rest, rfl, hbuf⟩
  · have hnil : ∀ k, others id k lines = [] := by
      intro k
      have hkeep := @others_blank id [] lines k hblank
      rw [List.append_nil] at hkeep
      exact hkeep
    rw [hnil, hnil]
  · rw [others, others, inOthers_of_header hbuf, inOthers_of_header hbuf]

/-! ## What is copied -/

theorem others_copyRest (id : Text) (skipping listed : Bool) (lines : List Text) :
    others id listed (copyRest skipping lines) = others id (!skipping && listed) lines := by
  induction lines generalizing skipping listed with
  | nil => cases skipping <;> simp [copyRest, others, inOthers, startsSection]
  | cons buf lines ih =>
    cases hbuf : startsSection buf with
    | false =>
      cases skipping with
      | true =>
        have hcopy : copyRest true (buf :: lines) = copyRest true lines := by simp [copyRest, hbuf]
        rw [hcopy, ih, Bool.not_true, Bool.false_and, others_unlisted (inOthers_of_not_header hbuf)]
      | false =>
        have hver : checkEmuId buf versionId = false := by
          cases h : checkEmuId buf versionId with
          | false => rfl
          | true => rw [startsSection_of_checkEmuId h] at hbuf; cases hbuf
        have hcopy : copyRest false (buf :: lines) = buf :: copyRest false lines := by
          simp [copyRest, hver]
        rw [hcopy, others, ih, Bool.not_false, Bool.true_and, Bool.true_and, others]
    | true =>
      by_cases hskip : skipping = false ∧ checkEmuId buf versionId = true
      · obtain ⟨rfl, hver⟩ := hskip
        have hcopy : copyRest false (buf :: lines) = copyRest true lines := by
          simp [copyRest, hver]
        rw [hcopy, ih, others_unlisted (inOthers_of_version hver), Bool.not_true, Bool.false_and]
      · have hcopy : copyRest skipping (buf :: lines) = buf :: copyRest false lines := by
          cases skipping with
          | true => simp [copyRest, hbuf]
          | false =>
            have hver : checkEmuId buf versionId = false := by simpa using hskip
            simp [copyRest, hver]
        rw [hcopy, others, ih, Bool.not_false, Bool.true_and, inOthers_of_header hbuf, others,
          inOthers_of_header hbuf]

theorem others_copyAfter (id : Text) (lines : List Text) :
    others id false (copyAfter lines) = others id false lines := by
  induction lines with
  | nil => rfl
  | cons buf lines ih =>
    rw [copyAfter]
    split
    · rw [others_copyRest]
      rfl
    · rename_i hbuf
      rw [ih, others_unlisted (inOthers_of_not_header (Bool.not_eq_true _ ▸ hbuf))]

/-- The file up to this emulator's section and what follows its header are the file. -/
theorem copyRest_eq (id : Text) (skipping : Bool) (lines : List Text) : ((copyBefore id skipping lines).2 = [] ∧
        copyRest skipping lines = (copyBefore id skipping lines).1) ∨
      ∃ own, checkEmuId own id = true ∧ copyRest skipping lines =
        (copyBefore id skipping lines).1 ++ own :: copyRest false (copyBefore id skipping lines).2 := by
  induction lines generalizing skipping with
  | nil => exact .inl ⟨rfl, rfl⟩
  | cons buf lines ih =>
    rw [copyBefore, copyRest]
    split
    · exact ih true
    · split
      · exact ih true
      · split
        · rename_i hown
          exact .inr ⟨buf, hown, rfl⟩
        · rcases ih false with ⟨hnil, hcopy⟩ | ⟨own, hown, hcopy⟩
          · exact .inl ⟨hnil, congrArg _ hcopy⟩
          · exact .inr ⟨own, hown, congrArg _ hcopy⟩

theorem others_save (id : Text) (listed : Bool) (lines : List Text) :
    others id listed (copyBefore id false lines).1 ++
      others id false (copyAfter (copyBefore id false lines).2) = others id listed lines := by
  have hall : others id listed (copyRest false lines) = others id listed lines :=
    others_copyRest id false listed lines
  rw [others_copyAfter, ← hall]
  rcases copyRest_eq id false lines with ⟨hnil, hcopy⟩ | ⟨own, hown, hcopy⟩
  · rw [hnil, hcopy, others, List.append_nil]
  · obtain ⟨listed', happend⟩ := others_append id listed (copyBefore id false lines).1
      (own :: copyRest false (copyBefore id false lines).2)
    rw [hcopy, happend, others_unlisted (inOthers_of_own hown), others_copyRest]
    rfl

theorem mem_copyRest (h : l ∈ copyRest skipping lines) : l ∈ lines ∨ l = [] := by
  induction lines generalizing skipping with
  | nil =>
    cases skipping with
    | true => exact .inr (List.mem_singleton.1 h)
    | false => cases h
  | cons buf lines ih =>
    have hrest : ∀ {k}, l ∈ copyRest k lines → l ∈ buf :: lines ∨ l = [] := fun hk =>
      (ih hk).imp_left (List.mem_cons_of_mem buf)
    rw [copyRest] at h
    split at h
    · exact hrest h
    · split at h
      · exact hrest h
      · rcases List.mem_cons.1 h with rfl | h
        · exact .inl List.mem_cons_self
        · exact hrest h

theorem mem_copyAfter (h : l ∈ copyAfter lines) : l ∈ lines ∨ l = [] := by
  induction lines with
  | nil => cases h
  | cons buf lines ih =>
    rw [copyAfter] at h
    split at h
    · exact mem_copyRest h
    · exact (ih h).imp_left (List.mem_cons_of_mem buf)

/-- What comes before the own section is copied from the file, and is not the own header. -/
theorem mem_copyBefore (h : l ∈ (copyBefore id skipping lines).1) :
    (l ∈ lines ∧ checkEmuId l id = false) ∨ l = [] := by
  induction lines generalizing skipping with
  | nil =>
    cases skipping with
    | true => exact .inr (List.mem_singleton.1 h)
    | false => cases h
  | cons buf lines ih =>
    have hrest : ∀ {k}, l ∈ (copyBefore id k lines).1 →
        (l ∈ buf :: lines ∧ checkEmuId l id = false) ∨ l = [] := fun hk =>
      (ih hk).imp_left fun hl => ⟨List.mem_cons_of_mem buf hl.1, hl.2⟩
    rw [copyBefore] at h
    split at h
    · exact hrest h
    · split at h
      · exact hrest h
      · split at h
        · cases h
        · rename_i hown
          rcases List.mem_cons.1 h with rfl | h
          · exact .inl ⟨List.mem_cons_self, Bool.not_eq_true _ ▸ hown⟩
          · exact hrest h

theorem mem_copyBefore_rest (h : l ∈ (copyBefore id skipping lines).2) : l ∈ lines := by
  induction lines generalizing skipping with
  | nil => cases h
  | cons buf lines ih =>
    rw [copyBefore] at h
    split at h
    · exact List.mem_cons_of_mem buf (ih h)
    · split at h
      · exact List.mem_cons_of_mem buf (ih h)
      · split at h
        · exact List.mem_cons_of_mem buf h
        · exact List.mem_cons_of_mem buf (ih h)

theorem opens_copyRest (skipping : Bool) (lines : List Text) (hskip : skipping = true ∨
    ∃ buf rest, lines = buf :: rest ∧ startsSection buf = true) : Opens (copyRest skipping lines) := by
  induction lines generalizing skipping with
  | nil =>
    left
    cases skipping with
    | true => exact fun b hb => List.mem_singleton.1 hb
    | false => exact fun b hb => nomatch hb
  | cons buf lines ih =>
    rw [copyRest]
    split
    · exact ih true (.inl rfl)
    · rename_i hbuf
      split
      · exact ih true (.inl rfl)
      · refine .inr ⟨buf, _, rfl, ?_⟩
        rcases hskip with rfl | ⟨b, rest, hb, hstart⟩
        · simpa using hbuf
        · rw [(List.cons.inj hb).1]
          exact hstart

theorem opens_copyAfter (lines : List Text) : Opens (copyAfter lines) := by
  induction lines with
  | nil => exact .inl fun b hb => nomatch hb
  | cons buf lines ih =>
    rw [copyAfter]
    split
    · rename_i hbuf
      exact opens_copyRest false _ (.inr ⟨buf, lines, rfl, hbuf⟩)
    · exact ih

/-! ## What is read again -/

theorem head?_rdropWhile {p : UInt8 → Bool} {b : UInt8} (hl : l.head? = some b)
    (hb : p b = false) : (l.rdropWhile p).head? = some b := by
  rw [← hl]
  apply head?_of_prefix ( List.rdropWhile_prefix p l)
  intro hnil
  have hall := List.rdropWhile_eq_nil_iff.1 hnil b (List.mem_of_mem_head? hl)
  rw [hb] at hall
  cases hall

/-- Trimming makes no header and loses none. -/
theorem startsSection_trimLine (h : l.head? ≠ some space) : startsSection (trimLine l) = startsSection l := by
  rw [startsSection, startsSection, Bool.eq_iff_iff, beq_iff_eq, beq_iff_eq]
  constructor
  · intro htrim
    rw [← head?_of_prefix ( trimLine_prefix h), htrim]
    intro hnil
    rw [hnil] at htrim
    cases htrim
  · intro hl
    have hhead := head?_rdropWhile (p := (· == space)) (head?_rdropWhile (p := isLineEnd) hl rfl) rfl
    rw [trimLine, dropWhile_space_eq_self]
    · exact hhead
    · rw [hhead]
      decide

theorem getLast?_of_checkEmuId {s : Text} (h : checkEmuId l s = true) : l.getLast? = some closeBracket := by
  rw [checkEmuId, beq_iff_eq] at h
  rw [h, List.getLast?_concat]

theorem trimLine_header (h : ReadLine l) {s : Text} (hs : checkEmuId l s = true) : trimLine l = l := by
  apply h.trim_eq
  rw [getLast?_of_checkEmuId hs]
  decide

/-- Where trimming changes what is listed, it lists less. -/
theorem inOthers_trimLine (h : ReadLine l) {listed' : Bool} (hle : listed' = true → listed = true)
    (hin : inOthers id listed' (trimLine l) = true) : inOthers id listed l = true := by
  cases hl : startsSection l with
  | false =>
    rw [inOthers_of_not_header ((startsSection_trimLine h.head_ne).trans hl)] at hin
    rw [inOthers_of_not_header hl]
    exact hle hin
  | true =>
    cases hid : checkEmuId l id with
    | true =>
      rw [trimLine_header h hid, inOthers_of_own hid] at hin
      cases hin
    | false =>
      cases hver : checkEmuId l versionId with
      | true =>
        rw [trimLine_header h hver, inOthers_of_version hver] at hin
        cases hin
      | false =>
        rw [inOthers_of_header hl, hid, hver]
        rfl

theorem others_pieces (h : ReadLine l) (rest : List Text) :
    others id listed (pieces l ++ rest) = others id listed (trimLine l :: rest) := by
  obtain ⟨blank, hpieces, hblank⟩ := pieces_of_le h.oneLine h.length_le
  rw [hpieces, List.cons_append, others, others_blank hblank, others]

theorem others_flatMap_pieces (h : ∀ l ∈ lines, ReadLine l)
    (hcr : ∀ l ∈ others id listed lines, l.getLast? ≠ some carriageReturn) :
    others id listed (lines.flatMap pieces) = others id listed lines := by
  induction lines generalizing listed with
  | nil => rfl
  | cons l lines ih =>
    have hl := h l List.mem_cons_self
    have ih' := fun k => @ih k fun m hm => h m (List.mem_cons_of_mem l hm)
    rw [List.flatMap_cons, others_pieces hl]
    rw [others] at hcr
    by_cases hlast : l.getLast? = some carriageReturn
    · -- a line with a carriage return at its end is not listed, so it is no header
      have hne : l ≠ [] := by
        rintro rfl
        cases hlast
      have hunlisted : inOthers id listed l = false := by
        cases hin : inOthers id listed l with
        | false => rfl
        | true =>
          rw [hin, bne_iff_ne.2 hne] at hcr
          exact absurd hlast (hcr l (List.mem_append_left _ List.mem_cons_self))
      have htrim : inOthers id listed (trimLine l) = false := by
        cases hin : inOthers id listed (trimLine l) with
        | false => rfl
        | true =>
          rw [inOthers_trimLine hl (fun hk => hk) hin] at hunlisted
          cases hunlisted
      rw [others_unlisted htrim, others_unlisted hunlisted]
      rw [hunlisted] at hcr
      exact ih' false hcr
    · rw [hl.trim_eq hlast, others, others, ih' _ fun m hm => hcr m (List.mem_append_right _ hm)]

/-! ## Carriage returns -/

/-- How many carriage returns there are in the lines. -/
def returns (lines : List Text) : Nat := lines.flatten.count carriageReturn

theorem returns_append (a b : List Text) : returns (a ++ b) = returns a + returns b := by
  rw [returns, List.flatten_append, List.count_append, returns, returns]

theorem returns_singleton (l : Text) : returns [l] = l.count carriageReturn := by
  rw [returns, List.flatten_singleton]

theorem returns_eq_zero (h : ∀ l ∈ lines, carriageReturn ∉ l) : returns lines = 0 := by
  rw [returns, List.count_eq_zero]
  intro hmem
  obtain ⟨l, hl, hcr⟩ := List.mem_flatten.1 hmem
  exact h l hl hcr

def endsInReturn (l : Text) : Bool := l.getLast? == some carriageReturn

theorem returns_others_pieces (id : Text) (listed listed' : Bool) (h : ∀ l ∈ lines, ReadLine l)
    (hle : listed' = true → listed = true) :
    returns (others id listed' (lines.flatMap pieces)) +
      (others id listed lines).countP endsInReturn ≤ returns (others id listed lines) := by
  induction lines generalizing listed listed' with
  | nil => exact Nat.le_refl _
  | cons l lines ih =>
    have hl := h l List.mem_cons_self
    have hmono := @inOthers_trimLine id l listed hl listed' hle
    have ih' := ih _ _ (fun m hm => h m (List.mem_cons_of_mem l hm)) hmono
    rw [List.flatMap_cons, others_pieces hl, others, others, returns_append, returns_append, List.countP_append]
    cases hin : inOthers id listed l && l != [] with
    | false =>
      have htrim : (inOthers id listed' (trimLine l) && trimLine l != []) = false := by
        rw [Bool.and_eq_false_iff] at hin ⊢
        rcases hin with hin | hnil
        · left
          cases hin' : inOthers id listed' (trimLine l) with
          | false => rfl
          | true =>
            rw [inOthers_trimLine hl hle hin'] at hin
            cases hin
        · right
          rw [bne_eq_false_iff_eq] at hnil ⊢
          rw [hnil]
          rfl
      rw [htrim]
      simpa [returns] using ih'
    | true =>
      have hcount := count_trimLine hl.head_ne
      have hline : returns (if (inOthers id listed' (trimLine l) && trimLine l != []) = true then
          [trimLine l] else []) ≤ (trimLine l).count carriageReturn := by
        split
        · rw [returns_singleton]
        · exact Nat.zero_le _
      have hends : [l].countP endsInReturn =
          if l.getLast? = some carriageReturn then 1 else 0 := by
        simp [List.countP_singleton, endsInReturn]
      rw [if_pos rfl, returns_singleton, hends]
      omega

end Vice.L4.ResourceSections

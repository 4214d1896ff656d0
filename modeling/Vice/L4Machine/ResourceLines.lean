import Vice.L4Machine.ResourceFile
import Mathlib.Data.List.TakeWhile

/-!
# Lines of the resource file

A line that is printed comes back from `util_get_line` trimmed, and in pieces of 1023 bytes where
it is longer than the buffer.

Results:
* `fileLines_render`: a printed file reads as the pieces of its lines.
* `pieces_of_le`, `pieces_of_ge`: what the pieces of a line are.
* `trimLine_eq_self`, `trimLine_prefix`, `count_trimLine`: trimming a line that was read.
-/
namespace Vice.L4.ResourceLines
open Vice.L4.ResourceFile

variable {l f rest : Text} {lines : List Text} {n m : Nat}

/-! ## The calls of one file -/

theorem lineLength_pos (f : Text) : 0 < lineLength f := by
  rw [lineLength, bufSize]
  omega

theorem utilGetLine_cons (hf : f ≠ []) : utilGetLine f =
      some (trimLine ((f.take (lineLength f)).takeWhile (· != nul)), f.drop (lineLength f)) := by
  rw [utilGetLine, if_neg hf]

theorem drop_lineLength_lt (hf : f ≠ []) : (f.drop (lineLength f)).length < f.length := by
  have hpos := List.length_pos_iff.2 hf
  have hline := lineLength_pos f
  rw [List.length_drop]
  omega

theorem linesUpTo_nil (n : Nat) : linesUpTo n [] = [] := by
  cases n with
  | zero => rfl
  | succ n => rfl

/-- The number of calls allowed does not matter once there are enough of them. -/
theorem linesUpTo_of_le : f.length ≤ n → linesUpTo n f = fileLines f := by
  rw [fileLines]
  induction n using Nat.strongRecOn generalizing f with
  | _ n ih =>
    intro hn
    by_cases hf : f = []
    · rw [hf, linesUpTo_nil, linesUpTo_nil]
    · have hlt := drop_lineLength_lt hf
      obtain ⟨k, rfl⟩ : ∃ k, n = k + 1 := ⟨n - 1, by omega⟩
      obtain ⟨j, hj⟩ : ∃ j, f.length = j + 1 := ⟨f.length - 1, by omega⟩
      rw [hj, linesUpTo, linesUpTo, utilGetLine_cons hf]
      simp only [List.cons.injEq, true_and]
      rw [ih k (by omega) (by omega)]
      exact (ih j (by omega) (by omega)).symm

theorem fileLines_nil : fileLines [] = [] := rfl

theorem fileLines_eq (hf : f ≠ []) : fileLines f = trimLine ((f.take (lineLength f)).takeWhile (· != nul)) ::
      fileLines (f.drop (lineLength f)) := by
  have hlt := drop_lineLength_lt hf
  obtain ⟨j, hj⟩ : ∃ j, f.length = j + 1 := ⟨f.length - 1, by omega⟩
  conv_lhs => rw [fileLines, hj, linesUpTo, utilGetLine_cons hf]
  simp only
  rw [linesUpTo_of_le (by omega)]

/-! ## Trimming -/

theorem rdropWhile_eq_self_of_last {p : UInt8 → Bool} (h : ∀ b, l.getLast? = some b → p b = false) :
    l.rdropWhile p = l := by
  rw [List.rdropWhile_eq_self_iff]
  intro hl
  rw [h _ (List.getLast?_eq_getLast_of_ne_nil hl)]
  exact Bool.false_ne_true

theorem dropWhile_space_eq_self (h : l.head? ≠ some space) : l.dropWhile (· == space) = l := by
  cases l with
  | nil => rfl
  | cons b l =>
    rw [List.dropWhile_cons_of_neg]
    intro hb
    exact h (congrArg some (eq_of_beq hb))

theorem head?_of_prefix {a : Text} (h : a <+: l) (ha : a ≠ []) : a.head? = l.head? := by
  obtain ⟨t, rfl⟩ := h
  rw [List.head?_append_of_ne_nil _ ha]

/-- A line without a leading space is only shortened. -/
theorem trimLine_prefix (h : l.head? ≠ some space) : trimLine l <+: l := by
  have hpre : (l.rdropWhile isLineEnd).rdropWhile (· == space) <+: l :=
    ( List.rdropWhile_prefix _ _).trans ( List.rdropWhile_prefix _ _)
  rw [trimLine, dropWhile_space_eq_self]
  · exact hpre
  · intro hs
    refine h ?_
    rw [← head?_of_prefix hpre, hs]
    intro hnil
    rw [hnil] at hs
    cases hs

theorem trimLine_eq_self (hhead : l.head? ≠ some space) (hspace : l.getLast? ≠ some space)
    (hcr : l.getLast? ≠ some carriageReturn) (hlf : l.getLast? ≠ some lineFeed) :
    trimLine l = l := by
  rw [trimLine, rdropWhile_eq_self_of_last (p := isLineEnd), rdropWhile_eq_self_of_last,
    dropWhile_space_eq_self hhead]
  · intro b hb
    apply beq_false_of_ne
    rintro rfl
    exact hspace hb
  · intro b hb
    have hb_cr : b ≠ carriageReturn := by
      rintro rfl
      exact hcr hb
    have hb_lf : b ≠ lineFeed := by
      rintro rfl
      exact hlf hb
    rw [isLineEnd, beq_false_of_ne hb_cr, beq_false_of_ne hb_lf, Bool.or_false]

/-- The newline at the end of what `fgets` read changes nothing. -/
theorem trimLine_append_lineFeed (l : Text) : trimLine (l ++ [lineFeed]) = trimLine l := by
  rw [trimLine, trimLine, List.rdropWhile_concat_pos _ _ _ rfl]

/-- A carriage return at the end is lost, and none is won. -/
theorem count_trimLine (h : l.head? ≠ some space) : (trimLine l).count carriageReturn +
      (if l.getLast? = some carriageReturn then 1 else 0) ≤ l.count carriageReturn := by
  by_cases hlast : l.getLast? = some carriageReturn
  · obtain ⟨a, rfl⟩ := List.getLast?_eq_some_iff.1 hlast
    have htrim : trimLine (a ++ [carriageReturn]) = trimLine a := by
      rw [trimLine, trimLine, List.rdropWhile_concat_pos _ _ _ rfl]
    rw [if_pos hlast, htrim, List.count_append, List.count_singleton_self]
    have hcount := ( trimLine_prefix (l := a) ?_).sublist.count_le carriageReturn
    · omega
    · intro ha
      apply h
      rw [List.head?_append, ha]
      rfl
  · rw [if_neg hlast]
    exact ( trimLine_prefix h).sublist.count_le carriageReturn

/-! ## What was read -/

/-- What `util_get_line` leaves in its buffer. -/
structure ReadLine (l : Text) : Prop where
  noLineFeed : lineFeed ∉ l
  noNul : nul ∉ l
  length_le : l.length ≤ 1023
  head_ne : l.head? ≠ some space
  last_ne : l.getLast? ≠ some space

theorem head?_dropWhile_ne (l : Text) : (l.dropWhile (· == space)).head? ≠ some space := by
  intro h
  have hnot := List.head?_dropWhile_not (· == space) l
  rw [h] at hnot
  exact absurd hnot (by decide)

theorem getLast?_dropWhile {p : UInt8 → Bool} (h : l.dropWhile p ≠ []) :
    (l.dropWhile p).getLast? = l.getLast? := by
  obtain ⟨t, ht⟩ := List.dropWhile_suffix p (l := l)
  conv_rhs => rw [← ht]
  rw [List.getLast?_append_of_ne_nil _ h]

theorem getLast?_rdropWhile_ne (l : Text) : (l.rdropWhile (· == space)).getLast? ≠ some space := by
  intro h
  have hne : l.rdropWhile (· == space) ≠ [] := by
    intro hnil
    rw [hnil] at h
    cases h
  rw [List.getLast?_eq_getLast_of_ne_nil hne, Option.some.injEq] at h
  have hnot := List.rdropWhile_last_not (· == space) l hne
  rw [h] at hnot
  exact hnot rfl

theorem trimLine_sublist (l : Text) : (trimLine l).Sublist l :=
  (List.dropWhile_sublist _).trans
    (( List.rdropWhile_prefix _ _).trans ( List.rdropWhile_prefix _ _)).sublist

/-- Among the bytes `fgets` takes there is a newline at the end only. -/
theorem lineFeed_of_take (f : Text) : lineFeed ∉ (f.take (lineLength f)).dropLast := by
  intro hmem
  have htake : (f.take (lineLength f)).dropLast <+: f.takeWhile (· != lineFeed) := by
    rw [List.dropLast_eq_take, List.take_take]
    apply List.prefix_of_prefix_length_le ( List.take_prefix _ f) ( List.takeWhile_prefix _)
    rw [List.length_take, List.length_take, lineLength]
    omega
  exact absurd (List.mem_takeWhile_imp (htake.subset hmem)) (by decide)

theorem lineFeed_of_trim (h : lineFeed ∉ l.dropLast) : lineFeed ∉ trimLine l := by
  intro hmem
  have hin : lineFeed ∈ l.rdropWhile isLineEnd :=
    ((List.dropWhile_sublist _).trans ( List.rdropWhile_prefix _ _).sublist).subset hmem
  rcases List.eq_nil_or_concat l with rfl | ⟨a, b, rfl⟩
  · cases hin
  · rw [List.concat_eq_append] at h hin
    rw [List.dropLast_concat] at h
    by_cases hb : isLineEnd b = true
    · rw [List.rdropWhile_concat_pos _ _ _ hb] at hin
      exact h (( List.rdropWhile_prefix _ _).subset hin)
    · rw [List.rdropWhile_concat_neg _ _ _ hb, List.mem_append, List.mem_singleton] at hin
      rcases hin with ha | rfl
      · exact h ha
      · exact hb rfl

theorem readLine_trim (hlf : lineFeed ∉ l.dropLast) (hnul : nul ∉ l) (hlen : l.length ≤ 1023) :
    ReadLine (trimLine l) where
  noLineFeed := lineFeed_of_trim hlf
  noNul h := hnul ((trimLine_sublist l).subset h)
  length_le := (trimLine_sublist l).length_le.trans hlen
  head_ne := head?_dropWhile_ne _
  last_ne := by
    intro h
    have hne : trimLine l ≠ [] := by
      intro hnil
      rw [hnil] at h
      cases h
    rw [trimLine, getLast?_dropWhile hne] at h
    exact getLast?_rdropWhile_ne _ h

theorem dropLast_prefix_dropLast {a : Text} (h : a <+: l) : a.dropLast <+: l.dropLast := by
  apply List.prefix_of_prefix_length_le (( List.dropLast_prefix a).trans h) ( List.dropLast_prefix l)
  have hle := h.length_le
  rw [List.length_dropLast, List.length_dropLast]
  omega

theorem readLine_of_mem (hl : l ∈ fileLines f) : ReadLine l := by
  induction hn : f.length using Nat.strongRecOn generalizing f with
  | _ n ih =>
    by_cases hf : f = []
    · rw [hf] at hl
      cases hl
    · rw [fileLines_eq hf] at hl
      rcases List.mem_cons.1 hl with rfl | hl
      · apply readLine_trim
        · intro hmem
          apply lineFeed_of_take f
          exact (dropLast_prefix_dropLast ( List.takeWhile_prefix _)).subset hmem
        · intro hmem
          exact absurd (List.mem_takeWhile_imp hmem) (by decide)
        · refine ( List.takeWhile_prefix _).length_le.trans ?_
          rw [List.length_take, lineLength, bufSize]
          omega
      · exact ih _ (hn ▸ drop_lineLength_lt hf) hl rfl

theorem ReadLine.trim_eq (h : ReadLine l) (hcr : l.getLast? ≠ some carriageReturn) : trimLine l = l :=
  trimLine_eq_self h.head_ne h.last_ne hcr fun hlf => h.noLineFeed (List.mem_of_getLast? hlf)

/-! ## What was printed -/

/-- What a printed line is read as. -/
def pieces (l : Text) : List Text := fileLines (l ++ [lineFeed])

/-- A text that `fputs` prints as one line. -/
structure OneLine (l : Text) : Prop where
  noLineFeed : lineFeed ∉ l
  noNul : nul ∉ l

theorem ReadLine.oneLine (h : ReadLine l) : OneLine l := ⟨h.noLineFeed, h.noNul⟩

theorem OneLine.drop (h : OneLine l) (n : Nat) : OneLine (l.drop n) where
  noLineFeed hmem := h.noLineFeed (List.mem_of_mem_drop hmem)
  noNul hmem := h.noNul (List.mem_of_mem_drop hmem)

theorem takeWhile_nul (h : nul ∉ l) : l.takeWhile (· != nul) = l := by
  rw [List.takeWhile_eq_self_iff]
  intro b hb
  rw [bne_iff_ne]
  rintro rfl
  exact h hb

theorem lineLength_append (h : lineFeed ∉ l) (rest : Text) :
    lineLength (l ++ lineFeed :: rest) = min 1023 (l.length + 1) := by
  have htake : (l ++ lineFeed :: rest).takeWhile (· != lineFeed) = l := by
    rw [List.takeWhile_append_of_pos]
    · rw [List.takeWhile_cons_of_neg (by decide), List.append_nil]
    · intro b hb
      rw [bne_iff_ne]
      rintro rfl
      exact h hb
  rw [lineLength, htake]
  rfl

/-- A line that fits into the buffer with its newline is one call. -/
theorem fileLines_short (h : OneLine l) (hlen : l.length ≤ 1022) (rest : Text) :
    fileLines (l ++ lineFeed :: rest) = trimLine l :: fileLines rest := by
  have hlast : l ++ lineFeed :: rest = (l ++ [lineFeed]) ++ rest := by
    rw [List.append_assoc, List.singleton_append]
  rw [fileLines_eq (by simp), lineLength_append h.noLineFeed, Nat.min_eq_right (by omega), hlast,
    List.take_left' (by simp), List.drop_left' (by simp), takeWhile_nul, trimLine_append_lineFeed]
  rw [List.mem_append, List.mem_singleton]
  rintro (hnul | hnul)
  · exact h.noNul hnul
  · cases hnul

/-- A longer one is cut after 1023 bytes. -/
theorem fileLines_long (h : OneLine l) (hlen : 1023 ≤ l.length) (rest : Text) :
    fileLines (l ++ lineFeed :: rest) =
      trimLine (l.take 1023) :: fileLines (l.drop 1023 ++ lineFeed :: rest) := by
  rw [fileLines_eq (by simp), lineLength_append h.noLineFeed, Nat.min_eq_left (by omega),
    List.take_append_of_le_length hlen, List.drop_append_of_le_length hlen, takeWhile_nul]
  exact fun hnul => h.noNul (List.mem_of_mem_take hnul)

theorem fileLines_append (h : OneLine l) (rest : Text) :
    fileLines (l ++ lineFeed :: rest) = pieces l ++ fileLines rest := by
  induction hn : l.length using Nat.strongRecOn generalizing l with
  | _ n ih =>
    rcases Nat.lt_or_ge l.length 1023 with hlt | hge
    · rw [pieces, fileLines_short h (by omega), fileLines_short h (by omega), fileLines_nil]
      rfl
    · rw [pieces, fileLines_long h hge, fileLines_long h hge,
        ih _ (by rw [List.length_drop]; omega) (h.drop 1023) rfl]
      rfl

theorem fileLines_render (h : ∀ l ∈ lines, OneLine l) : fileLines (render lines) = lines.flatMap pieces := by
  induction lines with
  | nil => rfl
  | cons l lines ih =>
    rw [render, List.flatMap_cons, List.append_assoc, List.singleton_append,
      fileLines_append (h l List.mem_cons_self), List.flatMap_cons]
    congr 1
    exact ih fun m hm => h m (List.mem_cons_of_mem l hm)

theorem pieces_of_ge (h : OneLine l) (hlen : 1023 ≤ l.length) :
    pieces l = trimLine (l.take 1023) :: pieces (l.drop 1023) := fileLines_long h hlen []

/-- A line of exactly 1023 bytes leaves its newline to the next call. -/
theorem pieces_of_le (h : OneLine l) (hlen : l.length ≤ 1023) :
    ∃ blank : List Text, pieces l = trimLine l :: blank ∧ ∀ b ∈ blank, b = [] := by
  rcases Nat.lt_or_ge l.length 1023 with hlt | hge
  · exact ⟨[], fileLines_short h (by omega) [], fun b hb => nomatch hb⟩
  · refine ⟨[[]], ?_, fun b hb => List.mem_singleton.1 hb⟩
    rw [pieces_of_ge h hge, List.take_of_length_le hlen, List.drop_of_length_le hlen]
    rfl

theorem pieces_nil : pieces [] = [[]] := rfl

end Vice.L4.ResourceLines

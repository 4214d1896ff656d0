import Vice.L3Drive.Directory

/-!
# Renaming a P00 file (`fileio/p00.c`, `rawfile.c`)

A P00 file keeps its CBM name in a header, and the host's name is made from it. To rename one writes the header
anew and then gives the file a new host name; the stream for the header is opened for appending.

Results:
* `appendTo_contents`: what the header is written to, and that other files stay.
* `rename_faithful_iff`: a rename is faithful exactly if it is refused before the header is written.
-/
namespace Vice.L3.P00Rename
open Vice.L3.Directory

abbrev Name := List UInt8

/-! ## Host files -/

/-- A host directory: the names in the order of `readdir`, and the contents. -/
structure Host where
  files : List (Name × List UInt8)
  distinct : (files.map Prod.fst).Nodup

def contentsOf : List (Name × List UInt8) → Name → Option (List UInt8)
  | [], _ => none
  | f :: files, name => if f.1 = name then some f.2 else contentsOf files name

/-- How a host's `rename` ends. -/
inductive Renamed
  | done
  | notPermitted
  | failed
  deriving DecidableEq, Repr

/-- What else the host answers: whether the directory is opened for either search, which files are opened for
reading, whether the file is for appending, how much of the header is stored, which files `util_file_exists` finds
in the directory of the process, and what becomes of the rename. -/
structure Answers where
  lists : Bool × Bool
  readable : Name → Bool
  appendable : Bool
  stored : Nat
  taken : Name → Bool
  renamed : Renamed

/-- mirrors src/fileio.h:54-58 -/
inductive Result
  | ok
  | notFound
  | exists
  | permission
  deriving DecidableEq, Repr

/-! ## Names -/

def isDigit (c : UInt8) : Bool := 0x30 ≤ c && c ≤ 0x39
def isUpper (c : UInt8) : Bool := 0x41 ≤ c && c ≤ 0x5a
def isLower (c : UInt8) : Bool := 0x61 ≤ c && c ≤ 0x7a
def toUpper (c : UInt8) : UInt8 := if isLower c then c - 0x20 else c

/-- mirrors src/fileio/p00.c:82-98: the types of `CBMDOS_FT_*`. -/
def typeOf (c : UInt8) : Option Nat :=
  if c = 0x44 then some 0
  else if c = 0x53 then some 1
  else if c = 0x50 then some 2
  else if c = 0x55 then some 3
  else if c = 0x52 then some 4
  else none

/-- mirrors src/fileio/p00.c:69-101 (`p00_check_name`) -/
def p00CheckName (name : Name) : Option Nat :=
  if name.contains 0x2e then
    match (name.reverse.takeWhile (· != 0x2e)).reverse with
    | [c, d, e] => if isDigit d && isDigit e then typeOf (toUpper c) else none
    | _ => none
  else none

/-- mirrors src/fileio/p00.c:66 (`p00_hdr_magic_string`) -/
def magic : List UInt8 := [0x43, 0x36, 0x34, 0x46, 0x69, 0x6c, 0x65, 0x00]

/-- mirrors src/fileio/p00.c:103-124 (`p00_read_header`): the name in it. -/
def p00ReadHeader (content : List UInt8) : Option (List UInt8) :=
  if (content.take 26).length ≠ 26 then none
  else if content.take 8 ≠ magic then none
  else some ((content.drop 8).take 17)

/-- mirrors src/fileio/p00.c:151-160 (`p00_pad_a0`) -/
def p00PadA0 (slot : List UInt8) : Nat → UInt8 := fun k => if slot.getD k 0 = 0 then 0xa0 else slot.getD k 0

/-- mirrors src/fileio/p00.c:187-209: whether a file has a CBM name. -/
def bears (file_name : Name) (content : List UInt8) : Bool :=
  match p00ReadHeader content with
  | none => false
  | some name => cbmdosParseWildcardCompare (cbmdosDirSlotCreate file_name) (p00PadA0 name)

/-- mirrors src/fileio/p00.c:161-218 (`p00_file_find`), `lists` being whether the directory is opened. -/
def p00FileFind (lists : Bool) (readable : Name → Bool) (files : List (Name × List UInt8)) (file_name : Name) : Option Name :=
  if lists then
    (files.find? fun f => (p00CheckName f.1).isSome && readable f.1 && bears file_name f.2).map Prod.fst
  else none

/-! ## New host names -/

/-- mirrors src/fileio/p00.c:220-224 (`p00_eliminate_char_p00`) -/
def eliminate (filename : List UInt8) (pos : Nat) : List UInt8 := filename.eraseIdx pos

/-- mirrors src/fileio/p00.c:230-261: one of the loops from the end, and whether it came down to eight characters. -/
def reduceLoop (drops : UInt8 → Bool) (low : Nat) : Nat → List UInt8 → List UInt8 × Bool
  | 0, filename => (filename, false)
  | n + 1, filename =>
    if n < low then (filename, false)
    else if drops (filename.getD n 0) then
      if (eliminate filename n).length ≤ 8 then (eliminate filename n, true)
      else reduceLoop drops low n (eliminate filename n)
    else reduceLoop drops low n filename

/-- `strchr("AEIOU", c)`, which finds the terminator as well. -/
def vowel (c : UInt8) : Bool := [0x41, 0x45, 0x49, 0x4f, 0x55, 0x00].contains c

/-- mirrors src/fileio/p00.c:226-264 (`p00_reduce_filename_p00`) -/
def reduceFilename (filename : List UInt8) (len : Nat) : List UInt8 :=
  let (filename, done) := reduceLoop (· == 0x5f) 0 len filename
  if done then filename
  else
    let i := ((List.range len).find? fun i => vowel (filename.getD i 0)).getD len
    let (filename, done) := reduceLoop vowel i len filename
    if done then filename
    else
      let (filename, done) := reduceLoop (fun c => isUpper c || isLower c) 0 len filename
      if done then filename else (reduceLoop (fun _ => true) 0 len filename).1

/-- mirrors src/fileio/p00.c:273-290: what is kept of a character. -/
def hostChar (c : UInt8) : Option UInt8 :=
  if c = 0x20 ∨ c = 0x2d then some 0x5f
  else if isLower c then some (toUpper c)
  else if isUpper c || isDigit c then some c
  else none

/-- mirrors src/fileio/p00.c:266-303 (`p00_evaluate_name`) -/
def p00EvaluateName (name : Name) (length : Nat) : List UInt8 :=
  let filename := (name.take length).filterMap hostChar
  let filename := if filename.isEmpty then [0x5f] else filename
  if 8 < filename.length then reduceFilename filename filename.length else filename

/-- mirrors src/fileio/p00.c:320-336 -/
def typeext (type : Nat) : UInt8 :=
  if type = 0 then 0x44 else if type = 1 then 0x53 else if type = 2 then 0x50 else if type = 3 then 0x55 else 0x52

/-- mirrors src/fileio/p00.c:305-342 (`p00_filename_create`) -/
def p00FilenameCreate (file_name : Name) (type : Nat) : Name :=
  p00EvaluateName file_name (min file_name.length 16) ++ [0x2e, typeext type, 0x30, 0x30]

/-- `sprintf` of `%02u`. -/
def twoDigits (i : Nat) : List UInt8 := [UInt8.ofNat (0x30 + i / 10), UInt8.ofNat (0x30 + i % 10)]

/-- mirrors src/fileio/p00.c:352-361: so many turns, `i` being that of the next. -/
def freeName (taken : Name → Bool) : Nat → Nat → Name → Option Name
  | 0, _, _ => none
  | n + 1, i, name =>
    if taken name then freeName taken n (i + 1) (name.take (name.length - 2) ++ twoDigits i) else some name

/-- mirrors src/fileio/p00.c:344-364 (`p00_file_create`) -/
def p00FileCreate (taken : Name → Bool) (file_name : Name) (type : Nat) : Option Name :=
  freeName taken 99 1 (p00FilenameCreate file_name type)

/-! ## Renaming -/

/-- A new name with zeros behind it, as `strncpy` leaves it. -/
def padded (name : Name) : List UInt8 := (name.take 16) ++ List.replicate (17 - (name.take 16).length) 0

/-- mirrors src/fileio/p00.c:127-136: the header that is written. -/
def newHeader (dst_name : Name) : List UInt8 := magic ++ padded dst_name ++ [0]

/-- A stream of mode `a` writes at the end, wherever it was put. -/
def appendTo (files : List (Name × List UInt8)) (name : Name) (bytes : List UInt8) : List (Name × List UInt8) :=
  files.map fun f => if f.1 = name then (f.1, f.2 ++ bytes) else f

def renameEntry (files : List (Name × List UInt8)) (src dst : Name) : List (Name × List UInt8) :=
  files.map fun f => if f.1 = src then (dst, f.2) else f

/-- mirrors src/rawfile.c:190-228 (`rawfile_rename`) -/
def rawfileRename (answers : Answers) (files : List (Name × List UInt8)) (src dst : Name) : Result × List (Name × List UInt8) :=
  if (contentsOf files dst).isSome then (.exists, files)
  else
    match answers.renamed with
    | .done => (.ok, renameEntry files src dst)
    | .notPermitted => (.permission, files)
    | .failed => (.notFound, files)

/-- mirrors src/fileio/p00.c:513-545: from the header on. -/
def writeAndRename (answers : Answers) (files : List (Name × List UInt8)) (p00_src dst_name : Name) (type : Nat) :
    Result × List (Name × List UInt8) :=
  let header := (newHeader dst_name).take answers.stored
  let files := appendTo files p00_src header
  if header.length ≠ 26 then (.notFound, files)
  else
    match p00FileCreate answers.taken dst_name type with
    | none => (.notFound, files)
    | some p00_dst => rawfileRename answers files p00_src p00_dst

/-- mirrors src/fileio/p00.c:479-546 (`p00_rename`) -/
def p00Rename (answers : Answers) (files : List (Name × List UInt8)) (src_name dst_name : Name) :
    Result × List (Name × List UInt8) :=
  match p00FileFind answers.lists.1 answers.readable files dst_name with
  | some _ => (.exists, files)
  | none =>
    match p00FileFind answers.lists.2 answers.readable files src_name with
    | none => (.notFound, files)
    | some p00_src =>
      match p00CheckName p00_src with
      | none => (.notFound, files)
      | some type =>
        if answers.appendable then writeAndRename answers files p00_src dst_name type else (.notFound, files)

/-! ## What a rename should do -/

/-- Contents with a new name in the header. -/
def withName (content : List UInt8) (dst_name : Name) : List UInt8 := content.take 8 ++ padded dst_name ++ content.drop 25

/-- A rename that is faithful, and all or nothing. -/
structure Faithful (answers : Answers) (h : Host) (src_name dst_name : Name) : Prop where
  ok : (p00Rename answers h.files src_name dst_name).1 = .ok → ∃ old new content,
    p00FileFind answers.lists.2 answers.readable h.files src_name = some old ∧ old ≠ new ∧
    contentsOf h.files old = some content ∧ contentsOf h.files new = none ∧
    (∀ name, contentsOf (p00Rename answers h.files src_name dst_name).2 name =
      if name = new then some (withName content dst_name) else if name = old then none else contentsOf h.files name) ∧
    p00FileFind true (fun _ => true) (p00Rename answers h.files src_name dst_name).2 dst_name = some new
  refused : (p00Rename answers h.files src_name dst_name).1 ≠ .ok →
    ∀ name, contentsOf (p00Rename answers h.files src_name dst_name).2 name = contentsOf h.files name

/-- Nothing is written: there is a file of the new name, or none of the old one, or it is not opened for writing, or
takes nothing. -/
def Untouched (answers : Answers) (h : Host) (src_name dst_name : Name) : Prop :=
  (p00FileFind answers.lists.1 answers.readable h.files dst_name).isSome ∨
  p00FileFind answers.lists.2 answers.readable h.files src_name = none ∨ answers.appendable = false ∨ answers.stored = 0

section
variable {answers : Answers} {h : Host} {files : List (Name × List UInt8)} {src_name dst_name name old new : Name}
  {bytes content : List UInt8} {type : Nat}

theorem padded_length (name : Name) : (padded name).length = 17 := by
  rw [padded, List.length_append, List.length_replicate, List.length_take]
  omega

theorem newHeader_length (name : Name) : (newHeader name).length = 26 := by
  rw [newHeader, List.length_append, List.length_append, padded_length]
  rfl

theorem contentsOf_mem (hdistinct : (files.map Prod.fst).Nodup) {f : Name × List UInt8} (hf : f ∈ files) :
    contentsOf files f.1 = some f.2 := by
  induction files with
  | nil => cases hf
  | cons g files ih =>
    rw [List.map_cons, List.nodup_cons] at hdistinct
    rw [contentsOf]
    obtain rfl | hf := List.mem_cons.mp hf
    · rw [if_pos rfl]
    · have hne : g.1 ≠ f.1 := fun heq => hdistinct.1 (heq ▸ List.mem_map_of_mem hf)
      rw [if_neg hne]
      exact ih hdistinct.2 hf

/-- What is found by its name is a file with a type and a whole header. -/
theorem found_file {lists : Bool} (hfound : p00FileFind lists answers.readable h.files name = some old) :
    (∃ type, p00CheckName old = some type) ∧ ∃ content, contentsOf h.files old = some content ∧ 26 ≤ content.length := by
  cases lists with
  | false => cases hfound
  | true =>
    obtain ⟨f, hf, rfl⟩ := Option.map_eq_some_iff.mp hfound
    have hkind := List.find?_some hf
    simp only [Bool.and_eq_true] at hkind
    refine ⟨Option.isSome_iff_exists.mp hkind.1.1, f.2, contentsOf_mem h.distinct (List.mem_of_find?_eq_some hf), ?_⟩
    by_contra hshort
    have hheader : p00ReadHeader f.2 = none := if_pos (by rw [List.length_take]; omega)
    rw [bears, hheader] at hkind
    exact Bool.false_ne_true hkind.2

/-- What is written goes behind the file, and to no other. -/
theorem appendTo_contents (files : List (Name × List UInt8)) (old name : Name) (bytes : List UInt8) :
    contentsOf (appendTo files old bytes) name =
      if name = old then (contentsOf files name).map (· ++ bytes) else contentsOf files name := by
  induction files with
  | nil => simp [appendTo, contentsOf]
  | cons f files ih =>
    rw [appendTo] at ih
    rw [appendTo, List.map_cons, contentsOf, contentsOf, ih]
    by_cases hold : f.1 = old
    · rw [if_pos hold]
      by_cases hname : f.1 = name
      · rw [if_pos hname, if_pos hname, if_pos (hname.symm.trans hold)]
        rfl
      · rw [if_neg hname, if_neg hname]
    · rw [if_neg hold]
      by_cases hname : f.1 = name
      · rw [if_pos hname, if_pos hname, if_neg fun heq => hold (hname.trans heq)]
      · rw [if_neg hname, if_neg hname]

/-- The new name has what the old one had. -/
theorem renameEntry_contents (hnew : contentsOf files new = none) :
    contentsOf (renameEntry files old new) new = contentsOf files old := by
  induction files with
  | nil => rfl
  | cons f files ih =>
    rw [contentsOf] at hnew
    rw [renameEntry] at ih
    rw [renameEntry, List.map_cons, contentsOf, contentsOf]
    by_cases hold : f.1 = old
    · rw [if_pos hold, if_pos hold, if_pos rfl]
    · have hne : f.1 ≠ new := fun heq => by
        rw [if_pos heq] at hnew
        cases hnew
      rw [if_neg hne] at hnew
      rw [if_neg hold, if_neg hold, if_neg hne]
      exact ih hnew

theorem withName_length (hlength : 26 ≤ content.length) : (withName content name).length = content.length := by
  rw [withName, List.length_append, List.length_append, padded_length, List.length_take, List.length_drop]
  omega

/-- Refused before the header, everything is as it was. -/
theorem untouched (huntouched : Untouched answers h src_name dst_name) :
    (p00Rename answers h.files src_name dst_name).1 ≠ .ok ∧
      ∀ name, contentsOf (p00Rename answers h.files src_name dst_name).2 name = contentsOf h.files name := by
  have hsame : ∀ result : Result, result ≠ .ok → (result, h.files).1 ≠ .ok ∧
      ∀ name, contentsOf (result, h.files).2 name = contentsOf h.files name := fun _ hne => ⟨hne, fun _ => rfl⟩
  rw [p00Rename]
  cases hdst : p00FileFind answers.lists.1 answers.readable h.files dst_name with
  | some dst => exact hsame _ Result.noConfusion
  | none =>
    cases hsrc : p00FileFind answers.lists.2 answers.readable h.files src_name with
    | none => exact hsame _ Result.noConfusion
    | some src =>
      simp only
      cases htype : p00CheckName src with
      | none => exact hsame _ Result.noConfusion
      | some type =>
        simp only
        obtain hfound | hnone | happend | hstored := huntouched
        · rw [hdst] at hfound
          cases hfound
        · rw [hsrc] at hnone
          cases hnone
        · rw [happend]
          exact hsame _ Result.noConfusion
        · by_cases happend : answers.appendable = true
          · rw [if_pos happend, writeAndRename, hstored, List.take_zero, if_pos (by decide)]
            refine ⟨Result.noConfusion, fun name => ?_⟩
            rw [appendTo_contents]
            split
            · cases contentsOf h.files name with
              | none => rfl
              | some content => exact congrArg some (List.append_nil content)
            · rfl
          · rw [if_neg happend]
            exact hsame _ Result.noConfusion

/-- With the header written, a refusal leaves it behind the file, and so does a rename. -/
theorem touched (dst_name : Name) (hcontent : contentsOf h.files old = some content) (hstored : answers.stored ≠ 0) (type : Nat) :
    ((writeAndRename answers h.files old dst_name type).1 ≠ .ok →
      contentsOf (writeAndRename answers h.files old dst_name type).2 old ≠ some content) ∧
    ((writeAndRename answers h.files old dst_name type).1 = .ok → ∃ dst written, contentsOf h.files dst = none ∧
      contentsOf (writeAndRename answers h.files old dst_name type).2 dst = some written ∧ content.length < written.length) := by
  have hlength : ((newHeader dst_name).take answers.stored).length ≠ 0 := by
    rw [List.length_take, newHeader_length]
    omega
  have hafter : contentsOf (appendTo h.files old ((newHeader dst_name).take answers.stored)) old =
      some (content ++ (newHeader dst_name).take answers.stored) := by
    rw [appendTo_contents, if_pos rfl, hcontent]
    rfl
  have hgrown : some (content ++ (newHeader dst_name).take answers.stored) ≠ some content := fun heq => by
    have hsame := congrArg List.length (Option.some.inj heq)
    rw [List.length_append] at hsame
    omega
  rw [writeAndRename]
  by_cases hshort : ((newHeader dst_name).take answers.stored).length ≠ 26
  · rw [if_pos hshort]
    exact ⟨fun _ => hafter ▸ hgrown, fun hok => Result.noConfusion hok⟩
  · rw [if_neg hshort]
    cases hcreate : p00FileCreate answers.taken dst_name type with
    | none => exact ⟨fun _ => hafter ▸ hgrown, fun hok => Result.noConfusion hok⟩
    | some dst =>
      simp only
      rw [rawfileRename]
      by_cases htaken : (contentsOf (appendTo h.files old ((newHeader dst_name).take answers.stored)) dst).isSome = true
      · rw [if_pos htaken]
        exact ⟨fun _ => hafter ▸ hgrown, fun hok => Result.noConfusion hok⟩
      · rw [if_neg htaken]
        have hnone := Option.not_isSome_iff_eq_none.mp htaken
        have hfree : contentsOf h.files dst = none := by
          rw [appendTo_contents] at hnone
          split at hnone
          · exact Option.map_eq_none_iff.mp hnone
          · exact hnone
        cases answers.renamed with
        | done =>
          refine ⟨fun hne => absurd rfl hne, fun _ => ⟨dst, _, hfree, (renameEntry_contents hnone).trans hafter, ?_⟩⟩
          rw [List.length_append]
          omega
        | notPermitted => exact ⟨fun _ => hafter ▸ hgrown, fun hok => Result.noConfusion hok⟩
        | failed => exact ⟨fun _ => hafter ▸ hgrown, fun hok => Result.noConfusion hok⟩

/-- A rename is faithful, and all or nothing, exactly if nothing is written. -/
theorem rename_faithful_iff : Faithful answers h src_name dst_name ↔ Untouched answers h src_name dst_name := by
  constructor
  · intro hfaithful
    by_contra htouched
    rw [Untouched, not_or, not_or, not_or] at htouched
    obtain ⟨hdst, hsrc, happend, hstored⟩ := htouched
    obtain ⟨old, hold⟩ := Option.ne_none_iff_exists'.mp hsrc
    obtain ⟨⟨type, htype⟩, content, hcontent, hlong⟩ := found_file hold
    have hrun : p00Rename answers h.files src_name dst_name = writeAndRename answers h.files old dst_name type := by
      rw [p00Rename, Option.not_isSome_iff_eq_none.mp hdst, hold]
      simp only
      rw [htype]
      simp only
      rw [if_pos (by simpa using happend)]
    obtain ⟨hrefused, hok⟩ := touched dst_name hcontent hstored type
    rw [← hrun] at hrefused hok
    by_cases hresult : (p00Rename answers h.files src_name dst_name).1 = .ok
    · obtain ⟨dst, written, hfree, hwritten, hmore⟩ := hok hresult
      obtain ⟨old', new, content', hold', _, hcontent', _, hall, _⟩ := hfaithful.ok hresult
      obtain rfl : old = old' := Option.some.inj (hold.symm.trans hold')
      obtain rfl : content = content' := Option.some.inj (hcontent.symm.trans hcontent')
      have hthere := hall dst
      rw [hwritten] at hthere
      by_cases hnew : dst = new
      · rw [if_pos hnew] at hthere
        have hsame := congrArg List.length (Option.some.inj hthere)
        rw [withName_length hlong] at hsame
        omega
      · rw [if_neg hnew] at hthere
        split at hthere
        · cases hthere
        · rw [hfree] at hthere
          cases hthere
    · exact hrefused hresult ((hfaithful.refused hresult old).trans hcontent)
  · intro huntouched
    obtain ⟨hnot, hsame⟩ := untouched huntouched
    exact ⟨fun hok => absurd hok hnot, fun _ => hsame⟩

/-! ## A rename -/

/-- One program of the name `A`. -/
def single : Host where
  files := [([0x41, 0x2e, 0x50, 0x30, 0x30], newHeader [0x41] ++ [0x01, 0x08])]
  distinct := by decide

/-- A host on which everything succeeds. -/
def willing : Answers := ⟨(true, true), fun _ => true, true, 26, fun _ => false, .done⟩

/-- `A` to `B`: all is done, and the old header still stands at the begin of the file. -/
theorem rename_keepsName : ¬ Faithful willing single [0x41] [0x42] := by
  intro hfaithful
  obtain ⟨old, new, content, hold, _, hcontent, _, hall, hfind⟩ := hfaithful.ok (by decide)
  have hnone : p00FileFind true (fun _ => true) (p00Rename willing single.files [0x41] [0x42]).2 [0x42] = none := by decide
  rw [hnone] at hfind
  cases hfind

end

end Vice.L3.P00Rename

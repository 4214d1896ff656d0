import Mathlib.Data.List.DropRight
import Mathlib.Data.Nat.Digits.Defs

/-!
# The resource file (`resources.c`)

The settings of every emulator are kept in one text file, a section for each emulator under the
line `[id]` and one for the version. `resources_save` writes the file anew: it copies the sections
of the other emulators out of the old file and puts what differs from the factory settings into
this emulator's own. Every read of a file here is one call of `util_get_line` with a buffer of
1024 bytes, so a file is read as the list `fileLines` of what these calls return.

The setters are a parameter: one that accepts a value stores it and changes no other resource.
-/
namespace Vice.L4.ResourceFile

abbrev Text := List UInt8

abbrev nul : UInt8 := 0x00
abbrev lineFeed : UInt8 := 0x0a
abbrev carriageReturn : UInt8 := 0x0d
abbrev space : UInt8 := 0x20
abbrev quote : UInt8 := 0x22
abbrev equals : UInt8 := 0x3d
abbrev openBracket : UInt8 := 0x5b
abbrev closeBracket : UInt8 := 0x5d

/-! ## Reading lines -/

/-- `char buf[1024]` -/
def bufSize : Nat := 1024

def isLineEnd (b : UInt8) : Bool := b == carriageReturn || b == lineFeed

/-- Trailing newline characters go, then the spaces on both sides. mirrors src/util.c:471-488 -/
def trimLine (buf : Text) : Text :=
  ((buf.rdropWhile isLineEnd).rdropWhile (· == space)).dropWhile (· == space)

/-- How many bytes `fgets` takes: up to a newline and with it, or as many as the buffer holds. -/
def lineLength (f : Text) : Nat :=
  min (bufSize - 1) ((f.takeWhile (· != lineFeed)).length + 1)

/-- The line and the rest of the file; `strlen` ends the line at its first NUL.
mirrors src/util.c:456-491 -/
def utilGetLine (f : Text) : Option (Text × Text) :=
  if f = [] then none
  else some (trimLine ((f.take (lineLength f)).takeWhile (· != nul)), f.drop (lineLength f))

def linesUpTo : Nat → Text → List Text
  | 0, _ => []
  | n + 1, f =>
    match utilGetLine f with
    | none => []
    | some (buf, rest) => buf :: linesUpTo n rest

/-- What `util_get_line` returns until the end of the file; every call takes a byte at least. -/
def fileLines (f : Text) : List Text := linesUpTo f.length f

/-! ## The resources -/

/-- A resource's value, its factory value and what its setter accepts. A string can be NULL; the
setter sees NULL as the empty string. -/
inductive Setting where
  | int (value factory : Int) (accepts : Int → Bool)
  | string (value factory : Option Text) (accepts : Text → Bool)

structure Resource where
  name : Text
  setting : Setting

/-- `v == NULL ? "" : v` -/
def orEmpty (v : Option Text) : Text := v.getD []

/-- `tolower` of the C locale -/
def toLower (b : UInt8) : UInt8 := if 0x41 ≤ b ∧ b ≤ 0x5a then b + 0x20 else b

/-- `util_strcasecmp(s, t) == 0`; mirrors src/util.c:1008-1031 -/
def sameName (s t : Text) : Bool := s.map toLower == t.map toLower

def isSpace (b : UInt8) : Bool := b == space || (0x09 ≤ b && b ≤ 0x0d)

def isDigit (b : UInt8) : Bool := 0x30 ≤ b && b ≤ 0x39

def digitsValue (t : Text) : Nat :=
  (t.takeWhile isDigit).foldl (fun n b => 10 * n + (b.toNat - 0x30)) 0

/-- `atoi`; a value that no `int` has, undefined in C, is left as it is. -/
def atoi (t : Text) : Int :=
  match t.dropWhile isSpace with
  | [] => 0
  | b :: ds =>
    if b = 0x2d then -(digitsValue ds : Int)
    else if b = 0x2b then digitsValue ds
    else digitsValue (b :: ds)

def decimal (n : Nat) : Text :=
  if n = 0 then [0x30] else (Nat.digits 10 n).reverse.map fun d => UInt8.ofNat (0x30 + d)

/-- `%d` -/
def formatInt (i : Int) : Text := (if i < 0 then [0x2d] else []) ++ decimal i.natAbs

/-- The setter called with what stands in the file: an integer's text goes through `atoi`;
`none` where the setter refuses. -/
def Setting.assign (arg : Text) : Setting → Option Setting
  | .int _ factory accepts =>
    if accepts (atoi arg) then some (.int (atoi arg) factory accepts) else none
  | .string _ factory accepts =>
    if accepts arg then some (.string (some arg) factory accepts) else none

/-- mirrors src/resources.c:950-1001 (one resource) -/
def Setting.setDefault : Setting → Setting
  | .int value factory accepts => .int (if accepts factory then factory else value) factory accepts
  | .string value factory accepts =>
    .string (if accepts (orEmpty factory) then factory else value) factory accepts

/-- mirrors src/resources.c:1440-1470 -/
def Setting.isDefault : Setting → Bool
  | .int value factory _ => value == factory
  | .string value factory _ => orEmpty value == orEmpty factory

def Resource.setDefault (r : Resource) : Resource := { r with setting := r.setting.setDefault }

/-- `resources_set_defaults`, the resources' part of it -/
def resourcesSetDefaults (rs : List Resource) : List Resource := rs.map Resource.setDefault

/-! ## Loading -/

/-- `check_emu_id`: the line is the id between brackets. mirrors src/resources.c:1115-1140 -/
def checkEmuId (buf id : Text) : Bool := buf == openBracket :: id ++ [closeBracket]

/-- `*buf == '['` -/
def startsSection (buf : Text) : Bool := buf.head? == some openBracket

/-- One pair of quotes; of a lone quote the empty string stays. mirrors src/resources.c:1182-1186 -/
def stripQuotes (arg : Text) : Text :=
  if arg.head? = some quote ∧ arg.getLast? = some quote then arg.tail.dropLast else arg

/-- What `resources_read_item_from_file` returns. -/
inductive ItemResult where
  | success | endOfSection | error | unknownResource
  deriving DecidableEq, Repr

/-- The lookup and the setter's call. The names that are registered differ, so the first one that
matches is the one the hash table finds. mirrors src/resources.c:1190-1230 -/
def assignResource (name arg : Text) : List Resource → ItemResult × List Resource
  | [] => (.unknownResource, [])
  | r :: rs =>
    if sameName r.name name then
      match r.setting.assign arg with
      | some s => (.success, { r with setting := s } :: rs)
      | none => (.error, r :: rs)
    else ((assignResource name arg rs).1, r :: (assignResource name arg rs).2)

/-- mirrors src/resources.c:1151-1232 -/
def resourcesReadItem (buf : Text) (rs : List Resource) : ItemResult × List Resource :=
  if buf = [] then (.success, rs)
  else if startsSection buf then (.endOfSection, rs)
  else if equals ∉ buf then (.error, rs)
  else assignResource (buf.takeWhile (· != equals))
    (stripQuotes ((buf.dropWhile (· != equals)).drop 1)) rs

/-- mirrors src/resources.c:1329-1344: items until the section or the file ends -/
def readItems : List Text → List Resource → List Resource
  | [], rs => rs
  | buf :: lines, rs =>
    if (resourcesReadItem buf rs).1 = .endOfSection then rs
    else readItems lines (resourcesReadItem buf rs).2

inductive LoadResult where
  | ok | readError
  deriving DecidableEq, Repr

/-- mirrors src/resources.c:1297-1352 -/
def loadResourceFile (id : Text) (f : Text) (rs : List Resource) : LoadResult × List Resource :=
  match (fileLines f).dropWhile fun buf => !checkEmuId buf id with
  | [] => (.readError, rs)
  | _ :: lines => (.ok, readItems lines rs)

/-- mirrors src/resources.c:1386-1396; the version check only prints. -/
def resourcesResetAndLoad (id : Text) (f : Text) (rs : List Resource) :
    LoadResult × List Resource :=
  loadResourceFile id f (resourcesSetDefaults rs)

/-! ## Saving -/

/-- The line without its delimiter; mirrors src/resources.c:1398-1423 -/
def stringResourceItem (r : Resource) : Text :=
  match r.setting with
  | .int value _ _ => r.name ++ equals :: formatInt value
  | .string (some v) _ _ => r.name ++ equals :: quote :: v ++ [quote]
  | .string none _ _ => r.name ++ [equals]

/-- `"Version"` -/
def versionId : Text := [0x56, 0x65, 0x72, 0x73, 0x69, 0x6f, 0x6e]

/-- `"ConfigVersion="` -/
def configVersion : Text :=
  [0x43, 0x6f, 0x6e, 0x66, 0x69, 0x67, 0x56, 0x65, 0x72, 0x73, 0x69, 0x6f, 0x6e, equals]

/-- The sections before this emulator's own, and the lines after its header. Inside a version
section lines are skipped up to the next section, whose line is not tested for another version;
at the end of the file an empty line is printed for it. mirrors src/resources.c:1557-1582 -/
def copyBefore (id : Text) : Bool → List Text → List Text × List Text
  | skipping, [] => (if skipping then [[]] else [], [])
  | skipping, buf :: lines =>
    if skipping && !startsSection buf then copyBefore id true lines
    else if !skipping && checkEmuId buf versionId then copyBefore id true lines
    else if checkEmuId buf id then ([], lines)
    else (buf :: (copyBefore id false lines).1, (copyBefore id false lines).2)

/-- The sections from the next one on; mirrors src/resources.c:1622-1637 -/
def copyRest : Bool → List Text → List Text
  | skipping, [] => if skipping then [[]] else []
  | skipping, buf :: lines =>
    if skipping && !startsSection buf then copyRest true lines
    else if !skipping && checkEmuId buf versionId then copyRest true lines
    else buf :: copyRest false lines

/-- The old lines of this emulator are dropped, then the rest is copied; with the file at its end
there is nothing to copy. mirrors src/resources.c:1597-1637 -/
def copyAfter : List Text → List Text
  | [] => []
  | buf :: lines => if startsSection buf then copyRest false (buf :: lines) else copyAfter lines

/-- The version's section, which stands at the top. -/
def versionLines (version : Text) : List Text :=
  [openBracket :: versionId ++ [closeBracket], configVersion ++ version, []]

/-- This emulator's section; mirrors src/resources.c:1584-1592 -/
def ownLines (id : Text) (rs : List Resource) : List Text :=
  (openBracket :: id ++ [closeBracket]) ::
    (rs.filter fun r => !r.setting.isDefault).map stringResourceItem ++ [[]]

/-- What the lines are printed as. -/
def render (lines : List Text) : Text := lines.flatMap (· ++ [lineFeed])

/-- The file that is written over the old one, if there is one. mirrors src/resources.c:1474-1645 -/
def resourcesSave (id version : Text) (rs : List Resource) (inFile : Option Text) : Text :=
  match inFile with
  | none => render (versionLines version ++ ownLines id rs)
  | some f =>
    let before := copyBefore id false (fileLines f)
    render (versionLines version ++ before.1 ++ ownLines id rs ++ copyAfter before.2)

end Vice.L4.ResourceFile

import Mathlib.Data.List.DropRight
import Mathlib.Data.List.ReduceOption
import Vice.L0Core.NestedScripts

/-!
# Playback of monitor commands (`monitor.c`)

The script files that are open form a stack. `playback_next_command` reads a line of the one on top
into a buffer of 1024 bytes, takes its last character for the newline and executes the rest. A line
may start other scripts, which are put on the top; `-moncommands` puts one at the bottom. Executing
a line is a parameter. What the monitor does when all scripts are finished is left out.

Results:
* `readLine_iff`: when the next command is the next line.
* `playback_plays`: a run plays the scripts, while each line it reads is one.
-/
namespace Vice.L5.Playback
open Vice.L0.NestedScripts

/-- What of a file is not read yet. -/
abbrev File := List UInt8

abbrev Command := List UInt8

def newline : UInt8 := 10

/-! ## The library functions -/

/-- At most `n` characters, up to a newline, and what is left. -/
def fgetsLoop : Nat → File → List UInt8 × File
  | 0, f => ([], f)
  | _ + 1, [] => ([], [])
  | n + 1, c :: f =>
    if c = newline then ([c], f)
    else
      let (line, rest) := fgetsLoop n f
      (c :: line, rest)

/-- `fgets` into a buffer of `size` bytes: `none` at the end of the file. -/
def fgets (size : Nat) (f : File) : Option (List UInt8 × File) :=
  if f = [] then none else some (fgetsLoop (size - 1) f)

/-- What C finds in a buffer: the characters before the first zero byte. -/
def cString (buffer : List UInt8) : List UInt8 := buffer.takeWhile (· ≠ 0)

def isBlank (c : UInt8) : Bool := c = 32 ∨ c = 9 ∨ c = 10 ∨ c = 13

/-- mirrors src/lib.c:887-925 (`lib_strdup_trimmed`) -/
def trim (str : List UInt8) : List UInt8 := (str.dropWhile isBlank).rdropWhile isBlank

/-! ## The stack of files -/

/-- The files are listed from the top of the stack, which `playback_fp` is. -/
structure Scripts (σ : Type) where
  machine : σ
  stack : List File

/-- mirrors src/monitor/monitor.c:218 (`PLAYBACK_MAX_FP_DEPTH`) -/
def playbackMaxFpDepth : Nat := 128

/-- The new stack, or `none` where the emulator exits because there are too many files. `file` is
`none` if the file cannot be opened. The arrays grow by one file at a time, so that they are full at
their largest size when as many files are open.
mirrors src/monitor/monitor.c:2221-2280 (`mon_playback_commands`) -/
def monPlaybackCommands (file : Option File) (interruptCurrentPlayback : Bool)
    (stack : List File) : Option (List File) :=
  if stack.length = playbackMaxFpDepth then none
  else
    match file with
    | none => some stack
    | some f =>
      if interruptCurrentPlayback ∨ stack.length = 0 then some (f :: stack) else some (stack ++ [f])

section
variable {σ : Type} (exec : σ → Command → σ × List (Option File))

/-- The line is executed; `exec` gives the calls of `mon_playback_commands` that it makes, which all
interrupt the current playback. -/
def parseAndExecuteLine (command : Command) (p : Scripts σ) : Option (Scripts σ) :=
  let (machine, calls) := exec p.machine command
  (calls.foldlM (fun stack file => monPlaybackCommands file true stack) p.stack).map fun stack =>
    { machine, stack }

/-- The command in what was read: `line[strlen(line) - 1] = '\0'`, and the rest trimmed. In front of
the buffer there is no place for the terminator. -/
def commandOf (buffer : List UInt8) : Option Command :=
  if cString buffer = [] then none else some (trim (cString buffer).dropLast)

/-- The new state and the command that was executed, if the scripts are not over; the recursion of
the source goes down the stack.
mirrors src/monitor/monitor.c:2282-2332 (`playback_end_file`, `playback_next_command`) -/
def playbackNextCommand (machine : σ) : List File → Option (Scripts σ × List Command)
  | [] => some ({ machine, stack := [] }, [])
  | f :: rest =>
    match fgets 1024 f with
    | none => playbackNextCommand machine rest
    | some (line, f') => do
      let command ← commandOf line
      let p ← parseAndExecuteLine exec command { machine, stack := f' :: rest }
      some (p, [command])

end

/-! ## The lines of a file -/

/-- The last line may lack the newline. -/
def linesOf : File → List (List UInt8)
  | [] => []
  | c :: f =>
    if c = newline then [] :: linesOf f
    else
      match linesOf f with
      | [] => [[c]]
      | line :: lines => (c :: line) :: lines

/-- What a script asks for. -/
def script (f : File) : List Command := (linesOf f).map trim

section
variable {line f f' rest : List UInt8} {n : Nat} {c : UInt8}

theorem linesOf_ended (hline : newline ∉ line) : linesOf (line ++ newline :: rest) = line :: linesOf rest := by
  induction line with
  | nil => rw [List.nil_append, linesOf, if_pos rfl]
  | cons c line ih =>
    rw [List.mem_cons, not_or] at hline
    rw [List.cons_append, linesOf, if_neg (Ne.symm hline.1), ih hline.2]

theorem linesOf_open (hf : newline ∉ f) (hne : f ≠ []) : linesOf f = [f] := by
  induction f with
  | nil => exact absurd rfl hne
  | cons c f ih =>
    rw [List.mem_cons, not_or] at hf
    rw [linesOf, if_neg (Ne.symm hf.1)]
    cases f with
    | nil => rfl
    | cons c' f => rw [ih hf.2 (List.cons_ne_nil _ _)]

theorem linesOf_ne_nil (hne : f ≠ []) : linesOf f ≠ [] := by
  cases f with
  | nil => exact absurd rfl hne
  | cons c f =>
    rw [linesOf]
    split
    · exact List.cons_ne_nil _ _
    · split <;> exact List.cons_ne_nil _ _

theorem fgetsLoop_ended (hline : newline ∉ line) (hlen : line.length < n) :
    fgetsLoop n (line ++ newline :: rest) = (line ++ [newline], rest) := by
  induction line generalizing n with
  | nil =>
    obtain ⟨n, rfl⟩ := Nat.exists_eq_add_of_lt hlen
    rw [List.nil_append, fgetsLoop, if_pos rfl]
    rfl
  | cons c line ih =>
    rw [List.mem_cons, not_or] at hline
    obtain ⟨n, rfl⟩ := Nat.exists_eq_add_of_lt hlen
    rw [List.cons_append, fgetsLoop, if_neg (Ne.symm hline.1),
      ih hline.2 (by rw [List.length_cons]; omega)]
    rfl

theorem fgetsLoop_open (hf : newline ∉ f) (hlen : f.length ≤ n) : fgetsLoop n f = (f, []) := by
  induction f generalizing n with
  | nil => cases n <;> rfl
  | cons c f ih =>
    rw [List.mem_cons, not_or] at hf
    obtain ⟨n, rfl⟩ := Nat.exists_eq_add_of_lt (Nat.lt_of_succ_le hlen)
    rw [fgetsLoop, if_neg (Ne.symm hf.1), ih hf.2 (by rw [List.length_cons] at hlen; omega)]

/-- A buffer that the line fills is all that is read of it. -/
theorem fgetsLoop_full (hline : newline ∉ line) (hlen : line.length = n) :
    fgetsLoop n (line ++ rest) = (line, rest) := by
  induction line generalizing n with
  | nil =>
    subst hlen
    rfl
  | cons c line ih =>
    subst hlen
    rw [List.mem_cons, not_or] at hline
    rw [List.cons_append, List.length_cons, fgetsLoop, if_neg (Ne.symm hline.1), ih hline.2 rfl]

theorem script_ne_nil (hne : f ≠ []) : script f ≠ [] := by
  rw [script, ne_eq, List.map_eq_nil_iff]
  exact linesOf_ne_nil hne

theorem firstLine_ended (hline : newline ∉ line) :
    (line ++ newline :: rest).takeWhile (· ≠ newline) = line := by
  induction line with
  | nil => rfl
  | cons c line ih =>
    rw [List.mem_cons, not_or] at hline
    rw [List.cons_append, List.takeWhile_cons_of_pos (by simpa using Ne.symm hline.1), ih hline.2]

theorem firstLine_open (hf : newline ∉ f) : f.takeWhile (· ≠ newline) = f :=
  List.takeWhile_eq_self_iff.mpr fun _ hc => decide_eq_true (ne_of_mem_of_not_mem hc hf)

/-! ## Trimming -/

theorem trim_blank (hc : isBlank c = true) : trim (line ++ [c]) = trim line := by
  rw [trim, trim, List.dropWhile_append]
  split
  · next hempty =>
    rw [List.isEmpty_iff.mp hempty, List.dropWhile_cons_of_pos hc]
    rfl
  · exact List.rdropWhile_concat_pos isBlank _ c hc

theorem trim_mark (hc : isBlank c = false) : trim (line ++ [c]) = line.dropWhile isBlank ++ [c] := by
  have hneg : ¬ isBlank c = true := by rw [hc]; exact Bool.false_ne_true
  rw [trim, List.dropWhile_append]
  split
  · next hempty =>
    rw [List.isEmpty_iff.mp hempty, List.dropWhile_cons_of_neg hneg]
    exact List.rdropWhile_concat_neg isBlank [] c hneg
  · exact List.rdropWhile_concat_neg isBlank _ c hneg

/-- The last character is lost unless it is blank. -/
theorem blank_of_trim (h : trim line = trim (line ++ [c])) : isBlank c = true := by
  by_contra hc
  rw [trim_mark ((Bool.not_eq_true _).mp hc)] at h
  have hle := (List.rdropWhile_prefix isBlank (line.dropWhile isBlank)).length_le
  have hlen := congrArg List.length h
  rw [trim, List.length_append, List.length_singleton] at hlen
  omega

theorem mem_dropWhile {p : UInt8 → Bool} (hc : c ∈ line) (hp : ¬ p c = true) : c ∈ line.dropWhile p := by
  rw [← List.takeWhile_append_dropWhile (p := p) (l := line), List.mem_append] at hc
  exact hc.resolve_left fun h => hp (List.mem_takeWhile_imp h)

theorem mem_trim (hc : c ∈ line) (hmark : isBlank c = false) : c ∈ trim line := by
  have hneg : ¬ isBlank c = true := by rw [hmark]; exact Bool.false_ne_true
  rw [trim, List.rdropWhile, List.mem_reverse]
  exact mem_dropWhile (List.mem_reverse.mpr (mem_dropWhile hc hneg)) hneg

theorem mem_of_mem_trim (hc : c ∈ trim line) : c ∈ line :=
  (List.dropWhile_suffix isBlank).subset ((List.rdropWhile_prefix isBlank _).subset hc)

/-! ## Reading a line -/

theorem cString_whole (h : 0 ∉ line) : cString line = line :=
  List.takeWhile_eq_self_iff.mpr fun _ hc => decide_eq_true (ne_of_mem_of_not_mem hc h)

theorem commandOf_whole (h : 0 ∉ line) (hc : c ≠ 0) : commandOf (line ++ [c]) = some (trim line) := by
  have hmem : 0 ∉ line ++ [c] := by
    rw [List.mem_append, List.mem_singleton, not_or]
    exact ⟨h, Ne.symm hc⟩
  rw [commandOf, cString_whole hmem, if_neg (List.append_ne_nil_of_right_ne_nil _ (by simp)),
    List.dropLast_concat]

theorem commandOf_noNul {command : Command} (h : commandOf line = some command) : 0 ∉ command := by
  unfold commandOf at h
  split at h
  · cases h
  · cases h
    intro hmem
    exact absurd (List.mem_takeWhile_imp (List.dropLast_subset _ (mem_of_mem_trim hmem)))
      (by decide)

/-- What is read of a file that is not at its end. -/
def readLine (f : File) : Option (Command × File) :=
  (fgets 1024 f).bind fun (line, rest) => (commandOf line).map fun command => (command, rest)

/-- The next line of a file: it has no zero byte, and with its newline it fits into the buffer. If it
lacks the newline, it ends in a blank. -/
def lineFits (f : File) : Bool :=
  let line := f.takeWhile (· ≠ newline)
  0 ∉ line ∧
    if newline ∈ f then line.length ≤ 1022 else line.length ≤ 1023 ∧ line.getLast?.any isBlank

theorem readLine_ended (hline : newline ∉ line) (hlen : line.length ≤ 1022) :
    readLine (line ++ newline :: rest) =
      (commandOf (line ++ [newline])).map fun command => (command, rest) := by
  rw [readLine, fgets, if_neg (List.append_ne_nil_of_right_ne_nil _ (List.cons_ne_nil _ _)),
    fgetsLoop_ended hline (by omega)]
  rfl

theorem readLine_open (hf : newline ∉ f) (hne : f ≠ []) (hlen : f.length ≤ 1023) :
    readLine f = (commandOf f).map fun command => (command, []) := by
  rw [readLine, fgets, if_neg hne, fgetsLoop_open hf (by omega)]
  rfl

/-- Of a line that does not fit, the rest stays in the file. -/
theorem readLine_long {a b : List UInt8} (ha : newline ∉ a) (hlen : a.length = 1023) :
    readLine (a ++ b) = (commandOf a).map fun command => (command, b) := by
  have hne : a ++ b ≠ [] := List.append_ne_nil_of_left_ne_nil (by rintro rfl; cases hlen) _
  rw [readLine, fgets, if_neg hne, fgetsLoop_full ha hlen]
  rfl

theorem exists_long (hlen : 1023 ≤ line.length) : ∃ a b, line = a ++ b ∧ a.length = 1023 :=
  ⟨line.take 1023, line.drop 1023, (List.take_append_drop _ _).symm,
    List.length_take_of_le hlen⟩

theorem script_ended (hline : newline ∉ line) :
    script (line ++ newline :: rest) = trim line :: script rest := by
  rw [script, linesOf_ended hline]
  rfl

theorem script_open (hf : newline ∉ f) (hne : f ≠ []) : script f = [trim f] := by
  rw [script, linesOf_open hf hne]
  rfl

theorem lineFits_ended (hline : newline ∉ line) :
    lineFits (line ++ newline :: rest) = true ↔ 0 ∉ line ∧ line.length ≤ 1022 := by
  rw [lineFits, decide_eq_true_eq, firstLine_ended hline, if_pos (by simp)]

theorem lineFits_open (hf : newline ∉ f) :
    lineFits f = true ↔ 0 ∉ f ∧ f.length ≤ 1023 ∧ f.getLast?.any isBlank = true := by
  rw [lineFits, decide_eq_true_eq, firstLine_open hf, if_neg hf]

/-- The next line of `f` is read, and is gone from it. -/
def ReadsLine (f : File) : Prop :=
  ∃ command rest, readLine f = some (command, rest) ∧ script f = command :: script rest

theorem reads_ended (hline : newline ∉ line) :
    ReadsLine (line ++ newline :: rest) ↔ 0 ∉ line ∧ line.length ≤ 1022 := by
  constructor
  · rintro ⟨command, rest', hread, hscript⟩
    rw [script_ended hline] at hscript
    obtain ⟨rfl, hrest⟩ := List.cons.inj hscript
    have hshort : line.length ≤ 1022 := by
      by_contra hlong
      obtain ⟨a, b, rfl, ha⟩ := @exists_long line (by omega)
      rw [List.mem_append, not_or] at hline
      rw [List.append_assoc, readLine_long hline.1 ha] at hread
      obtain ⟨command, -, he⟩ := Option.map_eq_some_iff.mp hread
      cases he
      rw [script_ended hline.2] at hrest
      exact absurd (congrArg List.length hrest) (by simp)
    rw [readLine_ended hline hshort] at hread
    obtain ⟨command, hcommand, he⟩ := Option.map_eq_some_iff.mp hread
    cases he
    exact ⟨fun hnul => commandOf_noNul hcommand (mem_trim hnul (by decide)), hshort⟩
  · rintro ⟨hnul, hlen⟩
    refine ⟨trim line, rest, ?_, script_ended hline⟩
    rw [readLine_ended hline hlen, commandOf_whole hnul (by decide)]
    rfl

theorem reads_open (hf : newline ∉ f) (hne : f ≠ []) :
    ReadsLine f ↔ 0 ∉ f ∧ f.length ≤ 1023 ∧ f.getLast?.any isBlank = true := by
  obtain ⟨line, c, rfl⟩ := List.eq_nil_or_concat f |>.resolve_left hne
  rw [List.concat_eq_append] at *
  rw [List.getLast?_append_of_ne_nil _ (List.cons_ne_nil _ _)]
  constructor
  · rintro ⟨command, rest, hread, hscript⟩
    rw [script_open hf hne] at hscript
    obtain ⟨rfl, hrest⟩ := List.cons.inj hscript
    have hend : rest = [] := by
      by_contra hmore
      exact script_ne_nil hmore hrest.symm
    have hshort : (line ++ [c]).length ≤ 1023 := by
      by_contra hlong
      obtain ⟨a, b, he, ha⟩ := @exists_long (line ++ [c]) (by omega)
      rw [he, List.mem_append, not_or] at hf
      rw [he, readLine_long hf.1 ha] at hread
      obtain ⟨command, -, hpair⟩ := Option.map_eq_some_iff.mp hread
      cases hpair
      rw [he, hend, List.append_nil, ha] at hlong
      exact hlong (Nat.le_refl _)
    rw [readLine_open hf hne hshort] at hread
    obtain ⟨command, hcommand, hpair⟩ := Option.map_eq_some_iff.mp hread
    cases hpair
    have hnul : 0 ∉ line ++ [c] := fun hmem =>
      commandOf_noNul hcommand (mem_trim hmem (by decide))
    rw [commandOf, cString_whole hnul, if_neg hne, List.dropLast_concat] at hcommand
    exact ⟨hnul, hshort, blank_of_trim (Option.some.inj hcommand)⟩
  · rintro ⟨hnul, hlen, hblank⟩
    refine ⟨trim (line ++ [c]), [], ?_, script_open hf hne⟩
    have hc : c ≠ 0 := fun h => hnul (h ▸ List.mem_append_right _ (List.mem_singleton_self _))
    rw [readLine_open hf hne hlen, commandOf_whole (fun h => hnul (List.mem_append_left _ h)) hc,
      trim_blank (show isBlank c = true from hblank)]
    rfl

/-- The next line is read whole, and as a line of its own, exactly when it fits. -/
theorem readLine_iff (hne : f ≠ []) : ReadsLine f ↔ lineFits f = true := by
  by_cases hmem : newline ∈ f
  · obtain ⟨line, rest, rfl, hline⟩ := List.eq_append_cons_of_mem hmem
    rw [reads_ended hline, lineFits_ended hline]
  · rw [reads_open hmem hne, lineFits_open hmem]

/-! ## Playing -/

variable {σ : Type} {exec : σ → Command → σ × List (Option File)} {m : σ} {p p' : Scripts σ}
  {files : List File} {calls : List (Option File)}

/-- The scripts that a line starts, for `Plays`: the last one is played first. -/
def started (exec : σ → Command → σ × List (Option File)) (m : σ) (command : Command) :
    σ × List (List Command) :=
  ((exec m command).1, ((exec m command).2.reduceOption.reverse).map script)

/-- There is room on a stack of `size` files for each file that is opened. -/
def hasRoom (size : Nat) : List (Option File) → Bool
  | [] => true
  | call :: calls =>
    size < playbackMaxFpDepth && hasRoom (if call.isSome then size + 1 else size) calls

theorem monPlaybackCommands_top (hsize : files.length < playbackMaxFpDepth) (call : Option File) :
    monPlaybackCommands call true files = some (call.toList ++ files) := by
  unfold monPlaybackCommands
  rw [if_neg (Nat.ne_of_lt hsize)]
  cases call with
  | none => rfl
  | some f => exact if_pos (.inl rfl)

theorem monPlaybackCommands_bottom (hsize : files.length < playbackMaxFpDepth)
    (call : Option File) : monPlaybackCommands call false files = some (files ++ call.toList) := by
  unfold monPlaybackCommands
  rw [if_neg (Nat.ne_of_lt hsize)]
  cases call with
  | none => rw [Option.toList_none, List.append_nil]
  | some f =>
    dsimp only
    split
    · next hempty =>
      rw [List.length_eq_zero_iff.mp (hempty.resolve_left Bool.false_ne_true)]
      rfl
    · rfl

/-- The calls of one line put their files on top, one by one. -/
theorem calls_stack (hroom : hasRoom files.length calls = true) :
    calls.foldlM (fun stack file => monPlaybackCommands file true stack) files =
      some (calls.reduceOption.reverse ++ files) := by
  induction calls generalizing files with
  | nil => rfl
  | cons call calls ih =>
    obtain ⟨hsize, hrest⟩ := Bool.and_eq_true_iff.mp hroom
    simp only [List.foldlM_cons, monPlaybackCommands_top (of_decide_eq_true hsize),
      Option.bind_eq_bind, Option.bind_some]
    cases call with
    | none => rw [Option.toList_none, List.nil_append, ih hrest, List.reduceOption_cons_of_none]
    | some f =>
      rw [Option.toList_some, List.singleton_append, @ih (f :: files) hrest,
        List.reduceOption_cons_of_some, List.reverse_cons, List.append_assoc]
      rfl

theorem parseAndExecuteLine_top {command : Command}
    (hroom : hasRoom p.stack.length (exec p.machine command).2 = true) :
    parseAndExecuteLine exec command p = some {
      machine := (exec p.machine command).1
      stack := (exec p.machine command).2.reduceOption.reverse ++ p.stack } := by
  unfold parseAndExecuteLine
  dsimp only
  rw [calls_stack hroom]
  rfl

/-- The script of which a line comes next: those at their ends are closed on the way. -/
def current (files : List File) : List File := files.dropWhile (·.isEmpty)

/-- The step reads a line that fits, and there is room for what the line starts. -/
def stepFits (exec : σ → Command → σ × List (Option File)) (m : σ) (files : List File) : Bool :=
  match current files with
  | [] => true
  | f :: rest =>
    lineFits f && hasRoom (rest.length + 1) (exec m (trim (f.takeWhile (· ≠ newline)))).2

theorem script_head (hne : f ≠ []) : (script f).head? = some (trim (f.takeWhile (· ≠ newline))) := by
  by_cases hmem : newline ∈ f
  · obtain ⟨line, rest, rfl, hline⟩ := List.eq_append_cons_of_mem hmem
    rw [script_ended hline, firstLine_ended hline]
    rfl
  · rw [script_open hmem hne, firstLine_open hmem]
    rfl

theorem next_line (hne : f ≠ []) : playbackNextCommand exec m (f :: files) =
    (readLine f).bind fun (command, f') =>
      (parseAndExecuteLine exec command { machine := m, stack := f' :: files }).map
        fun p => (p, [command]) := by
  rw [playbackNextCommand, readLine, fgets, if_neg hne]
  obtain ⟨line, f'⟩ := fgetsLoop (1024 - 1) f
  dsimp only [Option.bind_some]
  cases commandOf line with
  | none => rfl
  | some command =>
    dsimp only [Option.bind_eq_bind, Option.bind_some, Option.map_some]
    cases parseAndExecuteLine exec command { machine := m, stack := f' :: files } <;> rfl

/-- A step plays one line, with what it starts in front of the rest. -/
theorem next_plays (hfits : stepFits exec m files = true) :
    ∃ p commands, playbackNextCommand exec m files = some (p, commands) ∧
      ∀ m' xs, Plays (started exec) p.machine (p.stack.map script) m' xs →
        Plays (started exec) m (files.map script) m' (commands ++ xs) := by
  induction files with
  | nil => exact ⟨_, _, rfl, fun m' xs h => h⟩
  | cons f files ih =>
    by_cases hne : f = []
    · subst hne
      obtain ⟨p, commands, hnext, hplays⟩ := ih hfits
      exact ⟨p, commands, hnext, fun m' xs h => .finished (hplays m' xs h)⟩
    · have hcurrent : current (f :: files) = f :: files :=
        List.dropWhile_cons_of_neg (by rwa [List.isEmpty_iff])
      rw [stepFits, hcurrent] at hfits
      obtain ⟨hline, hroom⟩ := Bool.and_eq_true_iff.mp hfits
      obtain ⟨command, f', hread, hscript⟩ := (readLine_iff hne).mpr hline
      have hcommand : trim (f.takeWhile (· ≠ newline)) = command := by
        have hhead := script_head hne
        rw [hscript] at hhead
        exact (Option.some.inj hhead).symm
      rw [hcommand] at hroom
      rw [next_line hne, hread, Option.bind_some]
      dsimp only
      rw [parseAndExecuteLine_top (p := { machine := m, stack := f' :: files }) hroom]
      refine ⟨_, _, rfl, fun m' xs h => ?_⟩
      dsimp only at h
      rw [List.map_append, List.map_cons] at h
      rw [List.map_cons, hscript]
      exact Plays.start h

/-! ## Runs -/

/-- The monitor asks for the next command, or a file is given with `-moncommands`. -/
inductive Event where
  | next
  | moncommands (file : Option File)

def Event.run (exec : σ → Command → σ × List (Option File)) (p : Scripts σ) :
    Event → Option (Scripts σ × List Command)
  | .next => playbackNextCommand exec p.machine p.stack
  | .moncommands file =>
    (monPlaybackCommands file false p.stack).map fun stack => ({ p with stack }, [])

def runEvents (exec : σ → Command → σ × List (Option File)) :
    List Event → Scripts σ → Option (Scripts σ × List Command)
  | [], p => some (p, [])
  | event :: events, p => do
    let (p', commands) ← event.run exec p
    let (p'', commands') ← runEvents exec events p'
    some (p'', commands ++ commands')

def Event.fits (exec : σ → Command → σ × List (Option File)) (p : Scripts σ) : Event → Bool
  | .next => stepFits exec p.machine p.stack
  | .moncommands _ => p.stack.length < playbackMaxFpDepth

/-- Each step of the run fits. -/
def runFits (exec : σ → Command → σ × List (Option File)) : List Event → Scripts σ → Bool
  | [], _ => true
  | event :: events, p =>
    event.fits exec p && (event.run exec p).all fun (p', _) => runFits exec events p'

def Event.given : Event → List File
  | .next => []
  | .moncommands file => file.toList

/-- The files given with `-moncommands`, in order. -/
def queued (events : List Event) : List File := events.flatMap Event.given

/-- The scripts `files`, played from `m`, begin with the commands `commands`, and go on as what is
on the stack now. -/
def Explains (exec : σ → Command → σ × List (Option File)) (m : σ) (files : List File)
    (commands : List Command) (p : Scripts σ) : Prop :=
  ∀ m' xs, Plays (started exec) p.machine (p.stack.map script) m' xs →
    Plays (started exec) m (files.map script) m' (commands ++ xs)

theorem event_explains {commands : List Command} (h : Explains exec m files commands p)
    {event : Event} (hfits : event.fits exec p = true) :
    ∃ p' commands', event.run exec p = some (p', commands') ∧
      Explains exec m (files ++ event.given) (commands ++ commands') p' := by
  cases event with
  | next =>
    obtain ⟨p', commands', hrun, hplays⟩ := next_plays hfits
    refine ⟨p', commands', hrun, fun m' xs hxs => ?_⟩
    rw [Event.given, List.append_nil, List.append_assoc]
    exact h m' _ (hplays m' xs hxs)
  | moncommands file =>
    rw [Event.run, monPlaybackCommands_bottom (of_decide_eq_true hfits)]
    refine ⟨_, _, rfl, fun m' xs hxs => ?_⟩
    dsimp only at hxs
    rw [List.map_append] at hxs
    obtain ⟨t, ys, zs, hys, hzs, rfl⟩ := hxs.split
    rw [List.append_nil, List.map_append, ← List.append_assoc]
    exact (h t ys hys).append hzs

theorem run_explains {commands : List Command} (h : Explains exec m files commands p)
    {events : List Event} (hfits : runFits exec events p = true) :
    ∃ p' commands', runEvents exec events p = some (p', commands') ∧
      Explains exec m (files ++ queued events) (commands ++ commands') p' := by
  induction events generalizing files commands p with
  | nil =>
    refine ⟨p, [], rfl, ?_⟩
    rw [queued, List.flatMap_nil, List.append_nil, List.append_nil]
    exact h
  | cons event events ih =>
    obtain ⟨hstep, hrest⟩ := Bool.and_eq_true_iff.mp hfits
    obtain ⟨p', commands', hrun, hnext⟩ := event_explains h hstep
    rw [hrun] at hrest
    obtain ⟨p'', commands'', hruns, hlast⟩ := ih hnext hrest
    refine ⟨p'', commands' ++ commands'', ?_, ?_⟩
    · rw [runEvents, hrun, Option.bind_eq_bind, Option.bind_some]
      dsimp only
      rw [hruns]
      rfl
    · rw [queued, List.flatMap_cons, ← List.append_assoc, ← List.append_assoc]
      exact hlast

/-- In a run of the monitor in which every step fits, the commands executed so far are those that
the given scripts begin with; when no file is left, they are all of them. -/
theorem playback_plays (exec : σ → Command → σ × List (Option File)) (m : σ) (events : List Event)
    (hfits : runFits exec events { machine := m, stack := [] } = true) :
    ∃ p commands, runEvents exec events { machine := m, stack := [] } = some (p, commands) ∧
      Explains exec m (queued events) commands p ∧
      (p.stack = [] →
        Plays (started exec) m ((queued events).map script) p.machine commands) := by
  have hstart : Explains exec m [] [] { machine := m, stack := [] } := fun m' xs h => h
  obtain ⟨p, commands, hrun, hexplains⟩ := run_explains hstart hfits
  refine ⟨p, commands, hrun, hexplains, fun hempty => ?_⟩
  have hall := hexplains p.machine [] (by rw [hempty]; exact .nil _)
  rwa [List.append_nil] at hall

end

/-- The line `p` starts a script with the line `b`. -/
def starter (_ : Unit) (command : Command) : Unit × List (Option File) :=
  ((), if command = [112] then [some [98, 10]] else [])

/-- The script with the lines `p` and `c`. -/
theorem playback_plays_nested :
    ∃ p commands, runEvents starter [.moncommands (some [112, 10, 99, 10]), .next, .next, .next,
        .next] { machine := (), stack := [] } = some (p, commands) ∧
      Explains starter () [[112, 10, 99, 10]] commands p ∧
      (p.stack = [] → Plays (started starter) () [script [112, 10, 99, 10]] p.machine commands) :=
  playback_plays starter () [.moncommands (some [112, 10, 99, 10]), .next, .next, .next, .next]
    (by decide +kernel)

/-- A script that is the letter `x` without a newline has one line; the empty command is executed. -/
theorem playback_not_always : ¬ ∀ (exec : Unit → Command → Unit × List (Option File)) (events : List Event)
      (p : Scripts Unit) (commands : List Command),
      runEvents exec events { machine := (), stack := [] } = some (p, commands) → p.stack = [] →
        Plays (started exec) () ((queued events).map script) p.machine commands := by
  intro h
  have hplays := h (fun _ _ => ((), [])) [.moncommands (some [120]), .next, .next]
    { machine := (), stack := [] } [[]] rfl rfl
  have hscript : script [120] = [[120]] := by decide +kernel
  rw [show queued [.moncommands (some [120]), .next, .next] = [[120]] from rfl, List.map_singleton,
    hscript] at hplays
  cases hplays

end Vice.L5.Playback

import Mathlib.Data.List.Induction

/-!
# Conditional lines of hotkey files (`arch/shared/hotkeys/ifstack.c`)

`!IF`, `!ELSE` and `!ENDIF` keep a stack with the state of each branch, and one variable that says whether
lines count. Each call changes the variable by what the innermost one or two entries say. A branch that is
taken by itself, but stands in one that is not, is therefore enough to make lines count again.

Results:
* `step_blocks`: the stack is always that of the open blocks.
* `step_truth`: what a call makes of the variable.
* `selects_iff`: the right lines count as long as nothing is opened or closed directly in a hidden branch.
-/
namespace Vice.L5.IfStack

/-- mirrors src/arch/shared/hotkeys/ifstack.c:38-45 (`ifstack_t`); the links are the order in the list. -/
structure Node where
  state : Bool
  inElse : Bool
  deriving DecidableEq

inductive Errno
  | ok | elseWithoutIf | endifWithoutIf
  deriving DecidableEq

/-- mirrors src/arch/shared/hotkeys/ifstack.c:48-77; the top of the stack is the head. -/
structure State where
  stack : List Node
  currentState : Bool
  errno : Errno
  deriving DecidableEq

/-- mirrors src/arch/shared/hotkeys/ifstack.c:126-159 (`ifstack_init`, `ifstack_reset`) -/
def reset : State := ⟨[], true, .ok⟩

section
variable (s : State)

/-- mirrors src/arch/shared/hotkeys/ifstack.c:79-98 (`ifstack_push`) -/
def push (state : Bool) : State := { s with stack := ⟨state, false⟩ :: s.stack }

/-- mirrors src/arch/shared/hotkeys/ifstack.c:100-121 (`ifstack_pull`); the stack is not empty. -/
def pull : State :=
  match s.stack.tail with
  | [] => { s with stack := [], currentState := true }
  | node :: down => { s with stack := node :: down, currentState := node.state }

/-- mirrors src/arch/shared/hotkeys/ifstack.c:199-206 (`ifstack_true`) -/
def isTrue : Bool := s.currentState

/-- mirrors src/arch/shared/hotkeys/ifstack.c:208-219 (`ifstack_if`) -/
def ifstackIf (state : Bool) : State :=
  let s' := push s state
  match s.stack with
  | [] => { s' with currentState := state }
  | down :: _ => if down.state then { s' with currentState := state } else s'

/-- mirrors src/arch/shared/hotkeys/ifstack.c:221-257 (`ifstack_else`) -/
def ifstackElse : Bool × State :=
  match s.stack with
  | [] => (false, { s with errno := .elseWithoutIf })
  | node :: down =>
    if node.inElse then (false, { s with errno := .elseWithoutIf })
    else
      let s' := { s with stack := ⟨!node.state, true⟩ :: down }
      if s.currentState then (true, { s' with currentState := false })
      else
        match down with
        | outer :: _ => (true, if outer.state then { s' with currentState := true } else s')
        | [] => (true, { s' with currentState := true })

/-- mirrors src/arch/shared/hotkeys/ifstack.c:259-278 (`ifstack_endif`) -/
def ifstackEndif : Bool × State :=
  if s.stack = [] then (false, { s with errno := .endifWithoutIf }) else (true, pull s)

end

inductive Call
  | if' (state : Bool)
  | else'
  | endif'
  deriving DecidableEq

/-- What a call returns; `ifstack_if` never fails. -/
def step (s : State) : Call → Bool × State
  | .if' state => (true, ifstackIf s state)
  | .else' => ifstackElse s
  | .endif' => ifstackEndif s

def run (calls : List Call) : State := calls.foldl (fun s call => (step s call).2) reset

/-! ## Blocks -/

/-- A block that was opened, with its condition. -/
structure Block where
  condition : Bool
  elseSeen : Bool

def Block.taken (b : Block) : Bool := if b.elseSeen then !b.condition else b.condition

/-- There is no block for the call, or none without an `!ELSE`. -/
def Fails : List Block → Call → Prop
  | _, .if' _ => False
  | blocks, .else' => blocks = [] ∨ ∃ b outer, blocks = b :: outer ∧ b.elseSeen = true
  | blocks, .endif' => blocks = []

/-- The blocks that are open after a call, the innermost first. -/
def after : List Block → Call → List Block
  | blocks, .if' condition => ⟨condition, false⟩ :: blocks
  | [], _ => []
  | b :: outer, .else' => if b.elseSeen then b :: outer else ⟨b.condition, true⟩ :: outer
  | _ :: outer, .endif' => outer

def opened (calls : List Call) : List Block := calls.foldl after []

/-- The lines that come now count as they should, and the next call does what it should. -/
structure Correct (calls : List Call) : Prop where
  truth : isTrue (run calls) = (opened calls).all Block.taken
  fails : ∀ call, (step (run calls) call).1 = false ↔ Fails (opened calls) call
  unchanged : ∀ call, (step (run calls) call).1 = false →
    (step (run calls) call).2.stack = (run calls).stack ∧ isTrue (step (run calls) call).2 = isTrue (run calls)

/-- The innermost block is in its taken branch, and one around it is not. -/
def Hidden : List Block → Prop
  | [] => False
  | b :: outer => b.taken = true ∧ outer.all Block.taken = false

/-- Nothing true is opened, and no branch ended, directly in a hidden branch. -/
def Seen : List Block → Call → Prop
  | blocks, .if' condition => condition = true → ¬ Hidden blocks
  | [], _ => True
  | b :: outer, .else' => b.elseSeen = false → ¬ Hidden outer
  | _ :: outer, .endif' => ¬ Hidden outer

section
variable {s : State} {node : Node} {down : List Node} {blocks outer : List Block} {b : Block} {calls : List Call}
  {call : Call}

/-! ## One call -/

theorem ifstackIf_eq (s : State) (state : Bool) : ifstackIf s state =
    ⟨⟨state, false⟩ :: s.stack, if s.stack.head?.all Node.state then state else s.currentState, s.errno⟩ := by
  unfold ifstackIf push
  cases s.stack with
  | nil => rfl
  | cons outer down =>
    by_cases hstate : outer.state = true
    · simp [hstate]
    · simp [hstate]

theorem ifstackElse_nil (h : s.stack = []) : ifstackElse s = (false, { s with errno := .elseWithoutIf }) := by
  unfold ifstackElse
  rw [h]

theorem ifstackElse_seen (h : s.stack = node :: down) (helse : node.inElse = true) :
    ifstackElse s = (false, { s with errno := .elseWithoutIf }) := by
  unfold ifstackElse
  rw [h]
  exact if_pos helse

theorem ifstackElse_first (h : s.stack = node :: down) (helse : node.inElse = false) : ifstackElse s =
    (true, ⟨⟨!node.state, true⟩ :: down, !s.currentState && down.head?.all Node.state, s.errno⟩) := by
  unfold ifstackElse
  rw [h]
  dsimp only
  rw [helse, if_neg Bool.false_ne_true]
  cases s.currentState with
  | true => rfl
  | false =>
    cases down with
    | nil => rfl
    | cons outer down =>
      dsimp only [List.head?_cons, Option.all_some]
      cases outer.state with
      | true => rfl
      | false => rfl

theorem ifstackEndif_nil (h : s.stack = []) : ifstackEndif s = (false, { s with errno := .endifWithoutIf }) :=
  if_pos h

theorem ifstackEndif_cons (h : s.stack = node :: down) :
    ifstackEndif s = (true, ⟨down, down.head?.all Node.state, s.errno⟩) := by
  have hne : s.stack ≠ [] := by
    rw [h]
    exact List.cons_ne_nil node down
  unfold ifstackEndif pull
  rw [if_neg hne, h, List.tail_cons]
  cases down with
  | nil => rfl
  | cons outer down => rfl

/-! ## The stack of the open blocks -/

def toNode (b : Block) : Node := ⟨b.taken, b.elseSeen⟩

theorem head_state (blocks : List Block) : (blocks.map toNode).head?.all Node.state = blocks.head?.all Block.taken := by
  cases blocks with
  | nil => rfl
  | cons b outer => rfl

/-- What a call leaves, said of the open blocks. -/
theorem step_blocks (h : s.stack = blocks.map toNode) (call : Call) :
    (step s call).2.stack = (after blocks call).map toNode ∧ ((step s call).1 = false ↔ Fails blocks call) := by
  have hfalse {P : Prop} (hP : ¬ P) : true = false ↔ P := ⟨fun heq => absurd heq (by decide), fun hp => absurd hp hP⟩
  have htrue {P : Prop} (hP : P) : false = false ↔ P := ⟨fun _ => hP, fun _ => rfl⟩
  cases call with
  | if' condition =>
    refine ⟨?_, hfalse id⟩
    rw [step, ifstackIf_eq, h]
    rfl
  | else' =>
    rw [step]
    cases blocks with
    | nil =>
      rw [ifstackElse_nil h]
      exact ⟨h, htrue (.inl rfl)⟩
    | cons b outer =>
      cases helse : b.elseSeen with
      | true =>
        rw [ifstackElse_seen h helse, after, if_pos helse]
        exact ⟨h, htrue (.inr ⟨b, outer, rfl, helse⟩)⟩
      | false =>
        rw [ifstackElse_first h helse, after, if_neg (Bool.eq_false_iff.mp helse)]
        refine ⟨?_, hfalse ?_⟩
        · rw [List.map_cons, toNode, toNode, Block.taken, Block.taken, helse]
          rfl
        · rintro (hnil | ⟨b', outer', heq, hseen⟩)
          · exact List.cons_ne_nil b outer hnil
          · rw [← (List.cons.inj heq).1, helse] at hseen
            exact Bool.false_ne_true hseen
  | endif' =>
    rw [step]
    cases blocks with
    | nil =>
      rw [ifstackEndif_nil h]
      exact ⟨h, htrue rfl⟩
    | cons b outer =>
      rw [ifstackEndif_cons h]
      exact ⟨rfl, hfalse (List.cons_ne_nil b outer)⟩

/-- A failed call leaves all but the number of the error. -/
theorem step_unchanged (hfails : (step s call).1 = false) :
    (step s call).2.stack = s.stack ∧ isTrue (step s call).2 = isTrue s := by
  cases call with
  | if' condition => exact absurd hfails Bool.noConfusion
  | else' =>
    rw [step] at hfails ⊢
    cases hstack : s.stack with
    | nil =>
      rw [ifstackElse_nil hstack]
      exact ⟨hstack, rfl⟩
    | cons node down =>
      cases helse : node.inElse with
      | true =>
        rw [ifstackElse_seen hstack helse]
        exact ⟨hstack, rfl⟩
      | false =>
        rw [ifstackElse_first hstack helse] at hfails
        exact absurd hfails Bool.noConfusion
  | endif' =>
    rw [step] at hfails ⊢
    cases hstack : s.stack with
    | nil =>
      rw [ifstackEndif_nil hstack]
      exact ⟨hstack, rfl⟩
    | cons node down =>
      rw [ifstackEndif_cons hstack] at hfails
      exact absurd hfails Bool.noConfusion

/-! ## The truth -/

theorem all_cons_false (h : b.taken = false) : (b :: outer).all Block.taken = false := by
  rw [List.all_cons, h, Bool.false_and]

theorem all_cons_true (h : b.taken = true) : (b :: outer).all Block.taken = outer.all Block.taken := by
  rw [List.all_cons, h, Bool.true_and]

/-- The innermost branch says whether all are taken, exactly if it is not hidden. -/
theorem head_eq_all (blocks : List Block) :
    blocks.head?.all Block.taken = blocks.all Block.taken ↔ ¬ Hidden blocks := by
  cases blocks with
  | nil => exact ⟨fun _ hhidden => hhidden, fun _ => rfl⟩
  | cons b outer =>
    rw [List.head?_cons, Option.all_some]
    cases htaken : b.taken with
    | false =>
      rw [all_cons_false htaken]
      exact ⟨fun _ hhidden => Bool.false_ne_true (htaken.symm.trans hhidden.1), fun _ => rfl⟩
    | true =>
      rw [all_cons_true htaken]
      cases hall : outer.all Block.taken with
      | true => exact ⟨fun _ hhidden => Bool.false_ne_true (hhidden.2.symm.trans hall), fun _ => rfl⟩
      | false => exact ⟨fun heq => absurd heq (by decide), fun hseen => absurd ⟨htaken, hall⟩ hseen⟩

/-- Where all are taken the innermost is. -/
theorem head_of_all (hall : blocks.all Block.taken = true) : blocks.head?.all Block.taken = true := by
  cases blocks with
  | nil => rfl
  | cons b outer => exact List.all_eq_true.mp hall b List.mem_cons_self

theorem ifstackIf_truth (h : s.stack = blocks.map toNode) (htruth : isTrue s = blocks.all Block.taken)
    (condition : Bool) : isTrue (ifstackIf s condition) = (after blocks (.if' condition)).all Block.taken ↔
      Seen blocks (.if' condition) := by
  have hblock : Block.taken ⟨condition, false⟩ = condition := rfl
  have htrue : isTrue (ifstackIf s condition) =
      if blocks.head?.all Block.taken = true then condition else blocks.all Block.taken := by
    rw [ifstackIf_eq, h, head_state, ← htruth]
    rfl
  rw [htrue, after, List.all_cons, hblock, Seen, ← head_eq_all]
  cases hhead : blocks.head?.all Block.taken with
  | false =>
    have hall : blocks.all Block.taken = false := by
      by_contra hne
      rw [head_of_all (Bool.not_eq_false _ ▸ hne)] at hhead
      exact Bool.false_ne_true hhead.symm
    rw [if_neg Bool.false_ne_true, hall, Bool.and_false]
    exact ⟨fun _ _ => rfl, fun _ => rfl⟩
  | true =>
    rw [if_pos rfl]
    cases condition with
    | false => exact ⟨fun _ hfalse => absurd hfalse Bool.false_ne_true, fun _ => rfl⟩
    | true => exact ⟨fun heq _ => heq, fun heq => heq rfl⟩

theorem ifstackElse_truth (h : s.stack = blocks.map toNode) (htruth : isTrue s = blocks.all Block.taken) :
    isTrue (ifstackElse s).2 = (after blocks .else').all Block.taken ↔ Seen blocks .else' := by
  cases blocks with
  | nil =>
    rw [ifstackElse_nil h]
    exact ⟨fun _ => trivial, fun _ => htruth⟩
  | cons b outer =>
    cases helse : b.elseSeen with
    | true =>
      rw [ifstackElse_seen h helse, after, if_pos helse]
      exact ⟨fun _ hfalse => absurd (helse.symm.trans hfalse) (by decide), fun _ => htruth⟩
    | false =>
      have hb : b.taken = b.condition := if_neg (Bool.eq_false_iff.mp helse)
      have hflipped : Block.taken ⟨b.condition, true⟩ = !b.condition := rfl
      have hseen : Seen (b :: outer) .else' ↔ ¬ Hidden outer := ⟨fun hs => hs helse, fun hs _ => hs⟩
      change s.currentState = _ at htruth
      rw [ifstackElse_first h helse, after, if_neg (Bool.eq_false_iff.mp helse), hseen, ← head_eq_all, isTrue,
        List.all_cons, hflipped, htruth, List.all_cons, hb, head_state]
      cases hhead : outer.head?.all Block.taken with
      | false =>
        have hall : outer.all Block.taken = false := by
          by_contra hne
          rw [head_of_all (Bool.not_eq_false _ ▸ hne)] at hhead
          exact Bool.false_ne_true hhead.symm
        rw [hall, Bool.and_false, Bool.and_false]
      | true =>
        cases outer.all Block.taken with
        | true =>
          rw [Bool.and_true, Bool.and_true, Bool.and_true]
          exact ⟨fun _ => rfl, fun _ => rfl⟩
        | false =>
          rw [Bool.and_false, Bool.and_false]
          exact ⟨fun hfalse => hfalse, fun hfalse => hfalse⟩

theorem ifstackEndif_truth (h : s.stack = blocks.map toNode) (htruth : isTrue s = blocks.all Block.taken) :
    isTrue (ifstackEndif s).2 = (after blocks .endif').all Block.taken ↔ Seen blocks .endif' := by
  cases blocks with
  | nil =>
    rw [ifstackEndif_nil h]
    exact ⟨fun _ => trivial, fun _ => htruth⟩
  | cons b outer =>
    rw [ifstackEndif_cons h, isTrue, after, head_state]
    exact head_eq_all outer

/-- From a state that is right, a call leads to one exactly if it is seen. -/
theorem step_truth (h : s.stack = blocks.map toNode) (htruth : isTrue s = blocks.all Block.taken) (call : Call) :
    isTrue (step s call).2 = (after blocks call).all Block.taken ↔ Seen blocks call := by
  cases call with
  | if' condition => exact ifstackIf_truth h htruth condition
  | else' => exact ifstackElse_truth h htruth
  | endif' => exact ifstackEndif_truth h htruth

/-! ## Runs -/

theorem run_concat (calls : List Call) (call : Call) : run (calls ++ [call]) = (step (run calls) call).2 :=
  List.foldl_append

theorem opened_concat (calls : List Call) (call : Call) : opened (calls ++ [call]) = after (opened calls) call :=
  List.foldl_append

theorem run_nodes (calls : List Call) : (run calls).stack = (opened calls).map toNode := by
  induction calls using List.reverseRecOn with
  | nil => rfl
  | append_singleton calls call ih =>
    rw [run_concat, opened_concat]
    exact (step_blocks ih call).1

theorem correct_iff (calls : List Call) : Correct calls ↔ isTrue (run calls) = (opened calls).all Block.taken :=
  ⟨fun h => h.truth, fun h => ⟨h, fun call => (step_blocks (run_nodes calls) call).2, fun _ hfails => step_unchanged hfails⟩⟩

theorem selects_iff (calls : List Call) : (∀ pre, pre <+: calls → Correct pre) ↔
    ∀ pre call, pre ++ [call] <+: calls → Seen (opened pre) call := by
  constructor
  · intro h pre call hprefix
    have hpre := (h pre ((List.prefix_append pre [call]).trans hprefix)).truth
    have hnext := (h (pre ++ [call]) hprefix).truth
    rw [run_concat, opened_concat] at hnext
    exact (step_truth (run_nodes pre) hpre call).mp hnext
  · intro h pre
    induction pre using List.reverseRecOn with
    | nil => exact fun _ => (correct_iff []).mpr rfl
    | append_singleton pre call ih =>
      intro hprefix
      have hpre := ih ((List.prefix_append pre [call]).trans hprefix)
      rw [correct_iff, run_concat, opened_concat]
      exact (step_truth (run_nodes pre) hpre.truth call).mpr (h pre call hprefix)

end

/-- A false block, a true one in it, and a true one in that: the third makes lines count. -/
theorem third_counts : ¬ ∀ calls, Correct calls := by
  intro h
  have htruth := (h [.if' false, .if' true, .if' true]).truth
  exact absurd htruth (by decide)

end Vice.L5.IfStack

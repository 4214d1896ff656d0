import Mathlib.Data.List.Induction
import Vice.L4Machine.CiaTodTime

/-!
# Reading the clock while it runs

A read of the hours takes all four registers at once and keeps them until the tenths are read. So
whatever happens between the two, the reads in between are of one time (`reads_one_instant`): that
of the read of the hours or, when the clock is latched already, of an earlier moment of the run.
-/
namespace Vice.L4.CiaTod

def answer (s : Tod) : Event → List (Reg × UInt8)
  | .read reg => [(reg, (readTod s reg).1)]
  | _ => []

/-- What the program reads. -/
def answers : Tod → List Event → List (Reg × UInt8)
  | _, [] => []
  | s, e :: es => answer s e ++ answers (step s e) es

/-- What may happen between the hours and the tenths. -/
def staysLatched : Event → Bool
  | .reset _ => false
  | .read .ten => false
  | _ => true

/-- The time a read answers from. -/
def shown (s : Tod) : Time := if s.todlatched then s.todlatch else s.time

theorem readTod_answer (s : Tod) (reg : Reg) : (readTod s reg).1 = (shown s).get reg := by
  unfold readTod shown
  cases hlatched : s.todlatched <;> cases reg <;> rfl

theorem readTod_latch (s : Tod) (reg : Reg) : (readTod s reg).2.todlatch = shown s := by
  unfold readTod shown
  cases hlatched : s.todlatched <;> cases reg <;> rfl

theorem readTod_latched (s : Tod) (reg : Reg) :
    (readTod s reg).2.todlatched = (reg == .hr || (reg != .ten && s.todlatched)) := by
  unfold readTod
  cases hlatched : s.todlatched <;> cases reg <;> simp [hlatched]

theorem shown_latched {s : Tod} (h : s.todlatched = true) : shown s = s.todlatch := by
  unfold shown
  rw [if_pos h]

/-- The latch and whether it is used. -/
def latch (s : Tod) : Bool × Time := (s.todlatched, s.todlatch)

theorem latch_inttod (s : Tod) (latency rand : UInt64) : latch (ciacoreInttod s latency rand) = latch s := by
  have hschedule : latch (schedule s rand) = latch s := by
    unfold schedule
    dsimp only
    split <;> rfl
  have hring : ∀ t, latch (stepRing t) = latch t := by
    intro t
    unfold stepRing
    split
    · rfl
    · split <;> rfl
  have hclk : ∀ (t : Tod) clk, latch { t with todclk := clk } = latch t := fun _ _ => rfl
  by_cases hfreq : s.powerFreq = 0
  · rw [ciacoreInttod, if_pos hfreq]
    exact hclk s _
  · rw [ciacoreInttod, if_neg hfreq, ← hschedule]
    dsimp only
    generalize schedule s rand = t
    split
    · exact (alarm_frame latch (fun _ _ => rfl) _ _).trans ((hring _).trans (hclk t _))
    · exact (hring _).trans (hclk t _)

/-- Only reads and a reset touch the latch. -/
theorem latch_step (s : Tod) {e : Event} (hread : ∀ reg, e ≠ .read reg) (hreset : ∀ clk, e ≠ .reset clk) :
    (step s e).todlatched = s.todlatched ∧ (step s e).todlatch = s.todlatch := by
  refine Prod.mk.inj (show latch (step s e) = latch s from ?_)
  cases e with
  | reset clk => exact absurd rfl (hreset clk)
  | read reg => exact absurd rfl (hread reg)
  | storeCra byte => rfl
  | storeCrb byte => rfl
  | store reg byte rclk =>
    exact storeTod_frame latch (fun _ _ => rfl) (fun _ _ _ _ _ => rfl) s reg byte rclk
  | tick latency rand => exact latch_inttod s latency _

theorem shown_step {s : Tod} (h : s.todlatched = true) {e : Event} (he : staysLatched e = true) :
    (step s e).todlatched = true ∧ shown (step s e) = shown s := by
  by_cases hread : ∃ reg, e = .read reg
  · obtain ⟨reg, rfl⟩ := hread
    have hlatched : (readTod s reg).2.todlatched = true := by
      rw [readTod_latched, h]
      cases reg with
      | ten => exact Bool.noConfusion he
      | sec => rfl
      | min => rfl
      | hr => rfl
    exact ⟨hlatched, (shown_latched hlatched).trans (readTod_latch s reg)⟩
  · obtain ⟨hlatched, hlatch⟩ := latch_step s (e := e) (fun reg heq => hread ⟨reg, heq⟩)
      fun clk heq => by rw [heq] at he; exact Bool.noConfusion he
    exact ⟨hlatched.trans h, by rw [shown_latched (hlatched.trans h), hlatch, shown_latched h]⟩

theorem answer_shown {s : Tod} {e : Event} : ∀ a ∈ answer s e, a.2 = (shown s).get a.1 := by
  intro a ha
  cases e with
  | read reg =>
    rw [List.mem_singleton.mp ha]
    exact readTod_answer s reg
  | _ => exact nomatch ha

/-- Until the tenths are read, and then too, the answers are of the latched time. -/
theorem answers_latched {s : Tod} (h : s.todlatched = true) {mid : List Event}
    (hmid : ∀ e ∈ mid, staysLatched e = true) :
    ∀ a ∈ answers s (mid ++ [.read .ten]), a.2 = (shown s).get a.1 := by
  induction mid generalizing s with
  | nil =>
    intro a ha
    rw [List.nil_append, answers, answers, List.append_nil] at ha
    exact answer_shown a ha
  | cons e es ih =>
    intro a ha
    obtain ⟨hlatched, hshown⟩ := shown_step h (hmid e List.mem_cons_self)
    rw [List.cons_append, answers, List.mem_append] at ha
    rcases ha with ha | ha
    · exact answer_shown a ha
    · rw [← hshown]
      exact ih hlatched (fun e' he' => hmid e' (List.mem_cons_of_mem e he')) a ha

/-- What is latched was the time at some earlier moment. -/
theorem latched_earlier {s : Tod} (h : s.todlatched = false) (es : List Event)
    (hlatched : (run s es).todlatched = true) :
    ∃ p q, es = p ++ q ∧ (run s es).todlatch = (run s p).time := by
  induction es using List.reverseRecOn with
  | nil => exact Bool.noConfusion (h.symm.trans hlatched)
  | append_singleton es e ih =>
    rw [run_append] at hlatched ⊢
    change (step (run s es) e).todlatched = true at hlatched
    show ∃ p q, _ ∧ (step (run s es) e).todlatch = (run s p).time
    by_cases hread : ∃ reg, e = .read reg
    · obtain ⟨reg, rfl⟩ := hread
      have hlatch : (step (run s es) (.read reg)).todlatch = shown (run s es) := readTod_latch _ reg
      rw [hlatch]
      cases hbefore : (run s es).todlatched with
      | true =>
        obtain ⟨p, q, heq, htime⟩ := ih hbefore
        exact ⟨p, q ++ [.read reg], by rw [heq, List.append_assoc], (shown_latched hbefore).trans htime⟩
      | false =>
        refine ⟨es, [.read reg], rfl, ?_⟩
        unfold shown
        rw [hbefore]
        rfl
    · have hreset : ∀ clk, e ≠ .reset clk := fun clk heq => by
        rw [heq] at hlatched
        exact Bool.noConfusion hlatched
      obtain ⟨hsame, hlatch⟩ := latch_step (run s es) (e := e) (fun reg heq => hread ⟨reg, heq⟩) hreset
      obtain ⟨p, q, heq, htime⟩ := ih (hsame.symm.trans hlatched)
      exact ⟨p, q ++ [e], by rw [heq, List.append_assoc], hlatch.trans htime⟩

/-- The hours, whatever comes in between, and the tenths are of one time. -/
theorem reads_one_instant {s : Tod} (h : s.todlatched = false) (pre : List Event) {mid : List Event}
    (hmid : ∀ e ∈ mid, staysLatched e = true) :
    ∃ p q, pre = p ++ q ∧
      ∀ a ∈ answers (run s pre) (.read .hr :: (mid ++ [.read .ten])), a.2 = (run s p).time.get a.1 := by
  have hlatched : (readTod (run s pre) .hr).2.todlatched = true := by
    rw [readTod_latched]
    rfl
  have hshown : shown (readTod (run s pre) .hr).2 = shown (run s pre) :=
    (shown_latched hlatched).trans (readTod_latch _ _)
  have hanswers : ∀ a ∈ answers (run s pre) (.read .hr :: (mid ++ [.read .ten])),
      a.2 = (shown (run s pre)).get a.1 := by
    intro a ha
    rw [answers, List.mem_append] at ha
    rcases ha with ha | ha
    · exact answer_shown a ha
    · rw [← hshown]
      exact answers_latched hlatched hmid a ha
  cases hbefore : (run s pre).todlatched with
  | true =>
    obtain ⟨p, q, heq, htime⟩ := latched_earlier h pre hbefore
    refine ⟨p, q, heq, fun a ha => ?_⟩
    rw [hanswers a ha, shown_latched hbefore, htime]
  | false =>
    refine ⟨pre, [], (List.append_nil pre).symm, fun a ha => ?_⟩
    rw [hanswers a ha]
    unfold shown
    rw [hbefore]
    rfl

end Vice.L4.CiaTod

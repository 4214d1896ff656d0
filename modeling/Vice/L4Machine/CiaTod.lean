import Mathlib.Data.UInt

/-!
# The time-of-day clock of the CIA (`ciacore.c`)

Four registers hold the time as BCD digits, hours from 1 to 12 with a flag for the afternoon. The
alarm of the clock stands for the ticks of the mains; a ring counter makes tenths of a second of
them. A read of the hours latches the time, a read of the tenths lets it go.

`CLOCK` is 64 bits wide. An alarm is called at some clock from the one it was set for on; the
difference is its `latency`. What `lib_unsigned_rand (0, 3)` gives comes with the alarm.
-/
namespace Vice.L4.CiaTod

/-- The four registers, as `memcpy` and `memcmp` see them. -/
structure Time where
  ten : UInt8
  sec : UInt8
  min : UInt8
  hr : UInt8
  deriving DecidableEq, Repr

/-- `CIA_TOD_TEN` to `CIA_TOD_HR` -/
inductive Reg
  | ten
  | sec
  | min
  | hr
  deriving DecidableEq, Repr

def Time.get (t : Time) : Reg → UInt8
  | .ten => t.ten
  | .sec => t.sec
  | .min => t.min
  | .hr => t.hr

def Time.set (t : Time) (byte : UInt8) : Reg → Time
  | .ten => { t with ten := byte }
  | .sec => { t with sec := byte }
  | .min => { t with min := byte }
  | .hr => { t with hr := byte }

/-- `CIA_CRA_TODIN_50HZ`, `CIA_CRB_ALARM` -/
def craTodin50Hz : UInt8 := 0x80
def crbAlarm : UInt8 := 0x80

/-- The fields of `cia_context_t` the clock uses. `irqs` are the clocks at which the interrupt flag
of the clock is raised, the last one first; the alarm is always set for `todclk`. -/
structure Tod where
  time : Time
  todalarm : Time
  todlatch : Time
  cra : UInt8
  crb : UInt8
  todstopped : Bool
  todlatched : Bool
  todtickcounter : UInt8
  todticks : UInt64
  todclk : UInt64
  ticksPerSec : UInt64
  powerFreq : Nat
  powerTickcounter : Nat
  powerTicks : UInt64
  irqs : List UInt64
  deriving DecidableEq, Repr

/-- mirrors src/core/ciacore.c:237-243 -/
def checkCiatodalarm (s : Tod) (rclk : UInt64) : Tod :=
  if s.todalarm = s.time then { s with irqs := rclk :: s.irqs } else s

/-! ## The digits -/

/-- Two digits that count to 59, and whether they begin again. The high digit has three bits.
mirrors src/core/ciacore.c:1949-1955 and 1956-1961 -/
def nextSixty (reg : UInt8) : UInt8 × Bool :=
  let lo := (reg &&& 0x0f) + 1 &&& 0x0f
  let hi := reg >>> 4 &&& 0x07
  if lo = 10 then
    let hi := hi + 1 &&& 0x07
    if hi = 6 then (0, true) else (hi <<< 4, false)
  else (lo ||| hi <<< 4, false)

/-- What is written back when the digits stay. -/
def sameSixty (reg : UInt8) : UInt8 :=
  let lo := reg &&& 0x0f
  let hi := reg >>> 4 &&& 0x07
  lo ||| hi <<< 4

/-- mirrors src/core/ciacore.c:1963-1976 -/
def nextHour (reg : UInt8) : UInt8 :=
  let hl := reg &&& 0x0f
  let hh := reg >>> 4 &&& 0x01
  let pm := reg &&& 0x80
  if hh = 1 ∧ hl = 2 ∨ hh = 0 ∧ hl = 9 then hh ||| (hh ^^^ 1) <<< 4 ||| pm
  else
    let hl := hl + 1 &&& 0x0f
    let pm := if hh = 1 ∧ hl = 2 then pm ^^^ 0x80 else pm
    hl ||| hh <<< 4 ||| pm

def sameHour (reg : UInt8) : UInt8 :=
  let hl := reg &&& 0x0f
  let hh := reg >>> 4 &&& 0x01
  let pm := reg &&& 0x80
  hl ||| hh <<< 4 ||| pm

/-- mirrors src/core/ciacore.c:1930-1993 -/
def advance (t : Time) : Time :=
  let ts := (t.ten &&& 0x0f) + 1 &&& 0x0f
  if ts = 10 then
    let (sec, carry) := nextSixty t.sec
    if carry then
      let (min, carry) := nextSixty t.min
      if carry then ⟨0, sec, min, nextHour t.hr⟩ else ⟨0, sec, min, sameHour t.hr⟩
    else ⟨0, sec, sameSixty t.min, sameHour t.hr⟩
  else ⟨ts, sameSixty t.sec, sameSixty t.min, sameHour t.hr⟩

/-! ## The ticks -/

/-- The time to the next tick. mirrors src/core/ciacore.c:1874-1898 -/
def schedule (s : Tod) (rand : UInt64) : Tod :=
  let freq := UInt64.ofNat s.powerFreq
  let tclk := UInt64.ofNat s.powerTickcounter * s.ticksPerSec / freq
  let todticks := s.ticksPerSec / freq
  let todticks :=
    if s.powerTicks < tclk then todticks + rand
    else if s.powerTicks > tclk then todticks - rand
    else todticks
  let powerTickcounter := s.powerTickcounter + 1
  if powerTickcounter ≥ s.powerFreq then
    { s with
      todticks := s.ticksPerSec - s.powerTicks
      powerTickcounter := 0
      powerTicks := 0 }
  else
    { s with
      todticks := todticks
      powerTickcounter := powerTickcounter
      powerTicks := s.powerTicks + todticks }

/-- The place of the ring at which a tenth of a second is over. -/
def ringMatch (cra : UInt8) : UInt8 := if cra &&& craTodin50Hz ≠ 0 then 4 else 5

/-- Does this tick make the clock go on? -/
def updates (s : Tod) : Bool := !s.todstopped && s.todtickcounter == ringMatch s.cra

/-- mirrors src/core/ciacore.c:1903-1928 -/
def stepRing (s : Tod) : Tod :=
  if s.todstopped then s
  else if updates s then { s with todtickcounter := 0 }
  else
    let counter := s.todtickcounter + 1
    { s with todtickcounter := if counter > 5 then 0 else counter }

/-- mirrors src/core/ciacore.c:1849-1998 -/
def ciacoreInttod (s : Tod) (latency rand : UInt64) : Tod :=
  let clk := s.todclk + latency
  let rclk := clk - latency
  if s.powerFreq = 0 then { s with todclk := clk + 100000 }
  else
    let s := schedule s rand
    let s := { s with todclk := clk + s.todticks }
    let update := updates s
    let s := stepRing s
    if update then checkCiatodalarm { s with time := advance s.time } rclk else s

/-! ## Register accesses -/

/-- mirrors src/core/ciacore.c:647-656, what concerns the clock -/
def ciacoreReset (s : Tod) (clk : UInt64) : Tod :=
  { s with
    time := ⟨0, 0, 0, 1⟩
    todalarm := ⟨0, 0, 0, 0⟩
    todlatch := ⟨0, 0, 0, 1⟩
    cra := 0
    crb := 0
    todstopped := true
    todlatched := false
    todclk := clk + s.todticks
    todtickcounter := 0 }

/-- What is kept of a byte: the tenths have four bits, the others seven. Noon and midnight are
stored with the flag the other way round, in the time only. mirrors src/core/ciacore.c:859-874 -/
def storedByte (s : Tod) (byte : UInt8) : Reg → UInt8
  | .hr =>
    let byte := byte &&& 0x9f
    if byte &&& 0x1f = 0x12 ∧ s.crb &&& crbAlarm = 0 then byte ^^^ 0x80 else byte
  | .min => byte &&& 0x7f
  | .sec => byte &&& 0x7f
  | .ten => byte &&& 0x0f

/-- mirrors src/core/ciacore.c:855-907: the hours stop the clock and the tenths start it again. -/
def storeTod (s : Tod) (reg : Reg) (byte : UInt8) (rclk : UInt64) : Tod :=
  let byte := storedByte s byte reg
  if s.crb &&& crbAlarm ≠ 0 then
    let changed := s.todalarm.get reg != byte
    let s := { s with todalarm := s.todalarm.set byte reg }
    if changed then checkCiatodalarm s rclk else s
  else
    let s :=
      if reg = .ten ∧ s.todstopped = true then { s with todtickcounter := 0, todstopped := false }
      else s
    let s := if reg = .hr then { s with todstopped := true } else s
    let changed := s.time.get reg != byte
    let s := { s with time := s.time.set byte reg }
    if changed then checkCiatodalarm s rclk else s

/-- What does not look at the interrupts. -/
theorem alarm_frame {α : Type} (f : Tod → α) (h : ∀ s irqs, f { s with irqs := irqs } = f s)
    (s : Tod) (rclk : UInt64) : f (checkCiatodalarm s rclk) = f s := by
  unfold checkCiatodalarm
  split
  · exact h s _
  · rfl

/-- What a store to the clock or the alarm does not touch. -/
theorem storeTod_frame {α : Type} (f : Tod → α) (h : ∀ s irqs, f { s with irqs := irqs } = f s)
    (hfields : ∀ s time todalarm todtickcounter todstopped, f { s with
      time := time, todalarm := todalarm, todtickcounter := todtickcounter, todstopped := todstopped } = f s)
    (s : Tod) (reg : Reg) (byte : UInt8) (rclk : UInt64) : f (storeTod s reg byte rclk) = f s := by
  have hif : ∀ (c : Bool) (t : Tod), f (if c then checkCiatodalarm t rclk else t) = f t := by
    intro c t
    cases c with
    | false => rfl
    | true => exact alarm_frame f h t rclk
  unfold storeTod
  dsimp only
  split
  · exact (hif _ _).trans (hfields s _ _ _ _)
  · refine (hif _ _).trans ?_
    split <;> split <;> exact hfields s _ _ _ _

/-- mirrors src/core/ciacore.c:1256-1271 -/
def readTod (s : Tod) (reg : Reg) : UInt8 × Tod :=
  let s := if s.todlatched then s else { s with todlatch := s.time }
  let s := if reg = .ten then { s with todlatched := false } else s
  let s := if reg = .hr then { s with todlatched := true } else s
  (s.todlatch.get reg, s)

/-! ## Runs -/

inductive Event
  | reset (clk : UInt64)
  | tick (latency : UInt64) (rand : Fin 4)
  | read (reg : Reg)
  | store (reg : Reg) (byte : UInt8) (rclk : UInt64)
  | storeCra (byte : UInt8)
  | storeCrb (byte : UInt8)
  deriving DecidableEq, Repr

/-- The control registers lose the bit that loads their timer, mirrors src/core/ciacore.c:1054. -/
def step (s : Tod) : Event → Tod
  | .reset clk => ciacoreReset s clk
  | .tick latency rand => ciacoreInttod s latency (UInt64.ofNat rand)
  | .read reg => (readTod s reg).2
  | .store reg byte rclk => storeTod s reg byte rclk
  | .storeCra byte => { s with cra := byte &&& 0xef }
  | .storeCrb byte => { s with crb := byte &&& 0xef }

def run (s : Tod) (es : List Event) : Tod := es.foldl step s

@[simp] theorem run_cons (s : Tod) (e : Event) (es : List Event) : run s (e :: es) = run (step s e) es := rfl

theorem run_append (s : Tod) (es es' : List Event) : run s (es ++ es') = run (run s es) es' :=
  List.foldl_append

end Vice.L4.CiaTod

import Vice.L4Machine.M93c86Frames

/-!
# The EEPROM is a memory

Results:
* `storing_done`: the commands that store leave the memory they should.
* `reading_next`: the bits of a read, one after the other through the words.
* `frame_spec`: a frame answers and does what its command should.
-/
namespace Vice.L4.M93c86Memory
open Vice.L4.M93c86 Vice.L4.M93c86Frames

section
variable {s : Eeprom} {m : Memory} {reg count t : Nat} {k : Cmd} {a : Fin 1024} {b : Bool}

/-! ## Words -/

theorem holds_store {data : Nat → UInt8} {words : Fin 1024 → UInt16} (h : Holds data words) (a : Fin 1024)
    {word : UInt16} {data0 data1 : UInt8} (h0 : data0.toNat = word.toNat / 256)
    (h1 : data1.toNat = word.toNat % 256) :
    Holds (storeWord data a.val data0 data1) (Function.update words a word) := by
  intro a'
  have hplace : ∀ n : Nat, n <<< 1 = n * 2 := fun n => Nat.shiftLeft_eq n 1
  unfold storeWord
  by_cases ha : a' = a
  · subst ha
    rw [Function.update_self, Function.update_self, Function.update_of_ne (by rw [hplace]; omega),
      Function.update_self]
    exact ⟨h0, h1⟩
  · have hval : a'.val ≠ a.val := fun heq => ha (Fin.ext heq)
    rw [Function.update_of_ne ha, Function.update_of_ne (by rw [hplace, hplace]; omega),
      Function.update_of_ne (by rw [hplace, hplace]; omega),
      Function.update_of_ne (by rw [hplace, hplace]; omega),
      Function.update_of_ne (by rw [hplace, hplace]; omega)]
    exact h a'

/-- The loop over all words. -/
theorem fill_eq (data : Nat → UInt8) (data0 data1 : UInt8) (n i : Nat) :
    (List.range n).foldl (fun data addr => storeWord data addr data0 data1) data i =
      if i < 2 * n then (if i % 2 = 0 then data0 else data1) else data i := by
  induction n with
  | zero => rfl
  | succ n ih =>
    have hplace : n <<< 1 = n * 2 := Nat.shiftLeft_eq n 1
    rw [List.range_succ, List.foldl_append, List.foldl_cons, List.foldl_nil, storeWord, hplace]
    by_cases hodd : i = n * 2 + 1
    · subst hodd
      rw [Function.update_self, if_pos (by omega), if_neg (by omega)]
    · rw [Function.update_of_ne hodd]
      by_cases heven : i = n * 2
      · subst heven
        rw [Function.update_self, if_pos (by omega), if_pos (by omega)]
      · rw [Function.update_of_ne heven, ih]
        by_cases hlt : i < 2 * n
        · have hlt' : i < 2 * (n + 1) := by omega
          rw [if_pos hlt, if_pos hlt']
        · have hlt' : ¬ i < 2 * (n + 1) := by omega
          rw [if_neg hlt, if_neg hlt']

theorem holds_fill (data : Nat → UInt8) {word : UInt16} {data0 data1 : UInt8}
    (h0 : data0.toNat = word.toNat / 256) (h1 : data1.toNat = word.toNat % 256) :
    Holds (storeAll data data0 data1) fun _ => word := by
  intro a
  have hplace : a.val <<< 1 = a.val * 2 := Nat.shiftLeft_eq a.val 1
  have ha := a.isLt
  rw [storeAll, fill_eq, fill_eq, hplace, show M93C86_SIZE / 2 = 1024 from rfl, if_pos (by omega), if_pos (by omega),
    if_pos (by omega), if_neg (by omega)]
  exact ⟨h0, h1⟩

/-! ## Numbers that came in -/

theorem register_whole (top low : Nat) :
    (top * 128 + low / 2 % 128) * 2 + (low.testBit 0).toNat = top * 256 + low % 256 := by
  rw [Nat.toNat_testBit]
  omega

/-- The ten bits of an address. -/
theorem address_eq (o1 o0 : Bool) (a : Fin 1024) :
    ((16 + 8 * o1.toNat + 4 * o0.toNat + 2 * (a.val.testBit 9).toNat + (a.val.testBit 8).toNat) * 256 +
      a.val % 256) % 1024 = a.val := by
  have ha := a.isLt
  rw [Nat.toNat_testBit, Nat.toNat_testBit]
  omega

theorem mask_eq (x : Nat) : x &&& 0x3ff = x % 1024 := Nat.and_two_pow_sub_one_eq_mod x 10

/-! ## The thirteenth bit -/

theorem pulse_addressed (h : Open s reg 12 k m) (hroom : Room reg 12) (hk : ¬ isReading k) (b : Bool) :
    steps s (pulse b) = { addressed (taken s b reg 12) with clock := false } := by
  rw [pulse_eq h hk, shiftIn_eq h hroom, if_neg (by decide), if_neg (by decide), if_neg (by decide), if_pos rfl]

theorem word_addressed (h : Open s reg 12 k m) (hroom : Room reg 12) (hk : k = .write ∨ k = .wral) (b : Bool) :
    Open (steps s (pulse b)) (reg * 2 + b.toNat) 13 k m := by
  have hreading : ¬ isReading k := by obtain rfl | rfl := hk <;> decide
  rw [pulse_addressed h hroom hreading b]
  have hsame : addressed (taken s b reg 12) = taken s b reg 12 := by
    unfold addressed
    rw [show (taken s b reg 12).command = k from h.command]
    obtain rfl | rfl := hk <;> rfl
  rw [hsame]
  exact ⟨h.cs, rfl, rfl, rfl, h.command, h.enabled, h.holds⟩

/-- No word is read, nor will be. -/
def isIdle (k : Cmd) : Prop := k ≠ .read ∧ ¬ isReading k

instance (k : Cmd) : Decidable (isIdle k) := inferInstanceAs (Decidable (_ ∧ _))

/-- The chip is selected and has nothing more to do. -/
def Done (s : Eeprom) (m : Memory) : Prop := ∃ reg count k, Open s reg count k m ∧ isIdle k

theorem erased (h : Open s reg 12 .erase m) (hroom : Room reg 12) (b : Bool)
    (ha : (reg * 2 + b.toNat) % 1024 = a.val) : Done (steps s (pulse b)) (m.exec (.erase a)) := by
  rw [pulse_addressed h hroom (by decide) b]
  obtain ⟨hcs, -, -, -, hcommand, henabled, hholds⟩ := h
  unfold addressed
  rw [show (taken s b reg 12).command = .erase from hcommand]
  dsimp only
  rw [show (taken s b reg 12).writeEnableStatus = m.enabled from henabled,
    show (taken s b reg 12).inputShiftreg &&& 0x3ff = a.val from (mask_eq _).trans ha]
  unfold Memory.exec Memory.store
  cases hwrite : m.enabled with
  | false =>
    rw [if_pos rfl, if_neg Bool.false_ne_true]
    exact ⟨0, 0, .none, ⟨hcs, rfl, rfl, rfl, rfl, henabled, hholds⟩, by decide⟩
  | true =>
    rw [if_neg (by decide), if_pos rfl]
    exact ⟨0, 0, .erase, ⟨hcs, rfl, rfl, rfl, hcommand, henabled.trans hwrite, holds_store hholds a rfl rfl⟩, by decide⟩

theorem erased_all (h : Open s reg 12 .eral m) (hroom : Room reg 12) (b : Bool) (low : Nat) :
    Done (steps s (pulse b)) (m.exec (.eral low)) := by
  rw [pulse_addressed h hroom (by decide) b]
  obtain ⟨hcs, -, -, -, hcommand, henabled, hholds⟩ := h
  unfold addressed
  rw [show (taken s b reg 12).command = .eral from hcommand]
  dsimp only
  rw [show (taken s b reg 12).writeEnableStatus = m.enabled from henabled]
  unfold Memory.exec Memory.store
  cases hwrite : m.enabled with
  | false =>
    rw [if_pos rfl, if_neg Bool.false_ne_true]
    exact ⟨0, 0, .none, ⟨hcs, rfl, rfl, rfl, rfl, henabled, hholds⟩, by decide⟩
  | true =>
    rw [if_neg (by decide), if_pos rfl]
    refine ⟨0, 0, .eral, ⟨hcs, rfl, rfl, rfl, hcommand, henabled.trans hwrite, fun a => ?_⟩, by decide⟩
    have hplace : a.val <<< 1 = a.val * 2 := Nat.shiftLeft_eq a.val 1
    have ha := a.isLt
    dsimp only
    rw [hplace, show M93C86_SIZE = 2048 from rfl, if_pos (by omega), if_pos (by omega)]
    exact ⟨rfl, rfl⟩

/-- WEN and WDS. -/
theorem enable_set (h : Open s reg 12 k m) (hroom : Room reg 12) (b value : Bool)
    (hk : k = if value then .wen else .wds) : Done (steps s (pulse b)) { m with enabled := value } := by
  have hreading : ¬ isReading k := by
    rw [hk]
    cases value <;> decide
  rw [pulse_addressed h hroom hreading b]
  obtain ⟨hcs, -, -, -, hcommand, henabled, hholds⟩ := h
  unfold addressed
  rw [show (taken s b reg 12).command = k from hcommand, hk]
  cases value with
  | false => exact ⟨0, 0, .none, ⟨hcs, rfl, rfl, rfl, rfl, rfl, hholds⟩, by decide⟩
  | true => exact ⟨0, 0, .none, ⟨hcs, rfl, rfl, rfl, rfl, rfl, hholds⟩, by decide⟩

/-! ## The word that is stored -/

/-- The sixteen bits of a word, after the thirteenth bit. -/
theorem word_received {k : Cmd} (word : UInt16) (h : Open s reg 13 k m) (hroom : Room reg 13) (hk : ¬ isReading k) :
    ∃ s', steps s (pulses (bitsOf 16 word.toNat)) =
        { filled (taken s' (word.toNat.testBit 0) (reg * 2 ^ 15 + word.toNat / 2) 28) with clock := false } ∧
      Open s' (reg * 2 ^ 15 + word.toNat / 2) 28 k m := by
  have hword := word.toNat_lt
  obtain ⟨hrest, hroom'⟩ := feed (bitsOf 15 (word.toNat / 2)) h hroom hk (by rw [bitsOf_length]; decide) (by
    intro c hlow hhigh
    rw [bitsOf_length] at hhigh
    unfold isStop
    omega)
  rw [shifted_bitsOf, bitsOf_length, Nat.mod_eq_of_lt (by omega : word.toNat / 2 < 2 ^ 15)] at hrest hroom'
  refine ⟨_, ?_, hrest⟩
  rw [bitsOf_last 15, steps_pulses_append]
  change steps _ (pulse (word.toNat.testBit 0)) = _
  rw [pulse_eq hrest hk, shiftIn_eq hrest hroom', if_neg (by decide), if_neg (by decide), if_neg (by decide),
    if_neg (by decide), if_pos rfl]

/-- The bytes of a register with a word in it. -/
theorem register_bytes (top : Nat) (word : UInt16) :
    (((top * 2 ^ 15 + word.toNat / 2) * 2 + (word.toNat.testBit 0).toNat) >>> 8).toUInt8.toNat = word.toNat / 256 ∧
      ((top * 2 ^ 15 + word.toNat / 2) * 2 + (word.toNat.testBit 0).toNat).toUInt8.toNat = word.toNat % 256 ∧
      ((top * 2 ^ 15 + word.toNat / 2) * 2 + (word.toNat.testBit 0).toNat) >>> 16 = top := by
  have hword := word.toNat_lt
  have hwhole : (top * 2 ^ 15 + word.toNat / 2) * 2 + (word.toNat.testBit 0).toNat = top * 65536 + word.toNat := by
    rw [Nat.toNat_testBit]
    omega
  rw [hwhole, Nat.shiftRight_eq_div_pow, Nat.shiftRight_eq_div_pow, Nat.toUInt8_eq, Nat.toUInt8_eq,
    UInt8.toNat_ofNat', UInt8.toNat_ofNat']
  omega

theorem written (word : UInt16) (h : Open s reg 13 .write m) (hroom : Room reg 13) (ha : reg % 1024 = a.val) :
    Done (steps s (pulses (bitsOf 16 word.toNat))) (m.exec (.write a word)) := by
  obtain ⟨s', hsteps, hcs, -, -, -, hcommand, henabled, hholds⟩ := word_received word h hroom (by decide)
  obtain ⟨h0, h1, htop⟩ := register_bytes reg word
  rw [hsteps]
  unfold filled
  rw [show (taken s' (word.toNat.testBit 0) (reg * 2 ^ 15 + word.toNat / 2) 28).command = .write from hcommand]
  dsimp only
  rw [show (taken s' (word.toNat.testBit 0) (reg * 2 ^ 15 + word.toNat / 2) 28).writeEnableStatus = m.enabled
      from henabled,
    show (taken s' (word.toNat.testBit 0) (reg * 2 ^ 15 + word.toNat / 2) 28).inputShiftreg =
      (reg * 2 ^ 15 + word.toNat / 2) * 2 + (word.toNat.testBit 0).toNat from rfl, htop, mask_eq, ha]
  unfold Memory.exec Memory.store
  cases hwrite : m.enabled with
  | false =>
    rw [if_pos rfl, if_neg Bool.false_ne_true]
    exact ⟨0, 0, .none, ⟨hcs, rfl, rfl, rfl, rfl, henabled, hholds⟩, by decide⟩
  | true =>
    rw [if_neg (by decide), if_pos rfl]
    exact ⟨0, 0, .write, ⟨hcs, rfl, rfl, rfl, hcommand, henabled.trans hwrite, holds_store hholds a h0 h1⟩, by decide⟩

theorem written_all (low : Nat) (word : UInt16) (h : Open s reg 13 .wral m) (hroom : Room reg 13) :
    Done (steps s (pulses (bitsOf 16 word.toNat))) (m.exec (.wral low word)) := by
  obtain ⟨s', hsteps, hcs, -, -, -, hcommand, henabled, hholds⟩ := word_received word h hroom (by decide)
  obtain ⟨h0, h1, -⟩ := register_bytes reg word
  rw [hsteps]
  unfold filled
  rw [show (taken s' (word.toNat.testBit 0) (reg * 2 ^ 15 + word.toNat / 2) 28).command = .wral from hcommand]
  dsimp only
  rw [show (taken s' (word.toNat.testBit 0) (reg * 2 ^ 15 + word.toNat / 2) 28).writeEnableStatus = m.enabled
      from henabled,
    show (taken s' (word.toNat.testBit 0) (reg * 2 ^ 15 + word.toNat / 2) 28).inputShiftreg =
      (reg * 2 ^ 15 + word.toNat / 2) * 2 + (word.toNat.testBit 0).toNat from rfl]
  unfold Memory.exec Memory.store
  cases hwrite : m.enabled with
  | false =>
    rw [if_pos rfl, if_neg Bool.false_ne_true]
    exact ⟨0, 0, .none, ⟨hcs, rfl, rfl, rfl, rfl, henabled, hholds⟩, by decide⟩
  | true =>
    rw [if_neg (by decide), if_pos rfl]
    have hfill := holds_fill s'.data h0 h1
    refine ⟨0, 0, .wral, ⟨hcs, rfl, rfl, rfl, hcommand, henabled.trans hwrite, ?_⟩, by decide⟩
    dsimp only
    exact hfill

/-! ## The words that are read -/

/-- The bit of a read that comes after `t` others. -/
def wordBit (m : Memory) (a : Fin 1024) (t : Nat) : Bool :=
  (m.words (Fin.ofNat 1024 (a.val + t / 16))).toNat.testBit (15 - t % 16)

/-- So many bits of a read from `a` on are out: the register has the rest of a byte at its top. -/
structure Reading (s : Eeprom) (a : Fin 1024) (t : Nat) (m : Memory) : Prop where
  cs : s.cs = true
  clock : s.clock = false
  enabled : s.writeEnableStatus = m.enabled
  holds : Holds s.data m.words
  first : t = 0 → s.command = .readDummy ∧ s.addr = a.val
  next : t ≠ 0 → s.command = .readData ∧ s.addr = (a.val + t / 16) % 1024 ∧ s.outputCount = t % 16 ∧
    s.outputShiftreg % 256 = (s.data ((s.addr <<< 1) + t % 16 / 8)).toNat * 2 ^ (t % 8) % 256

theorem byteBit_eq {data : Nat → UInt8} (h : Holds data m.words) (a : Fin 1024) (t : Nat) :
    (data ((((a.val + t / 16) % 1024) <<< 1) + t % 16 / 8)).toNat.testBit (7 - t % 8) = wordBit m a t := by
  have hwords := h (Fin.ofNat 1024 (a.val + t / 16))
  have hval : (Fin.ofNat 1024 (a.val + t / 16)).val = (a.val + t / 16) % 1024 := rfl
  rw [hval] at hwords
  unfold wordBit
  by_cases hhigh : t % 16 < 8
  · have hplace : t % 16 / 8 = 0 := by omega
    rw [hplace, Nat.add_zero, hwords.1, show 256 = 2 ^ 8 from rfl, Nat.testBit_div_two_pow,
      show 7 - t % 8 + 8 = 15 - t % 16 by omega]
  · have hplace : t % 16 / 8 = 1 := by omega
    rw [hplace, hwords.2, show 256 = 2 ^ 8 from rfl, Nat.testBit_mod_two_pow,
      show 7 - t % 8 = 15 - t % 16 by omega, decide_eq_true (by omega : 15 - t % 16 < 8), Bool.true_and]

/-- The bit at the top of the register. -/
theorem topBit_eq {x y k : Nat} (hk : k < 8) (h : x % 256 = y * 2 ^ k % 256) :
    decide ((x >>> 7) &&& 1 = 1) = y.testBit (7 - k) := by
  have hbit : x.testBit 7 = (x % 2 ^ 8).testBit 7 := by
    rw [Nat.testBit_mod_two_pow, decide_eq_true (by decide : 7 < 8), Bool.true_and]
  rw [Nat.and_one_is_mod, Nat.shiftRight_eq_div_pow, ← Nat.testBit_eq_decide_div_mod_eq, hbit,
    show (2 : Nat) ^ 8 = 256 from rfl, h, show 256 = 2 ^ 8 from rfl, Nat.testBit_mod_two_pow,
    decide_eq_true (by decide : 7 < 8), Bool.true_and, Nat.testBit_mul_two_pow,
    decide_eq_true (by omega : k ≤ 7), Bool.true_and]

/-- The register moves on. -/
theorem moved_eq {x y k : Nat} (h : x % 256 = y * 2 ^ k % 256) :
    (x <<< 1) % 2 ^ 32 % 256 = y * 2 ^ (k + 1) % 256 := by
  have hpow : y * 2 ^ (k + 1) = y * 2 ^ k * 2 := by rw [Nat.pow_succ, Nat.mul_assoc]
  rw [Nat.shiftLeft_eq, Nat.pow_one, hpow]
  omega

/-- The address read command has its thirteenth bit. -/
theorem read_addressed (h : Open s reg 12 .read m) (hroom : Room reg 12) (b : Bool)
    (ha : (reg * 2 + b.toNat) % 1024 = a.val) : Reading (steps s (pulse b)) a 0 m := by
  rw [pulse_addressed h hroom (by decide) b]
  obtain ⟨hcs, -, -, -, hcommand, henabled, hholds⟩ := h
  unfold addressed
  rw [show (taken s b reg 12).command = .read from hcommand]
  dsimp only
  rw [show (taken s b reg 12).inputShiftreg &&& 0x3ff = a.val from (mask_eq _).trans ha]
  exact ⟨hcs, rfl, henabled, hholds, fun _ => ⟨rfl, rfl⟩, fun hne => absurd rfl hne⟩

/-- What a pulse does while words are read. -/
def turned (s : Eeprom) : Eeprom := if s.command = .readDummy then firstBit s else nextBit s

theorem turned_command (s : Eeprom) (h : isReading s.command) : (turned s).command = .readData := by
  unfold turned
  split_ifs with hdummy
  · rfl
  · have hdata := h.resolve_left hdummy
    unfold nextBit
    dsimp only
    split_ifs <;> exact hdata

theorem turned_cs (s : Eeprom) : (turned s).cs = s.cs := by
  unfold turned nextBit
  dsimp only
  split_ifs <;> rfl

theorem readPulse_eq (hcs : s.cs = true) (hclock : s.clock = false) (hk : isReading s.command) (b : Bool) :
    outs s (readPulse b) = [(turned { s with dataIn := b }).dataOut] ∧
      steps s (readPulse b) = { turned { s with dataIn := b } with clock := false } := by
  have hput : writeData s b = { s with dataIn := b } := by
    unfold writeData
    rw [hcs, if_pos rfl]
  have hrise : writeClock { s with dataIn := b } true = { turned { s with dataIn := b } with clock := true } := by
    unfold writeClock turned
    rw [if_pos ⟨hcs, rfl, hclock⟩]
    dsimp only
    obtain hdummy | hdata := hk
    · rw [if_pos hdummy, if_pos hdummy]
    · have hdummy : ¬ s.command = .readDummy := by
        rw [hdata]
        decide
      rw [if_neg hdummy, if_pos hdata, if_neg hdummy]
  have hread : ∀ c : Eeprom, c.cs = true → c.command = .readData → readData c = (c.dataOut, c) := by
    intro c hc hcommand
    unfold readData
    rw [if_pos hc, hcommand]
  have hturned := hread { turned { s with dataIn := b } with clock := true }
    ((turned_cs _).trans hcs) (turned_command _ hk)
  have hfall : ∀ c : Eeprom, writeClock c false = { c with clock := false } := by
    intro c
    unfold writeClock
    rw [if_neg (fun hc => Bool.noConfusion hc.2.1)]
  refine ⟨?_, ?_⟩
  · change [(readData (writeClock (writeData s b) true)).1] = _
    rw [hput, hrise, hturned]
  · change writeClock (readData (writeClock (writeData s b) true)).2 false = _
    rw [hput, hrise, hturned, hfall]

theorem reading_command (h : Reading s a t m) : isReading s.command := by
  by_cases ht : t = 0
  · exact Or.inl (h.first ht).1
  · exact Or.inr (h.next ht).1

/-- The next bit of a read. -/
theorem reading_next (h : Reading s a t m) (b : Bool) :
    outs s (readPulse b) = [wordBit m a t] ∧ Reading (steps s (readPulse b)) a (t + 1) m := by
  obtain ⟨houts, hsteps⟩ := readPulse_eq h.cs h.clock (reading_command h) b
  rw [houts, hsteps]
  unfold turned
  dsimp only
  by_cases ht : t = 0
  · subst ht
    obtain ⟨hcommand, haddr⟩ := h.first rfl
    have hplace : (s.addr <<< 1) = (((a.val + 0 / 16) % 1024) <<< 1) + 0 % 16 / 8 := by
      have ha := a.isLt
      rw [haddr, show (a.val + 0 / 16) % 1024 = a.val by omega]
      rfl
    rw [if_pos hcommand]
    unfold firstBit
    dsimp only
    refine ⟨?_, h.cs, rfl, h.enabled, h.holds, fun hne => absurd hne (by decide), fun _ => ⟨rfl, ?_, rfl, ?_⟩⟩
    · rw [@topBit_eq _ (s.data (s.addr <<< 1)).toNat 0 (by decide) (by rw [Nat.pow_zero, Nat.mul_one]), hplace]
      exact congrArg (fun x => [x]) (byteBit_eq h.holds a 0)
    · rw [haddr]
      have ha := a.isLt
      omega
    · exact @moved_eq _ (s.data (s.addr <<< 1)).toNat 0 (by rw [Nat.pow_zero, Nat.mul_one])
  · obtain ⟨hcommand, haddr, hcount, hreg⟩ := h.next ht
    have hdummy : ¬ s.command = .readDummy := by
      rw [hcommand]
      decide
    have hbit := topBit_eq (by omega : t % 8 < 8) hreg
    have hout : decide ((s.outputShiftreg >>> 7) &&& 1 = 1) = wordBit m a t := by
      rw [hbit, haddr]
      exact byteBit_eq h.holds a t
    have hcount' : (s.outputCount + 1) % 2 ^ 32 = t % 16 + 1 := by
      rw [hcount]
      omega
    rw [if_neg hdummy]
    unfold nextBit
    dsimp only
    rw [hcount']
    split_ifs with h8 h16
    · have hcarry : (a.val + (t + 1) / 16) % 1024 = (a.val + t / 16) % 1024 := by omega
      have hplace : (t + 1) % 16 / 8 = 1 := by omega
      refine ⟨congrArg (fun x => [x]) hout, h.cs, rfl, h.enabled, h.holds, fun hne => absurd hne (Nat.succ_ne_zero t),
        fun _ => ⟨hcommand, haddr.trans hcarry.symm, by dsimp only; omega, ?_⟩⟩
      dsimp only
      rw [hplace, show (t + 1) % 8 = 0 by omega, Nat.pow_zero, Nat.mul_one]
    · have hcarry : (s.addr + 1) &&& (M93C86_SIZE / 2 - 1) = (a.val + (t + 1) / 16) % 1024 := by
        rw [show M93C86_SIZE / 2 - 1 = 0x3ff from rfl, mask_eq, haddr]
        omega
      have hplace : (t + 1) % 16 / 8 = 0 := by omega
      refine ⟨congrArg (fun x => [x]) hout, h.cs, rfl, h.enabled, h.holds, fun hne => absurd hne (Nat.succ_ne_zero t),
        fun _ => ⟨hcommand, hcarry, by dsimp only; omega, ?_⟩⟩
      dsimp only
      rw [hplace, show (t + 1) % 8 = 0 by omega, Nat.pow_zero, Nat.mul_one]
      rfl
    · have hcarry : (a.val + (t + 1) / 16) % 1024 = (a.val + t / 16) % 1024 := by omega
      have hplace : (t + 1) % 16 / 8 = t % 16 / 8 := by omega
      refine ⟨congrArg (fun x => [x]) hout, h.cs, rfl, h.enabled, h.holds, fun hne => absurd hne (Nat.succ_ne_zero t),
        fun _ => ⟨hcommand, haddr.trans hcarry.symm, by dsimp only; omega, ?_⟩⟩
      dsimp only
      rw [hplace, show (t + 1) % 8 = t % 8 + 1 by omega]
      exact moved_eq hreg

theorem reading_run (n : Nat) (bits : Nat → Bool) (h : Reading s a 0 m) :
    outs s ((List.range n).flatMap fun t => readPulse (bits t)) = (List.range n).map (wordBit m a) ∧
      Reading (steps s ((List.range n).flatMap fun t => readPulse (bits t))) a n m := by
  induction n with
  | zero => exact ⟨rfl, h⟩
  | succ n ih =>
    obtain ⟨houts, hreading⟩ := ih
    obtain ⟨hout, hnext⟩ := reading_next hreading (bits n)
    rw [List.range_succ, List.flatMap_append, List.map_append, outs_append, steps_append]
    simp only [List.flatMap_cons, List.flatMap_nil, List.append_nil, List.map_cons, List.map_nil]
    exact ⟨congrArg₂ (· ++ ·) houts hout, hnext⟩

/-! ## Frames -/

/-- Between two frames. -/
structure Idle (s : Eeprom) (m : Memory) : Prop where
  cs : s.cs = false
  clock : s.clock = false
  command : isIdle s.command
  enabled : s.writeEnableStatus = m.enabled
  holds : Holds s.data m.words

theorem writeSelect_rise (hcs : s.cs = false) (hclock : s.clock = false) :
    writeSelect s true = { resetInputShiftreg s with cs := true } := by
  obtain ⟨data, cs, clock, dataIn, dataOut, ireg, icount, oreg, ocount, command, addr, wen⟩ := s
  dsimp only at hcs hclock
  subst hcs hclock
  rfl

/-- What becomes of a command when the chip is no longer selected. -/
def closedCmd : Cmd → Cmd
  | .write | .wral | .eral => .isBusy
  | .read | .readDummy | .readData => .none
  | c => c

theorem writeSelect_fall (hcs : s.cs = true) :
    writeSelect s false = { s with cs := false, command := closedCmd s.command } := by
  obtain ⟨data, cs, clock, dataIn, dataOut, ireg, icount, oreg, ocount, command, addr, wen⟩ := s
  dsimp only at hcs
  subst hcs
  cases command <;> rfl

theorem closedCmd_idle (c : Cmd) : isIdle (closedCmd c) := by
  cases c <;> decide

theorem select_opens (h : Idle s m) : Open (step s (.select true)) 0 0 s.command m := by
  rw [show step s (.select true) = writeSelect s true from rfl, writeSelect_rise h.cs h.clock]
  exact ⟨rfl, h.clock, rfl, rfl, rfl, h.enabled, h.holds⟩

theorem select_closes (h : Done s m) : Idle (step s (.select false)) m := by
  obtain ⟨reg, count, k, hopen, -⟩ := h
  rw [show step s (.select false) = writeSelect s false from rfl, writeSelect_fall hopen.cs]
  exact ⟨rfl, hopen.clock, closedCmd_idle _, hopen.enabled, hopen.holds⟩

/-- A read is over when the chip is no longer selected. -/
theorem select_ends (h : Reading s a t m) : Idle (step s (.select false)) m := by
  rw [show step s (.select false) = writeSelect s false from rfl, writeSelect_fall h.cs]
  exact ⟨rfl, h.clock, closedCmd_idle _, h.enabled, h.holds⟩

/-- Asking whether the chip is busy changes what it will say next. -/
theorem poll_done (h : Done s m) : Done (step s .poll) m := by
  obtain ⟨reg, count, k, hopen, hidle⟩ := h
  change Done (readData s).2 m
  unfold readData
  rw [if_pos hopen.cs, hopen.command]
  obtain ⟨hcs, hclock, hreg, hcount, hcommand, henabled, hholds⟩ := hopen
  cases k with
  | isBusy => exact ⟨reg, count, .isReady, ⟨hcs, hclock, hreg, hcount, rfl, henabled, hholds⟩, by decide⟩
  | isReady => exact ⟨reg, count, .none, ⟨hcs, hclock, hreg, hcount, rfl, henabled, hholds⟩, by decide⟩
  | _ => exact ⟨reg, count, _, ⟨hcs, hclock, hreg, hcount, hcommand, henabled, hholds⟩, hidle⟩

theorem polls_done (n : Nat) (h : Done s m) : Done (steps s (List.replicate n .poll)) m := by
  induction n generalizing s with
  | zero => exact h
  | succ n ih => exact ih (poll_done h)

theorem outs_polls (s : Eeprom) (n : Nat) (rest : List Op) :
    outs s (List.replicate n .poll ++ rest) = outs (steps s (List.replicate n .poll)) rest := by
  induction n generalizing s with
  | zero => rfl
  | succ n ih => exact ih _

/-- The thirteenth bit apart. -/
theorem steps_head (s : Eeprom) (o1 o0 f1 f0 : Bool) (low : Nat) : steps s (pulses (head o1 o0 f1 f0 low)) =
    steps (steps s (pulses (true :: o1 :: o0 :: f1 :: f0 :: bitsOf 7 (low / 2)))) (pulse (low.testBit 0)) := by
  have hsplit : head o1 o0 f1 f0 low = (true :: o1 :: o0 :: f1 :: f0 :: bitsOf 7 (low / 2)) ++ [low.testBit 0] := by
    rw [head, bitsOf_last 7]
    rfl
  rw [hsplit, steps_pulses_append]
  rfl

theorem room_head (o1 o0 f1 f0 : Bool) (low : Nat) :
    Room ((16 + 8 * o1.toNat + 4 * o0.toNat + 2 * f1.toNat + f0.toNat) * 128 + low / 2 % 128) 12 := by
  refine ⟨by decide, ?_⟩
  have h1 := Bool.toNat_le o1
  have h2 := Bool.toNat_le o0
  have h3 := Bool.toNat_le f1
  have h4 := Bool.toNat_le f0
  omega

/-- A command with an address, up to its last bit. -/
theorem address_received {o1 o0 : Bool} (ho : opcodeCmd o1 o0 ≠ .cmd00) (a : Fin 1024) (h : Open s 0 0 k m)
    (hk : ¬ isReading k) :
    Open (steps s (pulses
        (true :: o1 :: o0 :: a.val.testBit 9 :: a.val.testBit 8 :: bitsOf 7 (a.val / 2))))
      ((16 + 8 * o1.toNat + 4 * o0.toNat + 2 * (a.val.testBit 9).toNat + (a.val.testBit 8).toNat) * 128 +
        a.val / 2 % 128) 12 (opcodeCmd o1 o0) m := by
  have h12 := head_received o1 o0 (a.val.testBit 9) (a.val.testBit 8) a h hk
  have hcmd : headCmd o1 o0 (a.val.testBit 9) (a.val.testBit 8) = opcodeCmd o1 o0 := by
    cases o1 <;> cases o0
    · exact absurd rfl ho
    all_goals
      cases a.val.testBit 9 <;> cases a.val.testBit 8 <;> rfl
  have hwen : ¬ opcodeCmd o1 o0 = .wen := by cases o1 <;> cases o0 <;> decide
  unfold headMemory at h12
  rwa [hcmd, if_neg hwen] at h12

/-- The bits of a command that stores. -/
theorem storing_done {c : Command} (hread : ∀ a n f, c ≠ .read a n f) (h : Open s 0 0 k m)
    (hk : ¬ isReading k) : Done (steps s (pulses c.bits)) (m.exec c) := by
  cases c with
  | read addr n ignored => exact absurd rfl (hread addr n ignored)
  | write addr word =>
    have h12 := address_received (by decide : opcodeCmd false true ≠ .cmd00) addr h hk
    have hroom := room_head false true (addr.val.testBit 9) (addr.val.testBit 8) addr
    have h13 := word_addressed h12 hroom (Or.inl rfl) (addr.val.testBit 0)
    have hroom13 := room_succ hroom (by decide) (addr.val.testBit 0)
    rw [register_whole] at h13 hroom13
    rw [Command.bits, steps_pulses_append, steps_head]
    exact written word h13 hroom13 (address_eq false true addr)
  | erase addr =>
    have h12 := address_received (by decide : opcodeCmd true true ≠ .cmd00) addr h hk
    rw [Command.bits, steps_head]
    exact erased h12 (room_head _ _ _ _ _) _ (by rw [register_whole]; exact address_eq true true addr)
  | wral low word =>
    have h12 : Open _ _ 12 .wral m := head_received false false false true low h hk
    have h13 := word_addressed h12 (room_head false false false true low) (Or.inr rfl) (low.testBit 0)
    have hroom13 := room_succ (room_head false false false true low) (by decide) (low.testBit 0)
    rw [Command.bits, steps_pulses_append, steps_head]
    exact written_all low word h13 hroom13
  | eral low =>
    have h12 : Open _ _ 12 .eral m := head_received false false true false low h hk
    rw [Command.bits, steps_head]
    exact erased_all h12 (room_head false false true false low) _ low
  | wen low =>
    have h12 : Open _ _ 12 .wen { m with enabled := true } := head_received false false true true low h hk
    rw [Command.bits, steps_head]
    exact enable_set h12 (room_head false false true true low) _ true rfl
  | wds low =>
    have h12 : Open _ _ 12 .wds m := head_received false false false false low h hk
    rw [Command.bits, steps_head]
    exact enable_set h12 (room_head false false false false low) _ false rfl

theorem reading_begins (n : Nat) (ignored : Nat → Bool) (h : Open s 0 0 k m) (hk : ¬ isReading k) :
    Reading (steps s (pulses (Command.read a n ignored).bits)) a 0 m := by
  have h12 := address_received (by decide : opcodeCmd true false ≠ .cmd00) a h hk
  rw [Command.bits, steps_head]
  exact read_addressed h12 (room_head _ _ _ _ _) _ (by rw [register_whole]; exact address_eq true false a)

/-- A command, from its first bit till the chip is no longer selected. -/
theorem command_spec (c : Command) (h : Open s 0 0 k m) (hk : ¬ isReading k) :
    outs s (pulses c.bits ++ c.reads) = m.answer c ∧
      Idle (step (steps s (pulses c.bits ++ c.reads)) (.select false)) (m.exec c) := by
  rw [outs_append, outs_pulses, List.nil_append, steps_append]
  by_cases hread : ∃ a n f, c = .read a n f
  · obtain ⟨a, n, f, rfl⟩ := hread
    obtain ⟨houts, hreading⟩ := reading_run (16 * n) f (reading_begins n f h hk)
    exact ⟨houts, select_ends hreading⟩
  · have hnone : ∀ a n f, c ≠ .read a n f := fun a n f heq => hread ⟨a, n, f, heq⟩
    have hdone := storing_done hnone h hk
    have hreads : c.reads = [] ∧ m.answer c = [] := by
      cases c with
      | read a n f => exact absurd rfl (hnone a n f)
      | _ => exact ⟨rfl, rfl⟩
    rw [hreads.1, hreads.2]
    exact ⟨rfl, select_closes hdone⟩

theorem pollOps_idle (polls : Option Nat) (h : Idle s m) :
    outs s (pollOps polls) = [] ∧ Idle (steps s (pollOps polls)) m := by
  cases polls with
  | none => exact ⟨rfl, h⟩
  | some n =>
    have hopen : Done (step s (.select true)) m := ⟨_, _, _, select_opens h, h.command⟩
    refine ⟨outs_polls _ n [.select false], ?_⟩
    change Idle (steps (step s (.select true)) (List.replicate n .poll ++ [.select false])) m
    rw [steps_append]
    exact select_closes (polls_done n hopen)

theorem frame_spec (f : Frame) (h : Idle s m) :
    outs s f.ops = m.answer f.command ∧ Idle (steps s f.ops) (m.exec f.command) := by
  have hzeros := zeros_forgotten f.zeros (select_opens h) h.command.2
  obtain ⟨houts, hidle⟩ := command_spec f.command hzeros h.command.2
  obtain ⟨hnone, hpolled⟩ := pollOps_idle f.polls hidle
  unfold Frame.ops
  rw [outs_append s [.select true], outs_append _ (pulses (List.replicate f.zeros false)),
    outs_append _ (pulses f.command.bits ++ f.command.reads), outs_append _ [.select false],
    steps_append s [.select true], steps_append _ (pulses (List.replicate f.zeros false)),
    steps_append _ (pulses f.command.bits ++ f.command.reads), steps_append _ [.select false]]
  refine ⟨?_, hpolled⟩
  rw [outs_pulses]
  exact (congrArg₂ (· ++ ·) houts hnone).trans (List.append_nil _)

/-! ## Sequences of frames -/

/-- What a sequence of commands reads. -/
def Memory.answers (m : Memory) : List Frame → List Bool
  | [] => []
  | f :: fs => m.answer f.command ++ answers (m.exec f.command) fs

theorem frames_spec (fs : List Frame) (h : Idle s m) : outs s (fs.flatMap Frame.ops) = Memory.answers m fs := by
  induction fs generalizing s m with
  | nil => rfl
  | cons f fs ih =>
    obtain ⟨houts, hidle⟩ := frame_spec f h
    rw [List.flatMap_cons, outs_append, houts, ih hidle]
    rfl

end

end Vice.L4.M93c86Memory

import Vice.L3Drive.CmdPartitions
import Vice.L3Drive.CommandMemory

/-!
# What is read back of the memory of a drive (`M-W`, `M-R`)

`M-W` puts its data into the memory, and on a drive of the FD series the job queue may then replace
some of it: the code of a job by its result, the buffer of a job by the sector it reads. All other
bytes come back with `M-R`.

Results:
* `runJobs_ram`: what the job queue leaves as it is.
* `memory_commands`: memory commands access nothing outside the buffer and the memory, and `M-R`
  reads back what `M-W` has written, where no job has replaced it.
-/
namespace Vice.L3.MemoryRoundTrip
open Vice.L2.Geometry Vice.L3.Disk Vice.L3.Drive Vice.L3.PartitionSwitch Vice.L3.CmdPartitions
open Vice.L3.CommandMemory

/-! ## Commands -/

/-- `M-W` with its data, and whatever follows. -/
def mw (addr : UInt16) (data extra : List UInt8) : List UInt8 :=
  [0x4d, 0x2d, 0x57, addr.toUInt8, (addr >>> 8).toUInt8, UInt8.ofNat data.length] ++ data ++ extra

/-- `M-R` of `n` bytes, and whatever follows. -/
def mr (addr : UInt16) (n : Nat) (extra : List UInt8) : List UInt8 :=
  [0x4d, 0x2d, 0x52, addr.toUInt8, (addr >>> 8).toUInt8, UInt8.ofNat n] ++ extra

/-- The memory with the `n` bytes that `M-W` puts there. -/
def storeData (ram : Buf) (addr : Nat) (data : Nat → UInt8) : Nat → Buf
  | 0 => ram
  | n + 1 => Function.update (storeData ram addr data n) ((addr + n) &&& 0x7fff) (data n)

/-- The codes that are replaced by a result. -/
def isJob (x : UInt8) : Bool :=
  x.toNat ∈ [0x80, 0x90, 0xa0, 0xb0, 0xb8, 0x82, 0x86, 0x88, 0x8a, 0x8c, 0x84]

/-- Job `i` of the queue in `ram` replaces the byte at `k`. -/
def JobTakes (ram : Buf) (i k : Nat) : Prop :=
  (k = jobs + i ∧ isJob (ram k) = true) ∨
    (ram (jobs + i) = 0x80 ∧ jobBuffer i ≤ k ∧ k < jobBuffer i + 256)

/-- Writing the data starts a job that replaces the byte at `k`. -/
def Replaced (d : CommandDrive) (addr : Nat) (data : List UInt8) (k : Nat) : Prop :=
  d.isImage = true ∧ isFd d = true ∧ nearJobs addr data.length ∧
    ∃ i < maxjobs, JobTakes (storeData d.ram addr (data.getD · 0) data.length) i k

/-- What `M-W` has written comes back with `M-R`, except for what a job has replaced. -/
def ReadBack (d : CommandDrive) (addr : UInt16) (data extra extra' : List UInt8) : Prop :=
  ∃ e answer e', session d (mw addr data extra) 0 = some ([], e) ∧
    session e (mr addr data.length extra') data.length = some (answer, e') ∧
    answer.length = data.length ∧
    ∀ j < data.length, ¬ Replaced d addr.toNat data ((addr.toNat + j) &&& 0x7fff) →
      answer.getD j 0 = data.getD j 0

section
variable {d e : CommandDrive} {addr length i n k : Nat} {f g : Nat → UInt8} {ram : Buf}
  {s command : List UInt8} {x : UInt8}

/-! ## What strings and commands leave -/

@[simp] theorem storeString_ram (d : CommandDrive) (i : Nat) (s : List UInt8) :
    (d.storeString i s).ram = d.ram := by
  induction s generalizing d i with
  | nil => rfl
  | cons c s ih => exact ih (d.storeBuffer i c) (i + 1)

@[simp] theorem setError_ram (d : CommandDrive) (code track sector : Nat) :
    (vdriveCommandSetError d code track sector).2.ram = d.ram := by
  unfold vdriveCommandSetError
  exact storeString_ram d 0 _

theorem commitData_spec (d : CommandDrive) (addr n : Nat) :
    (commitData d addr n).ram = storeData d.ram addr (fun j => d.buffer (6 + j)) n ∧
      (commitData d addr n).buffer = d.buffer ∧ (commitData d addr n).drive = d.drive ∧
      (commitData d addr n).isImage = d.isImage := by
  induction n with
  | zero => exact ⟨rfl, rfl, rfl, rfl⟩
  | succ n ih =>
    obtain ⟨hram, hbuf, hdrive, himage⟩ := ih
    refine ⟨?_, hbuf, hdrive, himage⟩
    change Function.update (commitData d addr n).ram _ ((commitData d addr n).buffer (6 + n)) = _
    rw [hram, hbuf]
    rfl

theorem moveData_spec (d : CommandDrive) (addr n : Nat) : (moveData d addr n).ram = d.ram ∧
      ∀ j < n, (moveData d addr n).buffer j = d.ram ((addr + j) &&& 0x7fff) := by
  induction n with
  | zero => exact ⟨rfl, fun j hj => absurd hj (Nat.not_lt_zero j)⟩
  | succ n ih =>
    obtain ⟨hram, hbuf⟩ := ih
    refine ⟨hram, ?_⟩
    intro j hj
    change Function.update (moveData d addr n).buffer n _ j = _
    by_cases hat : j = n
    · subst hat
      rw [Function.update_self]
      exact congrFun hram _
    · rw [Function.update_of_ne hat]
      exact hbuf j (by omega)

/-! ## The memory -/

theorem and_eq (n : Nat) : n &&& 0x7fff = n % 0x8000 := Nat.and_two_pow_sub_one_eq_mod n 15

/-- No two bytes of a command go to one place. -/
theorem storeData_at (hn : n ≤ 0x8000) (hi : i < n) : storeData ram addr f n ((addr + i) &&& 0x7fff) = f i := by
  induction n with
  | zero => exact absurd hi (Nat.not_lt_zero i)
  | succ n ih =>
    rw [storeData]
    by_cases hat : i = n
    · rw [hat, Function.update_self]
    · have hne : (addr + i) &&& 0x7fff ≠ (addr + n) &&& 0x7fff := by
        rw [and_eq, and_eq]
        omega
      rw [Function.update_of_ne hne, ih (by omega) (by omega)]

theorem storeData_congr (h : ∀ j < n, f j = g j) : storeData ram addr f n = storeData ram addr g n := by
  induction n with
  | zero => rfl
  | succ n ih =>
    rw [storeData, storeData, ih fun j hj => h j (by omega), h n (Nat.lt_succ_self n)]

/-! ## Jobs -/

theorem readJob_ram (hslot : k ≠ jobs + i) (hbuf : ¬ (jobBuffer i ≤ k ∧ k < jobBuffer i + 256)) :
    (readJob d i).ram k = d.ram k := by
  simp only [readJob, CommandDrive.storeRam, Function.update_of_ne hslot]
  exact if_neg hbuf

theorem writeJob_ram (hslot : k ≠ jobs + i) : (writeJob d i).ram k = d.ram k := by
  unfold writeJob
  split
  · exact Function.update_of_ne hslot _ _
  · exact Function.update_of_ne hslot _ _

/-- A job leaves a byte that it does not take. -/
theorem runJob_ram (h : ¬ JobTakes d.ram i k) : (runJob d i).ram k = d.ram k := by
  obtain ⟨hslot, hbuf⟩ := not_or.mp h
  unfold runJob
  dsimp only
  by_cases hat : k = jobs + i
  · -- the slot itself holds no code that is replaced
    subst hat
    have hno : isJob (d.ram (jobs + i)) = false := by
      simpa using hslot
    generalize hx : (d.loadRam (jobs + i)).1 = x
    have hxr : d.ram (jobs + i) = x := hx
    rw [hxr] at hno
    split
    all_goals first
      | rfl
      | next hcode => simp [isJob, hcode] at hno
  · split
    · next hcode =>
      have hread : d.ram (jobs + i) = 0x80 := UInt8.toNat_inj.mp (hcode.trans rfl)
      exact readJob_ram hat fun hin => hbuf ⟨hread, hin⟩
    · exact writeJob_ram hat
    all_goals first
      | exact Function.update_of_ne hat _ _
      | rfl

/-- No job takes the code of another one. -/
theorem slot_kept (hi : i < n) (hn : n < maxjobs) : ¬ JobTakes ram i (jobs + n) := by
  simp only [maxjobs] at hn
  simp only [JobTakes, jobs, jobBuffer_eq]
  omega

theorem runJobs_ram (h : ∀ i < maxjobs, ¬ JobTakes d.ram i k) : (runJobs d).ram k = d.ram k := by
  have hstep : ∀ n ≤ maxjobs, ∀ k, (∀ i < n, ¬ JobTakes d.ram i k) →
      ((List.range n).foldl runJob d).ram k = d.ram k := by
    intro n
    induction n with
    | zero => exact fun _ _ _ => rfl
    | succ n ih =>
      intro hn k hk
      have hold := ih (by omega) k fun i hi => hk i (by omega)
      have hslot := ih (by omega) (jobs + n) fun i hi => slot_kept hi hn
      rw [List.range_succ, List.foldl_append]
      simp only [List.foldl_cons, List.foldl_nil]
      rw [runJob_ram, hold]
      rw [JobTakes, hold, hslot]
      exact hk n (Nat.lt_succ_self n)
  rw [runJobs]
  exact hstep maxjobs (Nat.le_refl maxjobs) k h

/-! ## Writing -/

theorem addr_eq (addr : UInt16) : addr.toUInt8.toNat + (addr >>> 8).toUInt8.toNat <<< 8 = addr.toNat := by
  have h := addr.toNat_lt
  rw [UInt16.toNat_toUInt8, UInt16.toNat_toUInt8, UInt16.toNat_shiftRight, Nat.shiftLeft_eq]
  simp only [UInt16.reduceToNat, Nat.reduceMod, Nat.shiftRight_eq_div_pow]
  omega

theorem byte_eq (h : n < 256) : (UInt8.ofNat n).toNat = n := by
  rw [UInt8.toNat_ofNat', Nat.mod_eq_of_lt h]

theorem memoryWrite_ram (haddr : addr < 0x8000) (hlen : (d.buffer 5).toNat = n) (hfit : n + 1 ≤ length - 5)
    (hkept : ¬ (d.isImage = true ∧ isFd d = true ∧ nearJobs addr n ∧
      ∃ i < maxjobs, JobTakes (storeData d.ram addr (fun j => d.buffer (6 + j)) n) i k)) :
    (vdriveCommandMemoryWrite d addr length).2.ram k =
      storeData d.ram addr (fun j => d.buffer (6 + j)) n k := by
  obtain ⟨hram, -, hdrive, himage⟩ := commitData_spec (d.loadBuffer 5).2 addr n
  have hload : (d.loadBuffer 5).1.toNat = n := hlen
  unfold vdriveCommandMemoryWrite
  dsimp only
  rw [hload, if_neg (by omega), if_neg (by omega), setError_ram]
  split
  · next hjobs =>
    have hfd : isFd (commitData (d.loadBuffer 5).2 addr n) = isFd d := by
      simp only [isFd, hdrive]
      rfl
    rw [runJobs_ram, hram]
    · rfl
    · intro i hi htakes
      rw [hram] at htakes
      exact hkept ⟨himage ▸ hjobs.1, hfd ▸ hjobs.2.1, hjobs.2.2, i, hi, htakes⟩
  · rw [hram]
    rfl

/-! ## Reading -/

theorem readAnswer_buffer (h : d.bufptr + n ≤ d.length + 1) :
    (readAnswer d n).1 = (List.range n).map fun j => d.buffer (d.bufptr + j) := by
  induction n generalizing d with
  | zero => rfl
  | succ n ih =>
    have hread : vdriveIecRead d = (d.buffer d.bufptr, decide (d.bufptr + 1 > d.length),
        { (d.loadBuffer d.bufptr).2 with bufptr := d.bufptr + 1 }) := by
      unfold vdriveIecRead
      rw [if_neg (by omega)]
      rfl
    have hrest := ih (d := { (d.loadBuffer d.bufptr).2 with bufptr := d.bufptr + 1 })
      (show d.bufptr + 1 + n ≤ d.length + 1 by omega)
    rw [readAnswer, hread, List.range_succ_eq_map, List.map_cons, List.map_map]
    refine List.cons_eq_cons.mpr ⟨rfl, hrest.trans (List.map_congr_left ?_)⟩
    intro j _
    change d.buffer (d.bufptr + 1 + j) = d.buffer (d.bufptr + (j + 1))
    rw [Nat.add_assoc, Nat.add_comm 1 j]

/-- The data stand at the start of the buffer. -/
theorem memoryRead_spec (haddr : addr < 0x8000) (hlen : (d.buffer 5).toNat = n) (hpos : n ≠ 0)
    (hsix : 6 ≤ length) :
    (vdriveCommandMemoryRead d addr length).2.length = n ∧
      ∀ j < n, (vdriveCommandMemoryRead d addr length).2.buffer j = d.ram ((addr + j) &&& 0x7fff) := by
  obtain ⟨-, hbuf⟩ := moveData_spec (d.loadBuffer 5).2 addr n
  have hload : (d.loadBuffer 5).1.toNat = n := hlen
  unfold vdriveCommandMemoryRead
  dsimp only
  have hsel : (if length < 6 then 1 else n) = n := if_neg (by omega)
  rw [hload, if_neg (by omega), hsel, if_neg (by omega), if_neg (by omega), if_neg hpos]
  refine ⟨rfl, ?_⟩
  intro j hj
  change Function.update (moveData (d.loadBuffer 5).2 addr n).buffer n 13 j = _
  rw [Function.update_of_ne (Nat.ne_of_lt hj)]
  exact hbuf j hj

/-! ## Both -/

theorem flush_short (hw : Written d e command) (hr : Ready d) (hc : IsMemory command)
    (hlen : command.length ≤ 128) :
    vdriveIecFlush e = some { (vdriveCommandMemory ((e.loadBuffer 0).2.loadBuffer 1).2
      command.length).2 with bufptr := 0 } := by
  have hptr : e.bufptr = command.length := by
    rw [hw.bufptr]
    omega
  have hlength : e.length ≠ 0 := hw.length ▸ hr.length
  unfold vdriveIecFlush
  rw [hw.reading, if_neg (by decide), if_pos hlength, execute_memory hw hc, hptr,
    if_neg (by simp only [ipMaxCommandLen]; omega)]
  rfl

/-- The parts of a command as `vdrive_command_memory` finds them. -/
theorem memory_parts {addr : UInt16} {type : UInt8} (hsix : 6 ≤ length)
    (hlo : d.buffer 3 = addr.toUInt8) (hhi : d.buffer 4 = (addr >>> 8).toUInt8)
    (htype : d.buffer 2 = type) :
    vdriveCommandMemory d length =
      if type = 0x57 then vdriveCommandMemoryWrite
        (((d.loadBuffer 3).2.loadBuffer 4).2.loadBuffer 2).2 addr.toNat length
      else if type = 0x52 then vdriveCommandMemoryRead
        (((d.loadBuffer 3).2.loadBuffer 4).2.loadBuffer 2).2 addr.toNat length
      else if type = 0x45 then vdriveCommandMemoryExec
        (((d.loadBuffer 3).2.loadBuffer 4).2.loadBuffer 2).2 length
      else vdriveCommandSetError (((d.loadBuffer 3).2.loadBuffer 4).2.loadBuffer 2).2 ipeInval 0 0 := by
  have hlo' : (d.loadBuffer 3).1 = addr.toUInt8 := hlo
  have hhi' : ((d.loadBuffer 3).2.loadBuffer 4).1 = (addr >>> 8).toUInt8 := hhi
  have htype' : (((d.loadBuffer 3).2.loadBuffer 4).2.loadBuffer 2).1 = type := htype
  unfold vdriveCommandMemory
  dsimp only
  rw [if_neg (by omega), hlo', hhi', htype', addr_eq]

theorem flush_mw {addr : UInt16} {data extra : List UInt8} (hr : Ready d) (hd : Inside d)
    (haddr : addr.toNat < 0x8000) (hfit : 6 + data.length + extra.length ≤ 128) :
    ∃ e, vdriveIecFlush ((mw addr data extra).foldl vdriveIecWrite d) = some e ∧ Ready e ∧ Inside e ∧
      ∀ k, ¬ Replaced d addr.toNat data k →
        e.ram k = storeData d.ram addr.toNat (data.getD · 0) data.length k := by
  have hlen : (mw addr data extra).length = 6 + data.length + extra.length := by
    simp [mw]
    omega
  have hc : IsMemory (mw addr data extra) := IsMemory.write _
  have hw : Written d ((mw addr data extra).foldl vdriveIecWrite d) (mw addr data extra) :=
    writes_written hr.reading _ _
  have hpage : ¬ AsksPage (mw addr data extra) := by
    rintro ⟨htype, -, -⟩
    cases htype
  obtain ⟨e, he, hanswering⟩ := flush_memory hr hd hc hpage
  refine ⟨e, he, hanswering.ready, hanswering.inside, ?_⟩
  intro k hk
  generalize (mw addr data extra).foldl vdriveIecWrite d = w at hw he
  have hbuf : ∀ i < 6 + data.length, w.buffer i = (mw addr data extra).getD i 0 := fun i hi =>
    hw.buffer i (by rw [hw.bufptr]; omega)
  have hdata : ∀ j < data.length, w.buffer (6 + j) = data.getD j 0 := by
    intro j hj
    rw [hbuf (6 + j) (by omega), mw, List.getD_append _ _ _ _ (by simp; omega),
      List.getD_append_right _ _ _ _ (by simp)]
    simp
  have hcount : (w.buffer 5).toNat = data.length := by
    rw [hbuf 5 (by omega)]
    exact byte_eq (by omega)
  have hsix : 6 ≤ (mw addr data extra).length := by omega
  have htype : w.buffer 2 = 0x57 := hbuf 2 (by omega)
  have hparts := memory_parts (d := ((w.loadBuffer 0).2.loadBuffer 1).2) hsix (hbuf 3 (by omega))
    (hbuf 4 (by omega)) htype
  rw [if_pos rfl] at hparts
  rw [flush_short hw hr hc (by omega), hparts] at he
  cases he
  have hdrive : isFd w = isFd d := by
    simp only [isFd, hw.drive]
  have hstored : storeData w.ram addr.toNat (fun j => w.buffer (6 + j)) data.length =
      storeData d.ram addr.toNat (data.getD · 0) data.length := by
    rw [hw.ram]
    exact storeData_congr hdata
  refine (memoryWrite_ram (d := (((((w.loadBuffer 0).2.loadBuffer 1).2.loadBuffer 3).2.loadBuffer
    4).2.loadBuffer 2).2) (n := data.length) haddr hcount (by omega) ?_).trans (congrFun hstored k)
  rintro ⟨himage, hfd, hnear, htakes⟩
  refine hk ⟨hw.isImage ▸ himage, hdrive ▸ hfd, hnear, ?_⟩
  rwa [← hstored]

theorem flush_mr {addr : UInt16} {extra : List UInt8} (hr : Ready d)
    (haddr : addr.toNat < 0x8000) (hpos : n ≠ 0) (hn : n < 256) (hfit : 6 + extra.length ≤ 128) :
    ∃ e, vdriveIecFlush ((mr addr n extra).foldl vdriveIecWrite d) = some e ∧ e.bufptr = 0 ∧
      e.length = n ∧ ∀ j < n, e.buffer j = d.ram ((addr.toNat + j) &&& 0x7fff) := by
  have hlen : (mr addr n extra).length = 6 + extra.length := by
    simp [mr]
    omega
  have hc : IsMemory (mr addr n extra) := IsMemory.read _
  have hw : Written d ((mr addr n extra).foldl vdriveIecWrite d) (mr addr n extra) :=
    writes_written hr.reading _ _
  generalize (mr addr n extra).foldl vdriveIecWrite d = w at hw
  have hbuf : ∀ i < 6, w.buffer i = (mr addr n extra).getD i 0 := fun i hi =>
    hw.buffer i (by rw [hw.bufptr]; omega)
  have hcount : (w.buffer 5).toNat = n := by
    rw [hbuf 5 (by omega)]
    exact byte_eq hn
  refine ⟨_, flush_short hw hr hc (by omega), rfl, ?_⟩
  have hsix : 6 ≤ (mr addr n extra).length := by omega
  have htype : w.buffer 2 = 0x52 := hbuf 2 (by omega)
  have hparts := memory_parts (d := ((w.loadBuffer 0).2.loadBuffer 1).2) hsix (hbuf 3 (by omega))
    (hbuf 4 (by omega)) htype
  rw [if_neg (by decide), if_pos rfl] at hparts
  rw [hparts]
  have hread := memoryRead_spec (d := (((((w.loadBuffer 0).2.loadBuffer 1).2.loadBuffer 3).2.loadBuffer
    4).2.loadBuffer 2).2) haddr hcount hpos hsix
  refine ⟨hread.1, ?_⟩
  intro j hj
  refine (hread.2 j hj).trans ?_
  exact congrFun hw.ram _

theorem readBack {addr : UInt16} {data extra extra' : List UInt8} (hr : Ready d) (hd : Inside d)
    (haddr : addr.toNat < 0x8000) (hpos : data ≠ []) (hfit : 6 + data.length + extra.length ≤ 128)
    (hfit' : 6 + extra'.length ≤ 128) : ReadBack d addr data extra extra' := by
  have hne : data.length ≠ 0 := fun hzero => hpos (List.length_eq_zero_iff.mp hzero)
  obtain ⟨e, he, hre, -, hram⟩ := flush_mw hr hd haddr hfit
  obtain ⟨e', he', hptr, hlen, hbuf⟩ := flush_mr (n := data.length) hre haddr hne (by omega) hfit'
  refine ⟨e, (readAnswer e' data.length).1, (readAnswer e' data.length).2, ?_, ?_, ?_, ?_⟩
  · rw [session, he]
    rfl
  · rw [session, he']
    rfl
  · rw [readAnswer_buffer (by omega)]
    simp
  · intro j hj hkept
    rw [readAnswer_buffer (by omega)]
    simp only [hptr, Nat.zero_add]
    rw [List.getD_eq_getElem _ _ (by simpa using hj)]
    simp only [List.getElem_map, List.getElem_range]
    rw [hbuf j hj, hram _ hkept, storeData_at (by omega) hj]

/-- Memory commands are safe, and what `M-W` has written comes back. -/
theorem memory_commands (hr : Ready d) (hd : Inside d) : (∀ command n, IsMemory command → ¬ AsksPage command →
      ∃ answer e, session d command n = some (answer, e) ∧ Inside e ∧ Ready e) ∧
    ∀ addr data extra extra', addr.toNat < 0x8000 → data ≠ [] →
      6 + data.length + extra.length ≤ 128 → 6 + extra'.length ≤ 128 →
        ReadBack d addr data extra extra' := by
  constructor
  · intro command n hc hpage
    exact session_inside hr hd hc hpage n
  · intro addr data extra extra' haddr hpos hfit hfit'
    exact readBack hr hd haddr hpos hfit hfit'

end

/-! ## A drive of the FD series -/

/-- A drive with a D1M image, as it is switched on. -/
def fdDrive : CommandDrive where
  drive := { nativeDrive 0 with
    vdrive := { (nativeDrive 0).vdrive with
      image := { (nativeDrive 0).vdrive.image with shape := ⟨.d1m, 0, 0⟩ } } }
  isImage := true
  readOnly := false
  ram := fun _ => 0
  buffer := fun _ => 0
  bufptr := 0
  length := (errorMessage 73 0 0).length - 1
  reading := true
  accesses := []

theorem memory_commands_fd : ReadBack fdDrive 0x300 [0x84] [] [0x0d] :=
  (memory_commands ⟨rfl, by decide⟩ fun _ ha => absurd ha List.not_mem_nil).2 0x300 [0x84] [] [0x0d]
    (by decide) (by decide) (by decide) (by decide)

/-- Job 0x84 in the first slot of the queue is done when it is read back. -/
theorem memory_not_always : ¬ ∀ d addr data extra extra', Ready d → Inside d → addr.toNat < 0x8000 → data ≠ [] →
      6 + data.length + extra.length ≤ 128 → 6 + extra'.length ≤ 128 →
      ∃ e answer e', session d (mw addr data extra) 0 = some ([], e) ∧
        session e (mr addr data.length extra') data.length = some (answer, e') ∧ answer = data := by
  intro h
  obtain ⟨e, answer, e', he, he', hanswer⟩ := h fdDrive 0x28 [0x84] [] [] ⟨rfl, by decide⟩
    (fun _ ha => absurd ha List.not_mem_nil) (by decide) (by decide) (by decide) (by decide)
  have hrun : ((session fdDrive (mw 0x28 [0x84] []) 0).bind fun r =>
      (session r.2 (mr 0x28 1 []) 1).map Prod.fst) = some [1] := by decide +kernel
  have hread : session e (mr 0x28 1 []) 1 = some (answer, e') := he'
  simp [he, hread, hanswer] at hrun

end Vice.L3.MemoryRoundTrip

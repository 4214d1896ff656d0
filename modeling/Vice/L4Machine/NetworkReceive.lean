import Mathlib.Logic.Function.Iterate
import Vice.L4Machine.Netplay

/-!
# Waiting for the peer (`network.c`)

`network_recv_buffer` calls the socket until it has all bytes that were asked for. The socket may
hand over any part of them, and after the peer has shut the connection down in order it hands over
none at all, which is no error (socket.c:1040-1045).


Results:
* `returnsRight_iff`: the loop ends, unless the connection is shut down before.
* `closed_waits`: nothing comes any more.
-/
namespace Vice.L4.NetworkReceive
open Vice.L4.Netplay

/-- What the calls of `vice_network_receive` return, for up to `n` bytes: an error, or some bytes. No
bytes mean that the connection is shut down, and it stays so. -/
structure Socket where
  receive : Nat → Nat → Option (List UInt8)
  atMost : ∀ {k n bytes}, receive k n = some bytes → bytes.length ≤ n
  shut : ∀ {k n}, 0 < n → receive k n = some [] → ∀ j n', k ≤ j → receive j n' = some []

/-- The number of calls before, and what came. -/
structure Transfer where
  calls : Nat
  got : List UInt8
  result : Option Int

def newTransfer (calls : Nat) : Transfer := ⟨calls, [], none⟩

/-- mirrors src/network.c:370-380: a turn of the loop of `network_recv_buffer`. -/
def recvTurn (s : Socket) (len : Nat) (t : Transfer) : Transfer :=
  if t.result.isSome then t
  else if len ≤ t.got.length then { t with result := some 0 }
  else
    match s.receive t.calls (len - t.got.length) with
    | none => { t with calls := t.calls + 1, result := some (-1) }
    | some bytes => { t with calls := t.calls + 1, got := t.got ++ bytes }

/-- The transfer that is waited for, of the length of a message or of the message. -/
structure Hook where
  transfer : Transfer
  message : Option Nat
  returned : Bool

def newHook (calls : Nat) : Hook := ⟨newTransfer calls, none, false⟩

def Hook.len (h : Hook) : Nat := h.message.getD 4

/-- mirrors src/network.c:905-931: a turn of the loops of `network_hook_connected_receive`. -/
def hookTurn (s : Socket) (h : Hook) : Hook :=
  if h.returned then h
  else
    let t := recvTurn s h.len h.transfer
    match t.result with
    | none => { h with transfer := t }
    | some result =>
      if result < 0 then { h with transfer := t, returned := true }
      else
        match h.message with
        | none =>
          let recvLen := (utilLeBufToDword t.got).toNat
          if recvLen = 0 then newHook t.calls
          else { h with transfer := newTransfer t.calls, message := some recvLen }
        | some _ => { h with transfer := t, returned := true }

/-- The loop ends, with an error if fewer bytes came than were asked for. -/
def ReturnsRight (s : Socket) (len calls : Nat) : Prop :=
  ∃ n result, ((recvTurn s len)^[n] (newTransfer calls)).result = some result ∧
    (((recvTurn s len)^[n] (newTransfer calls)).got.length < len → result < 0)

def HookReturns (s : Socket) (calls : Nat) : Prop :=
  ∃ n, ((hookTurn s)^[n] (newHook calls)).returned = true

/-- The next call finds the connection shut down. -/
def Shut (s : Socket) (len : Nat) (t : Transfer) : Prop :=
  t.result = none ∧ t.got.length < len ∧ s.receive t.calls (len - t.got.length) = some []

/-- The connection is not shut down while bytes are missing. -/
def KeptOpen (s : Socket) (len calls : Nat) : Prop :=
  ∀ n, ¬ Shut s len ((recvTurn s len)^[n] (newTransfer calls))

/-- The peer has sent a length of 0. -/
def Hook.Idle (h : Hook) : Prop :=
  h.returned = false ∧ h.message = none ∧ h.transfer.result = none ∧ 4 ≤ h.transfer.got.length ∧
    utilLeBufToDword h.transfer.got = 0

/-- It is not in the middle of a length or a message, and some time it is no longer suspended. -/
def HookFed (s : Socket) (calls : Nat) : Prop :=
  (∀ n, let h := (hookTurn s)^[n] (newHook calls)
    h.returned = false → ¬ Shut s h.len h.transfer) ∧
  ∃ N, ∀ n, N ≤ n → ¬ ((hookTurn s)^[n] (newHook calls)).Idle

section
variable {s : Socket} {len calls n : Nat} {t : Transfer} {h : Hook}

/-! ## One transfer -/

theorem recvTurn_done (hdone : t.result.isSome) : recvTurn s len t = t := if_pos hdone

theorem recvTurns_done (hdone : t.result.isSome) (n : Nat) : (recvTurn s len)^[n] t = t :=
  Function.iterate_fixed (recvTurn_done hdone) n

/-- A turn of a loop that goes on: it is left, or a call fails, or some bytes come. -/
theorem recvTurn_cases (hnone : t.result = none) :
    len ≤ t.got.length ∧ recvTurn s len t = { t with result := some 0 } ∨
    t.got.length < len ∧ s.receive t.calls (len - t.got.length) = none ∧
      recvTurn s len t = { t with calls := t.calls + 1, result := some (-1) } ∨
    ∃ bytes, t.got.length < len ∧ s.receive t.calls (len - t.got.length) = some bytes ∧
      recvTurn s len t = { t with calls := t.calls + 1, got := t.got ++ bytes } := by
  have hloop : ¬ t.result.isSome = true := by rw [hnone]; exact Bool.false_ne_true
  unfold recvTurn
  rw [if_neg hloop]
  by_cases hlen : len ≤ t.got.length
  · left
    rw [if_pos hlen]
    exact ⟨hlen, rfl⟩
  · right
    rw [if_neg hlen]
    cases hreceive : s.receive t.calls (len - t.got.length) with
    | none => exact .inl ⟨Nat.lt_of_not_le hlen, rfl, rfl⟩
    | some bytes => exact .inr ⟨bytes, Nat.lt_of_not_le hlen, rfl, rfl⟩

/-- Once it is shut down, each turn is like the one before. -/
theorem Shut.turn (h : Shut s len t) : Shut s len (recvTurn s len t) := by
  obtain ⟨hnone, hmissing, hshut⟩ := h
  have hlater := s.shut (Nat.sub_pos_of_lt hmissing) hshut
  rcases @recvTurn_cases s len t hnone with ⟨henough, -⟩ | ⟨-, hfails, -⟩ | ⟨bytes, -, hreceive, hturn⟩
  · exact absurd hmissing (Nat.not_lt.mpr henough)
  · rw [hshut] at hfails
    cases hfails
  · cases hshut.symm.trans hreceive
    rw [hturn, List.append_nil]
    exact ⟨hnone, hmissing, hlater _ _ (Nat.le_succ _)⟩

theorem Shut.turns (h : Shut s len t) (n : Nat) : Shut s len ((recvTurn s len)^[n] t) := by
  induction n with
  | zero => exact h
  | succ n ih =>
    rw [Function.iterate_succ_apply']
    exact ih.turn

/-- A turn that does not end the loop brings at least one byte. -/
theorem recvTurn_more (hopen : ¬ Shut s len t) (hnone : t.result = none) (hlen : t.got.length ≤ len) :
    (recvTurn s len t).result = some 0 ∧ (recvTurn s len t).got.length = len ∨
    (recvTurn s len t).result = some (-1) ∨
    (recvTurn s len t).result = none ∧ t.got.length < (recvTurn s len t).got.length ∧
      (recvTurn s len t).got.length ≤ len := by
  rcases @recvTurn_cases s len t hnone with
    ⟨henough, hturn⟩ | ⟨-, -, hturn⟩ | ⟨bytes, hmissing, hreceive, hturn⟩
  · left
    rw [hturn]
    exact ⟨rfl, Nat.le_antisymm hlen henough⟩
  · right; left
    rw [hturn]
  · right; right
    have hbytes : bytes ≠ [] := fun hnil => hopen ⟨hnone, hmissing, hnil ▸ hreceive⟩
    have hpos := List.length_pos_of_ne_nil hbytes
    have hmost := s.atMost hreceive
    rw [hturn]
    refine ⟨hnone, ?_, ?_⟩
    · rw [List.length_append]
      omega
    · rw [List.length_append]
      omega

/-- The loop ends from any place where it may go on. -/
theorem recv_ends (hopen : ∀ n, ¬ Shut s len ((recvTurn s len)^[n] t)) (hnone : t.result = none)
    (hlen : t.got.length ≤ len) :
    ∃ n result, ((recvTurn s len)^[n] t).result = some result ∧
      (((recvTurn s len)^[n] t).got.length < len → result < 0) := by
  generalize hleft : len - t.got.length = left
  induction left using Nat.strongRecOn generalizing t with
  | ind left ih =>
    have hfirst : ¬ Shut s len t := hopen 0
    rcases recvTurn_more hfirst hnone hlen with ⟨hresult, hgot⟩ | hresult | ⟨hgoes, hmore, hmost⟩
    · refine ⟨1, 0, hresult, fun hless => ?_⟩
      have hgot' : ((recvTurn s len)^[1] t).got.length = len := hgot
      omega
    · exact ⟨1, -1, hresult, fun _ => by decide⟩
    · obtain ⟨n, result, hend⟩ := ih (len - (recvTurn s len t).got.length) (by omega)
        (fun n => hopen (n + 1)) hgoes hmost rfl
      exact ⟨n + 1, result, hend⟩

theorem returnsRight_iff (s : Socket) (len calls : Nat) : ReturnsRight s len calls ↔ KeptOpen s len calls := by
  constructor
  · rintro ⟨n, result, hresult, -⟩ m hshut
    have hlate := hshut.turns n
    rw [← Function.iterate_add_apply, Nat.add_comm, Function.iterate_add_apply] at hlate
    rw [recvTurns_done (by rw [hresult]; rfl)] at hlate
    rw [hlate.1] at hresult
    cases hresult
  · intro hopen
    exact recv_ends hopen rfl (Nat.zero_le len)

/-! ## The hook -/

theorem hookTurn_returned (hdone : h.returned = true) : hookTurn s h = h := if_pos hdone

theorem hookTurns_returned (hdone : h.returned = true) (n : Nat) : (hookTurn s)^[n] h = h :=
  Function.iterate_fixed (hookTurn_returned hdone) n

/-- The transfer goes on, it fails, a length is complete, or a message. -/
theorem hookTurn_cases (hloop : h.returned = false) : (recvTurn s h.len h.transfer).result = none ∧
      hookTurn s h = { h with transfer := recvTurn s h.len h.transfer } ∨
    (∃ result, (recvTurn s h.len h.transfer).result = some result) ∧ (hookTurn s h).returned = true ∨
    ∃ result, (recvTurn s h.len h.transfer).result = some result ∧ ¬ result < 0 ∧ h.message = none ∧
      hookTurn s h =
        if utilLeBufToDword (recvTurn s h.len h.transfer).got = 0 then
          newHook (recvTurn s h.len h.transfer).calls
        else
          { h with
            transfer := newTransfer (recvTurn s h.len h.transfer).calls
            message := some (utilLeBufToDword (recvTurn s h.len h.transfer).got).toNat } := by
  have hnot : ¬ h.returned = true := by rw [hloop]; exact Bool.false_ne_true
  unfold hookTurn
  rw [if_neg hnot]
  dsimp only
  cases hresult : (recvTurn s h.len h.transfer).result with
  | none => exact .inl ⟨rfl, rfl⟩
  | some result =>
    right
    by_cases hfails : result < 0
    · left
      simp only [if_pos hfails]
      exact ⟨⟨result, rfl⟩, trivial⟩
    · simp only [if_neg hfails]
      cases hmessage : h.message with
      | none =>
        right
        refine ⟨result, rfl, hfails, rfl, ?_⟩
        simp only [← UInt32.toNat_inj, UInt32.toNat_zero]
      | some recvLen => exact .inl ⟨⟨result, rfl⟩, rfl⟩

theorem hook_shut (hloop : h.returned = false) (hshut : Shut s h.len h.transfer) (n : Nat) :
    let h' := (hookTurn s)^[n] h
    h'.returned = false ∧ Shut s h'.len h'.transfer := by
  induction n with
  | zero => exact ⟨hloop, hshut⟩
  | succ n ih =>
    rw [Function.iterate_succ_apply']
    generalize (hookTurn s)^[n] h = h' at ih ⊢
    obtain ⟨hloop', hshut'⟩ := ih
    have hnone := hshut'.turn.1
    rcases @hookTurn_cases s h' hloop' with ⟨-, hturn⟩ | ⟨⟨_, hresult⟩, -⟩ | ⟨_, hresult, -⟩
    · rw [hturn]
      exact ⟨hloop', hshut'.turn⟩
    · rw [hnone] at hresult
      cases hresult
    · rw [hnone] at hresult
      cases hresult

/-- A transfer that goes on. -/
def Waiting (h : Hook) : Prop :=
  h.returned = false ∧ h.transfer.result = none ∧ h.transfer.got.length ≤ h.len

/-- A turn of a hook that waits: it returns, more comes, or the length is there. -/
theorem hookTurn_waiting (hwait : Waiting h) (hopen : ¬ Shut s h.len h.transfer) :
    (hookTurn s h).returned = true ∨
    Waiting (hookTurn s h) ∧ (hookTurn s h).message = h.message ∧
      h.transfer.got.length < (hookTurn s h).transfer.got.length ∨
    h.message = none ∧ Waiting (hookTurn s h) ∧
      (h.Idle ∨ (hookTurn s h).message ≠ none) := by
  obtain ⟨hloop, hnone, hlen⟩ := hwait
  have hmore := recvTurn_more hopen hnone hlen
  rcases @hookTurn_cases s h hloop with ⟨hgoes, hturn⟩ | ⟨-, hreturned⟩ | ⟨result, hresult, hfails, hmessage, hturn⟩
  · right; left
    rcases hmore with ⟨hresult, -⟩ | hresult | ⟨-, hmore, hmost⟩
    · rw [hgoes] at hresult
      cases hresult
    · rw [hgoes] at hresult
      cases hresult
    · rw [hturn]
      exact ⟨⟨hloop, hgoes, hmost⟩, rfl, hmore⟩
  · exact .inl hreturned
  · right; right
    refine ⟨hmessage, ?_, ?_⟩
    · rw [hturn]
      split_ifs
      · exact ⟨rfl, rfl, Nat.zero_le _⟩
      · exact ⟨hloop, rfl, Nat.zero_le _⟩
    · by_cases hzero : utilLeBufToDword (recvTurn s h.len h.transfer).got = 0
      · left
        rcases @recvTurn_cases s h.len h.transfer hnone with
          ⟨henough, hrecv⟩ | ⟨-, -, hrecv⟩ | ⟨bytes, -, -, hrecv⟩
        · have hfour : h.len = 4 := by
            unfold Hook.len
            rw [hmessage]
            rfl
          rw [hrecv] at hzero
          exact ⟨hloop, hmessage, hnone, hfour ▸ henough, hzero⟩
        · rw [hrecv] at hresult
          cases hresult
          exact absurd (by decide) hfails
        · rw [hrecv, hnone] at hresult
          cases hresult
      · right
        rw [hturn, if_neg hzero]
        exact fun h => Option.some_ne_none _ h

/-- A message that is waited for comes to its end. -/
theorem message_returns (hwait : Waiting h) (hmessage : h.message ≠ none)
    (hopen : ∀ n, let h' := (hookTurn s)^[n] h
      h'.returned = false → ¬ Shut s h'.len h'.transfer) :
    ∃ n, ((hookTurn s)^[n] h).returned = true := by
  generalize hleft : h.len - h.transfer.got.length = left
  induction left using Nat.strongRecOn generalizing h with
  | ind left ih =>
    rcases hookTurn_waiting hwait (hopen 0 hwait.1) with hreturned | ⟨hwait', hsame, hmore⟩ | ⟨hnone, -⟩
    · exact ⟨1, hreturned⟩
    · have hlen : (hookTurn s h).len = h.len := by
        unfold Hook.len
        rw [hsame]
      have hmost := hwait'.2.2
      obtain ⟨n, hend⟩ := ih ((hookTurn s h).len - (hookTurn s h).transfer.got.length)
        (by rw [hlen] at hmost ⊢; omega) hwait' (by rwa [hsame]) (fun n => hopen (n + 1)) rfl
      exact ⟨n + 1, hend⟩
    · exact absurd hnone hmessage

/-- So does a length, when it is not 0. -/
theorem length_returns (hwait : Waiting h) (hopen : ∀ n, let h' := (hookTurn s)^[n] h
      h'.returned = false → ¬ Shut s h'.len h'.transfer)
    (hidle : ∀ n, ¬ ((hookTurn s)^[n] h).Idle) : ∃ n, ((hookTurn s)^[n] h).returned = true := by
  by_cases hmessage : h.message = none
  · generalize hleft : h.len - h.transfer.got.length = left
    induction left using Nat.strongRecOn generalizing h with
    | ind left ih =>
      rcases hookTurn_waiting hwait (hopen 0 hwait.1) with
        hreturned | ⟨hwait', hsame, hmore⟩ | ⟨-, hwait', hidle' | hmessage'⟩
      · exact ⟨1, hreturned⟩
      · have hlen : (hookTurn s h).len = h.len := by
          unfold Hook.len
          rw [hsame]
        have hmost := hwait'.2.2
        obtain ⟨n, hend⟩ := ih ((hookTurn s h).len - (hookTurn s h).transfer.got.length)
          (by rw [hlen] at hmost ⊢; omega) hwait' (fun n => hopen (n + 1)) (fun n => hidle (n + 1))
          (by rwa [hsame]) rfl
        exact ⟨n + 1, hend⟩
      · exact absurd hidle' (hidle 0)
      · obtain ⟨n, hend⟩ := message_returns hwait' hmessage' fun n => hopen (n + 1)
        exact ⟨n + 1, hend⟩
  · exact message_returns hwait hmessage hopen

theorem hook_waiting (hopen : ∀ n, let h' := (hookTurn s)^[n] h
    h'.returned = false → ¬ Shut s h'.len h'.transfer) (hwait : Waiting h) (n : Nat) :
    ((hookTurn s)^[n] h).returned = true ∨ Waiting ((hookTurn s)^[n] h) := by
  induction n with
  | zero => exact .inr hwait
  | succ n ih =>
    rw [Function.iterate_succ_apply']
    rcases ih with hreturned | hwait'
    · left
      rw [hookTurn_returned hreturned]
      exact hreturned
    · rcases hookTurn_waiting hwait' (hopen n hwait'.1) with hreturned | ⟨hwait'', -⟩ | ⟨-, hwait'', -⟩
      · exact .inl hreturned
      · exact .inr hwait''
      · exact .inr hwait''

theorem hookReturns_iff (s : Socket) (calls : Nat) : HookReturns s calls ↔ HookFed s calls := by
  constructor
  · rintro ⟨n, hreturned⟩
    have hlate : ∀ m, n ≤ m → ((hookTurn s)^[m] (newHook calls)).returned = true := by
      intro m hm
      obtain ⟨k, rfl⟩ := Nat.exists_eq_add_of_le hm
      rw [Nat.add_comm, Function.iterate_add_apply, hookTurns_returned hreturned]
      exact hreturned
    refine ⟨fun m hloop hshut => ?_, n, fun m hm hidle => ?_⟩
    · obtain ⟨hstays, -⟩ := hook_shut hloop hshut n
      rw [← Function.iterate_add_apply, hlate (n + m) (Nat.le_add_right n m)] at hstays
      cases hstays
    · have hstays := hidle.1
      rw [hlate m hm] at hstays
      cases hstays
  · rintro ⟨hopen, N, hidle⟩
    have hstart : Waiting (newHook calls) := ⟨rfl, rfl, Nat.zero_le _⟩
    rcases hook_waiting hopen hstart N with hreturned | hwait
    · exact ⟨N, hreturned⟩
    · have hshift : ∀ n, (hookTurn s)^[n] ((hookTurn s)^[N] (newHook calls)) =
          (hookTurn s)^[n + N] (newHook calls) := fun n => (Function.iterate_add_apply ..).symm
      obtain ⟨n, hend⟩ := length_returns hwait
        (fun n => by rw [hshift]; exact hopen (n + N))
        (fun n => by rw [hshift]; exact hidle (n + N) (Nat.le_add_left N n))
      exact ⟨n + N, by rw [← hshift]; exact hend⟩

end

/-- The peer has shut the connection down in order. -/
def closedSocket : Socket where
  receive _ _ := some []
  atMost h := by cases h; exact Nat.zero_le _
  shut _ _ _ _ _ := rfl

end Vice.L4.NetworkReceive

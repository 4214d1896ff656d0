import Mathlib.Data.List.Basic

/-!
# Byte files

A file with a position, and what writing at that position and reading from it does. `Writes w bs`
says that the writer `w` puts `bs` at the position, `Reads rd bs a` that the reader `rd` takes `bs`
for `a`, and `Takes rd n` that it takes `n` bytes of whatever is there; all of them compose.

Results:
* `fwrite_fwrite`: two writes in a row are one.
* `heldAt_overwrite`, `HeldAt.overwrite`: what stands at a place of a file.
-/
namespace Vice.L0.ByteFile

structure File where
  bytes : List UInt8
  pos : Nat
  deriving DecidableEq, Repr

/-- Writing past the end fills the gap with zeros. -/
def overwrite (bytes : List UInt8) (pos : Nat) (data : List UInt8) : List UInt8 :=
  bytes.take pos ++ List.replicate (pos - bytes.length) 0 ++ data ++ bytes.drop (pos + data.length)

def fwrite (f : File) (data : List UInt8) : File :=
  ⟨overwrite f.bytes f.pos data, f.pos + data.length⟩

def fputc (f : File) (c : UInt8) : File := fwrite f [c]

def fgetc (f : File) : Option (UInt8 × File) :=
  f.bytes[f.pos]?.map fun c => (c, { f with pos := f.pos + 1 })

/-- All of the bytes or none. -/
def fread (f : File) (n : Nat) : Option (List UInt8 × File) :=
  if f.pos + n ≤ f.bytes.length then
    some ((f.bytes.drop f.pos).take n, { f with pos := f.pos + n })
  else none

def fseek (f : File) (pos : Nat) : File := { f with pos := pos }

section
variable {f : File} {a b bs bytes old data rest : List UInt8} {c : UInt8} {i n pos : Nat}

/-! ## Writing -/

theorem overwrite_inside (h : a.length = n) (hlen : old.length = data.length) :
    overwrite (a ++ old ++ b) n data = a ++ data ++ b := by
  subst h
  have hpad : a.length - (a ++ old ++ b).length = 0 := by
    simp only [List.length_append]
    omega
  have htake : (a ++ old ++ b).take a.length = a := by rw [List.append_assoc, List.take_left]
  have hdrop : (a ++ old ++ b).drop (a.length + data.length) = b := by
    rw [← hlen, ← List.length_append, List.drop_left]
  rw [overwrite, hpad, htake, hdrop, List.replicate_zero, List.append_nil]

theorem overwrite_end (bytes data : List UInt8) : overwrite bytes bytes.length data = bytes ++ data := by
  rw [overwrite, List.take_length, Nat.sub_self, List.replicate_zero, List.append_nil,
    List.drop_eq_nil_of_le (Nat.le_add_right _ _), List.append_nil]

theorem fwrite_nil (h : f.pos ≤ f.bytes.length) : fwrite f [] = f := by
  obtain ⟨bytes, pos⟩ := f
  rw [fwrite, overwrite, Nat.sub_eq_zero_of_le h, List.replicate_zero, List.append_nil,
    List.append_nil, List.length_nil, Nat.add_zero, List.take_append_drop]

theorem fwrite_inside (h : f.pos ≤ f.bytes.length) (data : List UInt8) :
    (fwrite f data).pos ≤ (fwrite f data).bytes.length := by
  simp only [fwrite, overwrite, List.length_append, List.length_take, List.length_replicate]
  omega

theorem fwrite_fwrite (h : f.pos ≤ f.bytes.length) (a b : List UInt8) :
    fwrite (fwrite f a) b = fwrite f (a ++ b) := by
  obtain ⟨bytes, pos⟩ := f
  obtain ⟨l, r, rfl, rfl⟩ : ∃ l r, bytes = l ++ r ∧ pos = l.length :=
    ⟨bytes.take pos, bytes.drop pos, (List.take_append_drop _ _).symm, by
      rw [List.length_take, Nat.min_eq_left h]⟩
  have hpre : ∀ data : List UInt8, overwrite (l ++ r) l.length data =
      l ++ data ++ r.drop data.length := fun data => by
    rw [overwrite, List.take_left, Nat.sub_eq_zero_of_le h, List.replicate_zero, List.append_nil,
      List.drop_length_add_append]
  have hmid : overwrite (l ++ a ++ r.drop a.length) (l ++ a).length b =
      l ++ a ++ b ++ r.drop (a.length + b.length) := by
    have hpad : (l ++ a).length - (l ++ a ++ r.drop a.length).length = 0 := by
      have hlen : (l ++ a ++ r.drop a.length).length =
          (l ++ a).length + (r.drop a.length).length := List.length_append
      omega
    rw [overwrite, List.take_left, hpad, List.replicate_zero, List.append_nil,
      List.drop_length_add_append, List.drop_drop]
  simp only [fwrite, hpre, File.mk.injEq]
  have hlen : (a ++ b).length = a.length + b.length := List.length_append
  rw [← List.length_append, hmid, hlen, List.append_assoc l a b, List.length_append, Nat.add_assoc]
  exact ⟨rfl, rfl⟩

/-- The writer puts `bs` at the position of the file. -/
def Writes (w : File → File) (bs : List UInt8) : Prop :=
  ∀ f, f.pos ≤ f.bytes.length → w f = fwrite f bs

theorem writes_fputc (c : UInt8) : Writes (fputc · c) [c] := fun _ _ => rfl

theorem Writes.comp {w w' : File → File} (h : Writes w a) (h' : Writes w' b) :
    Writes (fun f => w' (w f)) (a ++ b) := by
  intro f hf
  change w' (w f) = _
  rw [h f hf, h' _ (fwrite_inside hf a), fwrite_fwrite hf]

theorem Writes.foldl {α : Type} {w : File → α → File} {enc : α → List UInt8}
    (h : ∀ x, Writes (w · x) (enc x)) (xs : List α) :
    Writes (fun f => xs.foldl w f) (xs.flatMap enc) := by
  induction xs with
  | nil => exact fun f hf => (fwrite_nil hf).symm
  | cons x xs ih =>
    rw [List.flatMap_cons]
    exact (h x).comp ih

/-- At the end of a file. -/
theorem Writes.atEnd {w : File → File} (h : Writes w bs) (bytes : List UInt8) :
    w ⟨bytes, bytes.length⟩ = ⟨bytes ++ bs, (bytes ++ bs).length⟩ := by
  rw [h _ (Nat.le_refl _), fwrite, overwrite_end, List.length_append]

/-! ## What a place holds -/

/-- `data` stands at `pos`. -/
def HeldAt (bytes : List UInt8) (pos : Nat) (data : List UInt8) : Prop :=
  ∀ i < data.length, bytes[pos + i]? = data[i]?

theorem overwrite_new (h1 : pos ≤ i) (h2 : i < pos + data.length) :
    (overwrite bytes pos data)[i]? = data[i - pos]? := by
  have hfront : (bytes.take pos ++ List.replicate (pos - bytes.length) 0).length = pos := by
    rw [List.length_append, List.length_take, List.length_replicate]
    omega
  unfold overwrite
  rw [List.getElem?_append_left (by rw [List.length_append, hfront]; exact h2),
    List.getElem?_append_right (by omega), hfront]

theorem overwrite_old (h : i < bytes.length) (hout : i < pos ∨ pos + data.length ≤ i) :
    (overwrite bytes pos data)[i]? = bytes[i]? := by
  unfold overwrite
  rcases hout with hlt | hge
  · have hin : i < (bytes.take pos).length := by
      rw [List.length_take]
      omega
    rw [List.append_assoc, List.append_assoc, List.getElem?_append_left hin, List.getElem?_take_of_lt hlt]
  · have hfront : (bytes.take pos ++ List.replicate (pos - bytes.length) 0 ++ data).length =
        pos + data.length := by
      simp only [List.length_append, List.length_take, List.length_replicate]
      omega
    rw [List.getElem?_append_right (by omega), hfront, List.getElem?_drop,
      show pos + data.length + (i - (pos + data.length)) = i by omega]

/-- The gap in front of a write behind the end. -/
theorem overwrite_gap (h1 : bytes.length ≤ i) (h2 : i < pos) : (overwrite bytes pos data)[i]? = some 0 := by
  unfold overwrite
  rw [List.append_assoc, List.append_assoc, List.take_of_length_le (by omega),
    List.getElem?_append_right h1, List.getElem?_append_left (by rw [List.length_replicate]; omega),
    List.getElem?_replicate_of_lt (by omega)]

theorem overwrite_length : (overwrite bytes pos data).length = max bytes.length (pos + data.length) := by
  simp only [overwrite, List.length_append, List.length_take, List.length_replicate, List.length_drop]
  omega

theorem heldAt_overwrite : HeldAt (overwrite bytes pos data) pos data := by
  intro i hi
  rw [overwrite_new (by omega) (by omega), Nat.add_sub_cancel_left]

theorem HeldAt.inside (h : HeldAt bytes n data) (hi : i < data.length) : n + i < bytes.length := by
  have hsome := h i hi
  rw [List.getElem?_eq_getElem hi] at hsome
  exact (List.getElem?_eq_some_iff.mp hsome).1

/-- A write somewhere else leaves a place alone. -/
theorem HeldAt.overwrite {other : List UInt8} (h : HeldAt bytes n other)
    (hapart : pos + data.length ≤ n ∨ n + other.length ≤ pos) :
    HeldAt (overwrite bytes pos data) n other := by
  intro i hi
  rw [overwrite_old (h.inside hi) (by omega), h i hi]

/-- What stands there is what is read there. -/
theorem HeldAt.take_drop (h : HeldAt bytes pos data) : (bytes.drop pos).take data.length = data := by
  apply List.ext_getElem?
  intro i
  rw [List.getElem?_take, List.getElem?_drop]
  split
  · rename_i hi
    exact h i hi
  · rename_i hi
    rw [List.getElem?_eq_none (by omega)]

/-! ## Reading -/

/-- The reader takes `bs` for `a`. -/
def Reads {ε α : Type} (rd : StateT File (Except ε) α) (bs : List UInt8) (x : α) : Prop :=
  ∀ f rest, f.bytes.drop f.pos = bs ++ rest → rd f = .ok (x, { f with pos := f.pos + bs.length })

section
variable {ε α β : Type}

theorem drop_after (h : f.bytes.drop f.pos = bs ++ rest) : f.bytes.drop (f.pos + bs.length) = rest := by
  rw [← List.drop_drop, h, List.drop_left]

theorem fgetc_cons (h : f.bytes.drop f.pos = c :: rest) : fgetc f = some (c, { f with pos := f.pos + 1 }) := by
  rw [fgetc, ← Nat.add_zero f.pos, ← List.getElem?_drop, h]
  rfl

theorem fread_append (hne : bs ≠ []) (h : f.bytes.drop f.pos = bs ++ rest) :
    fread f bs.length = some (bs, { f with pos := f.pos + bs.length }) := by
  have hpos := List.length_pos_iff.mpr hne
  have hlen := congrArg List.length h
  rw [List.length_drop, List.length_append] at hlen
  rw [fread, if_pos (by omega), h, List.take_left]

theorem reads_pure (x : α) : Reads (pure x : StateT File (Except ε) α) [] x := fun f _ _ => by
  cases f
  rfl

theorem Reads.bind {rd : StateT File (Except ε) α} {k : α → StateT File (Except ε) β} {x : α}
    {y : β} (h : Reads rd a x) (h' : Reads (k x) b y) : Reads (rd >>= k) (a ++ b) y := by
  intro f rest hf
  rw [List.append_assoc] at hf
  have hnext := h' { f with pos := f.pos + a.length } rest (drop_after hf)
  rw [List.length_append, ← Nat.add_assoc, ← hnext]
  change (rd f >>= fun p => k p.1 p.2) = _
  rw [h f _ hf]
  rfl

theorem Reads.map {rd : StateT File (Except ε) α} {x : α} (h : Reads rd a x) (g : α → β) :
    Reads (g <$> rd) a (g x) := by
  intro f rest hf
  change (rd f >>= fun p => pure (g p.1, p.2)) = _
  rw [h f rest hf]
  rfl

theorem Reads.pair {γ : Type} {rd : StateT File (Except ε) α} {rd' : StateT File (Except ε) β}
    {x : α} {y : β} (g : α → β → γ) (h : Reads rd a x) (h' : Reads rd' b y) :
    Reads (do let u ← rd; let v ← rd'; pure (g u v)) (a ++ b) (g x y) := by
  have hlast : Reads (do let v ← rd'; pure (g x v)) (b ++ []) (g x y) :=
    h'.bind (reads_pure (g x y))
  rw [List.append_nil] at hlast
  exact h.bind hlast

def readTimes (rd : StateT File (Except ε) α) : Nat → StateT File (Except ε) (List α)
  | 0 => pure []
  | n + 1 => do
    let x ← rd
    let xs ← readTimes rd n
    pure (x :: xs)

theorem Reads.readTimes {rd : StateT File (Except ε) α} {enc : α → List UInt8}
    (h : ∀ x, Reads rd (enc x) x) (xs : List α) :
    Reads (readTimes rd xs.length) (xs.flatMap enc) xs := by
  induction xs with
  | nil => exact reads_pure []
  | cons x xs ih =>
    rw [List.flatMap_cons]
    exact (h x).pair List.cons ih

/-- Whatever the reader finds, it takes `n` bytes and leaves the file as it is. -/
def Takes (rd : StateT File (Except ε) α) (n : Nat) : Prop :=
  ∀ f x f', rd f = .ok (x, f') → f' = { f with pos := f.pos + n }

theorem takes_pure (x : α) : Takes (pure x : StateT File (Except ε) α) 0 := by
  intro f y f' h
  cases h
  rfl

theorem bind_ok {rd : StateT File (Except ε) α} {k : α → StateT File (Except ε) β} {y : β}
    {f' : File} (h : (rd >>= k) f = .ok (y, f')) :
    ∃ x g, rd f = .ok (x, g) ∧ k x g = .ok (y, f') := by
  change (rd f >>= fun p => k p.1 p.2) = _ at h
  cases hrd : rd f with
  | error e =>
    rw [hrd] at h
    cases h
  | ok p =>
    rw [hrd] at h
    exact ⟨p.1, p.2, rfl, h⟩

theorem map_ok {rd : StateT File (Except ε) α} {g : α → β} {y : β} {f' : File}
    (h : (g <$> rd) f = .ok (y, f')) : ∃ x, rd f = .ok (x, f') ∧ y = g x := by
  change (rd f >>= fun p => pure (g p.1, p.2)) = _ at h
  cases hrd : rd f with
  | error e =>
    rw [hrd] at h
    cases h
  | ok p =>
    rw [hrd] at h
    cases h
    exact ⟨p.1, rfl, rfl⟩

theorem Takes.bind {rd : StateT File (Except ε) α} {k : α → StateT File (Except ε) β} {m : Nat}
    (h : Takes rd n) (h' : ∀ x, Takes (k x) m) : Takes (rd >>= k) (n + m) := by
  intro f y f' hf
  obtain ⟨x, g, hx, hy⟩ := bind_ok hf
  rw [h' x g y f' hy, h f x g hx, Nat.add_assoc]

theorem takes_readTimes {rd : StateT File (Except ε) α} {k : Nat} (h : Takes rd k) (n : Nat) :
    Takes (readTimes rd n) (n * k) := by
  induction n with
  | zero =>
    rw [Nat.zero_mul]
    exact takes_pure []
  | succ n ih =>
    rw [Nat.succ_mul, Nat.add_comm (n * k)]
    exact h.bind fun _ => ih.bind fun _ => takes_pure _

theorem readTimes_length {rd : StateT File (Except ε) α} {xs : List α} {f' : File}
    (h : readTimes rd n f = .ok (xs, f')) : xs.length = n := by
  induction n generalizing f xs f' with
  | zero =>
    cases h
    rfl
  | succ n ih =>
    obtain ⟨x, g, -, h⟩ := bind_ok h
    obtain ⟨ys, g', hys, h⟩ := bind_ok h
    cases h
    rw [List.length_cons, ih hys]

end

end

end Vice.L0.ByteFile

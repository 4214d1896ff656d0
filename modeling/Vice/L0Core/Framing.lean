import Mathlib.Data.List.Basic

/-!
# Framed messages in a byte stream

A stream of messages, each behind its length in a field of fixed width. A length of 0 is no message
but a sign of life and may stand anywhere between them. What the messages mean is a relation between
their bytes and the values they carry.

Results:
* `Wire.append`: streams are joined.
* `Wire.idle_or_frame`: what a complete length field at the front of a stream says of the rest.
* `Wire.nothing_left`: a stream shorter than a length field is empty, and carries nothing.
-/
namespace Vice.L0.Framing

/-- A length field: `bound` is what it cannot hold any more. -/
structure LengthField where
  width : Nat
  bound : Nat
  enc : Nat → List UInt8
  dec : List UInt8 → Nat
  width_pos : 0 < width
  bound_pos : 0 < bound
  enc_length : ∀ n, (enc n).length = width
  dec_enc : ∀ n < bound, dec (enc n) = n

/-- The stream `bytes` carries the values `xs`. -/
inductive Wire {β : Type} (L : LengthField) (carries : List UInt8 → β → Prop) :
    List β → List UInt8 → Prop
  | nil : Wire L carries [] []
  | idle {xs : List β} {bytes : List UInt8} (h : Wire L carries xs bytes) :
      Wire L carries xs (L.enc 0 ++ bytes)
  | frame {x : β} {xs : List β} {message bytes : List UInt8} (hx : carries message x)
      (hpos : 0 < message.length) (hlt : message.length < L.bound) (h : Wire L carries xs bytes) :
      Wire L carries (x :: xs) (L.enc message.length ++ (message ++ bytes))

section
variable {β : Type} {L : LengthField} {carries : List UInt8 → β → Prop} {x : β} {xs ys : List β}
  {message bytes bytes' got rest : List UInt8}

theorem Wire.append (h : Wire L carries xs bytes) (h' : Wire L carries ys bytes') :
    Wire L carries (xs ++ ys) (bytes ++ bytes') := by
  induction h with
  | nil => exact h'
  | idle _ ih =>
    rw [List.append_assoc]
    exact .idle ih
  | frame hx hpos hlt _ ih =>
    rw [List.append_assoc, List.append_assoc]
    exact .frame hx hpos hlt ih

theorem Wire.append_idle (h : Wire L carries xs bytes) : Wire L carries xs (bytes ++ L.enc 0) := by
  have hidle : Wire L carries [] (L.enc 0 ++ []) := .idle .nil
  have happ := h.append hidle
  rwa [List.append_nil, List.append_nil] at happ

theorem Wire.append_frame (h : Wire L carries xs bytes) (hx : carries message x)
    (hpos : 0 < message.length) (hlt : message.length < L.bound) :
    Wire L carries (xs ++ [x]) (bytes ++ (L.enc message.length ++ message)) := by
  have hframe : Wire L carries [x] (L.enc message.length ++ (message ++ [])) :=
    .frame hx hpos hlt .nil
  rw [List.append_nil] at hframe
  exact h.append hframe

/-- A whole length field has been read. -/
theorem Wire.idle_or_frame (h : Wire L carries xs (got ++ rest)) (hgot : got.length = L.width) :
    (L.dec got = 0 ∧ Wire L carries xs rest) ∨
      ∃ x ys message rest', xs = x :: ys ∧ carries message x ∧ 0 < message.length ∧
        message.length < L.bound ∧ got = L.enc message.length ∧ rest = message ++ rest' ∧
        Wire L carries ys rest' := by
  generalize hbytes : got ++ rest = bytes at h
  cases h with
  | nil =>
    have hempty := congrArg List.length hbytes
    rw [List.length_append, hgot, List.length_nil] at hempty
    have hwidth := L.width_pos
    omega
  | idle h =>
    obtain ⟨rfl, rfl⟩ := List.append_inj hbytes (hgot.trans (L.enc_length 0).symm)
    exact .inl ⟨L.dec_enc 0 L.bound_pos, h⟩
  | @frame x ys message rest' hx hpos hlt h =>
    obtain ⟨rfl, rfl⟩ := List.append_inj hbytes (hgot.trans (L.enc_length _).symm)
    exact .inr ⟨x, ys, message, rest', rfl, hx, hpos, hlt, rfl, rfl, h⟩

/-- Nothing is left behind an incomplete length field. -/
theorem Wire.nothing_left (h : Wire L carries xs got) (hgot : got.length < L.width) : xs = [] ∧ got = [] := by
  cases h with
  | nil => exact ⟨rfl, rfl⟩
  | idle h =>
    rw [List.length_append, L.enc_length] at hgot
    omega
  | frame hx hpos hlt h =>
    rw [List.length_append, L.enc_length] at hgot
    omega

end
end Vice.L0.Framing

import Vice.L4Machine.ResourceLines
import Mathlib.Data.Nat.Digits.Lemmas

/-!
# One resource's line

Results:
* `atoi_formatInt`: an integer's text is read as the integer.
* `readItem_line`: a line `name=value` calls the setter of that name with the value.
-/
namespace Vice.L4.ResourceItems
open Vice.L4.ResourceFile Vice.L4.ResourceLines

variable {name arg l : Text} {r : Resource} {rs : List Resource}

/-! ## Integers -/

theorem isDigit_iff (b : UInt8) : isDigit b = true ↔ 0x30 ≤ b.toNat ∧ b.toNat ≤ 0x39 := by
  rw [isDigit, Bool.and_eq_true, decide_eq_true_eq, decide_eq_true_eq, UInt8.le_iff_toNat_le,
    UInt8.le_iff_toNat_le]
  rfl

theorem toNat_digit {d : Nat} (h : d < 10) : (UInt8.ofNat (0x30 + d)).toNat = 0x30 + d := by
  rw [UInt8.toNat_ofNat_of_lt']
  simp only [UInt8.size]
  omega

theorem isDigit_of_mem_decimal {n : Nat} {b : UInt8} (h : b ∈ decimal n) : isDigit b = true := by
  rw [decimal] at h
  split at h
  · rw [List.mem_singleton.1 h]
    rfl
  · obtain ⟨d, hd, rfl⟩ := List.mem_map.1 h
    have hlt := Nat.digits_lt_base (by decide : 1 < 10) (List.mem_reverse.1 hd)
    rw [isDigit_iff, toNat_digit hlt]
    omega

theorem decimal_ne_nil (n : Nat) : decimal n ≠ [] := by
  rw [decimal]
  split
  · exact List.cons_ne_nil _ _
  · rename_i hn
    simpa [Nat.digits_eq_nil_iff_eq_zero] using hn

/-- Reading digits from the left is Horner's scheme from the right. -/
theorem foldl_digits (ds : List Nat) (h : ∀ d ∈ ds, d < 10) :
    (ds.reverse.map fun d => UInt8.ofNat (0x30 + d)).foldl
      (fun n b => 10 * n + (b.toNat - 0x30)) 0 = Nat.ofDigits 10 ds := by
  induction ds with
  | nil => rfl
  | cons d ds ih =>
    have hd := h d List.mem_cons_self
    rw [List.reverse_cons, List.map_append, List.foldl_append,
      ih fun e he => h e (List.mem_cons_of_mem d he), Nat.ofDigits_cons, List.map_singleton,
      List.foldl_cons, List.foldl_nil, toNat_digit hd]
    omega

theorem digitsValue_decimal (n : Nat) : digitsValue (decimal n) = n := by
  rw [digitsValue, List.takeWhile_eq_self_iff.2 fun b hb => isDigit_of_mem_decimal hb, decimal]
  split
  · rename_i hn
    rw [hn]
    rfl
  · rw [foldl_digits _ fun d hd => Nat.digits_lt_base (by decide) hd, Nat.ofDigits_digits]

theorem not_sign_of_isDigit {b : UInt8} (h : isDigit b = true) : isSpace b = false ∧ b ≠ 0x2d ∧ b ≠ 0x2b := by
  rw [isDigit_iff] at h
  refine ⟨?_, ?_, ?_⟩
  · cases hsp : isSpace b with
    | false => rfl
    | true =>
      rw [isSpace, Bool.or_eq_true, beq_iff_eq, Bool.and_eq_true, decide_eq_true_eq,
        decide_eq_true_eq, UInt8.le_iff_toNat_le, UInt8.le_iff_toNat_le] at hsp
      rcases hsp with rfl | ⟨-, hle⟩
      · exact absurd h.1 (by decide)
      · have hcr : (0x0d : UInt8).toNat = 13 := rfl
        omega
  · rintro rfl
    exact absurd h.1 (by decide)
  · rintro rfl
    exact absurd h.1 (by decide)

theorem atoi_formatInt (i : Int) : atoi (formatInt i) = i := by
  rw [formatInt]
  split
  · rename_i hneg
    rw [List.singleton_append, atoi, List.dropWhile_cons_of_neg (by decide)]
    simp only [if_true, digitsValue_decimal]
    omega
  · rename_i hpos
    obtain ⟨b, ds, hb⟩ := List.exists_cons_of_ne_nil (decimal_ne_nil i.natAbs)
    have hdigit := isDigit_of_mem_decimal (b := b) (hb ▸ List.mem_cons_self)
    obtain ⟨hsp, hminus, hplus⟩ := not_sign_of_isDigit hdigit
    rw [List.nil_append, atoi, hb, List.dropWhile_cons_of_neg (by rw [hsp]; exact Bool.false_ne_true)]
    simp only
    rw [if_neg hminus, if_neg hplus, ← hb, digitsValue_decimal]
    omega

theorem length_decimal {n : Nat} (h : n ≤ 2 ^ 31) : (decimal n).length ≤ 10 := by
  rw [decimal]
  split
  · exact by decide
  · rw [List.length_map, List.length_reverse, Nat.digits_length_le_iff (by decide)]
    omega

/-! ## What is registered -/

/-- A name as the program has them: printable, without an equals sign, no section's header. An
integer's line fits the buffer whatever the value. -/
structure PlainName (name : Text) : Prop where
  ne_nil : name ≠ []
  head_ne : name.head? ≠ some openBracket
  byte : ∀ b ∈ name, space < b ∧ b ≠ equals
  length_le : name.length ≤ 1011

/-- The setter accepts the value and the factory value; an integer is an `int`, a string has no
line break. -/
def Valid : Setting → Prop
  | .int value factory accepts =>
    accepts value = true ∧ accepts factory = true ∧ -2 ^ 31 ≤ value ∧ value < 2 ^ 31
  | .string value factory accepts =>
    accepts (orEmpty value) = true ∧ accepts (orEmpty factory) = true ∧
      ∀ b ∈ orEmpty value, b ≠ nul ∧ b ≠ lineFeed ∧ b ≠ carriageReturn

/-- What a resource is set to; NULL and the empty string are equal. -/
def value (r : Resource) : Int ⊕ Text :=
  match r.setting with
  | .int v _ _ => .inl v
  | .string v _ _ => .inr (orEmpty v)

/-! ## Reading a line -/

theorem startsSection_append (h : PlainName name) (rest : Text) : startsSection (name ++ rest) = false := by
  rw [startsSection, List.head?_append_of_ne_nil _ h.ne_nil]
  exact beq_false_of_ne h.head_ne

theorem takeWhile_name (h : equals ∉ name) (arg : Text) :
    (name ++ equals :: arg).takeWhile (· != equals) = name ∧
      (name ++ equals :: arg).dropWhile (· != equals) = equals :: arg := by
  have hname : ∀ b ∈ name, (b != equals) = true := by
    intro b hb
    rw [bne_iff_ne]
    rintro rfl
    exact h hb
  constructor
  · rw [List.takeWhile_append_of_pos hname, List.takeWhile_cons_of_neg (by decide), List.append_nil]
  · rw [List.dropWhile_append_of_pos hname, List.dropWhile_cons_of_neg (by decide)]

theorem PlainName.noEquals (h : PlainName name) : equals ∉ name := fun hmem => (h.byte _ hmem).2 rfl

theorem readItem_line (h : PlainName name) (arg : Text) (rs : List Resource) :
    resourcesReadItem (name ++ equals :: arg) rs = assignResource name (stripQuotes arg) rs := by
  obtain ⟨htake, hdrop⟩ := takeWhile_name h.noEquals arg
  have hne : name ++ equals :: arg ≠ [] := by
    intro hnil
    exact h.ne_nil (List.append_eq_nil_iff.1 hnil).1
  have hmem : ¬equals ∉ name ++ equals :: arg := fun hn => hn (by simp)
  rw [resourcesReadItem, if_neg hne, startsSection_append h, if_neg Bool.false_ne_true, if_neg hmem,
    htake, hdrop]
  rfl

theorem stripQuotes_quoted (v : Text) : stripQuotes (quote :: v ++ [quote]) = v := by
  rw [stripQuotes, if_pos ⟨rfl, List.getLast?_concat⟩]
  exact List.dropLast_concat

theorem stripQuotes_of_head (h : arg.head? ≠ some quote) : stripQuotes arg = arg :=
  if_neg fun hq => h hq.1

theorem length_stripQuotes (arg : Text) :
    stripQuotes arg = arg ∨ (stripQuotes arg).length = arg.length - 2 := by
  rw [stripQuotes]
  split
  · right
    rw [List.length_dropLast, List.length_tail]
    omega
  · exact .inl rfl

theorem head?_formatInt (i : Int) : (formatInt i).head? ≠ some quote := by
  rw [formatInt]
  split
  · rw [List.singleton_append, List.head?_cons]
    decide
  · obtain ⟨b, ds, hb⟩ := List.exists_cons_of_ne_nil (decimal_ne_nil i.natAbs)
    have hdigit := isDigit_of_mem_decimal (b := b) (hb ▸ List.mem_cons_self)
    rw [List.nil_append, hb, List.head?_cons]
    intro h
    rw [Option.some.inj h] at hdigit
    cases hdigit

/-! ## The resource's own line -/

/-- What stands behind the equals sign. -/
def itemArg (s : Setting) : Text :=
  match s with
  | .int v _ _ => formatInt v
  | .string (some v) _ _ => quote :: v ++ [quote]
  | .string none _ _ => []

theorem stringResourceItem_eq (r : Resource) :
    stringResourceItem r = r.name ++ equals :: itemArg r.setting := by
  rcases r with ⟨name, v | ⟨_ | v⟩⟩
  · rfl
  · rfl
  · exact List.append_assoc ..

theorem assign_item (h : Valid r.setting) :
    ∃ s, r.setting.setDefault.assign (stripQuotes (itemArg r.setting)) = some s ∧
      value { r with setting := s } = value r := by
  rcases r with ⟨name, ⟨v, factory, accepts⟩ | ⟨_ | v, factory, accepts⟩⟩
  · refine ⟨.int v factory accepts, ?_, rfl⟩
    rw [Setting.setDefault, Setting.assign, itemArg, stripQuotes_of_head (head?_formatInt v),
      atoi_formatInt, if_pos h.1]
  · refine ⟨.string (some []) factory accepts, ?_, rfl⟩
    exact if_pos h.1
  · refine ⟨.string (some v) factory accepts, ?_, rfl⟩
    rw [Setting.setDefault, Setting.assign, itemArg, stripQuotes_quoted]
    exact if_pos h.1

theorem value_setDefault (h : Valid r.setting) (hr : r.setting.isDefault = true) :
    value r.setDefault = value r := by
  rcases r with ⟨name, ⟨v, factory, accepts⟩ | ⟨v, factory, accepts⟩⟩
  · rw [Setting.isDefault, beq_iff_eq] at hr
    simp only [Resource.setDefault, Setting.setDefault, value, if_pos h.2.1, hr]
  · rw [Setting.isDefault, beq_iff_eq] at hr
    simp only [Resource.setDefault, Setting.setDefault, value, if_pos h.2.1, hr]

theorem value_setDefault_ne (h : Valid r.setting) (hr : r.setting.isDefault = false) :
    value r.setDefault ≠ value r := by
  rcases r with ⟨name, ⟨v, factory, accepts⟩ | ⟨v, factory, accepts⟩⟩
  · rw [Setting.isDefault, beq_eq_false_iff_ne] at hr
    simp only [Resource.setDefault, Setting.setDefault, value, if_pos h.2.1]
    exact fun hv => hr (Sum.inl.inj hv).symm
  · rw [Setting.isDefault, beq_eq_false_iff_ne] at hr
    simp only [Resource.setDefault, Setting.setDefault, value, if_pos h.2.1]
    exact fun hv => hr (Sum.inr.inj hv).symm

/-! ## The bytes of a line -/

/-- Nothing in a resource's line ends it. -/
theorem byte_item (hn : PlainName r.name) (hv : Valid r.setting) {b : UInt8}
    (hb : b ∈ stringResourceItem r) : b ≠ nul ∧ b ≠ lineFeed ∧ b ≠ carriageReturn := by
  have hlarge : ∀ {c : UInt8}, space < c → c ≠ nul ∧ c ≠ lineFeed ∧ c ≠ carriageReturn := by
    intro c hc
    refine ⟨?_, ?_, ?_⟩ <;> rintro rfl <;> exact absurd hc (by decide)
  rw [stringResourceItem_eq, List.mem_append, List.mem_cons] at hb
  rcases hb with hb | rfl | hb
  · exact hlarge (hn.byte b hb).1
  · decide
  · rcases r with ⟨name, ⟨v, factory, accepts⟩ | ⟨_ | v, factory, accepts⟩⟩
    · rw [itemArg, formatInt, List.mem_append] at hb
      rcases hb with hb | hb
      · split at hb
        · rw [List.mem_singleton.1 hb]
          decide
        · cases hb
      · have hdigit := (isDigit_iff b).1 (isDigit_of_mem_decimal hb)
        refine ⟨?_, ?_, ?_⟩ <;> rintro rfl <;> exact absurd hdigit.1 (by decide)
    · cases hb
    · rcases List.mem_append.1 hb with hb | hb
      · rcases List.mem_cons.1 hb with rfl | hb
        · decide
        · exact hv.2.2 b hb
      · rw [List.mem_singleton.1 hb]
        decide

theorem oneLine_item (hn : PlainName r.name) (hv : Valid r.setting) : OneLine (stringResourceItem r) where
  noLineFeed h := (byte_item hn hv h).2.1 rfl
  noNul h := (byte_item hn hv h).1 rfl

theorem head?_item (hn : PlainName r.name) (rest : Text) : (r.name ++ rest).head? ≠ some space := by
  rw [List.head?_append_of_ne_nil _ hn.ne_nil]
  intro h
  exact absurd (hn.byte _ (List.mem_of_mem_head? h)).1 (by decide)

theorem getLast?_item (r : Resource) : (stringResourceItem r).getLast? ≠ some space := by
  rw [stringResourceItem_eq]
  rcases r with ⟨name, ⟨v, factory, accepts⟩ | ⟨_ | v, factory, accepts⟩⟩
  · intro h
    have hne : formatInt v ≠ [] := by
      rw [formatInt]
      exact List.append_ne_nil_of_right_ne_nil _ (decimal_ne_nil _)
    have hlast : (decimal v.natAbs).getLast? = some space := by
      rw [itemArg, List.getLast?_append_of_ne_nil _ (List.cons_ne_nil _ _),
        List.getLast?_cons_of_ne_nil hne, formatInt,
        List.getLast?_append_of_ne_nil _ (decimal_ne_nil _)] at h
      exact h
    exact absurd (isDigit_of_mem_decimal (List.mem_of_getLast? hlast)) (by decide)
  · rw [itemArg, List.getLast?_concat]
    decide
  · rw [itemArg, List.getLast?_append_of_ne_nil _ (List.cons_ne_nil _ _),
      List.getLast?_cons_of_ne_nil (List.append_ne_nil_of_right_ne_nil _ (List.cons_ne_nil _ _)),
      List.getLast?_concat]
    decide

theorem readLine_item (hn : PlainName r.name) (hv : Valid r.setting)
    (hlen : (stringResourceItem r).length ≤ 1023) : ReadLine (stringResourceItem r) where
  noLineFeed := (oneLine_item hn hv).noLineFeed
  noNul := (oneLine_item hn hv).noNul
  length_le := hlen
  head_ne := by
    rw [stringResourceItem_eq]
    exact head?_item hn _
  last_ne := getLast?_item r

theorem trimLine_item (hn : PlainName r.name) (hv : Valid r.setting)
    (hlen : (stringResourceItem r).length ≤ 1023) :
    trimLine (stringResourceItem r) = stringResourceItem r :=
  (readLine_item hn hv hlen).trim_eq fun h =>
    (byte_item hn hv (List.mem_of_getLast? h)).2.2 rfl

/-- Only a string's line can be too long. -/
theorem string_of_length (hn : PlainName r.name) (hv : Valid r.setting)
    (hlen : 1023 < (stringResourceItem r).length) :
    ∃ v factory accepts, r.setting = .string (some v) factory accepts ∧
      (stringResourceItem r).length = r.name.length + 3 + v.length := by
  have hname := hn.length_le
  rw [stringResourceItem_eq, List.length_append, List.length_cons] at hlen ⊢
  rcases r with ⟨name, ⟨v, factory, accepts⟩ | ⟨_ | v, factory, accepts⟩⟩
  · exfalso
    have hdec := length_decimal (n := v.natAbs) (by have := hv.2.2; omega)
    have hsign : (if v < 0 then [0x2d] else ([] : Text)).length ≤ 1 := by split <;> decide
    simp only [itemArg, formatInt, List.length_append] at hlen hname
    omega
  · exfalso
    simp only [itemArg, List.length_nil] at hlen hname
    omega
  · refine ⟨v, factory, accepts, rfl, ?_⟩
    simp only [itemArg, List.length_append, List.length_cons, List.length_nil]
    omega

end Vice.L4.ResourceItems

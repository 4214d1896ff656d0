import Vice.L4Machine.ResourceItems
import Vice.L4Machine.ResourceSections

/-!
# Loading this emulator's section

Results:
* `readItems_restores`: the lines of the resources that differ from their factory value, each read
  as it was printed, restore every resource.
* `misses_readItems`: lines none of which sets a resource to a value leave it without the value.
* `readItems_append_opens`: what follows the section is not read.
-/
namespace Vice.L4.ResourceLoad
open Vice.L4.ResourceFile Vice.L4.ResourceLines Vice.L4.ResourceItems Vice.L4.ResourceSections

variable {name arg v l : Text} {r : Resource} {rs todo before : List Resource}
  {lines blank rest : List Text} {i : Nat}

/-- The resources the program registers, with the values they have. -/
structure Registered (rs : List Resource) : Prop where
  name : ∀ r ∈ rs, PlainName r.name
  valid : ∀ r ∈ rs, Valid r.setting
  distinct : rs.Pairwise fun r s => sameName r.name s.name = false

theorem sameName_refl (n : Text) : sameName n n = true := beq_self_eq_true _

theorem sameName_comm (m n : Text) : sameName m n = sameName n m := by
  rw [sameName, sameName, Bool.eq_iff_iff, beq_iff_eq, beq_iff_eq]
  exact eq_comm

theorem length_of_sameName {m n : Text} (h : sameName m n = true) : m.length = n.length := by
  have hmap := congrArg List.length (eq_of_beq h)
  rwa [List.length_map, List.length_map] at hmap

/-! ## Reading on -/

theorem readItems_blank (h : ∀ b ∈ blank, b = []) (rest : List Text) (rs : List Resource) :
    readItems (blank ++ rest) rs = readItems rest rs := by
  induction blank with
  | nil => rfl
  | cons b blank ih =>
    rw [h b List.mem_cons_self, List.cons_append]
    exact ih fun c hc => h c (List.mem_cons_of_mem b hc)

theorem readItems_cons (h : (resourcesReadItem l rs).1 ≠ .endOfSection) :
    readItems (l :: lines) rs = readItems lines (resourcesReadItem l rs).2 := by
  rw [readItems, if_neg h]

theorem readItems_opens (h : Opens lines) (rs : List Resource) : readItems lines rs = rs := by
  rcases h with hblank | ⟨buf, rest, rfl, hbuf⟩
  · have hkeep := readItems_blank hblank [] rs
    rwa [List.append_nil] at hkeep
  · have hne : buf ≠ [] := by
      rintro rfl
      cases hbuf
    have hread : resourcesReadItem buf rs = (.endOfSection, rs) := by
      rw [resourcesReadItem, if_neg hne, if_pos hbuf]
    rw [readItems, hread, if_pos rfl]

/-- The section ends where another one opens. -/
theorem readItems_append_opens (h : Opens rest) (lines : List Text) (rs : List Resource) :
    readItems (lines ++ rest) rs = readItems lines rs := by
  induction lines generalizing rs with
  | nil => exact readItems_opens h rs
  | cons l lines ih =>
    rw [List.cons_append, readItems, readItems]
    split
    · rfl
    · exact ih _

/-! ## One resource -/

/-- The setter that is called is the one of the first resource of that name. -/
theorem assignResource_append (hbefore : ∀ s ∈ before, sameName s.name r.name = false)
    {s : Setting} (hs : r.setting.assign arg = some s) :
    assignResource r.name arg (before ++ r :: rs) =
      (.success, before ++ { r with setting := s } :: rs) := by
  induction before with
  | nil => rw [List.nil_append, assignResource, if_pos (sameName_refl _), hs, List.nil_append]
  | cons b before ih =>
    rw [List.cons_append, assignResource, hbefore b List.mem_cons_self,
      if_neg Bool.false_ne_true, ih fun s hs => hbefore s (List.mem_cons_of_mem b hs)]
    rfl

/-- A resource is what it was, or the setter of its name was called. -/
theorem assignResource_getElem? (name arg : Text) (rs : List Resource) (i : Nat) :
    (assignResource name arg rs).2[i]? = rs[i]? ∨
      ∃ r s, rs[i]? = some r ∧ sameName r.name name = true ∧ r.setting.assign arg = some s ∧
        (assignResource name arg rs).2[i]? = some { r with setting := s } := by
  induction rs generalizing i with
  | nil => exact .inl rfl
  | cons r rs ih =>
    rw [assignResource]
    split
    · rename_i hname
      cases hs : r.setting.assign arg with
      | none => exact .inl rfl
      | some s =>
        cases i with
        | zero => exact .inr ⟨r, s, rfl, hname, hs, rfl⟩
        | succ i => exact .inl rfl
    · cases i with
      | zero => exact .inl rfl
      | succ i => exact ih i

theorem value_assign {s : Setting} (hs : r.setting.assign arg = some s) (hv : arg ≠ v) :
    value { r with setting := s } ≠ .inr v := by
  rcases r with ⟨name, ⟨w, factory, accepts⟩ | ⟨w, factory, accepts⟩⟩
  · rw [Setting.assign] at hs
    split at hs
    · rw [← Option.some.inj hs]
      exact Sum.inl_ne_inr
    · cases hs
  · rw [Setting.assign] at hs
    split at hs
    · rw [← Option.some.inj hs]
      exact fun h => hv (Sum.inr.inj h)
    · cases hs

/-! ## All of them restored -/

/-- The lines of the resources that are not at their factory value. -/
def itemLines (rs : List Resource) : List Text :=
  (rs.filter fun r => !r.setting.isDefault).map stringResourceItem

theorem readItems_item (lines : List Text) (rs : List Resource) (hn : PlainName r.name) (hv : Valid r.setting)
    (hlen : (stringResourceItem r).length ≤ 1023)
    (hbefore : ∀ s ∈ before, sameName s.name r.name = false) :
    ∃ r', r'.name = r.name ∧ value r' = value r ∧
      readItems (pieces (stringResourceItem r) ++ lines) (before ++ r.setDefault :: rs) =
        readItems lines (before ++ r' :: rs) := by
  obtain ⟨blank, hpieces, hblank⟩ := pieces_of_le (oneLine_item hn hv) hlen
  obtain ⟨s, hs, hvalue⟩ := assign_item hv
  have hread : resourcesReadItem (stringResourceItem r) (before ++ r.setDefault :: rs) =
      (.success, before ++ { r with setting := s } :: rs) := by
    rw [stringResourceItem_eq, readItem_line hn]
    exact assignResource_append (r := r.setDefault) hbefore hs
  refine ⟨{ r with setting := s }, rfl, hvalue, ?_⟩
  rw [hpieces, trimLine_item hn hv hlen, List.cons_append, readItems_cons (by rw [hread]; exact nofun),
    hread, readItems_blank hblank]

/-- The resources before are settled, the others at their factory values. -/
theorem readItems_restores (before : List Resource) (lines : List Text) (h : Registered todo)
    (hfit : ∀ r ∈ todo, r.setting.isDefault = false → (stringResourceItem r).length ≤ 1023)
    (hbefore : ∀ s ∈ before, ∀ r ∈ todo, sameName s.name r.name = false) :
    ∃ settled, settled.map value = todo.map value ∧
      readItems ((itemLines todo).flatMap pieces ++ lines) (before ++ todo.map Resource.setDefault) =
        readItems lines (before ++ settled) := by
  induction todo generalizing before with
  | nil => exact ⟨[], rfl, rfl⟩
  | cons r todo ih =>
    have hr := List.mem_cons_self (a := r) (l := todo)
    have htail : Registered todo :=
      ⟨fun s hs => h.name s (List.mem_cons_of_mem r hs),
        fun s hs => h.valid s (List.mem_cons_of_mem r hs), (List.pairwise_cons.1 h.distinct).2⟩
    have hnext : ∀ r' : Resource, r'.name = r.name →
        ∀ s ∈ before ++ [r'], ∀ t ∈ todo, sameName s.name t.name = false := by
      intro r' hname s hs t ht
      rcases List.mem_append.1 hs with hs | hs
      · exact hbefore s hs t (List.mem_cons_of_mem r ht)
      · rw [List.mem_singleton.1 hs, hname]
        exact (List.pairwise_cons.1 h.distinct).1 t ht
    have ih' := fun r' hname => ih (before ++ [r']) htail
      (fun s hs => hfit s (List.mem_cons_of_mem r hs)) (hnext r' hname)
    cases hdefault : r.setting.isDefault with
    | true =>
      obtain ⟨settled, hvalue, hread⟩ := ih' r.setDefault rfl
      refine ⟨r.setDefault :: settled, ?_, ?_⟩
      · rw [List.map_cons, List.map_cons, hvalue, value_setDefault (h.valid r hr) hdefault]
      · rw [List.append_assoc, List.append_assoc] at hread
        rw [itemLines, List.filter_cons_of_neg (by rw [hdefault]; exact Bool.false_ne_true)]
        exact hread
    | false =>
      obtain ⟨r', hname, hvalue', hitem⟩ := readItems_item
        ((itemLines todo).flatMap pieces ++ lines) (todo.map Resource.setDefault) (h.name r hr) (h.valid r hr)
        (hfit r hr hdefault) fun s hs => hbefore s hs r hr
      obtain ⟨settled, hvalue, hread⟩ := ih' r' hname
      refine ⟨r' :: settled, ?_, ?_⟩
      · rw [List.map_cons, List.map_cons, hvalue, hvalue']
      · rw [List.append_assoc, List.append_assoc] at hread
        rw [itemLines, List.filter_cons_of_pos (by rw [hdefault]; rfl), List.map_cons,
          List.flatMap_cons, List.append_assoc, List.map_cons]
        exact hitem.trans hread

/-! ## A value that is missed -/

/-- The line calls the setter of that name with the value. -/
def Sets (l name v : Text) : Prop :=
  ∃ m arg, l = m ++ equals :: arg ∧ equals ∉ m ∧ sameName name m = true ∧ stripQuotes arg = v

/-- The `i`-th resource, of that name, has another value. -/
def Misses (rs : List Resource) (i : Nat) (name v : Text) : Prop :=
  ∃ r, rs[i]? = some r ∧ r.name = name ∧ value r ≠ .inr v

theorem split_equals (h : equals ∈ l) :
    l = l.takeWhile (· != equals) ++ equals :: (l.dropWhile (· != equals)).drop 1 ∧
      equals ∉ l.takeWhile (· != equals) := by
  constructor
  · have hne : l.dropWhile (· != equals) ≠ [] := by
      intro hnil
      have hall := List.dropWhile_eq_nil_iff.1 hnil equals h
      exact absurd hall (by decide)
    obtain ⟨b, rest, hb⟩ := List.exists_cons_of_ne_nil hne
    have hnot := List.head?_dropWhile_not (· != equals) l
    rw [hb] at hnot
    have hbe : b = equals := by simpa using hnot
    conv_lhs => rw [← List.takeWhile_append_dropWhile (p := (· != equals)) (l := l), hb, hbe]
    rw [hb]
    rfl
  · intro hmem
    exact absurd (List.mem_takeWhile_imp hmem) (by decide)

theorem misses_readItem (hl : ¬Sets l name v) (h : Misses rs i name v) :
    Misses (resourcesReadItem l rs).2 i name v := by
  rw [resourcesReadItem]
  split
  · exact h
  · split
    · exact h
    · split
      · exact h
      · rename_i hmem
        obtain ⟨hsplit, hfree⟩ := split_equals (not_not.1 hmem)
        rcases assignResource_getElem? (l.takeWhile (· != equals))
          (stripQuotes ((l.dropWhile (· != equals)).drop 1)) rs i with
          hkeep | ⟨r, s, hr, hname, hs, hset⟩
        · obtain ⟨r, hr, hrest⟩ := h
          exact ⟨r, hkeep.trans hr, hrest⟩
        · obtain ⟨r', hr', hname', -⟩ := h
          rw [hr, Option.some.injEq] at hr'
          refine ⟨_, hset, hr' ▸ hname', value_assign hs ?_⟩
          intro harg
          refine hl ⟨_, _, hsplit, hfree, ?_, harg⟩
          rw [← hname', ← hr']
          exact hname

theorem misses_readItems (hl : ∀ l ∈ lines, ¬Sets l name v) (h : Misses rs i name v) :
    Misses (readItems lines rs) i name v := by
  induction lines generalizing rs with
  | nil => exact h
  | cons l lines ih =>
    rw [readItems]
    split
    · exact h
    · exact ih (fun m hm => hl m (List.mem_cons_of_mem l hm))
        (misses_readItem (hl l List.mem_cons_self) h)

end Vice.L4.ResourceLoad

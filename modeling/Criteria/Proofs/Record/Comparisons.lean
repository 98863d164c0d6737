import Criteria.Proofs.Record.TextConditions
import Criteria.Proofs.Record.TotalOrder
import Mathlib.Logic.ExistsUnique

/-!
# How the operators fit together

Equality, the four orders and the text operators each look at a field and a value in their own way.
Their answers fit together all the same. A null on either side decides alone. Otherwise an operator
and its contrary share everything out between them; where there is an order, equality and the two
strict orders share everything out between the three of them; and a text that is equal to what is
looked for begins and ends with it, and so contains it.
-/

namespace Criteria

namespace Double

theorem compare?_of_isNaN {a b : Double} (ha : a.isNaN = false) (hb : b.isNaN = false) :
    a.compare? b = some (compare a.place b.place) := by
  cases a with
  | nan => cases ha
  | signed s m =>
    cases b with
    | nan => cases hb
    | signed t n => rfl

end Double

theorem Numeral.compare?_double_right (y : Numeral) (x : Double) :
    y.compare? (.double x) = y.toDouble.compare? x := by
  cases y <;> rfl

namespace FieldValue

/-- There is an order of what a field holds and a value: both are texts, or both are numbers and
neither is no number. -/
def Comparable : FieldValue → Value → Prop
  | number y, .number x => y.toDouble.isNaN = false ∧ x.isNaN = false
  | text _, .text _ => True
  | _, _ => False

instance : (v : FieldValue) → (w : Value) → Decidable (v.Comparable w)
  | number y, .number x => inferInstanceAs (Decidable (y.toDouble.isNaN = false ∧ x.isNaN = false))
  | text _, .text _ => .isTrue trivial
  | number _, .text _ | number _, .bool _ | number _, .null => .isFalse id
  | text _, .number _ | text _, .bool _ | text _, .null => .isFalse id
  | bool _, _ | null, _ => .isFalse id

/-- Where there is an order, equality is one of its three outcomes. -/
theorem Comparable.exists_order {v : FieldValue} {w : Value} (h : v.Comparable w)
    (insensitive : Bool) :
    ∃ o, v.order? insensitive w = some o ∧ v.equals insensitive w = (o == .eq) := by
  cases v <;> cases w <;> simp only [Comparable] at h
  · rename_i s t
    refine ⟨_, rfl, ?_⟩
    show (foldCase insensitive s == foldCase insensitive t) = _
    rw [Bool.eq_iff_iff, beq_iff_eq, beq_iff_eq, Std.LawfulEqOrd.compare_eq_iff_eq]
  · rename_i y x
    have horder : y.compare? (.double x) = some (compare y.place x.place) := by
      rw [Numeral.compare?_double_right]
      exact Double.compare?_of_isNaN h.1 h.2
    refine ⟨_, horder, ?_⟩
    show (y.compare? (.double x) == some .eq) = _
    rw [horder]
    rfl

theorem order?_eq_none {v : FieldValue} {w : Value} (h : ¬ v.Comparable w) (insensitive : Bool) :
    v.order? insensitive w = none := by
  cases v <;> cases w <;> try rfl
  · exact absurd trivial h
  · rename_i y x
    show y.compare? (.double x) = none
    rw [Numeral.compare?_double_right]
    cases hy : y.toDouble with
    | nan => rfl
    | signed =>
      cases x with
      | nan => rfl
      | signed => exact absurd ⟨by rw [hy]; rfl, rfl⟩ h

end FieldValue

namespace Operator

/-- Which outcomes of a comparison an equality or an order asks for; the text operators ask for
none. -/
def accepts : Operator → Ordering → Bool
  | .equals, o => o == .eq
  | .notEquals, o => o != .eq
  | .greaterThan, o => o == .gt
  | .lessThan, o => o == .lt
  | .greaterThanOrEqual, o => o != .lt
  | .lessThanOrEqual, o => o != .gt
  | _, _ => false

theorem existsUnique_accepts (o : Ordering) :
    ∃! op, op ∈ [lessThan, equals, greaterThan] ∧ op.accepts o = true := by
  have hunique : ∀ op ∈ [lessThan, equals, greaterThan], ∀ op' ∈ [lessThan, equals, greaterThan],
      op.accepts o = true → op'.accepts o = true → op' = op := by
    cases o <;> decide
  have hexists : ∃ op ∈ [lessThan, equals, greaterThan], op.accepts o = true := by
    cases o <;> decide
  obtain ⟨op, hop, haccepts⟩ := hexists
  exact ⟨op, ⟨hop, haccepts⟩, fun op' h => hunique op hop op' h.1 haccepts h.2⟩

end Operator

namespace Condition

/-- The same condition with another operator. -/
def asking (operator : Operator) (c : Condition) : Condition := { c with operator }

variable {c : Condition} {v : FieldValue}

theorem holds_null_value (hvalue : c.value = .null) :
    ((c.asking .equals).holds v = true ↔ v = .null) ∧
    ((c.asking .notEquals).holds v = true ↔ v ≠ .null) ∧
    ∀ op : Operator, op.isEquality = false → (c.asking op).holds v = false := by
  refine ⟨?_, ?_, fun op hop => ?_⟩
  · show v.equals c.insensitive c.value = true ↔ _
    rw [hvalue]
    cases v with
    | text => exact ⟨nofun, nofun⟩
    | number => exact ⟨nofun, nofun⟩
    | bool => exact ⟨nofun, nofun⟩
    | null => exact ⟨fun _ => rfl, fun _ => rfl⟩
  · show (if c.value.isNull then !v.isNull else _) = true ↔ _
    rw [hvalue]
    cases v <;> simp [Value.isNull, FieldValue.isNull]
  · have horder : v.order? c.insensitive c.value = none := by
      rw [hvalue]
      cases v <;> rfl
    have htext : (c.asking op).holdsForText v = false := by
      unfold holdsForText
      rw [show (c.asking op).value = .null from hvalue]
      cases v <;> rfl
    cases op <;> first
      | exact absurd hop (by decide)
      | exact htext
      | simp [holds, asking, horder]

theorem holds_null_field (hvalue : c.value ≠ .null) (op : Operator) :
    (c.asking op).holds .null = true ↔ op = .notEquals ∧ c.ignoreNulls = false := by
  obtain ⟨field, value, operator, negated, insensitive, ignoreNulls⟩ := c
  cases op <;> cases value <;>
    simp_all [holds, asking, FieldValue.equals, FieldValue.order?, holdsForText, FieldValue.text?,
      Value.isNull, FieldValue.isNull]

theorem holds_contrary (op : Operator) (hop : op = .equals ∨ op.isTextual = true)
    (hvalue : c.value ≠ .null) (hv : v ≠ .null) :
    (c.asking op).opposite.holds v = !(c.asking op).holds v := by
  have hvalue' : c.value.isNull = false := by
    cases hcase : c.value <;> first | rfl | exact absurd hcase hvalue
  have hv' : v.isNull = false := by
    cases v <;> first | rfl | exact absurd rfl hv
  exact holds_opposite_of_not_null (c := c.asking op) hop hvalue' hv'

theorem holds_eq_accepts {o : Ordering} (horder : v.order? c.insensitive c.value = some o)
    {op : Operator} (hop : op.isOrdering = true) : (c.asking op).holds v = op.accepts o := by
  cases op with
  | greaterThan | lessThan | greaterThanOrEqual | lessThanOrEqual =>
    simp only [holds, asking, horder]
    cases o <;> rfl
  | _ => exact absurd hop (by decide)

/-- Where there is an order, all operators but those on text ask about the outcome of one
comparison. -/
theorem exists_outcome (h : v.Comparable c.value) :
    ∃ o, ∀ op : Operator, op.isTextual = false → (c.asking op).holds v = op.accepts o := by
  obtain ⟨o, horder, hequals⟩ := h.exists_order c.insensitive
  have hvalue : c.value ≠ .null := by
    intro hcase
    rw [hcase] at h
    cases v <;> exact h
  have hv : v ≠ .null := by
    rintro rfl
    exact h
  refine ⟨o, fun op hop => ?_⟩
  cases op with
  | equals => exact hequals
  | notEquals =>
    have hcontrary := holds_contrary (c := c) .equals (Or.inl rfl) hvalue hv
    exact hcontrary.trans (congrArg (!·) hequals)
  | greaterThan | lessThan | greaterThanOrEqual | lessThanOrEqual =>
    exact holds_eq_accepts horder rfl
  | contains | startsWith | endsWith => exact absurd hop (by decide)

theorem holds_of_not_comparable {op : Operator} (hop : op.isOrdering = true)
    (h : ¬ v.Comparable c.value) : (c.asking op).holds v = false := by
  have horder := FieldValue.order?_eq_none h c.insensitive
  cases op <;> first | exact absurd hop (by decide) | simp [holds, asking, horder]

theorem holds_of_admits (op op' : Operator) (hop : op = .equals ∨ op.isTextual = true)
    (hop' : op'.isTextual = true)
    (hadmits : ∀ before after, op.Admits before after → op'.Admits before after)
    (hplain : c.negated = false) {s : String} (h : (c.asking op).holds (.text s) = true) :
    (c.asking op').holds (.text s) = true := by
  cases ht : c.value.text? with
  | none =>
    have hvalue : c.value = .null := by
      cases hcase : c.value <;> rw [hcase] at ht <;> first | rfl | exact absurd ht nofun
    obtain ⟨hequals, -, hother⟩ := holds_null_value (v := .text s) hvalue
    rcases hop with rfl | hop
    · exact absurd (hequals.mp h) nofun
    · have hfalse := hother op (by cases op <;> first | rfl | exact absurd hop (by decide))
      rw [hfalse] at h
      cases h
  | some t =>
    rw [holds_text_iff (c := c.asking op) hop hplain ht] at h
    rw [holds_text_iff (c := c.asking op') (Or.inr hop') hplain ht]
    obtain ⟨before, after, hplace, hs⟩ := h
    exact ⟨before, after, hadmits before after hplace, hs⟩

/-- How the operators fit together, for any condition and whatever a field holds. A null value is
equal to null alone, and is neither ordered nor looked for. A null field answers nothing that asks
for a value, but inequality if nulls are not ignored. Elsewhere inequality is the contrary of
equality, and a negated text operator that of the plain one. Where there is an order, exactly one of
less, equal and greater is the case, the other two orders are the greater or the less with the
equal, and at least and less split all records in two. Where there is none, no order holds. And what
a text is equal to, it begins and ends with, and what it begins or ends with, it contains. -/
theorem operators_fit (c : Condition) (v : FieldValue) :
    (c.value = .null →
      ((c.asking .equals).holds v = true ↔ v = .null) ∧
      ((c.asking .notEquals).holds v = true ↔ v ≠ .null) ∧
      ∀ op : Operator, op.isEquality = false → (c.asking op).holds v = false) ∧
    (c.value ≠ .null → v = .null → ∀ op : Operator,
      (c.asking op).holds v = true ↔ op = .notEquals ∧ c.ignoreNulls = false) ∧
    (c.value ≠ .null → v ≠ .null →
      (c.asking .notEquals).holds v = !(c.asking .equals).holds v ∧
      ∀ op : Operator, op.isTextual = true →
        (c.asking op).opposite.holds v = !(c.asking op).holds v) ∧
    (v.Comparable c.value →
      (∃! op, op ∈ [Operator.lessThan, .equals, .greaterThan] ∧ (c.asking op).holds v = true) ∧
      (c.asking .greaterThanOrEqual).holds v =
        ((c.asking .greaterThan).holds v || (c.asking .equals).holds v) ∧
      (c.asking .lessThanOrEqual).holds v =
        ((c.asking .lessThan).holds v || (c.asking .equals).holds v)) ∧
    (∀ (ρ : Type) [Record ρ] (records : List ρ),
      (∀ r ∈ records, (Record.fieldValue r c.field).Comparable c.value) →
      records.partition (fun r => (c.asking .greaterThanOrEqual).holdsFor r) =
        (records.filter fun r => (c.asking .greaterThanOrEqual).holdsFor r,
          records.filter fun r => (c.asking .lessThan).holdsFor r)) ∧
    (¬ v.Comparable c.value → ∀ op : Operator, op.isOrdering = true →
      (c.asking op).holds v = false) ∧
    (c.negated = false → ∀ s, v = .text s →
      ((c.asking .equals).holds v = true →
        (c.asking .startsWith).holds v = true ∧ (c.asking .endsWith).holds v = true) ∧
      ((c.asking .startsWith).holds v = true ∨ (c.asking .endsWith).holds v = true →
        (c.asking .contains).holds v = true)) := by
  refine ⟨fun hvalue => holds_null_value hvalue, ?_, ?_, ?_, ?_, ?_, ?_⟩
  · rintro hvalue rfl op
    exact holds_null_field hvalue op
  · intro hvalue hv
    refine ⟨holds_contrary .equals (Or.inl rfl) hvalue hv, fun op hop => ?_⟩
    exact holds_contrary op (Or.inr hop) hvalue hv
  · intro h
    obtain ⟨o, ho⟩ := exists_outcome h
    refine ⟨?_, ?_, ?_⟩
    · refine (existsUnique_congr fun op => and_congr_right fun hop => ?_).mpr
        (Operator.existsUnique_accepts o)
      have htextual : ∀ op ∈ [Operator.lessThan, .equals, .greaterThan], op.isTextual = false := by
        decide
      rw [ho op (htextual op hop)]
    · rw [ho _ rfl, ho _ rfl, ho _ rfl]
      cases o <;> rfl
    · rw [ho _ rfl, ho _ rfl, ho _ rfl]
      cases o <;> rfl
  · intro ρ _ records h
    rw [List.partition_eq_filter_filter]
    refine congrArg _ (List.filter_congr fun r hr => ?_)
    obtain ⟨o, ho⟩ := exists_outcome (h r hr)
    have hnot : (!(c.asking .greaterThanOrEqual).holds (Record.fieldValue r c.field)) =
        (c.asking .lessThan).holds (Record.fieldValue r c.field) := by
      rw [ho _ rfl, ho _ rfl]
      cases o <;> rfl
    exact hnot
  · intro h op hop
    exact holds_of_not_comparable hop h
  · rintro hplain s rfl
    refine ⟨fun h => ⟨?_, ?_⟩, ?_⟩
    · exact holds_of_admits .equals .startsWith (Or.inl rfl) rfl (fun _ _ hplace => hplace.1)
        hplain h
    · exact holds_of_admits .equals .endsWith (Or.inl rfl) rfl (fun _ _ hplace => hplace.2)
        hplain h
    · rintro (h | h)
      · exact holds_of_admits .startsWith .contains (Or.inr rfl) rfl (fun _ _ _ => trivial)
          hplain h
      · exact holds_of_admits .endsWith .contains (Or.inr rfl) rfl (fun _ _ _ => trivial) hplain h

end Condition

end Criteria

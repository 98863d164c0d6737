import Criteria.Proofs.Number.PlainTexts
import Criteria.Proofs.Record.TextConditions

/-!
# Conditions on texts with written values

A written value that looks like a number is taken for one, also where a text is compared with it, and
is looked for by the text in which the number is shown. So it is looked for as it is written only if
it is no number or is written as numbers are shown: without an exponent, without a plus, with no digit
that could be left out, and with as few digits as tell the number from its neighbours.
-/

namespace Criteria

/-- What an equality or a text operator asks of a text; the orders ask nothing of it. -/
def Operator.Asks (operator : Operator) (v s : String) : Prop :=
  match operator with
  | .equals => s = v
  | .notEquals => s ≠ v
  | .contains => v.toList <:+: s.toList
  | .startsWith => v.toList <+: s.toList
  | .endsWith => v.toList <:+ s.toList
  | _ => False

/-- No two texts are asked for alike. -/
theorem Operator.eq_of_asks {operator : Operator} {v w : String}
    (hop : operator.isEquality = true ∨ operator.isTextual = true)
    (h : ∀ s, operator.Asks v s ↔ operator.Asks w s) : v = w := by
  have hv := h v
  have hw := h w
  rw [← String.toList_inj]
  cases operator with
  | equals => exact congrArg String.toList (hv.mp rfl)
  | notEquals =>
    have hsame : ¬ v ≠ w := fun hne => hv.mpr hne rfl
    exact congrArg String.toList (not_not.mp hsame)
  | contains =>
    have hforth : w.toList <:+: v.toList := hv.mp (List.infix_rfl)
    have hback : v.toList <:+: w.toList := hw.mpr (List.infix_rfl)
    exact hback.eq_of_length (Nat.le_antisymm hback.length_le hforth.length_le)
  | startsWith =>
    have hforth : w.toList <+: v.toList := hv.mp (List.prefix_rfl)
    have hback : v.toList <+: w.toList := hw.mpr (List.prefix_rfl)
    exact hback.eq_of_length (Nat.le_antisymm hback.length_le hforth.length_le)
  | endsWith =>
    have hforth : w.toList <:+ v.toList := hv.mp (List.suffix_rfl)
    have hback : v.toList <:+ w.toList := hw.mpr (List.suffix_rfl)
    exact hback.eq_of_length (Nat.le_antisymm hback.length_le hforth.length_le)
  | _ => simp [isEquality, isTextual] at hop

namespace Condition

theorem asks_iff_findsText {operator : Operator} (h : operator.isTextual = true) {v s : String} :
    operator.Asks v s ↔ findsText operator v.toList s.toList = true := by
  cases operator <;> simp only [Operator.isTextual, Bool.false_eq_true] at h
  · exact occursIn_iff.symm
  · exact List.isPrefixOf_iff_prefix.symm
  · exact List.isSuffixOf_iff_suffix.symm

/-- A plain condition that minds case asks a text for the text of its value. -/
theorem holds_iff_asks {c : Condition}
    (hop : c.operator.isEquality = true ∨ c.operator.isTextual = true)
    (hplain : c.negated = false) (hcase : c.insensitive = false) {t : String}
    (hvalue : c.value.text? = some t) (s : String) :
    c.holds (.text s) = true ↔ c.operator.Asks t s := by
  have hpositive : ∀ {c : Condition}, c.operator = .equals ∨ c.operator.isTextual = true →
      c.negated = false → c.insensitive = false → c.value.text? = some t →
      (c.holds (.text s) = true ↔ c.operator.Asks t s) := by
    intro c hop hplain hcase hvalue
    rw [holds_text_iff hop hplain hvalue, hcase]
    rcases hop with hop | hop
    · rw [hop]
      constructor
      · rintro ⟨before, after, ⟨rfl, rfl⟩, h⟩
        rw [List.nil_append, List.append_nil] at h
        exact String.toList_inj.mp h
      · intro h
        have hsame : s = t := h
        exact ⟨[], [], ⟨rfl, rfl⟩, by rw [hsame, List.nil_append, List.append_nil]⟩
    · rw [asks_iff_findsText hop, findsText_iff hop]
      rfl
  by_cases hne : c.operator = .notEquals
  · have hnull : c.value.isNull = false := by
      cases hcases : c.value <;> rw [hcases] at hvalue <;>
        first | rfl | exact absurd hvalue (by simp [Value.text?])
    have hequals := hpositive (c := { c with operator := .equals }) (Or.inl rfl) hplain hcase hvalue
    have hopposite := holds_opposite (c := { c with operator := .equals }) (Or.inl rfl) hnull s
    have hback : opposite { c with operator := .equals } = c := by
      obtain ⟨field, value, operator, negated, insensitive, ignoreNulls⟩ := c
      exact congrArg (Condition.mk field value · negated insensitive ignoreNulls) hne.symm
    rw [hback] at hopposite
    rw [hopposite, Bool.not_eq_true', ← Bool.not_eq_true, hequals, hne]
    rfl
  · refine hpositive ?_ hplain hcase hvalue
    rcases hop with hop | hop
    · cases hcases : c.operator <;> rw [hcases] at hop hne <;>
        first | exact Or.inl rfl | exact absurd hop (by decide) | exact absurd rfl hne
    · exact Or.inr hop

theorem text?_ofText (v : String) : (Value.ofText v).text? = some (Value.ofText v).display := by
  unfold Value.ofText
  split
  · rfl
  · split
    · rfl
    · split
      · rfl
      · rfl

section Written

variable {t : FilterTerm} {f : Field} {v : String}
  (hop : t.operator.isEquality = true ∨ t.operator.isTextual = true)
  (hplain : t.token.negated = false) (hcase : t.token.insensitive = false)
  (hreader : f.reader = none) (hnull : v ≠ "null") (hescaped : v ≠ "\\null") (ignoreNulls : Bool)
include hop hplain hcase hreader hnull hescaped

/-- A written value is looked for by the text in which its value is shown. -/
theorem holds_build_iff (s : String) :
    (build t f v ignoreNulls).holds (.text s) = true ↔
      t.operator.Asks (Value.ofText v).display s := by
  have hvalue : (build t f v ignoreNulls).value = .ofText v := by
    show readValue t.operator f.reader v = _
    rw [hreader, readValue_of_ne hnull hescaped]
  refine holds_iff_asks (c := build t f v ignoreNulls) hop hplain hcase ?_ s
  rw [hvalue, text?_ofText]

/-- When a text is compared with what is written. A condition with a written value asks for the text
in which the value is shown. It asks for the written text itself if and only if that is no number or
the plain text of a double; and a number without an exponent, a plus or digits that could be left out
is such a text if it has fifteen digits or fewer and is neither too great nor too small. -/
theorem holds_written_iff :
    (∀ s, (build t f v ignoreNulls).holds (.text s) = true ↔
      t.operator.Asks (Value.ofText v).display s) ∧
    ((∀ s, (build t f v ignoreNulls).holds (.text s) = true ↔ t.operator.Asks v s) ↔
      Value.number? v.toList = none ∨ ∃ x : Double, x.isFinite = true ∧ v = x.text) ∧
    (∀ p : PlainNumeral, p.Short → v.toList = p.chars →
      ∀ s, (build t f v ignoreNulls).holds (.text s) = true ↔ t.operator.Asks v s) := by
  have hshown := holds_build_iff hop hplain hcase hreader hnull hescaped ignoreNulls
  have hexact : (∀ s, (build t f v ignoreNulls).holds (.text s) = true ↔ t.operator.Asks v s) ↔
      Value.number? v.toList = none ∨ ∃ x : Double, x.isFinite = true ∧ v = x.text := by
    rw [← Value.display_ofText_eq_iff]
    constructor
    · intro h
      exact Operator.eq_of_asks hop fun s => (hshown s).symm.trans (h s)
    · intro hsame s
      rw [hshown s, hsame]
  refine ⟨hshown, hexact, fun p hshort htext => hexact.mpr (Or.inr ?_)⟩
  obtain ⟨x, hx, hchars⟩ := hshort.exists_double
  exact ⟨x, hx, String.toList_inj.mp (htext.trans hchars.symm)⟩

end Written

def priceField : Field := ⟨"price", "price", true, true, none⟩

/-- Looks for texts that begin with a price. -/
def priceTerm : FilterTerm := ⟨"price_=12.5", ["price"], ["12.5"], ⟨.startsWith, false, false⟩⟩

def price : PlainNumeral where
  negative := false
  whole := ['1', '2']
  fraction := ['5']
  allDigits := by simp [AllDigits]
  whole_ne := by simp
  head_whole := by simp
  last_fraction := by simp

theorem holds_written_iff_priceTerm :
    priceTerm.operator.isTextual = true ∧ priceTerm.token.negated = false ∧
      priceTerm.token.insensitive = false ∧ priceField.reader = none ∧ "12.5" ≠ "null" ∧
      "12.5" ≠ "\\null" ∧ price.Short ∧ "12.5".toList = price.chars ∧
      (build priceTerm priceField "12.5" true).holds (.text "12.50 a piece") = true := by
  have hnull : "12.5" ≠ "null" := by decide
  have hescaped : "12.5" ≠ "\\null" := by decide
  have hshort : price.Short := ⟨by decide, by decide, 125, 0, by decide, by decide⟩
  have htext : "12.5".toList = price.chars := by decide
  obtain ⟨-, -, hplain⟩ := holds_written_iff (t := priceTerm) (f := priceField) (Or.inr rfl) rfl rfl
    rfl hnull hescaped true
  refine ⟨rfl, rfl, rfl, rfl, hnull, hescaped, hshort, htext, ?_⟩
  exact (hplain price hshort htext _).mpr ⟨"0 a piece".toList, by decide⟩

/-- A text of digits with a zero in front is not equal to itself. -/
theorem not_holds_as_written :
    ¬ ∀ (t : FilterTerm) (f : Field) (v s : String) (ignoreNulls : Bool),
      t.operator.isEquality = true ∨ t.operator.isTextual = true → t.token.negated = false →
      t.token.insensitive = false → f.reader = none → v ≠ "" → v ≠ "null" → v ≠ "\\null" →
        ((build t f v ignoreNulls).holds (.text s) = true ↔ t.operator.Asks v s) := by
  intro h
  have hfound := (h ⟨"price==042", ["price"], ["042"], ⟨.equals, false, false⟩⟩ priceField "042" "042"
    true (Or.inl rfl) rfl rfl rfl (by decide) (by decide) (by decide)).mpr rfl
  exact absurd hfound (by decide +kernel)

end Condition

end Criteria

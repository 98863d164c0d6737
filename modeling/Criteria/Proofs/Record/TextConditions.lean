import Criteria.Proofs.Text.FinalSigma
import Criteria.Record.Matching

/-!
# Conditions on texts

Equality and the text operators ask a text to stand in another: as the whole of it, at its start, at
its end, or anywhere. A condition that ignores case asks this of the lowercase of both texts, each of
them mapped by itself. Mostly that asks for less. But the lowercase of a part need not stand in the
lowercase of the whole, and so a text can be found with regard to case and not without: that happens
where a sigma at the border of the text that is looked for turns.
-/

namespace Criteria

open Text

/-- Where an operator lets a text stand in another, by what is left before and behind it. -/
def Operator.Admits (operator : Operator) (before after : List Char) : Prop :=
  match operator with
  | .equals => before = [] ∧ after = []
  | .startsWith => before = []
  | .endsWith => after = []
  | _ => True

theorem Operator.Admits.mono {operator : Operator} {before after before' after' : List Char}
    (h : operator.Admits before after) (hbefore : before = [] → before' = [])
    (hafter : after = [] → after' = []) : operator.Admits before' after' := by
  cases operator with
  | equals => exact ⟨hbefore h.1, hafter h.2⟩
  | startsWith => exact hbefore h
  | endsWith => exact hafter h
  | _ => trivial

theorem occursIn_iff {needle text : List Char} :
    occursIn needle text = true ↔ needle <:+: text := by
  induction text with
  | nil => rw [occursIn, List.isEmpty_iff, List.infix_nil]
  | cons c rest ih =>
    rw [occursIn, Bool.or_eq_true, List.isPrefixOf_iff_prefix, ih, List.infix_cons_iff]

theorem toList_foldCase (insensitive : Bool) (s : String) :
    (foldCase insensitive s).toList = if insensitive then lowercaseAfter [] s.toList else s.toList := by
  unfold foldCase
  cases insensitive with
  | false => rfl
  | true => exact String.toList_ofList

namespace Condition

/-- The same condition with or without regard to case. -/
def ignoringCase (on : Bool) (c : Condition) : Condition := { c with insensitive := on }

/-- The condition that asks for the contrary. -/
def opposite (c : Condition) : Condition :=
  match c.operator with
  | .equals => { c with operator := .notEquals }
  | .notEquals => { c with operator := .equals }
  | _ => { c with negated := !c.negated }

variable {c : Condition}

theorem findsText_iff {operator : Operator} (h : operator.isTextual = true) {needle text : List Char} :
    findsText operator needle text = true ↔
      ∃ before after, operator.Admits before after ∧ text = before ++ needle ++ after := by
  cases operator <;> simp only [Operator.isTextual, Bool.false_eq_true] at h
  · show occursIn needle text = true ↔ _
    rw [occursIn_iff]
    constructor
    · rintro ⟨before, after, rfl⟩
      exact ⟨before, after, trivial, rfl⟩
    · rintro ⟨before, after, -, rfl⟩
      exact ⟨before, after, rfl⟩
  · show needle.isPrefixOf text = true ↔ _
    rw [List.isPrefixOf_iff_prefix]
    constructor
    · rintro ⟨after, rfl⟩
      exact ⟨[], after, rfl, rfl⟩
    · rintro ⟨before, after, rfl, rfl⟩
      exact ⟨after, rfl⟩
  · show needle.isSuffixOf text = true ↔ _
    rw [List.isSuffixOf_iff_suffix]
    constructor
    · rintro ⟨before, rfl⟩
      exact ⟨before, [], rfl, (List.append_nil _).symm⟩
    · rintro ⟨before, after, rfl, rfl⟩
      exact ⟨before, (List.append_nil _).symm⟩

/-- A plain condition holds for a text in which the text of its value stands where it may. -/
theorem holds_text_iff (hop : c.operator = .equals ∨ c.operator.isTextual = true)
    (hplain : c.negated = false) {t : String} (hvalue : c.value.text? = some t) (s : String) :
    c.holds (.text s) = true ↔
      ∃ before after, c.operator.Admits before after ∧
        (foldCase c.insensitive s).toList = before ++ (foldCase c.insensitive t).toList ++ after := by
  obtain ⟨field, value, operator, negated, insensitive, ignoreNulls⟩ := c
  dsimp only at hop hplain hvalue ⊢
  subst hplain
  rcases hop with rfl | hop
  · have hequals : holds ⟨field, value, .equals, false, insensitive, ignoreNulls⟩ (.text s) =
        (foldCase insensitive s == foldCase insensitive t) := by
      cases value <;> simp_all [holds, FieldValue.equals, Value.text?]
    rw [hequals, beq_iff_eq, ← String.toList_inj]
    constructor
    · intro h
      exact ⟨[], [], ⟨rfl, rfl⟩, by rw [h, List.nil_append, List.append_nil]⟩
    · rintro ⟨before, after, ⟨rfl, rfl⟩, h⟩
      rwa [List.nil_append, List.append_nil] at h
  · rw [← findsText_iff hop]
    have htextual : holds ⟨field, value, operator, false, insensitive, ignoreNulls⟩ (.text s) =
        holdsForText ⟨field, value, operator, false, insensitive, ignoreNulls⟩ (.text s) := by
      cases operator <;> first | rfl | exact absurd hop (by decide)
    rw [htextual, holdsForText, hvalue]
    dsimp only [FieldValue.text?]
    rw [Bool.bne_false]

/-- Where nothing is null, a condition and its contrary give different answers. -/
theorem holds_opposite_of_not_null (hop : c.operator = .equals ∨ c.operator.isTextual = true)
    (hvalue : c.value.isNull = false) {v : FieldValue} (hv : v.isNull = false) :
    c.opposite.holds v = !c.holds v := by
  obtain ⟨field, value, operator, negated, insensitive, ignoreNulls⟩ := c
  dsimp only at hop hvalue
  rcases hop with rfl | hop
  · show (if value.isNull then _ else if v.isNull then _ else _) = _
    rw [hvalue, hv]
    rfl
  · obtain ⟨t, ht⟩ : ∃ t, value.text? = some t := by
      cases value <;> first | exact ⟨_, rfl⟩ | exact absurd hvalue (by decide)
    obtain ⟨s, hs⟩ : ∃ s, v.text? = some s := by
      cases v <;> first | exact ⟨_, rfl⟩ | exact absurd hv (by decide)
    cases operator <;> first
      | exact absurd hop (by decide)
      | show holdsForText _ _ = !holdsForText _ _
        simp [holdsForText, ht, hs, opposite]

theorem holds_opposite (hop : c.operator = .equals ∨ c.operator.isTextual = true)
    (hvalue : c.value.isNull = false) (s : String) :
    c.opposite.holds (.text s) = !c.holds (.text s) :=
  holds_opposite_of_not_null hop hvalue rfl

/-! ## With regard to case and without -/

section Case

variable {v : String} (hvalue : c.value = .text v)
  (hop : c.operator = .equals ∨ c.operator.isTextual = true) (hplain : c.negated = false)
include hvalue hop hplain

theorem holds_minding_iff (s : String) :
    (c.ignoringCase false).holds (.text s) = true ↔
      ∃ before after, c.operator.Admits before after ∧ s.toList = before ++ v.toList ++ after := by
  have h := holds_text_iff (c := c.ignoringCase false) hop hplain (t := v)
    (by rw [ignoringCase, hvalue]; rfl) s
  rw [ignoringCase, toList_foldCase, toList_foldCase] at h
  exact h

theorem holds_ignoring_iff (s : String) :
    (c.ignoringCase true).holds (.text s) = true ↔
      ∃ before after, c.operator.Admits before after ∧
        lowercaseAfter [] s.toList = before ++ lowercaseAfter [] v.toList ++ after := by
  have h := holds_text_iff (c := c.ignoringCase true) hop hplain (t := v)
    (by rw [ignoringCase, hvalue]; rfl) s
  rw [ignoringCase, toList_foldCase, toList_foldCase] at h
  exact h

/-- A text is found without regard to case in every place in which none of its sigmas turns. -/
theorem holds_ignoring_of_place {s : String} {before after : List Char}
    (hplace : c.operator.Admits before after) (hs : s.toList = before ++ v.toList ++ after)
    (hturns : ¬ SigmaTurns before.reverse v.toList after) :
    (c.ignoringCase true).holds (.text s) = true := by
  rw [holds_ignoring_iff hvalue hop hplain, hs, lowercaseAfter_parts,
    lowercaseBetween_eq_alone_iff.mpr hturns]
  refine ⟨_, _, hplace.mono ?_ ?_, (List.append_assoc ..).symm⟩
  · rintro rfl
    rfl
  · rintro rfl
    rfl

/-- A text of which a sigma turns in some place is missed in a text that has it in that place and one
letter more. -/
theorem exists_missed {before after : List Char} (hplace : c.operator.Admits before after)
    (hturns : SigmaTurns before v.toList after) :
    ∃ s, (c.ignoringCase false).holds (.text s) = true ∧
      (c.ignoringCase true).holds (.text s) = false := by
  rcases hturns.at_border with ⟨hcased, hborder⟩ | ⟨hcased, hborder⟩
  · refine ⟨String.ofList (v.toList ++ ['a']), ?_, ?_⟩
    · rw [holds_minding_iff hvalue hop hplain, String.toList_ofList]
      refine ⟨[], ['a'], hplace.mono (fun _ => rfl) ?_, rfl⟩
      rintro rfl
      exact absurd hcased (by decide)
    · rw [Bool.eq_false_iff, ne_eq, holds_ignoring_iff hvalue hop hplain, String.toList_ofList]
      rintro ⟨front, back, -, hfound⟩
      have hlt := count_final_lt hborder
      have hle := List.IsInfix.count_le 'ς' ⟨front, back, hfound.symm⟩
      omega
  · refine ⟨String.ofList ('a' :: v.toList), ?_, ?_⟩
    · rw [holds_minding_iff hvalue hop hplain, String.toList_ofList]
      refine ⟨['a'], [], hplace.mono ?_ fun _ => rfl, (List.append_nil _).symm⟩
      rintro rfl
      exact absurd hcased (by decide)
    · rw [Bool.eq_false_iff, ne_eq, holds_ignoring_iff hvalue hop hplain, String.toList_ofList]
      rintro ⟨front, back, -, hfound⟩
      have hlt := count_medial_lt hborder
      have hle := List.IsInfix.count_le 'σ' ⟨front, back, hfound.symm⟩
      omega

theorem missed_iff :
    (∀ s, (c.ignoringCase false).holds (.text s) = true →
        (c.ignoringCase true).holds (.text s) = true) ↔
      ¬ ∃ before after, c.operator.Admits before after ∧
        SigmaTurns before.reverse v.toList after := by
  constructor
  · rintro h ⟨before, after, hplace, hturns⟩
    have hplace' : c.operator.Admits before.reverse after :=
      hplace.mono List.reverse_eq_nil_iff.mpr id
    obtain ⟨s, hminding, hignoring⟩ := exists_missed hvalue hop hplain hplace' hturns
    rw [h s hminding] at hignoring
    exact absurd hignoring (by decide)
  · intro h s hminding
    obtain ⟨before, after, hplace, hs⟩ := (holds_minding_iff hvalue hop hplain s).mp hminding
    refine holds_ignoring_of_place hvalue hop hplain hplace hs fun hturns => ?_
    exact h ⟨before, after, hplace, hturns⟩

end Case

/-- When ignoring case is no stricter than minding it. For a text that is looked for, and each way of
looking, every text that is found with regard to case is found without, and every text that the
contrary condition finds without regard to case it finds with, unless the text has a capital sigma
that ends a word by itself and not in some place where it may stand, or the other way round. And any
text is found without regard to case if it has what is looked for in a single place in which no
sigma turns. -/
theorem found_ignoring_iff {c : Condition} {v : String} (hvalue : c.value = .text v)
    (hop : c.operator = .equals ∨ c.operator.isTextual = true) (hplain : c.negated = false) :
    ((∀ s, (c.ignoringCase false).holds (.text s) = true →
        (c.ignoringCase true).holds (.text s) = true) ↔
      ¬ ∃ before after, c.operator.Admits before after ∧
        SigmaTurns before.reverse v.toList after) ∧
    ((∀ s, (c.opposite.ignoringCase true).holds (.text s) = true →
        (c.opposite.ignoringCase false).holds (.text s) = true) ↔
      ¬ ∃ before after, c.operator.Admits before after ∧
        SigmaTurns before.reverse v.toList after) ∧
    ∀ s before after, c.operator.Admits before after → s.toList = before ++ v.toList ++ after →
      ¬ SigmaTurns before.reverse v.toList after →
        (c.ignoringCase true).holds (.text s) = true := by
  have hopposite : ∀ on s, (c.opposite.ignoringCase on).holds (.text s) =
      !(c.ignoringCase on).holds (.text s) := by
    intro on s
    have hnull : (c.ignoringCase on).value.isNull = false := by
      rw [ignoringCase, hvalue]
      rfl
    rw [← holds_opposite (c := c.ignoringCase on) hop hnull]
    rcases hop with hop | hop
    · simp [opposite, ignoringCase, hop]
    · cases hcase : c.operator <;> rw [hcase] at hop <;>
        first | exact absurd hop (by decide) | simp [opposite, ignoringCase, hcase]
  refine ⟨missed_iff hvalue hop hplain, ?_, fun s before after hplace hs hturns => ?_⟩
  · rw [← missed_iff hvalue hop hplain]
    refine forall_congr' fun s => ?_
    rw [hopposite, hopposite]
    cases (c.ignoringCase true).holds (.text s) <;>
      cases (c.ignoringCase false).holds (.text s) <;> decide
  · exact holds_ignoring_of_place hvalue hop hplain hplace hs hturns

/-- A condition that looks for a word that ends in a sigma. -/
def island : Condition := ⟨"place", .text "ΝΗΣΟΣ", .startsWith, false, false, true⟩

theorem found_ignoring_iff_island :
    island.value = .text "ΝΗΣΟΣ" ∧ island.operator.isTextual = true ∧ island.negated = false ∧
      (island.ignoringCase true).holds (.text "ΝΗΣΟΣ ΣΑΜΟΣ") = true := by
  obtain ⟨-, -, hplace⟩ := found_ignoring_iff (c := island) rfl (Or.inr rfl) rfl
  refine ⟨rfl, rfl, rfl, ?_⟩
  exact hplace _ [] " ΣΑΜΟΣ".toList rfl (by decide +kernel) (by decide +kernel)

/-- A word is missed without regard to case where its last sigma is followed by a letter. -/
theorem not_found_ignoring :
    ¬ ∀ (c : Condition) (v s : String), c.value = .text v →
      (c.operator = .equals ∨ c.operator.isTextual = true) → c.negated = false →
      (c.ignoringCase false).holds (.text s) = true →
        (c.ignoringCase true).holds (.text s) = true := by
  intro h
  have hfound := h island "ΝΗΣΟΣ" "ΝΗΣΟΣΑΜΟΣ" rfl (Or.inr rfl) rfl (by decide +kernel)
  exact absurd hfound (by decide +kernel)

end Condition

end Criteria

import Criteria.Proofs.Number.Integers
import Criteria.Record.Matching

/-!
# Conditions on integers

The digits of an integer make a condition that compares doubles, also with integers of records. It
answers for the two integers themselves unless they are different and share a double; then it
answers as if they were one. Integers of less than fifty-four bits share their doubles with none.
-/

namespace Criteria

open Numeral

/-- What an equality or an order asks of two integers; the text operators ask nothing of them. -/
def Operator.Relates : Operator → Int → Int → Prop
  | .equals, m, n => m = n
  | .notEquals, m, n => m ≠ n
  | .greaterThan, m, n => m > n
  | .lessThan, m, n => m < n
  | .greaterThanOrEqual, m, n => m ≥ n
  | .lessThanOrEqual, m, n => m ≤ n
  | _, _, _ => False

namespace Condition

/-- A condition on a number asks for the relation between whatever two integers stand in the same
order. -/
theorem holds_number_iff {c : Condition} {x : Double} {y : Numeral} {m n : Int}
    (hop : c.operator.isTextual = false) (hvalue : c.value = .number x)
    (horder : y.compare? (.double x) = some (compare m n)) :
    c.holds (.number y) = true ↔ c.operator.Relates m n := by
  have hequals : FieldValue.equals c.insensitive (.number y) (.number x) = true ↔ m = n := by
    show (y.compare? (.double x) == some .eq) = true ↔ m = n
    rw [horder, beq_iff_eq, Option.some.injEq, Int.compare_eq_eq]
  have hcompare : FieldValue.order? c.insensitive (.number y) (.number x) =
      some (compare m n) := horder
  unfold holds Operator.Relates
  rw [hvalue, hcompare]
  cases hcase : c.operator with
  | equals => exact hequals
  | notEquals =>
    show (!FieldValue.equals c.insensitive (.number y) (.number x)) = true ↔ m ≠ n
    rw [Bool.not_eq_true', Bool.eq_false_iff, ne_eq, hequals]
  | greaterThan => simp [Int.compare_eq_gt]
  | lessThan => simp [Int.compare_eq_lt]
  | greaterThanOrEqual => simp [Int.compare_ne_lt]
  | lessThanOrEqual => simp [Int.compare_ne_gt]
  | contains => rw [hcase] at hop; exact absurd hop (by decide)
  | startsWith => rw [hcase] at hop; exact absurd hop (by decide)
  | endsWith => rw [hcase] at hop; exact absurd hop (by decide)

variable {t : FilterTerm} {f : Field} {x y : Numeral}

theorem build_integer_value (hreader : f.reader = none) (hxy : SameIntegers x y)
    (ignoreNulls : Bool) : (build t f x.text ignoreNulls).value = .number x.toDouble := by
  have hread := ofText_text hxy
  have hword : ∀ word : String, Value.ofText word = .text word → x.text ≠ word := by
    rintro word hw rfl
    rw [hread] at hw
    exact absurd hw (by simp)
  have hnull : x.text ≠ "null" := hword _ (by decide +kernel)
  have hescaped : x.text ≠ "\\null" := hword _ (by decide +kernel)
  show readValue t.operator f.reader x.text = _
  rw [hreader, readValue_of_ne hnull hescaped, hread]

theorem compare?_toDouble (hxy : SameIntegers x y) :
    y.compare? (.double x.toDouble) = some (compare y.place x.place) := by
  cases x <;> cases y <;> first | exact absurd hxy id | rfl

/-- Integers with different doubles are in the order of the doubles. -/
theorem compare_place (hxy : SameIntegers x y) (hapart : x.toDouble = y.toDouble → x = y) :
    compare y.place x.place = compare y.whole x.whole := by
  have hplaces : ∀ {u v : Numeral}, SameIntegers u v → (u.toDouble = v.toDouble → u = v) →
      u.whole < v.whole → u.place < v.place := by
    intro u v huv hapart hlt
    have hle := huv.place_le (Int.le_of_lt hlt)
    have hne : u.place ≠ v.place := by
      intro heq
      unfold place at heq
      rw [toDouble_eq_ofInt huv, toDouble_eq_ofInt huv.symm] at heq
      have hdouble := Double.ofInt_eq_of_place_eq heq
      rw [← toDouble_eq_ofInt huv, ← toDouble_eq_ofInt huv.symm] at hdouble
      rw [hapart hdouble] at hlt
      omega
    omega
  rcases Int.lt_trichotomy y.whole x.whole with hlt | heq | hgt
  · have hback := hplaces hxy.symm (fun h => (hapart h.symm).symm) hlt
    rw [Int.compare_eq_lt.mpr hlt, Int.compare_eq_lt.mpr hback]
  · rw [hxy.symm.eq_of_whole_eq heq, Int.compare_eq_eq.mpr rfl, Int.compare_eq_eq.mpr rfl]
  · have hforth := hplaces hxy hapart hgt
    rw [Int.compare_eq_gt.mpr hgt, Int.compare_eq_gt.mpr hforth]

/-- What a condition with the digits of one integer says of another of its kind. It asks for the
relation between the two if they do not share a double, and answers as for one integer twice if they
do; and they share none if one of them has at most fifty-three bits and they are different. -/
theorem holds_integer_iff (hop : t.operator.isTextual = false) (hreader : f.reader = none)
    (hxy : SameIntegers x y) (ignoreNulls : Bool) :
    ((x.toDouble = y.toDouble → x = y) →
      ((build t f x.text ignoreNulls).holds (.number y) = true ↔
        t.operator.Relates y.whole x.whole)) ∧
    (x.toDouble = y.toDouble →
      ((build t f x.text ignoreNulls).holds (.number y) = true ↔
        t.operator.Relates x.whole x.whole)) ∧
    (x.whole.natAbs < 2 ^ 53 ∨ y.whole.natAbs < 2 ^ 53 → x.toDouble = y.toDouble → x = y) := by
  have hvalue := build_integer_value (t := t) hreader hxy ignoreNulls
  have hcompare := compare?_toDouble hxy
  refine ⟨fun hapart => ?_, fun hshared => ?_, fun hsmall hshared => ?_⟩
  · rw [compare_place hxy hapart] at hcompare
    exact holds_number_iff hop hvalue hcompare
  · have hplace : x.place = y.place := congrArg Double.place hshared
    have hself : compare y.place x.place = compare x.whole x.whole := by
      rw [hplace, Int.compare_eq_eq.mpr rfl, Int.compare_eq_eq.mpr rfl]
    rw [hself] at hcompare
    exact holds_number_iff hop hvalue hcompare
  · rw [toDouble_eq_ofInt hxy, toDouble_eq_ofInt hxy.symm] at hshared
    refine hxy.eq_of_whole_eq ?_
    rcases hsmall with hx | hy
    · exact Double.eq_of_ofInt_eq hx hshared
    · exact (Double.eq_of_ofInt_eq hy hshared.symm).symm

def idField : Field := ⟨"id", "id", true, true, none⟩

/-- Compares with the first integer beyond the fifty-three bits of a double. -/
def idTerm (operator : Operator) : FilterTerm :=
  ⟨"id" ++ operator.sign ++ "9007199254740993", ["id"], ["9007199254740993"],
    ⟨operator, false, false⟩⟩

theorem holds_integer_iff_idTerm :
    (idTerm .greaterThan).operator.isTextual = false ∧ idField.reader = none ∧
      SameIntegers (.int 9007199254740993) (.int 9007199254740994) ∧
      (build (idTerm .greaterThan) idField "9007199254740993" true).holds
        (.number (.int 9007199254740994)) = true := by
  have hsame : SameIntegers (.int 9007199254740993) (.int 9007199254740994) := trivial
  obtain ⟨hexact, -, -⟩ := holds_integer_iff (t := idTerm .greaterThan) rfl
    (show idField.reader = none from rfl) hsame true
  have htext : (int 9007199254740993).text = "9007199254740993" := by decide +kernel
  have hapart : (int 9007199254740993).toDouble ≠ (int 9007199254740994).toDouble := by
    decide +kernel
  rw [htext] at hexact
  refine ⟨rfl, rfl, hsame, (hexact fun hshared => absurd hshared hapart).mpr ?_⟩
  show (9007199254740994 : Int64).toInt > (9007199254740993 : Int64).toInt
  decide

/-- The integer before it is found by its digits as well. -/
theorem not_holds_exactly :
    ¬ ∀ (t : FilterTerm) (f : Field) (x y : Numeral) (ignoreNulls : Bool),
      t.operator.isTextual = false → f.reader = none → SameIntegers x y →
        ((build t f x.text ignoreNulls).holds (.number y) = true ↔
          t.operator.Relates y.whole x.whole) := by
  intro h
  have hfound : (build (idTerm .equals) idField (int 9007199254740993).text true).holds
      (.number (.int 9007199254740992)) = true := by decide +kernel
  have hequal := (h (idTerm .equals) idField (.int 9007199254740993) (.int 9007199254740992) true
    rfl rfl trivial).mp hfound
  have hdiffer : (9007199254740992 : Int64).toInt ≠ (9007199254740993 : Int64).toInt := by decide
  exact hdiffer hequal

end Condition

end Criteria

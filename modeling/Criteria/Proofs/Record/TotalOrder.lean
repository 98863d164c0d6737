import Criteria.Proofs.Number.Rounding
import Criteria.Record.Query
import Mathlib.Tactic.ByContra

/-!
# How far the order of values is total

Values of different kinds are ordered by their kinds, and texts and truth values among themselves.
Numbers are ordered by the doubles they round to, with what is no number behind all others, except
that two integers of one kind are compared exactly. The two ways of comparing numbers do not fit
together: two different integers of one kind that round to one double are both equal to it. That is
the only way in which three values can break the law of transitivity.
-/

namespace Criteria

namespace Double

/-- Where a double stands among the others; what is no number stands behind infinity. -/
def place : Double → Int
  | nan => Magnitude.infinity.rank + 1
  | signed negative m => key negative m

@[simp] theorem place_nan : nan.place = Magnitude.infinity.rank + 1 := rfl

@[simp] theorem place_signed (negative : Bool) (m : Magnitude) :
    (signed negative m).place = key negative m := rfl

theorem key_le_infinity (negative : Bool) (m : Magnitude) :
    key negative m ≤ Magnitude.infinity.rank := by
  have hm : m.rank ≤ Magnitude.infinity.rank := m.rank_le
  unfold key
  split
  · omega
  · omega

/-- Doubles that are equal as numbers stand at one place, which is that of a number. -/
theorem compare?_eq_iff {a b : Double} :
    a.compare? b = some .eq ↔ a.place = b.place ∧ a.place ≤ Magnitude.infinity.rank := by
  cases a with
  | nan =>
    rw [compare?_nan_left, place_nan]
    constructor
    · intro h
      exact absurd h (by simp)
    · rintro ⟨-, hle⟩
      omega
  | signed s m =>
    have hm := key_le_infinity s m
    cases b with
    | nan =>
      rw [compare?_nan_right, place_nan, place_signed]
      constructor
      · intro h
        exact absurd h (by simp)
      · rintro ⟨heq, -⟩
        omega
    | signed t n =>
      rw [compare?, Option.some.injEq, Int.compare_eq_eq]
      exact ⟨fun heq => ⟨heq, hm⟩, fun h => h.1⟩

/-- Doubles are ordered by their places; what has no order stands behind all numbers. -/
theorem getD_compare? (a b : Double) :
    (a.compare? b).getD (compare a.isNaN b.isNaN) = compare a.place b.place := by
  cases a with
  | nan =>
    cases b with
    | nan => exact (Int.compare_eq_eq.mpr rfl).symm
    | signed t n =>
      have hn := key_le_infinity t n
      have hlt : (signed t n).place < nan.place := by
        rw [place_nan, place_signed]
        omega
      exact (Int.compare_eq_gt.mpr hlt).symm
  | signed s m =>
    cases b with
    | nan =>
      have hm := key_le_infinity s m
      have hlt : (signed s m).place < nan.place := by
        rw [place_nan, place_signed]
        omega
      exact (Int.compare_eq_lt.mpr hlt).symm
    | signed t n => rfl

end Double

namespace Numeral

/-- Where the double that a number rounds to stands among the others. -/
def place (x : Numeral) : Int := x.toDouble.place

/-- The whole number that an integer is. -/
def whole : Numeral → Int
  | int n => n.toInt
  | nat n => n.toNat
  | double _ => 0

/-- Two integers of one kind, which are compared exactly. -/
def SameIntegers : Numeral → Numeral → Prop
  | int _, int _ => True
  | nat _, nat _ => True
  | _, _ => False

instance : DecidableRel SameIntegers := fun x y => by
  cases x <;> cases y <;> unfold SameIntegers <;> infer_instance

/-- Two different integers of one kind that round to the double of a number of another kind. -/
structure Blurred (x y z : Numeral) : Prop where
  integers : SameIntegers x z
  other : ¬ SameIntegers x y
  differ : x ≠ z
  left : x.toDouble.compare? y.toDouble = some .eq
  right : y.toDouble.compare? z.toDouble = some .eq

theorem SameIntegers.symm {x y : Numeral} (h : SameIntegers x y) : SameIntegers y x := by
  cases x <;> cases y <;> trivial

theorem SameIntegers.trans {x y z : Numeral} (hxy : SameIntegers x y) (hyz : SameIntegers y z) :
    SameIntegers x z := by
  cases x <;> cases y <;> cases z <;> trivial

theorem SameIntegers.eq_of_whole_eq {x y : Numeral} (h : SameIntegers x y)
    (hw : x.whole = y.whole) : x = y := by
  cases x <;> cases y <;> simp only [SameIntegers] at h
  · rw [Int64.toInt_inj.mp hw]
  · rw [UInt64.toNat_inj.mp (Int.ofNat_inj.mp hw)]

theorem place_int (n : Int64) : (int n).place = Double.keyOfInt n.toInt := rfl

theorem place_nat (n : UInt64) : (nat n).place = Double.keyOfInt n.toNat := rfl

theorem SameIntegers.place_le {x y : Numeral} (h : SameIntegers x y) (hw : x.whole ≤ y.whole) :
    x.place ≤ y.place := by
  cases x <;> cases y <;> simp only [SameIntegers] at h
  · rw [place_int, place_int]
    exact Double.keyOfInt_mono hw
  · rw [place_nat, place_nat]
    exact Double.keyOfInt_mono hw

theorem SameIntegers.place_le_infinity {x y : Numeral} (h : SameIntegers x y) :
    x.place ≤ Magnitude.infinity.rank := by
  cases x <;> cases y <;> simp only [SameIntegers] at h
  · rw [place_int]
    exact Double.key_le_infinity _ _
  · rw [place_nat]
    exact Double.key_le_infinity _ _

end Numeral

namespace FieldValue

open Numeral

/-- The law of transitivity at three values: what comes no later than something that comes no later
than a third comes no later than the third, and what is equal to an equal is equal. -/
structure Chained (a b c : FieldValue) : Prop where
  ordered : compareTotal a b ≠ .gt → compareTotal b c ≠ .gt → compareTotal a c ≠ .gt
  equal : compareTotal a b = .eq → compareTotal b c = .eq → compareTotal a c = .eq

/-- Three values obey the law if they are compared by something that obeys it. -/
theorem Chained.of_transCmp {α : Type} (cmp : α → α → Ordering) [Std.TransCmp cmp] {u v w : α}
    {a b c : FieldValue} (hab : compareTotal a b = cmp u v) (hbc : compareTotal b c = cmp v w)
    (hac : compareTotal a c = cmp u w) : Chained a b c := by
  constructor
  · rw [hab, hbc, hac]
    intro huv hvw
    rw [ne_eq, Ordering.ne_gt_iff_isLE] at huv hvw ⊢
    exact Std.TransCmp.isLE_trans huv hvw
  · rw [hab, hbc, hac]
    intro huv hvw
    exact Std.TransCmp.eq_trans huv hvw

/-! ## Kinds -/

theorem compareTotal_of_kindRank_ne {a b : FieldValue} (h : a.kindRank ≠ b.kindRank) :
    compareTotal a b = compare a.kindRank b.kindRank := by
  cases a <;> cases b <;> first | rfl | exact absurd rfl h

theorem kindRank_le {a b : FieldValue} (h : compareTotal a b ≠ .gt) :
    a.kindRank ≤ b.kindRank := by
  by_contra hlt
  have hne : a.kindRank ≠ b.kindRank := by omega
  rw [compareTotal_of_kindRank_ne hne] at h
  exact h (Nat.compare_eq_gt.mpr (by omega))

theorem kindRank_eq {a b : FieldValue} (h : compareTotal a b = .eq) :
    a.kindRank = b.kindRank := by
  by_contra hne
  rw [compareTotal_of_kindRank_ne hne] at h
  exact hne (Nat.compare_eq_eq.mp h)

/-- The kinds decide the law unless all three values are of one kind. -/
theorem Chained.of_kindRank_ne {a b c : FieldValue}
    (h : a.kindRank ≠ b.kindRank ∨ b.kindRank ≠ c.kindRank) : Chained a b c := by
  constructor
  · intro hab hbc
    have hle := kindRank_le hab
    have hle' := kindRank_le hbc
    rw [compareTotal_of_kindRank_ne (by omega), Nat.compare_ne_gt]
    omega
  · intro hab hbc
    have heq := kindRank_eq hab
    have heq' := kindRank_eq hbc
    omega

/-! ## Numbers -/

theorem compareTotal_integers {x y : Numeral} (h : SameIntegers x y) :
    compareTotal (number x) (number y) = compare x.whole y.whole := by
  cases x <;> cases y <;> simp only [SameIntegers] at h
  · rfl
  · rename_i m n
    show compare m.toNat n.toNat = compare (m.toNat : Int) (n.toNat : Int)
    rcases Nat.lt_trichotomy m.toNat n.toNat with hlt | heq | hgt
    · rw [Nat.compare_eq_lt.mpr hlt, Int.compare_eq_lt.mpr (by omega)]
    · rw [Nat.compare_eq_eq.mpr heq, Int.compare_eq_eq.mpr (by omega)]
    · rw [Nat.compare_eq_gt.mpr hgt, Int.compare_eq_gt.mpr (by omega)]

/-- Numbers that are not integers of one kind are ordered by the places of their doubles. -/
theorem compareTotal_places {x y : Numeral} (h : ¬ SameIntegers x y) :
    compareTotal (number x) (number y) = compare x.place y.place := by
  have hcompare : x.compare? y = x.toDouble.compare? y.toDouble := by
    cases x <;> cases y <;> first | rfl | exact absurd trivial h
  rw [compareTotal, FieldValue.compare?, hcompare]
  exact Double.getD_compare? x.toDouble y.toDouble

theorem place_le {x y : Numeral} (h : compareTotal (number x) (number y) ≠ .gt) :
    x.place ≤ y.place := by
  by_cases hs : SameIntegers x y
  · rw [compareTotal_integers hs, Int.compare_ne_gt] at h
    exact hs.place_le h
  · rw [compareTotal_places hs, Int.compare_ne_gt] at h
    exact h

theorem place_eq {x y : Numeral} (h : compareTotal (number x) (number y) = .eq) :
    x.place = y.place := by
  by_cases hs : SameIntegers x y
  · rw [compareTotal_integers hs, Int.compare_eq_eq] at h
    rw [hs.eq_of_whole_eq h]
  · rw [compareTotal_places hs, Int.compare_eq_eq] at h
    exact h

theorem blurred_of_place_eq {x y z : Numeral} (hxz : SameIntegers x z) (hxy : ¬ SameIntegers x y)
    (hne : x ≠ z) (heq : x.place = y.place) (heq' : y.place = z.place) : Blurred x y z := by
  have hx : x.place ≤ Magnitude.infinity.rank := hxz.place_le_infinity
  have hy : y.place ≤ Magnitude.infinity.rank := by omega
  refine ⟨hxz, hxy, hne, ?_, ?_⟩
  · exact Double.compare?_eq_iff.mpr ⟨heq, hx⟩
  · exact Double.compare?_eq_iff.mpr ⟨heq', hy⟩

/-- A number of another kind between two integers stands between their values unless it blurs
them. -/
theorem whole_le_of_between {x y z : Numeral} (h : ¬ Blurred x y z) (hxz : SameIntegers x z)
    (hxy : ¬ SameIntegers x y) (hle : x.place ≤ y.place) (hle' : y.place ≤ z.place) :
    x.whole ≤ z.whole := by
  by_contra hlt
  have hback : z.place ≤ x.place := hxz.symm.place_le (by omega)
  have heq : x.place = y.place := by omega
  have heq' : y.place = z.place := by omega
  have hne : x ≠ z := by
    intro hx
    rw [hx] at hlt
    exact hlt (Int.le_refl _)
  exact h (blurred_of_place_eq hxz hxy hne heq heq')

theorem Chained.of_not_blurred {x y z : Numeral} (h : ¬ Blurred x y z) :
    Chained (number x) (number y) (number z) := by
  by_cases hxz : SameIntegers x z
  · by_cases hxy : SameIntegers x y
    · have hyz : SameIntegers y z := hxy.symm.trans hxz
      exact .of_transCmp compare (compareTotal_integers hxy) (compareTotal_integers hyz)
        (compareTotal_integers hxz)
    · constructor
      · intro hle hle'
        rw [compareTotal_integers hxz, Int.compare_ne_gt]
        exact whole_le_of_between h hxz hxy (place_le hle) (place_le hle')
      · intro heq heq'
        rw [compareTotal_integers hxz, Int.compare_eq_eq]
        by_contra hne
        have hxz' : x ≠ z := fun hx => hne (congrArg whole hx)
        exact h (blurred_of_place_eq hxz hxy hxz' (place_eq heq) (place_eq heq'))
  · constructor
    · intro hle hle'
      rw [compareTotal_places hxz, Int.compare_ne_gt]
      exact Int.le_trans (place_le hle) (place_le hle')
    · intro heq heq'
      rw [compareTotal_places hxz, Int.compare_eq_eq]
      exact (place_eq heq).trans (place_eq heq')

/-- Blurred numbers break the law: the two integers are equal to the number between them and not to
each other. -/
theorem not_chained_of_blurred {x y z : Numeral} (h : Blurred x y z) :
    ¬ Chained (number x) (number y) (number z) := by
  intro hc
  have hyz : ¬ SameIntegers y z := fun hyz => h.other (h.integers.trans hyz.symm)
  obtain ⟨heq, -⟩ := Double.compare?_eq_iff.mp h.left
  obtain ⟨heq', -⟩ := Double.compare?_eq_iff.mp h.right
  have hxy : compareTotal (number x) (number y) = .eq := by
    rw [compareTotal_places h.other, Int.compare_eq_eq]
    exact heq
  have hyz' : compareTotal (number y) (number z) = .eq := by
    rw [compareTotal_places hyz, Int.compare_eq_eq]
    exact heq'
  have hxz := hc.equal hxy hyz'
  rw [compareTotal_integers h.integers, Int.compare_eq_eq] at hxz
  exact h.differ (h.integers.eq_of_whole_eq hxz)

/-! ## All values -/

theorem Chained.of_forall_not_blurred {a b c : FieldValue}
    (h : ∀ x y z, a = number x → b = number y → c = number z → ¬ Blurred x y z) :
    Chained a b c := by
  by_cases hkinds : a.kindRank ≠ b.kindRank ∨ b.kindRank ≠ c.kindRank
  · exact .of_kindRank_ne hkinds
  · cases a with
    | bool u =>
      cases b <;> cases c <;> simp [kindRank] at hkinds
      exact .of_transCmp compare rfl rfl rfl
    | number x =>
      cases b <;> cases c <;> simp [kindRank] at hkinds
      exact .of_not_blurred (h _ _ _ rfl rfl rfl)
    | text s =>
      cases b <;> cases c <;> simp [kindRank] at hkinds
      exact .of_transCmp compare rfl rfl rfl
    | null =>
      cases b <;> cases c <;> simp [kindRank] at hkinds
      exact ⟨fun _ _ => by decide, fun _ _ => rfl⟩

/-- The order of values is transitive at all values but blurred numbers: what comes no later than
something that comes no later than a third comes no later than the third, and what is equal to an
equal is equal, unless two different integers of one kind stand around a number of another kind
whose double both round to. -/
theorem compareTotal_trans_iff (a b c : FieldValue) :
    ((compareTotal a b ≠ .gt → compareTotal b c ≠ .gt → compareTotal a c ≠ .gt) ∧
      (compareTotal a b = .eq → compareTotal b c = .eq → compareTotal a c = .eq)) ↔
    ¬ ∃ x y z, a = number x ∧ b = number y ∧ c = number z ∧ Blurred x y z := by
  constructor
  · rintro ⟨hordered, hequal⟩ ⟨x, y, z, rfl, rfl, rfl, hblurred⟩
    exact not_chained_of_blurred hblurred ⟨hordered, hequal⟩
  · intro h
    have hchained : Chained a b c := by
      refine .of_forall_not_blurred ?_
      rintro x y z rfl rfl rfl hblurred
      exact h ⟨x, y, z, rfl, rfl, rfl, hblurred⟩
    exact ⟨hchained.ordered, hchained.equal⟩

/-- The order is not transitive: the first two integers beyond the fifty-three bits of a double
round to one double, so that both are equal to it, and the greater of them is not equal to the
other. -/
theorem compareTotal_not_transitive :
    ¬ ∀ a b c : FieldValue,
      (compareTotal a b ≠ .gt → compareTotal b c ≠ .gt → compareTotal a c ≠ .gt) ∧
      (compareTotal a b = .eq → compareTotal b c = .eq → compareTotal a c = .eq) := by
  intro h
  have hends := (h (number (.int 9007199254740993)) (number (.double (.ofInt 9007199254740992)))
    (number (.int 9007199254740992))).1
  exact hends (by decide +kernel) (by decide +kernel) (by decide +kernel)

end FieldValue

end Criteria

import Criteria.Proofs.Number.NearestMagnitudes
import Criteria.Proofs.Number.WrittenDecimals
import Criteria.Proofs.Text.Bytes

/-!
# What a number is written as

A number is written in two ways: as a whole number below `2 ^ 64` behind the mark of a base, or, without
such a mark, as a decimal that is not rounded to infinity. In both it is the number nearest to what is
written. What is read as a number is exactly what is written so.
-/

namespace Criteria

open Text

/-! ## Marks -/

/-- A base that has marks. -/
inductive Base where
  | sixteen
  | eight
  | two

namespace Base

def size : Base → Nat
  | sixteen => 16
  | eight => 8
  | two => 2

def marks : Base → List (List Char)
  | sixteen => ["0x".toList, "0X".toList]
  | eight => ["0o".toList, "0O".toList]
  | two => ["0b".toList, "0B".toList]

def digitChars : Base → List Char
  | sixteen => "0123456789abcdefABCDEF".toList
  | eight => "01234567".toList
  | two => "01".toList

theorem toNat_lt_of_isDigitOf {base : Nat} {c : Char} (h : isDigitOf base c = true) :
    c.toNat < 128 := by
  simp only [isDigitOf, Bool.and_eq_true, Bool.or_eq_true, decide_eq_true_eq] at h
  have hle : ∀ d : Char, c ≤ d → c.toNat ≤ d.toNat := fun d hd => hd
  rcases h.1 with (hdigit | ⟨-, hletter⟩) | ⟨-, hletter⟩
  · have hbounds := digit_bounds hdigit
    omega
  · exact Nat.lt_of_le_of_lt (hle 'z' hletter) (by decide)
  · exact Nat.lt_of_le_of_lt (hle 'Z' hletter) (by decide)

theorem size_le (base : Base) : base.size ≤ 16 := by
  cases base with
  | sixteen => decide
  | eight => decide
  | two => decide

theorem digitValue_eq_place (base : Base) {c : Char} (h : isDigitOf base.size c = true) :
    digitValue c = digitPlace c := by
  have hsixteen : isDigitOf 16 c = true := by
    have hsize := base.size_le
    simp only [isDigitOf, Bool.and_eq_true, decide_eq_true_eq] at h ⊢
    exact ⟨h.1, by omega⟩
  refine forall_ascii (p := fun c => isDigitOf 16 c = true → digitValue c = digitPlace c) ?_
    (toNat_lt_of_isDigitOf h) hsixteen
  decide +kernel

theorem isDigitOf_iff (base : Base) (c : Char) :
    isDigitOf base.size c = true ↔ c ∈ base.digitChars := by
  have hascii : base.digitChars.all (fun c => decide (c.toNat < 128)) = true := by
    cases base with
    | sixteen => decide
    | eight => decide
    | two => decide
  by_cases hc : c.toNat < 128
  · refine forall_ascii (p := fun c => isDigitOf base.size c = true ↔ c ∈ base.digitChars) ?_ hc
    cases base with
    | sixteen => decide +kernel
    | eight => decide +kernel
    | two => decide +kernel
  · constructor
    · intro h
      exact absurd (toNat_lt_of_isDigitOf h) hc
    · intro h
      exact absurd (of_decide_eq_true (List.all_eq_true.mp hascii c h)) hc

end Base

namespace Value

theorem basePart?_eq_some_iff {cs rest : List Char} {k : Nat} : basePart? cs = some (k, rest) ↔
    ∃ base : Base, base.size = k ∧ ∃ mark ∈ base.marks, cs = mark ++ rest := by
  constructor
  · intro h
    unfold basePart? at h
    split at h
    · obtain ⟨rfl, rfl⟩ := Prod.mk.inj (Option.some.inj h)
      exact ⟨.sixteen, rfl, "0x".toList, by decide, rfl⟩
    · obtain ⟨rfl, rfl⟩ := Prod.mk.inj (Option.some.inj h)
      exact ⟨.sixteen, rfl, "0X".toList, by decide, rfl⟩
    · obtain ⟨rfl, rfl⟩ := Prod.mk.inj (Option.some.inj h)
      exact ⟨.eight, rfl, "0o".toList, by decide, rfl⟩
    · obtain ⟨rfl, rfl⟩ := Prod.mk.inj (Option.some.inj h)
      exact ⟨.eight, rfl, "0O".toList, by decide, rfl⟩
    · obtain ⟨rfl, rfl⟩ := Prod.mk.inj (Option.some.inj h)
      exact ⟨.two, rfl, "0b".toList, by decide, rfl⟩
    · obtain ⟨rfl, rfl⟩ := Prod.mk.inj (Option.some.inj h)
      exact ⟨.two, rfl, "0B".toList, by decide, rfl⟩
    · exact absurd h (by simp)
  · rintro ⟨base, rfl, mark, hmark, rfl⟩
    cases base with
    | sixteen =>
      rcases List.mem_pair.mp hmark with rfl | rfl
      · rfl
      · rfl
    | eight =>
      rcases List.mem_pair.mp hmark with rfl | rfl
      · rfl
      · rfl
    | two =>
      rcases List.mem_pair.mp hmark with rfl | rfl
      · rfl
      · rfl

theorem basePart?_eq_none_iff {cs : List Char} :
    basePart? cs = none ↔ ∀ base : Base, ∀ mark ∈ base.marks, ¬ mark <+: cs := by
  constructor
  · rintro hnone base mark hmark ⟨rest, hrest⟩
    rw [basePart?_eq_some_iff.mpr ⟨base, rfl, mark, hmark, hrest.symm⟩] at hnone
    exact absurd hnone (by simp)
  · intro h
    cases hpart : basePart? cs with
    | none => rfl
    | some part =>
      obtain ⟨base, -, mark, hmark, hcs⟩ := basePart?_eq_some_iff.mp hpart
      exact absurd ⟨part.2, hcs.symm⟩ (h base mark hmark)

end Value

/-- A whole number as written behind the mark of a base. -/
structure MarkedNumeral where
  base : Base
  mark : List Char
  digits : List Char
  mark_mem : mark ∈ base.marks
  digits_mem : ∀ c ∈ digits, c ∈ base.digitChars
  digits_ne : digits ≠ []

namespace MarkedNumeral

variable (n : MarkedNumeral)

/-- The number as written. -/
def chars : List Char := n.mark ++ n.digits

def value : Nat := placeValue n.base.size n.digits

theorem basePart?_chars : Value.basePart? n.chars = some (n.base.size, n.digits) :=
  Value.basePart?_eq_some_iff.mpr ⟨n.base, rfl, n.mark, n.mark_mem, rfl⟩

theorem all_digits : n.digits.all (isDigitOf n.base.size) = true := by
  rw [List.all_eq_true]
  intro c hc
  exact (n.base.isDigitOf_iff c).mpr (n.digits_mem c hc)

theorem value_eq : n.value = ofDigits n.base.size n.digits := by
  refine (ofDigits_eq_placeValue _ fun c hc => ?_).symm
  exact n.base.digitValue_eq_place (List.all_eq_true.mp n.all_digits c hc)

/-- Digits of a base behind its mark are a number. -/
theorem exists_of_basePart? {cs digits : List Char} {k : Nat}
    (hpart : Value.basePart? cs = some (k, digits)) (hne : digits ≠ [])
    (hall : ∀ c ∈ digits, isDigitOf k c = true) :
    ∃ n : MarkedNumeral, n.chars = cs ∧ n.value = ofDigits k digits := by
  obtain ⟨base, rfl, mark, hmark, rfl⟩ := Value.basePart?_eq_some_iff.mp hpart
  have hdigits : ∀ c ∈ digits, c ∈ base.digitChars := by
    intro c hc
    exact (base.isDigitOf_iff c).mp (hall c hc)
  exact ⟨⟨base, mark, digits, hmark, hdigits, hne⟩, rfl, value_eq _⟩

end MarkedNumeral

namespace Value

/-! ## The grammar -/

/-- The number that a text is written for. -/
inductive Reads : List Char → Double → Prop
  | marked (n : MarkedNumeral) (m : Magnitude) (fits : n.value < 2 ^ 64)
      (nearest : m.IsNearest n.value) : Reads n.chars (.signed false m)
  | decimal (n : WrittenDecimal) (m : Magnitude)
      (unmarked : ∀ base : Base, ∀ mark ∈ base.marks, ¬ mark <+: n.chars)
      (nearest : m.IsNearest n.magnitude) (finite : m.isFinite = true) :
      Reads n.chars (.signed n.negative m)

theorem isNearest_ofNat (k : Nat) : (Magnitude.ofNat k).IsNearest k := by
  have hnearest := Magnitude.isNearest_nearest k Nat.one_pos
  rwa [Nat.cast_one, div_one] at hnearest

theorem ofInt_natCast (k : Nat) : Double.ofInt k = .signed false (.ofNat k) := by
  rw [Double.ofInt, Int.natAbs_natCast, decide_eq_false (Int.not_lt.mpr (Int.natCast_nonneg k))]

variable {cs : List Char} {x : Double}

theorem reads_of_number? (h : number? cs = some x) : Reads cs x := by
  unfold number? at h
  split at h
  · next k digits hpart =>
    split at h
    · next hread =>
      simp only [Bool.and_eq_true, Bool.not_eq_true', List.isEmpty_eq_false_iff, List.all_eq_true,
        decide_eq_true_eq] at hread
      obtain ⟨⟨hne, hall⟩, hfits⟩ := hread
      obtain ⟨n, rfl, hvalue⟩ := MarkedNumeral.exists_of_basePart? hpart hne hall
      rw [← hvalue] at h hfits
      rw [← Option.some.inj h, ofInt_natCast]
      exact Reads.marked n _ hfits (isNearest_ofNat n.value)
    · exact absurd h (by simp)
  · next hpart =>
    obtain ⟨hread, hfinite⟩ := Option.filter_eq_some_iff.mp h
    obtain ⟨d, hd, rfl⟩ := Option.map_eq_some_iff.mp hread
    obtain ⟨n, rfl, rfl⟩ := WrittenDecimal.read?_eq_some_iff.mp hd
    refine Reads.decimal n _ (basePart?_eq_none_iff.mp hpart) ?_ hfinite
    rw [n.magnitude_eq]
    exact Magnitude.isNearest_ofDecimal _ _

theorem number?_of_reads (h : Reads cs x) : number? cs = some x := by
  unfold number?
  cases h with
  | marked n m hfits hnearest =>
    obtain rfl := hnearest.unique (isNearest_ofNat n.value)
    have hne : n.digits.isEmpty = false := List.isEmpty_eq_false_iff.mpr n.digits_ne
    have hfits' : n.value < UInt64.size := hfits
    rw [n.basePart?_chars]
    dsimp only
    rw [← n.value_eq, hne, n.all_digits, decide_eq_true hfits', ofInt_natCast]
    rfl
  | decimal n m hunmarked hnearest hfinite =>
    rw [n.magnitude_eq] at hnearest
    obtain rfl := hnearest.unique (Magnitude.isNearest_ofDecimal _ _)
    rw [basePart?_eq_none_iff.mpr hunmarked]
    dsimp only
    rw [n.read?_chars]
    exact Option.filter_eq_some_iff.mpr ⟨rfl, hfinite⟩

/-- A text is read as the number that it is written for. -/
theorem number?_eq_some_iff : number? cs = some x ↔ Reads cs x :=
  ⟨reads_of_number?, number?_of_reads⟩

theorem number?_eq_none_iff : number? cs = none ↔ ∀ x, ¬ Reads cs x := by
  rw [Option.eq_none_iff_forall_ne_some]
  exact forall_congr' fun x => not_congr number?_eq_some_iff

end Value

end Criteria

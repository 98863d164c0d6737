import Criteria.Proofs.Number.Digits
import Criteria.Value

/-!
# Numbers written without an exponent

A number may be written by its digits alone, with a point among them and no digit that could be left
out. What is written so is read by its digits, and the plain text of a decimal is written so. The
digits tell how it is written, apart from the place of the point: in front of them stand as many
zeros as the point asks for.
-/

namespace Criteria

open Layout

/-- A number written without an exponent and without digits that could be left out. -/
structure PlainNumeral where
  /-- A minus stands in front. -/
  negative : Bool
  /-- The digits before the point. -/
  whole : List Char
  /-- The digits behind the point; without them there is no point. -/
  fraction : List Char
  allDigits : AllDigits (whole ++ fraction)
  whole_ne : whole ≠ []
  head_whole : whole.head? = some '0' → whole = ['0']
  last_fraction : fraction.getLast? ≠ some '0'

namespace PlainNumeral

variable (p : PlainNumeral)

/-- The digits behind the point, and the point. -/
def pointPart (fraction : List Char) : List Char :=
  if fraction.isEmpty then [] else '.' :: fraction

/-- The number as written. -/
def chars : List Char :=
  (if p.negative then ['-'] else []) ++ (p.whole ++ pointPart p.fraction)

/-- All digits, read as one number. -/
def digits : Nat := ofDigits 10 (p.whole ++ p.fraction)

theorem whole_digits : AllDigits p.whole := p.allDigits.of_subset (List.subset_append_left ..)

theorem fraction_digits : AllDigits p.fraction :=
  p.allDigits.of_subset (List.subset_append_right ..)

/-! ## Reading -/

theorem takeSign_chars : takeSign p.chars = (p.negative, p.whole ++ pointPart p.fraction) := by
  have hunsigned : ∀ c ∈ (p.whole ++ pointPart p.fraction).head?, c ≠ '-' ∧ c ≠ '+' := by
    rw [head?_append_of_ne p.whole_ne]
    exact p.whole_digits.unsigned
  unfold chars
  cases p.negative with
  | true => exact takeSign_append .minus hunsigned
  | false => exact takeSign_append .none hunsigned

/-- A number is read by its digits. -/
theorem read?_chars :
    Decimal.read? p.chars = some ⟨p.negative, p.digits, -(p.fraction.length : Int)⟩ := by
  have hpoint : (pointPart p.fraction).head?.any Char.isDigit = false := by
    unfold pointPart
    split
    · rfl
    · rfl
  obtain ⟨htake, hdrop⟩ := takeWhile_digits p.whole_digits hpoint
  have hwhole : p.whole.isEmpty = false := List.isEmpty_eq_false_iff.mpr p.whole_ne
  unfold Decimal.read?
  rw [p.takeSign_chars]
  dsimp only
  rw [htake, hdrop]
  by_cases hfraction : p.fraction = []
  · simp [pointPart, hfraction, hwhole, digits, Decimal.exponent?]
  · have hempty : ([] : List Char).head?.any Char.isDigit = false := rfl
    have hend := takeWhile_digits p.fraction_digits hempty
    rw [List.append_nil] at hend
    simp [pointPart, hfraction, hwhole, digits, Decimal.exponent?, hend.1, hend.2]

/-- No number begins like one in another base. -/
theorem basePart?_chars : Value.basePart? p.chars = none := by
  unfold chars
  cases hsign : p.negative with
  | true => rfl
  | false =>
    have hdigits := p.whole_digits
    have hhead := p.head_whole
    cases hwhole : p.whole with
    | nil => exact absurd hwhole p.whole_ne
    | cons c cs =>
      rw [hwhole] at hhead
      by_cases hc : c = '0'
      · subst hc
        obtain rfl : cs = [] := by simpa using hhead rfl
        generalize p.fraction = fraction
        cases fraction with
        | nil => rfl
        | cons => rfl
      · show Value.basePart? (c :: (cs ++ pointPart p.fraction)) = none
        unfold Value.basePart?
        split <;> first
          | rfl
          | rename_i heq; exact absurd (List.cons.inj heq).1 hc

/-- A number is read by its digits unless it is too great for a double. -/
theorem number?_chars :
    Value.number? p.chars =
      (some (Double.ofDecimal p.negative p.digits (-(p.fraction.length : Int)))).filter
        Double.isFinite := by
  unfold Value.number?
  rw [p.basePart?_chars]
  dsimp only
  rw [p.read?_chars]
  rfl

/-! ## Writing -/

/-- The digits of a number are those of the whole number that they are read as, with as many zeros
in front as it takes to leave one digit before the point. -/
theorem places : p.whole ++ p.fraction = paddedDigits (p.fraction.length + 1) p.digits := by
  have hwhole : 0 < p.whole.length := List.length_pos_iff.mpr p.whole_ne
  have hne : p.whole ++ p.fraction ≠ [] := List.append_ne_nil_of_left_ne_nil p.whole_ne _
  by_cases hhead : p.whole.head? = some '0'
  · have hpadded := paddedDigits_ofDigits p.allDigits hne
    rw [List.length_append, p.head_whole hhead] at hpadded
    rw [digits, p.head_whole hhead, ← hpadded, List.length_singleton, Nat.add_comm 1]
    rw [ofDigits_paddedDigits]
  · have hdigits : digitsOf p.digits = p.whole ++ p.fraction := by
      refine digitsOf_ofDigits p.allDigits hne fun hzero => ?_
      rw [head?_append_of_ne p.whole_ne] at hzero
      exact absurd hzero hhead
    have hnone : p.fraction.length + 1 - (p.whole ++ p.fraction).length = 0 := by
      rw [List.length_append]
      omega
    rw [paddedDigits, hdigits, hnone]
    rfl

theorem whole_eq (h : p.fraction = []) : p.whole = digitsOf p.digits := by
  have hlength : 1 - (digitsOf p.digits).length = 0 := by
    have hpos := List.length_pos_iff.mpr (digitsOf_ne_nil p.digits)
    omega
  have hplaces := p.places
  rw [h, List.append_nil, List.length_nil, Nat.zero_add, paddedDigits, hlength] at hplaces
  exact hplaces

theorem digits_mod_ten (h : p.fraction ≠ []) : p.digits % 10 ≠ 0 := by
  intro hzero
  have hlast := getLast?_paddedDigits (p.fraction.length + 1) p.digits
  rw [← p.places, List.getLast?_append_of_ne_nil _ h, hzero] at hlast
  exact p.last_fraction hlast

theorem positionalText_whole {k : Nat} (hk : 0 < k) (t : Nat) :
    positionalText false (digitsOf k) t = digitsOf (k * 10 ^ t) := by
  rw [positionalText, if_pos (Int.natCast_nonneg t), Int.toNat_natCast, digitsOf_mul_pow hk]
  exact List.append_nil _

theorem positionalText_point (k : Nat) {places : Nat} (hplaces : 0 < places) :
    positionalText false (digitsOf k) (-(places : Int)) =
      (paddedDigits (places + 1) k).take ((paddedDigits (places + 1) k).length - places) ++
        '.' :: (paddedDigits (places + 1) k).drop
          ((paddedDigits (places + 1) k).length - places) := by
  rw [positionalText, if_neg (by omega), neg_neg, Int.toNat_natCast]
  rfl

/-- The plain text of a decimal is the number that is read as it. -/
theorem positionalText_eq {k t : Nat} (hdigits : p.digits = k * 10 ^ t) (hk : k % 10 ≠ 0) :
    positionalText false (digitsOf k) ((t : Int) - p.fraction.length) =
      p.whole ++ pointPart p.fraction := by
  by_cases hfraction : p.fraction = []
  · rw [p.whole_eq hfraction, hdigits, hfraction, List.length_nil, Int.natCast_zero, sub_zero,
      positionalText_whole (by omega)]
    exact (List.append_nil _).symm
  · have hmod := p.digits_mod_ten hfraction
    have ht : t = 0 := by
      by_contra hne
      obtain ⟨n, rfl⟩ := Nat.exists_eq_succ_of_ne_zero hne
      rw [hdigits, Nat.pow_succ, ← Nat.mul_assoc, Nat.mul_mod_left] at hmod
      exact hmod rfl
    have hcut : (p.whole ++ p.fraction).length - p.fraction.length = p.whole.length := by
      rw [List.length_append, Nat.add_sub_cancel]
    have hpoint : pointPart p.fraction = '.' :: p.fraction := by
      rw [pointPart, if_neg (List.isEmpty_iff.not.mpr hfraction)]
    rw [ht, Nat.pow_zero, Nat.mul_one] at hdigits
    rw [ht, Int.natCast_zero, zero_sub, positionalText_point k (List.length_pos_iff.mpr hfraction),
      ← hdigits, ← p.places, hcut, List.take_left, List.drop_left, hpoint]

theorem head_paddedDigits {places n : Nat}
    (h : (paddedDigits (places + 1) n).head? = some '0') :
    (paddedDigits (places + 1) n).length = places + 1 := by
  rw [length_paddedDigits]
  by_contra hlong
  have hnone : places + 1 - (digitsOf n).length = 0 := by omega
  rw [paddedDigits, hnone] at h
  by_cases hn : n = 0
  · have hone : (digitsOf n).length = 1 := by
      rw [hn]
      rfl
    omega
  · exact head_digitsOf (Nat.pos_of_ne_zero hn) h

/-- The number with given digits and a given number of them behind the point. -/
def ofPlaces (negative : Bool) (digits places : Nat) (h : places = 0 ∨ digits % 10 ≠ 0) :
    PlainNumeral where
  negative
  whole := (paddedDigits (places + 1) digits).take
    ((paddedDigits (places + 1) digits).length - places)
  fraction := (paddedDigits (places + 1) digits).drop
    ((paddedDigits (places + 1) digits).length - places)
  allDigits := by
    rw [List.take_append_drop]
    exact allDigits_paddedDigits _ _
  whole_ne := by
    rw [← List.length_pos_iff, List.length_take, length_paddedDigits]
    omega
  head_whole := by
    intro hhead
    rw [List.head?_take, if_neg (by rw [length_paddedDigits]; omega)] at hhead
    rw [head_paddedDigits hhead, Nat.add_sub_cancel_left]
    cases hcs : paddedDigits (places + 1) digits with
    | nil =>
      rw [hcs] at hhead
      exact absurd hhead (by simp)
    | cons c cs =>
      rw [hcs] at hhead
      obtain rfl : c = '0' := by simpa using hhead
      rfl
  last_fraction := by
    intro hlast
    rw [List.getLast?_drop] at hlast
    split at hlast
    · exact absurd hlast (by simp)
    · rename_i hlength
      rw [getLast?_paddedDigits] at hlast
      rcases h with rfl | hdigit
      · omega
      · have hlt : digits % 10 < 10 := Nat.mod_lt _ (by omega)
        generalize digits % 10 = d at hdigit hlast hlt
        interval_cases d <;> revert hlast hdigit <;> decide

theorem digits_ofPlaces (negative : Bool) (digits places : Nat)
    (h : places = 0 ∨ digits % 10 ≠ 0) : (ofPlaces negative digits places h).digits = digits := by
  show ofDigits 10 (_ ++ _) = _
  rw [ofPlaces, List.take_append_drop, ofDigits_paddedDigits]

theorem places_ofPlaces (negative : Bool) (digits places : Nat)
    (h : places = 0 ∨ digits % 10 ≠ 0) :
    (ofPlaces negative digits places h).fraction.length = places := by
  show (List.drop _ _).length = _
  rw [List.length_drop, length_paddedDigits]
  omega

end PlainNumeral

/-! ## Texts that are numbers -/

namespace Value

theorem ne_of_number? {s word : String} (h : (number? s.toList).isSome = true)
    (hword : number? word.toList = none) : s ≠ word := by
  rintro rfl
  rw [hword] at h
  exact absurd h (by decide)

theorem ofText_of_number? {s : String} {x : Double} (h : number? s.toList = some x) :
    ofText s = number x := by
  have hsome : (number? s.toList).isSome = true := by rw [h]; rfl
  have htrue : s ≠ "true" := ne_of_number? hsome (by decide +kernel)
  have hfalse : s ≠ "false" := ne_of_number? hsome (by decide +kernel)
  rw [ofText, if_neg htrue, if_neg hfalse, h]

end Value

end Criteria

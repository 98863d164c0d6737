import Criteria.Proofs.Number.Midpoints
import Criteria.Proofs.Number.PlainNumerals
import Criteria.Proofs.Record.TotalOrder

/-!
# Whole numbers as doubles

The digits of a whole number are read as the double nearest to it. Whole numbers of fifty-three bits
are exact, so that no other whole number is rounded to the double of one of them.
-/

namespace Criteria

open Layout

namespace Magnitude

theorem shiftOf_le {n : Nat} (h : n < 2 ^ 53) (e : Nat) : shiftOf (n * 2 ^ e) ≤ e := by
  unfold shiftOf
  by_cases hzero : n = 0
  · rw [hzero, Nat.zero_mul, Nat.log2_zero]
    omega
  · have hpos : n * 2 ^ e ≠ 0 := Nat.mul_ne_zero hzero (by positivity)
    have hlt : n * 2 ^ e < 2 ^ (53 + e) := by
      rw [Nat.pow_add]
      exact Nat.mul_lt_mul_of_pos_right h (Nat.two_pow_pos e)
    have hlog := (Nat.log2_lt hpos).mpr hlt
    omega

theorem dvd_of_lt {n : Nat} (h : n < 2 ^ 53) (e : Nat) : 2 ^ shiftOf (n <<< e) ∣ n <<< e := by
  rw [Nat.shiftLeft_eq]
  exact Nat.dvd_mul_left_of_dvd (Nat.pow_dvd_pow 2 (shiftOf_le h e)) n

theorem divRound_mul_cancel {n d : Nat} (hd : 0 < d) (h : d ∣ n) : divRound n d * d = n := by
  obtain ⟨k, rfl⟩ := h
  rw [Nat.mul_comm d, divRound_mul_left k hd]

theorem units_round {n : Nat} (h : 2 ^ shiftOf n ∣ n) :
    unitsOfRank (shiftOf n * binadeSize + divRound n (2 ^ shiftOf n)) = n := by
  have htop := divRound_shift_le n (d := 1) (by omega)
  have hbottom := binadeSize_le_divRound (n := n) (d := 1) (by omega)
  rw [Nat.div_one, Nat.shiftLeft_eq, Nat.one_mul] at htop hbottom
  rw [unitsOfRank_parts htop hbottom]
  exact divRound_mul_cancel (Nat.two_pow_pos _) h

theorem units_nearest_of_lt {n : Nat} (h : n < 2 ^ 53) :
    unitsOfRank (nearestRank n 1) = n <<< 1074 := by
  have hdvd := dvd_of_lt h 1074
  rw [nearestRank_eq, Nat.div_one]
  generalize n <<< 1074 = units at hdvd
  rw [Nat.shiftLeft_eq, Nat.one_mul, units_round hdvd]

/-- Whole numbers of up to fifty-three bits are exact. -/
theorem units_ofNat {n : Nat} (h : n ≤ 2 ^ 53) : (ofNat n).units = n <<< 1074 := by
  rcases Nat.lt_or_eq_of_le h with hlt | rfl
  · have hmono := nearestRank_mono (d := 1) (by omega) h
    have htop : nearestRank (2 ^ 53) 1 ≤ 2047 * binadeSize := by decide +kernel
    have hrank : (ofNat n).rank = nearestRank n 1 := Nat.min_eq_left (by omega)
    rw [units, hrank]
    exact units_nearest_of_lt hlt
  · decide +kernel

/-- No whole number is rounded to a smaller one of fifty-three bits. -/
theorem eq_of_ofNat_eq {m n : Nat} (h : m < 2 ^ 53) (heq : ofNat m = ofNat n) : m = n := by
  have hexact : ∀ k, k ≤ 2 ^ 53 → ofNat m = ofNat k → m = k := by
    intro k hk heq
    have hunits := congrArg units heq
    rw [units_ofNat (by omega), units_ofNat hk, Nat.shiftLeft_eq, Nat.shiftLeft_eq] at hunits
    exact Nat.eq_of_mul_eq_mul_right (Nat.two_pow_pos 1074) hunits
  by_cases hn : n ≤ 2 ^ 53
  · exact hexact n hn heq
  · have hlow := ofNat_mono (m := m) (n := 2 ^ 53) (by omega)
    have hhigh := ofNat_mono (m := 2 ^ 53) (n := n) (by omega)
    have hrank := congrArg rank heq
    have hborder : ofNat m = ofNat (2 ^ 53) := by
      rw [Magnitude.mk.injEq]
      omega
    have hm := hexact (2 ^ 53) (by omega) hborder
    omega

theorem ofNat_rank_pos {n : Nat} (h : 0 < n) : 0 < (ofNat n).rank := by
  have hone : 0 < (ofNat 1).rank := by decide +kernel
  have hmono := ofNat_mono (m := 1) (n := n) h
  omega

theorem isFinite_ofNat {n : Nat} (h : n ≤ 2 ^ 64) : (ofNat n).isFinite = true := by
  have htop : (ofNat (2 ^ 64)).rank < infinity.rank := by decide +kernel
  have hmono := ofNat_mono h
  rw [isFinite, decide_eq_true_eq]
  omega

theorem ofDecimal_zero (n : Nat) : ofDecimal n 0 = ofNat n := by
  unfold ofDecimal
  split
  · rename_i hzero
    rw [hzero]
    decide +kernel
  · rw [if_neg (by omega), if_neg (by omega), if_pos (by omega)]
    show nearest (n * 1) 1 = _
    rw [Nat.mul_one]
    rfl

end Magnitude

namespace Double

/-- Whole numbers at one place are rounded to one double. -/
theorem ofInt_eq_of_place_eq {m n : Int} (h : (ofInt m).place = (ofInt n).place) :
    ofInt m = ofInt n := by
  have hpos : ∀ k : Int, k < 0 → 0 < (Magnitude.ofNat k.natAbs).rank := fun k hk =>
    Magnitude.ofNat_rank_pos (by omega)
  have hmag : ∀ a b : Magnitude, a.rank = b.rank → a = b := fun a b hab => by
    rw [Magnitude.mk.injEq, hab]
  unfold ofInt at h ⊢
  rw [place_signed, place_signed] at h
  unfold key at h
  by_cases hm : m < 0
  · by_cases hn : n < 0
    · simp only [hm, hn, decide_true, ↓reduceIte] at h ⊢
      rw [hmag (.ofNat m.natAbs) (.ofNat n.natAbs) (by omega)]
    · have := hpos m hm
      simp only [hm, hn, decide_true, decide_false, ↓reduceIte, Bool.false_eq_true] at h
      omega
  · by_cases hn : n < 0
    · have := hpos n hn
      simp only [hm, hn, decide_true, decide_false, ↓reduceIte, Bool.false_eq_true] at h
      omega
    · simp only [hm, hn, decide_false, ↓reduceIte, Bool.false_eq_true] at h ⊢
      rw [hmag (.ofNat m.natAbs) (.ofNat n.natAbs) (by omega)]

/-- A whole number of fifty-three bits shares its double with no other. -/
theorem eq_of_ofInt_eq {m n : Int} (h : m.natAbs < 2 ^ 53) (heq : ofInt m = ofInt n) : m = n := by
  unfold ofInt at heq
  rw [Double.signed.injEq, decide_eq_decide] at heq
  have habs := Magnitude.eq_of_ofNat_eq h heq.2
  omega

end Double

/-! ## Digits -/

namespace PlainNumeral

/-- A whole number as written. -/
def ofInt (n : Int) : PlainNumeral := ofPlaces (n < 0) n.natAbs 0 (Or.inl rfl)

theorem digits_ofInt (n : Int) : (ofInt n).digits = n.natAbs := digits_ofPlaces ..

theorem places_ofInt (n : Int) : (ofInt n).fraction.length = 0 := places_ofPlaces ..

theorem toList_intText (n : Int) : (Numeral.intText n).toList = (ofInt n).chars := by
  have hfraction : (ofInt n).fraction = [] := List.length_eq_zero_iff.mp (places_ofInt n)
  have hsign : (ofInt n).negative = decide (n < 0) := rfl
  rw [Numeral.intText, String.toList_ofList, chars, (ofInt n).whole_eq hfraction, hfraction,
    digits_ofInt, hsign]
  simp [pointPart]

end PlainNumeral

namespace Value

/-- The digits of a whole number of up to sixty-four bits are read as the double nearest to it. -/
theorem ofText_intText {n : Int} (h : n.natAbs ≤ 2 ^ 64) :
    ofText (Numeral.intText n) = number (Double.ofInt n) := by
  refine ofText_of_number? ?_
  have hfinite : (Double.ofInt n).isFinite = true := Magnitude.isFinite_ofNat h
  have hread : Double.ofDecimal (PlainNumeral.ofInt n).negative (PlainNumeral.ofInt n).digits
      (-((PlainNumeral.ofInt n).fraction.length : Int)) = Double.ofInt n := by
    rw [PlainNumeral.digits_ofInt, PlainNumeral.places_ofInt]
    show Double.signed _ (Magnitude.ofDecimal n.natAbs 0) = _
    rw [Magnitude.ofDecimal_zero]
    rfl
  rw [PlainNumeral.toList_intText, PlainNumeral.number?_chars, hread]
  simp [hfinite]

end Value

namespace Numeral

theorem ofText_text {x y : Numeral} (h : SameIntegers x y) :
    Value.ofText x.text = .number x.toDouble := by
  cases x with
  | int n =>
    have hlow := n.le_toInt
    have hhigh := n.toInt_lt
    exact Value.ofText_intText (by omega)
  | nat n =>
    have hhigh := n.toNat_lt
    exact Value.ofText_intText (by omega)
  | double =>
    cases y <;> exact absurd h id

theorem toDouble_eq_ofInt {x y : Numeral} (h : SameIntegers x y) :
    x.toDouble = Double.ofInt x.whole := by
  cases x with
  | int => rfl
  | nat => rfl
  | double =>
    cases y <;> exact absurd h id

end Numeral

end Criteria

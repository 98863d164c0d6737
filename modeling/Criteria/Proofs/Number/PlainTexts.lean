import Criteria.Proofs.Number.Integers
import Criteria.Proofs.Number.ShortestDigits
import Mathlib.Data.Nat.Factorization.Basic

/-!
# The plain text of a double

The plain text of a double is a number without an exponent, and it is read as the double again. So a
text stands for a number that is shown by it only if it is the plain text of a double, and every
number without an exponent is, if it has fifteen digits or fewer and is neither too great nor too
small.
-/

namespace Criteria

open Layout

namespace Magnitude

theorem nearest_eq_of_covers {m : Magnitude} {n d : Nat} (hd : 0 < d)
    (h : Covers m.rank ((n : ℚ) / d)) : nearest n d = m := by
  have hrank := (nearestRank_eq_iff hd).mpr h
  have hle := m.rank_le
  rw [Magnitude.mk.injEq]
  show min (nearestRank n d) (2047 * binadeSize) = m.rank
  omega

/-- A decimal that a magnitude covers is not so small that it is taken for zero at once. -/
theorem le_of_covers {r digits places : Nat} (hr : 0 < r)
    (h : Covers r ((digits : ℚ) / (10 ^ places : Nat))) : places ≤ 400 + digits.log2 := by
  by_contra hmany
  have hlow := h.low
  have hone : (1 : ℚ) ≤ unitsOfRank r := Nat.one_le_cast.mpr (unitsOfRank_pos hr)
  have hprev : (0 : ℚ) ≤ unitsOfRank (r - 1) := Nat.cast_nonneg _
  have hpower : (0 : ℚ) < (10 ^ places : Nat) := Nat.cast_pos.mpr (Nat.pow_pos (by omega))
  unfold halfUnits at hlow
  push_cast at hlow hpower
  rw [div_mul_eq_mul_div, le_div_iff₀ hpower] at hlow
  have hdigits : (digits : ℚ) ≤ 2 ^ (digits.log2 + 1) := by
    exact_mod_cast (Nat.lt_log2_self (n := digits)).le
  have hunits : (10 : ℚ) ^ places ≤ (unitsOfRank (r - 1) + unitsOfRank r) * 10 ^ places :=
    le_mul_of_one_le_left hpower.le (by linarith)
  have hsmall : (digits : ℚ) * 2 ^ 1075 < 10 ^ places := calc
    (digits : ℚ) * 2 ^ 1075 ≤ 2 ^ (digits.log2 + 1) * 2 ^ 1075 :=
      mul_le_mul_of_nonneg_right hdigits (by positivity)
    _ = 2 ^ (digits.log2 + 1 + 1075) := (pow_add ..).symm
    _ ≤ 2 ^ (3 * (401 + digits.log2)) := pow_le_pow_right₀ (by norm_num) (by omega)
    _ = (2 ^ 3) ^ (401 + digits.log2) := pow_mul ..
    _ < 10 ^ (401 + digits.log2) := pow_lt_pow_left₀ (by norm_num) (by norm_num) (by omega)
    _ ≤ 10 ^ places := pow_le_pow_right₀ (by norm_num) (by omega)
  exact absurd (lt_of_le_of_lt (le_trans hunits hlow) hsmall) (lt_irrefl _)

/-- A decimal is read as the magnitude that covers it. -/
theorem ofDecimal_eq_of_covers {m : Magnitude} (hpos : 0 < m.rank) {digits places : Nat}
    (h : Covers m.rank ((digits : ℚ) / (10 ^ places : Nat))) :
    ofDecimal digits (-(places : Int)) = m := by
  have hplaces := le_of_covers hpos h
  have hdigits : digits ≠ 0 := by
    rintro rfl
    have hlow := h.low
    have hunits : (0 : ℚ) < unitsOfRank m.rank := Nat.cast_pos.mpr (unitsOfRank_pos hpos)
    have hprev : (0 : ℚ) ≤ unitsOfRank (m.rank - 1) := Nat.cast_nonneg _
    rw [halfUnits, Nat.cast_zero, zero_div, zero_mul] at hlow
    push_cast at hlow
    linarith
  unfold ofDecimal
  rw [if_neg hdigits, if_neg (by omega), if_neg (by omega)]
  split
  · obtain rfl : places = 0 := by omega
    refine nearest_eq_of_covers (by decide) ?_
    have hsame : ((digits * powerOfTen (-((0 : Nat) : Int)).toNat : Nat) : ℚ) / (1 : Nat) =
        (digits : ℚ) / (10 ^ 0 : Nat) := by
      show ((digits * 1 : Nat) : ℚ) / (1 : Nat) = _
      rw [Nat.mul_one, Nat.pow_zero]
    rw [hsame]
    exact h
  · have hpower : powerOfTen (-(-(places : Int))).toNat = 10 ^ places := by
      rw [neg_neg, Int.toNat_natCast]
      rfl
    rw [hpower]
    exact nearest_eq_of_covers (Nat.pow_pos (by omega)) h

end Magnitude

namespace Double

theorem toList_text (negative : Bool) {m : Magnitude} (hfinite : m.isFinite = true) :
    (signed negative m).text.toList =
      (if negative then ['-'] else []) ++ plain.magnitudeText m := by
  unfold Double.text Layout.text
  dsimp only
  rw [hfinite, Bool.not_true, if_neg Bool.false_ne_true, String.toList_ofList]

theorem magnitudeText_zero {m : Magnitude} (hzero : m.rank = 0) :
    plain.magnitudeText m = ['0'] := by
  rw [magnitudeText, if_pos hzero]
  rfl

theorem magnitudeText_of_pos {m : Magnitude} (hpos : 0 < m.rank) :
    plain.magnitudeText m =
      positionalText false (digitsOf (m.shortest .up).digits) (m.shortest .up).exponent := by
  rw [magnitudeText, if_neg (by omega)]
  rfl

theorem ofDecimal_zero (negative : Bool) (exponent : Int) {m : Magnitude} (hzero : m.rank = 0) :
    ofDecimal negative 0 exponent = signed negative m := by
  have hm : m = .zero := by
    rw [Magnitude.mk.injEq]
    exact hzero
  rw [hm]
  rfl

/-- The plain text of a double is a number without an exponent that is read as the double. -/
theorem exists_plainNumeral {x : Double} (hx : x.isFinite = true) :
    ∃ p : PlainNumeral, x.text.toList = p.chars ∧
      ofDecimal p.negative p.digits (-(p.fraction.length : Int)) = x := by
  cases x with
  | nan => exact absurd hx (by decide)
  | signed negative m =>
    rw [toList_text negative hx]
    rcases Nat.eq_zero_or_pos m.rank with hzero | hpos
    · have hdigits := PlainNumeral.digits_ofPlaces negative 0 0 (Or.inl rfl)
      have hplaces := PlainNumeral.places_ofPlaces negative 0 0 (Or.inl rfl)
      have hfraction := List.length_eq_zero_iff.mp hplaces
      refine ⟨.ofPlaces negative 0 0 (Or.inl rfl), ?_, ?_⟩
      · rw [PlainNumeral.chars, PlainNumeral.whole_eq _ hfraction, hdigits, hfraction,
          magnitudeText_zero hzero]
        rfl
      · rw [hdigits]
        exact ofDecimal_zero negative _ hzero
    · obtain ⟨hlast, hcovers⟩ := Magnitude.covers_shortest .up hx hpos
      rw [magnitudeText_of_pos hpos]
      generalize m.shortest .up = s at hlast hcovers
      have hpoint : (-s.exponent).toNat = 0 ∨ s.digits * 10 ^ s.exponent.toNat % 10 ≠ 0 := by
        rcases le_total 0 s.exponent with hexponent | hexponent
        · exact Or.inl (by omega)
        · have hzero : s.exponent.toNat = 0 := by omega
          rw [hzero, Nat.pow_zero, Nat.mul_one]
          exact Or.inr hlast
      have hdigits := PlainNumeral.digits_ofPlaces negative _ _ hpoint
      have hplaces := PlainNumeral.places_ofPlaces negative _ _ hpoint
      have hexponent : (s.exponent.toNat : Int) - ((-s.exponent).toNat : Nat) = s.exponent := by
        omega
      refine ⟨.ofPlaces negative _ _ hpoint, ?_, ?_⟩
      · have htext := PlainNumeral.positionalText_eq _ hdigits hlast
        rw [hplaces, hexponent] at htext
        rw [htext]
        rfl
      · rw [hdigits, hplaces]
        have hvalue : ((s.digits * 10 ^ s.exponent.toNat : Nat) : ℚ) /
            (10 ^ (-s.exponent).toNat : Nat) = s.digits * 10 ^ s.exponent := by
          conv_rhs => rw [← hexponent]
          rw [zpow_sub₀ (by norm_num), zpow_natCast, zpow_natCast]
          push_cast
          rw [mul_div_assoc]
        rw [← hvalue] at hcovers
        exact congrArg (signed negative) (Magnitude.ofDecimal_eq_of_covers hpos hcovers)

end Double

/-! ## Fifteen digits -/

namespace Magnitude

theorem Covers.rank_bounds {r : Nat} {x : ℚ} (h : Covers r x)
    (hleast : ((2 * binadeSize : Nat) : ℚ) ≤ halfUnits x)
    (hgreatest : halfUnits x < unitsOfRank (2047 * binadeSize)) :
    binadeSize ≤ r ∧ r < 2047 * binadeSize := by
  constructor
  · by_contra hlt
    have hfirst : unitsOfRank binadeSize = binadeSize := by decide +kernel
    have hnext : unitsOfRank (r + 1) ≤ binadeSize := by
      rw [← hfirst]
      exact unitsOfRank_strictMono.monotone (by omega)
    have hgap : unitsOfRank r < unitsOfRank (r + 1) := unitsOfRank_strictMono (Nat.lt_succ_self r)
    have hsum : ((unitsOfRank r + unitsOfRank (r + 1) : Nat) : ℚ) < (2 * binadeSize : Nat) :=
      Nat.cast_lt.mpr (by omega)
    linarith [h.high]
  · by_contra hge
    have hunits : ((unitsOfRank (2047 * binadeSize) : Nat) : ℚ) ≤
        (unitsOfRank (r - 1) + unitsOfRank r : Nat) :=
      Nat.cast_le.mpr (le_trans (unitsOfRank_strictMono.monotone (by omega)) (Nat.le_add_left ..))
    linarith [h.low]

/-- Numbers with no more digits on either side of the point than a limit are neither too great nor
too small for all digits of a double if the limit is in its range. -/
theorem rank_bounds_of_digits {limit digits whole places : Nat}
    (hleast : 2 * binadeSize * 10 ^ limit ≤ 1 <<< 1075)
    (hgreatest : 10 ^ limit * (1 <<< 1075) ≤ unitsOfRank (2047 * binadeSize))
    (hpos : 0 < digits) (hdigits : digits < 10 ^ (whole + places)) (hwhole : whole ≤ limit)
    (hplaces : places ≤ limit) :
    binadeSize ≤ nearestRank digits (10 ^ places) ∧
      nearestRank digits (10 ^ places) < 2047 * binadeSize := by
  have hpower : 0 < 10 ^ places := Nat.pow_pos (by omega)
  have hpower' : (0 : ℚ) < (10 ^ places : Nat) := Nat.cast_pos.mpr hpower
  have hunitPos : 0 < 1 <<< 1075 := by decide +kernel
  have hunit := cast_shiftLeft 1 1075
  rw [Nat.cast_one, one_mul] at hunit
  have hscale : halfUnits ((digits : ℚ) / (10 ^ places : Nat)) =
      (digits * (1 <<< 1075) : Nat) / (10 ^ places : Nat) := by
    rw [halfUnits, Nat.cast_mul, hunit, div_mul_eq_mul_div]
  generalize 1 <<< 1075 = unit at *
  have hlow : 2 * binadeSize * 10 ^ places ≤ digits * unit := calc
    2 * binadeSize * 10 ^ places ≤ 2 * binadeSize * 10 ^ limit :=
      Nat.mul_le_mul_left _ (Nat.pow_le_pow_right (by omega) hplaces)
    _ ≤ unit := hleast
    _ ≤ digits * unit := Nat.le_mul_of_pos_left _ hpos
  have hhigh : digits * unit < unitsOfRank (2047 * binadeSize) * 10 ^ places := calc
    digits * unit < 10 ^ (whole + places) * unit := Nat.mul_lt_mul_of_pos_right hdigits hunitPos
    _ = 10 ^ whole * unit * 10 ^ places := by rw [Nat.pow_add]; ring
    _ ≤ 10 ^ limit * unit * 10 ^ places :=
      Nat.mul_le_mul_right _ (Nat.mul_le_mul_right _ (Nat.pow_le_pow_right (by omega) hwhole))
    _ ≤ unitsOfRank (2047 * binadeSize) * 10 ^ places := Nat.mul_le_mul_right _ hgreatest
  refine (covers_nearestRank digits hpower).rank_bounds ?_ ?_
  · rw [hscale, le_div_iff₀ hpower', ← Nat.cast_mul]
    exact Nat.cast_le.mpr hlow
  · rw [hscale, div_lt_iff₀ hpower', ← Nat.cast_mul]
    exact Nat.cast_lt.mpr hhigh

end Magnitude

namespace PlainNumeral

/-- At most fifteen digits from the first to the last that is not zero, and not too many zeros in
front of them or behind. -/
structure Short (p : PlainNumeral) : Prop where
  whole_le : p.whole.length ≤ 307
  fraction_le : p.fraction.length ≤ 307
  significant : ∃ k t, p.digits = k * 10 ^ t ∧ k < 10 ^ 15

/-- The digits from the first to the last that is not zero. -/
theorem Short.exists_significant {p : PlainNumeral} (h : p.Short) (hpos : 0 < p.digits) :
    ∃ k t, p.digits = k * 10 ^ t ∧ k % 10 ≠ 0 ∧ k < 10 ^ 15 := by
  obtain ⟨k, t, hdigits, hlt⟩ := h.significant
  have hk : k ≠ 0 := by
    rintro rfl
    rw [Nat.zero_mul] at hdigits
    omega
  obtain ⟨e, k', hdvd, hk'⟩ := Nat.exists_eq_pow_mul_and_not_dvd hk 10 (by decide)
  refine ⟨k', e + t, ?_, fun hmod => hdvd (Nat.dvd_of_mod_eq_zero hmod), ?_⟩
  · rw [hdigits, hk', Nat.pow_add]
    ring
  · have hle : k' ≤ k := by
      rw [hk']
      exact Nat.le_mul_of_pos_left _ (Nat.pow_pos (by omega))
    omega

theorem chars_of_digits_eq_zero {p : PlainNumeral} (hzero : p.digits = 0) :
    p.chars = (if p.negative then ['-'] else []) ++ ['0'] := by
  have hfraction : p.fraction = [] := by
    by_contra hne
    have hmod := p.digits_mod_ten hne
    rw [hzero] at hmod
    exact hmod rfl
  rw [chars, p.whole_eq hfraction, hzero, hfraction]
  rfl

/-- A short number is the plain text of a double. -/
theorem Short.exists_double {p : PlainNumeral} (h : p.Short) :
    ∃ x : Double, x.isFinite = true ∧ x.text.toList = p.chars := by
  rcases Nat.eq_zero_or_pos p.digits with hzero | hpos
  · have hfinite : Magnitude.zero.isFinite = true := by decide +kernel
    refine ⟨.signed p.negative .zero, hfinite, ?_⟩
    rw [Double.toList_text _ hfinite, Double.magnitudeText_zero rfl, chars_of_digits_eq_zero hzero]
  · have hlt : p.digits < 10 ^ (p.whole.length + p.fraction.length) := by
      rw [← List.length_append]
      exact ofDigits_lt p.allDigits
    obtain ⟨hnormal, hgreatest⟩ := Magnitude.rank_bounds_of_digits (by decide +kernel)
      (by decide +kernel) hpos hlt h.whole_le h.fraction_le
    obtain ⟨k, t, hdigits, hk, hshort⟩ := h.exists_significant hpos
    have hcovers := Magnitude.covers_nearestRank p.digits
      (show 0 < 10 ^ p.fraction.length from Nat.pow_pos (by omega))
    generalize Magnitude.nearestRank p.digits (10 ^ p.fraction.length) = r at *
    have hvalue : (p.digits : ℚ) / (10 ^ p.fraction.length : Nat) =
        k * 10 ^ ((t : Int) - p.fraction.length) := by
      rw [hdigits, zpow_sub₀ (by norm_num), zpow_natCast, zpow_natCast]
      push_cast
      rw [mul_div_assoc]
    rw [hvalue] at hcovers
    have hfinite : (Magnitude.mk r hgreatest.le).isFinite = true := decide_eq_true hgreatest
    have hrank : 0 < r := Nat.lt_of_lt_of_le (by decide) hnormal
    have hshortest := Magnitude.shortest_eq_of_covers .up hfinite hnormal hk hshort hcovers
    refine ⟨.signed p.negative ⟨r, hgreatest.le⟩, hfinite, ?_⟩
    rw [Double.toList_text _ hfinite, Double.magnitudeText_of_pos hrank, hshortest, chars,
      p.positionalText_eq hdigits hk]

end PlainNumeral

/-! ## Texts that are shown as they are -/

namespace Value

theorem isFinite_of_number? {cs : List Char} {x : Double} (h : number? cs = some x) :
    x.isFinite = true := by
  unfold number? at h
  split at h
  · split at h
    · rename_i hread
      rw [Bool.and_eq_true, decide_eq_true_eq] at hread
      obtain rfl := Option.some.inj h
      exact Magnitude.isFinite_ofNat (Nat.le_of_lt hread.2)
    · exact absurd h (by simp)
  · exact (Option.filter_eq_some_iff.mp h).2

/-- The plain text of a double is read as the double. -/
theorem number?_text {x : Double} (hx : x.isFinite = true) : number? x.text.toList = some x := by
  obtain ⟨p, htext, hread⟩ := Double.exists_plainNumeral hx
  rw [htext, p.number?_chars, hread]
  exact Option.filter_eq_some_iff.mpr ⟨rfl, hx⟩

theorem display_ofText_of_none {s : String} (h : number? s.toList = none) :
    (ofText s).display = s := by
  unfold ofText
  split
  · rename_i htrue
    exact htrue.symm
  · split
    · rename_i hfalse
      exact hfalse.symm
    · rw [h]
      rfl

/-- A text stands for a value that is shown by it if and only if it is no number or the plain text
of a double. -/
theorem display_ofText_eq_iff (s : String) :
    (ofText s).display = s ↔
      number? s.toList = none ∨ ∃ x : Double, x.isFinite = true ∧ s = x.text := by
  constructor
  · intro hshown
    cases hread : number? s.toList with
    | none => exact Or.inl rfl
    | some x =>
      rw [ofText_of_number? hread] at hshown
      exact Or.inr ⟨x, isFinite_of_number? hread, hshown.symm⟩
  · rintro (hnone | ⟨x, hx, rfl⟩)
    · exact display_ofText_of_none hnone
    · rw [ofText_of_number? (number?_text hx)]
      rfl

example : (ofText "1.50").display = "1.5" := by decide +kernel

end Value

end Criteria

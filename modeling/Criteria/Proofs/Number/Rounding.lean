import Criteria.Number.Numeral
import Mathlib.Algebra.Group.Nat.Defs
import Mathlib.Tactic.SplitIfs

/-!
# Rounding keeps the order

Of two quotients with one denominator, the greater one is rounded to the greater rank, or to the
same. Inside a binade this is a fact about rounding to the nearest whole number; between binades it
holds because a quotient is never rounded beyond the first rank of the next binade. Whole numbers
are quotients by one, and a sign turns the order round.
-/

namespace Criteria

/-! ## Whole numbers -/

theorem div_le_divRound (n d : Nat) : n / d ≤ divRound n d := by
  unfold divRound
  split_ifs <;> omega

theorem divRound_le_div_add_one (n d : Nat) : divRound n d ≤ n / d + 1 := by
  have hparity : n / d % 2 < 2 := Nat.mod_lt _ (by omega)
  unfold divRound
  split_ifs <;> omega

theorem divRound_mono (d : Nat) {m n : Nat} (h : m ≤ n) : divRound m d ≤ divRound n d := by
  rcases Nat.lt_or_eq_of_le (Nat.div_le_div_right (c := d) h) with hlt | heq
  · have hm := divRound_le_div_add_one m d
    have hn := div_le_divRound n d
    omega
  · have hparity : n / d % 2 < 2 := Nat.mod_lt _ (by omega)
    have hrest : m % d ≤ n % d := by
      have hm := Nat.div_add_mod' m d
      have hn := Nat.div_add_mod' n d
      rw [heq] at hm
      omega
    unfold divRound
    rw [heq]
    split_ifs <;> omega

namespace Magnitude

theorem binadeSize_eq : binadeSize = 2 ^ 52 := by decide

/-! ## Quotients -/

/-- By how many places a quotient is shifted before it is rounded. -/
def shiftOf (quotient : Nat) : Nat := quotient.log2 - 52

theorem nearestRank_eq (n d : Nat) :
    nearestRank n d =
      shiftOf ((n <<< 1074) / d) * binadeSize +
        divRound (n <<< 1074) (d <<< shiftOf ((n <<< 1074) / d)) := rfl

/-- A quotient is rounded no further than to the first rank of the next binade. -/
theorem divRound_shift_le (n : Nat) {d : Nat} (hd : 0 < d) :
    divRound n (d <<< shiftOf (n / d)) ≤ 2 * binadeSize := by
  have hlog : (n / d).log2 < shiftOf (n / d) + 53 := by
    unfold shiftOf
    omega
  have hquotient : n / d < 2 ^ (shiftOf (n / d) + 53) :=
    Nat.lt_of_lt_of_le Nat.lt_log2_self (Nat.pow_le_pow_right (by omega) hlog)
  generalize shiftOf (n / d) = s at hquotient
  have hpos : 0 < d <<< s := by
    rw [Nat.shiftLeft_eq]
    exact Nat.mul_pos hd (Nat.two_pow_pos s)
  have hle : n ≤ 2 ^ 53 * d <<< s := by
    have hlt : n < 2 ^ (s + 53) * d := (Nat.div_lt_iff_lt_mul hd).mp hquotient
    rw [Nat.shiftLeft_eq, Nat.mul_comm d, ← Nat.mul_assoc, ← Nat.pow_add, Nat.add_comm 53 s]
    exact Nat.le_of_lt hlt
  have htwice : 2 * binadeSize = 2 ^ 53 := by rw [binadeSize_eq, ← Nat.pow_succ']
  rw [htwice, ← divRound_mul_left (2 ^ 53) hpos]
  exact divRound_mono _ hle

/-- A quotient that is shifted is no smaller than the first magnitude of its binade. -/
theorem binadeSize_mul_le {n d : Nat} (hd : 0 < d) (hs : 0 < shiftOf (n / d)) :
    binadeSize * (d <<< shiftOf (n / d)) ≤ n := by
  have hlog : (n / d).log2 = 52 + shiftOf (n / d) := by
    unfold shiftOf at hs ⊢
    omega
  have hne : n / d ≠ 0 := by
    intro hzero
    simp [shiftOf, hzero] at hs
  have hquotient : 2 ^ (52 + shiftOf (n / d)) ≤ n / d := hlog ▸ Nat.log2_self_le hne
  rw [binadeSize_eq, Nat.shiftLeft_eq, Nat.mul_comm d, ← Nat.mul_assoc, ← Nat.pow_add]
  exact (Nat.le_div_iff_mul_le hd).mp hquotient

/-- A quotient that is shifted is rounded no further down than to the first rank of its binade. -/
theorem binadeSize_le_divRound {n d : Nat} (hd : 0 < d) (hs : 0 < shiftOf (n / d)) :
    binadeSize ≤ divRound n (d <<< shiftOf (n / d)) := by
  have hle := binadeSize_mul_le hd hs
  have hpos : 0 < d <<< shiftOf (n / d) := by
    rw [Nat.shiftLeft_eq]
    exact Nat.mul_pos hd (Nat.two_pow_pos _)
  rw [← divRound_mul_left binadeSize hpos]
  exact divRound_mono _ hle

theorem log2_mono {m n : Nat} (h : m ≤ n) : m.log2 ≤ n.log2 := by
  by_cases hm : m = 0
  · simp [hm]
  · exact (Nat.le_log2 (by omega)).mpr (Nat.le_trans (Nat.log2_self_le hm) h)

/-- The rank of the magnitude nearest to a quotient grows with the quotient. -/
theorem nearestRank_mono {d : Nat} (hd : 0 < d) {m n : Nat} (h : m ≤ n) :
    nearestRank m d ≤ nearestRank n d := by
  have hunits : m <<< 1074 ≤ n <<< 1074 := by
    rw [Nat.shiftLeft_eq, Nat.shiftLeft_eq]
    exact Nat.mul_le_mul_right _ h
  rw [nearestRank_eq, nearestRank_eq]
  generalize m <<< 1074 = x at hunits ⊢
  generalize n <<< 1074 = y at hunits ⊢
  have hshift : shiftOf (x / d) ≤ shiftOf (y / d) := by
    have hlog := log2_mono (Nat.div_le_div_right (c := d) hunits)
    unfold shiftOf
    omega
  rcases Nat.lt_or_eq_of_le hshift with hlt | heq
  · have hx := divRound_shift_le x hd
    have hy := binadeSize_le_divRound (n := y) hd (by omega)
    have hbinades : (shiftOf (x / d) + 1) * binadeSize ≤ shiftOf (y / d) * binadeSize :=
      Nat.mul_le_mul_right _ hlt
    rw [Nat.succ_mul] at hbinades
    omega
  · rw [heq]
    exact Nat.add_le_add_left (divRound_mono _ hunits) _

theorem ofNat_mono {m n : Nat} (h : m ≤ n) : (ofNat m).rank ≤ (ofNat n).rank := by
  have hrank := nearestRank_mono (d := 1) (by omega) h
  show min (nearestRank m 1) _ ≤ min (nearestRank n 1) _
  omega

end Magnitude

namespace Double

def keyOfInt (n : Int) : Int := key (n < 0) (.ofNat n.natAbs)

theorem keyOfInt_mono {m n : Int} (h : m ≤ n) : keyOfInt m ≤ keyOfInt n := by
  unfold keyOfInt key
  by_cases hm : m < 0
  · by_cases hn : n < 0
    · have habs := Magnitude.ofNat_mono (m := n.natAbs) (n := m.natAbs) (by omega)
      simp only [hm, hn, decide_true, ↓reduceIte]
      omega
    · simp only [hm, hn, decide_true, decide_false, ↓reduceIte, Bool.false_eq_true]
      omega
  · have hn : ¬ n < 0 := by omega
    have habs := Magnitude.ofNat_mono (m := m.natAbs) (n := n.natAbs) (by omega)
    simp only [hm, hn, decide_false, ↓reduceIte, Bool.false_eq_true]
    omega

end Double

end Criteria

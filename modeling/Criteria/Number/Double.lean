/-!
# Double-precision numbers

The numbers of the 64-bit binary format, in exact arithmetic. The magnitudes of the format are
numbered from zero upwards without a gap, and that number, the rank of a magnitude, is all that is
kept of it: the order of the ranks is the order of the magnitudes, and an even rank is an even last
bit. A magnitude is a whole multiple of the smallest positive one, `2 ^ -1074`.

Every conversion into the format rounds to the nearest magnitude, and to the even one of two that
are equally near.
-/

namespace Criteria

/-- Division of natural numbers to the nearest whole number; a half goes to the even neighbour. -/
def divRound (n d : Nat) : Nat :=
  if 2 * (n % d) < d then n / d
  else if d < 2 * (n % d) then n / d + 1
  else n / d + n / d % 2

/-- Rounding is off by at most a half. -/
theorem divRound_bounds (n : Nat) {d : Nat} (h : 0 < d) :
    2 * (divRound n d * d) ≤ 2 * n + d ∧ 2 * n ≤ 2 * (divRound n d * d) + d := by
  have hn : n / d * d + n % d = n := Nat.div_add_mod' n d
  have hd : n % d < d := Nat.mod_lt n h
  have step : (n / d + 1) * d = n / d * d + d := Nat.succ_mul ..
  unfold divRound
  split
  · omega
  · split
    · rw [step]
      omega
    · rcases Nat.mod_two_eq_zero_or_one (n / d) with parity | parity
      · rw [parity, Nat.add_zero]
        omega
      · rw [parity, step]
        omega

/-- A whole quotient is not changed by rounding. -/
theorem divRound_mul_left (n : Nat) {d : Nat} (h : 0 < d) : divRound (n * d) d = n := by
  simp [divRound, h]

/-- Ten to a power. -/
def powerOfTen (n : Nat) : Nat := Nat.pow 10 n

/-- How many magnitudes a binade has: two to the power of fifty-two. -/
def binadeSize : Nat := 1 <<< 52

/-- A magnitude of the format, infinity included. -/
structure Magnitude where
  /-- Its place among all magnitudes, counted from zero. -/
  rank : Nat
  /-- Infinity comes last. -/
  rank_le : rank ≤ 2047 * binadeSize
  deriving DecidableEq

namespace Magnitude

/-- The least magnitude. -/
def zero : Magnitude := ⟨0, Nat.zero_le _⟩

/-- The magnitude behind all numbers. -/
def infinity : Magnitude := ⟨2047 * binadeSize, Nat.le_refl _⟩

instance : Inhabited Magnitude := ⟨zero⟩

/-- Every magnitude but infinity stands for a number. -/
def isFinite (m : Magnitude) : Bool := m.rank < infinity.rank

/-- The multiple of `2 ^ -1074` that has a given rank. Fifty-two bits of a rank count inside a
binade, the others number the binades; the lowest binade goes down to zero. -/
def unitsOfRank (rank : Nat) : Nat :=
  if rank < binadeSize then rank
  else (binadeSize + rank % binadeSize) <<< (rank / binadeSize - 1)

/-- A magnitude as a multiple of `2 ^ -1074`. For infinity it is the first power of two that no
number of the format reaches. -/
def units (m : Magnitude) : Nat := unitsOfRank m.rank

/-- The rank of the magnitude nearest to the quotient `n / d`, before infinity is taken into
account. The quotient is counted in units, shifted so that fifty-three bits stand before the point,
and rounded there. -/
def nearestRank (n d : Nat) : Nat :=
  let shift := ((n <<< 1074) / d).log2 - 52
  shift * binadeSize + divRound (n <<< 1074) (d <<< shift)

/-- The magnitude nearest to the quotient `n / d` of a natural number and a positive one. What is
rounded up beyond the greatest number is infinity. -/
def nearest (n d : Nat) : Magnitude :=
  ⟨min (nearestRank n d) (2047 * binadeSize), Nat.min_le_right ..⟩

/-- The magnitude nearest to a natural number. -/
def ofNat (n : Nat) : Magnitude := nearest n 1

/-- The magnitude nearest to `digits * 10 ^ exponent`. Beyond ten to the power of 400 that is
infinity, and below its inverse zero, so that a long exponent costs nothing. -/
def ofDecimal (digits : Nat) (exponent : Int) : Magnitude :=
  if digits = 0 then zero
  else if 400 < exponent then infinity
  else if exponent < -(400 + digits.log2) then zero
  else if 0 ≤ exponent then nearest (digits * powerOfTen exponent.toNat) 1
  else nearest digits (powerOfTen (-exponent).toNat)

/-- The product of two magnitudes, rounded. -/
def times (a b : Magnitude) : Magnitude := nearest (a.units * b.units) (1 <<< 2148)

/-- The quotient of two magnitudes, rounded. -/
def dividedBy (a b : Magnitude) : Magnitude := nearest a.units b.units

/-- Beyond fifty-three bits a half goes to the even neighbour. -/
example : ofNat (1 <<< 53 + 1) = ofNat (1 <<< 53) ∧
    ofNat (1 <<< 53 + 3) = ofNat (1 <<< 53 + 4) := by
  decide +kernel

end Magnitude

/-- A number of the format, or no number. -/
inductive Double where
  /-- Not a number. -/
  | nan
  /-- A magnitude with a sign; there are two zeros. -/
  | signed (negative : Bool) (magnitude : Magnitude)
  deriving DecidableEq

namespace Double

/-- The positive zero. -/
def zero : Double := signed false .zero

/-- The infinity of a sign. -/
def infinity (negative : Bool) : Double := signed negative .infinity

instance : Inhabited Double := ⟨zero⟩

/-- Not a number. -/
def isNaN : Double → Bool
  | nan => true
  | signed .. => false

/-- Neither infinite nor no number. -/
def isFinite : Double → Bool
  | nan => false
  | signed _ m => m.isFinite

/-- Either of the two zeros. -/
def isZero : Double → Bool
  | nan => false
  | signed _ m => m.rank == 0

/-- The key by which numbers are ordered; the two zeros share one. -/
def key (negative : Bool) (m : Magnitude) : Int := if negative then -(m.rank : Int) else m.rank

/-- The order of two numbers. There is none if either is not a number. -/
def compare? : Double → Double → Option Ordering
  | signed s a, signed t b => some (compare (key s a) (key t b))
  | _, _ => none

/-- Equality as numbers: the two zeros are equal, and what is not a number differs from all. -/
def same (a b : Double) : Bool := a.compare? b == some .eq

/-- The number nearest to a whole number. -/
def ofInt (n : Int) : Double := signed (n < 0) (.ofNat n.natAbs)

/-- The number nearest to `digits * 10 ^ exponent` with a sign. -/
def ofDecimal (negative : Bool) (digits : Nat) (exponent : Int) : Double :=
  signed negative (.ofDecimal digits exponent)

@[simp] theorem compare?_nan_left (b : Double) : nan.compare? b = none := rfl

@[simp] theorem compare?_nan_right (a : Double) : a.compare? nan = none := by cases a <;> rfl

end Double

end Criteria

import Criteria.Proofs.Number.Digits
import Mathlib.Algebra.Order.Field.Rat
import Mathlib.Tactic.FieldSimp

/-!
# Decimal numbers as written

A decimal number is written as a sign or none, digits with at most one point among or beside them,
and a power of ten or none. The reader takes exactly the texts that are written so, and what it
makes of one has the exact value of the text. Both directions go through the text from its front:
each part ends where the next one begins, since no part begins with a digit but the digits.
-/

namespace Criteria

/-- The power of ten at the end of a number. -/
structure PowerPart where
  letter : Char
  sign : Sign
  digits : List Char
  letter_eq : letter = 'e' ∨ letter = 'E'
  allDigits : AllDigits digits
  digits_ne : digits ≠ []

namespace PowerPart

/-- The power of ten as written. -/
def chars (p : PowerPart) : List Char := p.letter :: (p.sign.chars ++ p.digits)

def exponent (p : PowerPart) : Int := p.sign.applyTo (placeValue 10 p.digits)

end PowerPart

/-- A decimal number as written. -/
structure WrittenDecimal where
  sign : Sign
  whole : List Char
  /-- The digits behind the point, if there is a point. -/
  fraction : Option (List Char)
  power : Option PowerPart
  whole_digits : AllDigits whole
  fraction_digits : AllDigits (fraction.getD [])
  /-- The point does not stand alone. -/
  digits_ne : whole ++ fraction.getD [] ≠ []

namespace WrittenDecimal

def pointChars : Option (List Char) → List Char
  | none => []
  | some digits => '.' :: digits

def powerChars (power : Option PowerPart) : List Char := (power.map PowerPart.chars).getD []

def powerExponent (power : Option PowerPart) : Int := (power.map PowerPart.exponent).getD 0

variable (n : WrittenDecimal)

/-- The number as written. -/
def chars : List Char :=
  n.sign.chars ++ (n.whole ++ (pointChars n.fraction ++ powerChars n.power))

def negative : Bool := n.sign = .minus

/-- The exact value of the number without its sign. -/
def magnitude : ℚ :=
  (placeValue 10 n.whole +
    (placeValue 10 (n.fraction.getD []) : ℚ) / 10 ^ (n.fraction.getD []).length) *
    10 ^ powerExponent n.power

/-- What the number is read as. -/
def decimal : Decimal where
  negative := n.negative
  digits := ofDigits 10 (n.whole ++ n.fraction.getD [])
  exponent := powerExponent n.power - (n.fraction.getD []).length

/-- The digits and the exponent that a number is read as have its exact value. -/
theorem magnitude_eq : n.magnitude = (n.decimal.digits : ℚ) * 10 ^ n.decimal.exponent := by
  have hdigits : ((n.decimal.digits : Nat) : ℚ) =
      placeValue 10 n.whole * 10 ^ (n.fraction.getD []).length +
        placeValue 10 (n.fraction.getD []) := by
    rw [decimal, ofDigits_append, n.whole_digits.ofDigits_eq, n.fraction_digits.ofDigits_eq]
    push_cast
    rfl
  have hexponent : (10 : ℚ) ^ n.decimal.exponent =
      10 ^ powerExponent n.power / 10 ^ (n.fraction.getD []).length := by
    rw [decimal, zpow_sub₀ (by norm_num), zpow_natCast]
  rw [hdigits, hexponent, magnitude]
  field_simp

/-! ## The parts -/

theorem exponent?_powerChars (power : Option PowerPart) :
    Decimal.exponent? (powerChars power) = some (powerExponent power) := by
  cases power with
  | none => rfl
  | some p =>
    have hsign := takeSign_append p.sign p.allDigits.unsigned
    have hletter : (p.letter == 'e' || p.letter == 'E') = true := by
      rcases p.letter_eq with heq | heq
      · rw [heq]
        rfl
      · rw [heq]
        rfl
    have hne : p.digits.isEmpty = false := List.isEmpty_eq_false_iff.mpr p.digits_ne
    have hall : p.digits.all Char.isDigit = true := List.all_eq_true.mpr p.allDigits
    show Decimal.exponent? (p.letter :: (p.sign.chars ++ p.digits)) = some p.exponent
    rw [Decimal.exponent?, hsign]
    simp [hletter, hne, hall, PowerPart.exponent, Sign.applyTo, p.allDigits.ofDigits_eq]

theorem exists_power {cs : List Char} {e : Int} (h : Decimal.exponent? cs = some e) :
    ∃ power, powerChars power = cs ∧ powerExponent power = e := by
  cases cs with
  | nil =>
    obtain rfl : 0 = e := Option.some.inj h
    exact ⟨none, rfl, rfl⟩
  | cons c rest =>
    obtain ⟨sign, hrest, hnegative⟩ := exists_sign rest
    rw [Decimal.exponent?] at h
    generalize takeSign rest = taken at h hrest hnegative
    obtain ⟨negative, digits⟩ := taken
    dsimp only at h hrest hnegative
    split at h
    · next hpower =>
      simp only [Bool.and_eq_true, Bool.or_eq_true, beq_iff_eq, Bool.not_eq_true',
        List.isEmpty_eq_false_iff, List.all_eq_true] at hpower
      obtain ⟨⟨hletter, hne⟩, hall⟩ := hpower
      refine ⟨some ⟨c, sign, digits, hletter, hall, hne⟩, ?_, ?_⟩
      · rw [hrest]
        rfl
      · rw [← Option.some.inj h, hnegative, AllDigits.ofDigits_eq hall]
        simp [powerExponent, PowerPart.exponent, Sign.applyTo]
    · exact absurd h (by simp)

theorem powerChars_head {power : Option PowerPart} {c : Char}
    (h : (powerChars power).head? = some c) : c = 'e' ∨ c = 'E' := by
  cases power with
  | none => exact absurd h (by simp [powerChars])
  | some p =>
    obtain rfl : p.letter = c := Option.some.inj h
    exact p.letter_eq

theorem powerChars_stops (power : Option PowerPart) :
    (powerChars power).head?.any Char.isDigit = false := by
  cases hhead : (powerChars power).head? with
  | none => rfl
  | some c =>
    rcases powerChars_head hhead with rfl | rfl
    · rfl
    · rfl

theorem whole_stops :
    (pointChars n.fraction ++ powerChars n.power).head?.any Char.isDigit = false := by
  cases n.fraction with
  | none => exact powerChars_stops n.power
  | some digits => rfl

theorem unsigned : ∀ c ∈ (n.whole ++ (pointChars n.fraction ++ powerChars n.power)).head?,
    c ≠ '-' ∧ c ≠ '+' := by
  have hne := n.digits_ne
  by_cases hwhole : n.whole = []
  · cases hfraction : n.fraction with
    | none => exact absurd (by simp [hwhole, hfraction]) hne
    | some digits =>
      intro c hc
      obtain rfl : '.' = c := by simpa [hwhole, pointChars] using hc
      decide
  · rw [head?_append_of_ne hwhole]
    exact n.whole_digits.unsigned

/-! ## Reading -/

/-- The reader takes every number that is written so. -/
theorem read?_chars : Decimal.read? n.chars = some n.decimal := by
  obtain ⟨htake, hdrop⟩ := takeWhile_digits n.whole_digits n.whole_stops
  have hne := n.digits_ne
  unfold Decimal.read? chars
  rw [takeSign_append n.sign n.unsigned]
  dsimp only
  rw [htake, hdrop]
  cases hfraction : n.fraction with
  | none =>
    have hpoint : ∀ rest, powerChars n.power ≠ '.' :: rest := by
      intro rest hrest
      have hhead : (powerChars n.power).head? = some '.' := by
        rw [hrest]
        rfl
      exact absurd (powerChars_head hhead) (by decide)
    have hwhole : n.whole.isEmpty = false := by
      simpa [hfraction] using hne
    simp [pointChars, hwhole, hfraction, exponent?_powerChars, decimal, negative]
  | some digits =>
    have hdigits := n.fraction_digits
    rw [hfraction] at hdigits hne
    obtain ⟨htake', hdrop'⟩ := takeWhile_digits hdigits (powerChars_stops n.power)
    have hempty : (n.whole.isEmpty && digits.isEmpty) = false := by
      rw [Bool.and_eq_false_iff, List.isEmpty_eq_false_iff, List.isEmpty_eq_false_iff]
      by_contra hboth
      push Not at hboth
      exact hne (by simp [hboth])
    rw [Option.getD_some] at htake' hdrop'
    simp [pointChars, htake', hdrop', hempty, hfraction, exponent?_powerChars, decimal, negative]

/-- What the reader goes on with behind the sign and the digits is a number if it gives one. -/
theorem exists_of_parts (fraction : Option (List Char)) {sign : Sign} {whole rest : List Char}
    {d : Decimal} (hwhole : AllDigits whole) (hfraction : AllDigits (fraction.getD []))
    (h : (if whole.isEmpty && (fraction.getD []).isEmpty then none
      else (Decimal.exponent? rest).map fun power =>
        (⟨sign = .minus, ofDigits 10 (whole ++ fraction.getD []),
          power - (fraction.getD []).length⟩ : Decimal)) = some d) :
    ∃ n : WrittenDecimal,
      n.chars = sign.chars ++ (whole ++ (pointChars fraction ++ rest)) ∧ n.decimal = d := by
  split at h
  · exact absurd h (by simp)
  · next hne =>
    obtain ⟨e, hpower, rfl⟩ := Option.map_eq_some_iff.mp h
    obtain ⟨power, hchars, rfl⟩ := exists_power hpower
    have hdigits : whole ++ fraction.getD [] ≠ [] := by
      simpa [List.isEmpty_iff] using hne
    refine ⟨⟨sign, whole, fraction, power, hwhole, hfraction, hdigits⟩, ?_, rfl⟩
    rw [← hchars]
    rfl

/-- The reader takes no other text. -/
theorem exists_written {cs : List Char} {d : Decimal} (h : Decimal.read? cs = some d) :
    ∃ n : WrittenDecimal, n.chars = cs ∧ n.decimal = d := by
  obtain ⟨sign, hcs, hnegative⟩ := exists_sign cs
  unfold Decimal.read? at h
  generalize takeSign cs = taken at h hcs hnegative
  obtain ⟨negative, body⟩ := taken
  have hwhole := allDigits_takeWhile body
  have hbody := List.takeWhile_append_dropWhile (p := Char.isDigit) (l := body)
  dsimp only at h hcs hnegative
  generalize body.takeWhile Char.isDigit = whole at h hwhole hbody
  generalize body.dropWhile Char.isDigit = behind at h hbody
  rw [hcs, ← hbody]
  subst hnegative
  split at h
  · next digits =>
    have hdigits := List.takeWhile_append_dropWhile (p := Char.isDigit) (l := digits)
    have hparts := exists_of_parts (some (digits.takeWhile Char.isDigit)) hwhole
      (allDigits_takeWhile digits) h
    rwa [pointChars, List.cons_append, hdigits] at hparts
  · exact exists_of_parts none hwhole (fun c hc => absurd hc (by simp)) h

/-- The reader takes the numbers that are written so, by their digits and their exponent. -/
theorem read?_eq_some_iff {cs : List Char} {d : Decimal} :
    Decimal.read? cs = some d ↔ ∃ n : WrittenDecimal, n.chars = cs ∧ n.decimal = d := by
  constructor
  · exact exists_written
  · rintro ⟨n, rfl, rfl⟩
    exact n.read?_chars

end WrittenDecimal

end Criteria

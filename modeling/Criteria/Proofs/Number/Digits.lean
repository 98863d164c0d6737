import Criteria.Number.Decimal
import Criteria.Number.Layout
import Mathlib.Data.List.Basic
import Mathlib.Data.List.Induction
import Mathlib.Data.List.TakeWhile
import Mathlib.Data.Nat.Digits.Defs
import Mathlib.Tactic.IntervalCases
import Mathlib.Tactic.Ring

/-!
# Digits of whole numbers

The digits of a whole number are read back as the number, and a row of digits is that of the number
that it is read as unless it begins with a zero that could be left out. Both follow the row from its
end: a digit more is ten times the number and the digit.
-/

namespace Criteria

open Layout

variable {cs : List Char}

def AllDigits (cs : List Char) : Prop := ∀ c ∈ cs, c.isDigit = true

theorem AllDigits.append {xs ys : List Char} (hx : AllDigits xs) (hy : AllDigits ys) :
    AllDigits (xs ++ ys) := by
  intro c hc
  rcases List.mem_append.mp hc with hc | hc
  · exact hx c hc
  · exact hy c hc

theorem AllDigits.of_subset {xs ys : List Char} (h : AllDigits ys) (hsub : xs ⊆ ys) :
    AllDigits xs := fun c hc => h c (hsub hc)

theorem AllDigits.replicate (n : Nat) : AllDigits (List.replicate n '0') := by
  intro c hc
  rw [List.eq_of_mem_replicate hc]
  rfl

theorem allDigits_takeWhile (cs : List Char) : AllDigits (cs.takeWhile Char.isDigit) := by
  intro c hc
  exact List.mem_takeWhile_imp hc

theorem stops_dropWhile (cs : List Char) :
    (cs.dropWhile Char.isDigit).head?.any Char.isDigit = false := by
  have hstop := List.head?_dropWhile_not Char.isDigit cs
  cases hhead : (cs.dropWhile Char.isDigit).head? with
  | none => rfl
  | some c =>
    rw [hhead] at hstop
    simpa using hstop

/-- A row of digits goes on as long as digits follow. -/
theorem takeWhile_digits {cs rest : List Char} (h : AllDigits cs)
    (hrest : rest.head?.any Char.isDigit = false) :
    (cs ++ rest).takeWhile Char.isDigit = cs ∧ (cs ++ rest).dropWhile Char.isDigit = rest := by
  have hstop : rest.takeWhile Char.isDigit = [] ∧ rest.dropWhile Char.isDigit = rest := by
    cases rest with
    | nil => exact ⟨rfl, rfl⟩
    | cons c rest =>
      have hc : c.isDigit = false := hrest
      simp [hc]
  rw [List.takeWhile_append_of_pos h, List.dropWhile_append_of_pos h, hstop.1, hstop.2,
    List.append_nil]
  exact ⟨rfl, rfl⟩

theorem head?_append_of_ne {xs ys : List Char} (h : xs ≠ []) : (xs ++ ys).head? = xs.head? := by
  cases xs with
  | nil => exact absurd rfl h
  | cons => rfl

theorem digit_bounds {c : Char} (h : c.isDigit = true) : 48 ≤ c.toNat ∧ c.toNat ≤ 57 := by
  have hbounds := Char.isDigit_iff_toNat.mp h
  exact hbounds

theorem digitValue_of_isDigit {c : Char} (h : c.isDigit = true) :
    digitValue c = c.toNat - '0'.toNat := by
  rw [digitValue, if_pos h]

theorem digitValue_lt {c : Char} (h : c.isDigit = true) : digitValue c < 10 := by
  have hbounds := digit_bounds h
  have hzero : '0'.toNat = 48 := rfl
  rw [digitValue_of_isDigit h]
  omega

theorem digitChar_digitValue {c : Char} (h : c.isDigit = true) :
    (digitValue c).digitChar = c := by
  have hbounds := digit_bounds h
  have hzero : '0'.toNat = 48 := rfl
  rw [← Char.toNat_inj, Nat.toNat_digitChar_of_lt_ten (digitValue_lt h), digitValue_of_isDigit h]
  omega

/-! ## Reading -/

theorem ofDigits_append (base : Nat) (xs ys : List Char) :
    ofDigits base (xs ++ ys) = ofDigits base xs * base ^ ys.length + ofDigits base ys := by
  induction ys using List.reverseRecOn with
  | nil => simp [ofDigits]
  | append_singleton ys c ih =>
    have hlast : ∀ zs : List Char,
        ofDigits base (zs ++ [c]) = base * ofDigits base zs + digitValue c := by
      intro zs
      rw [ofDigits, List.foldl_append]
      rfl
    rw [← List.append_assoc, hlast, hlast, ih, List.length_append, List.length_singleton, Nat.pow_succ]
    ring

theorem ofDigits_singleton (base : Nat) (c : Char) : ofDigits base [c] = digitValue c := by
  simp [ofDigits]

theorem ofDigits_eq_ofDigitChars (h : AllDigits cs) :
    ofDigits 10 cs = Nat.ofDigitChars 10 cs 0 := by
  exact List.foldl_ext _ _ _ fun n c hc => by rw [digitValue_of_isDigit (h c hc)]

theorem ofDigits_lt (h : AllDigits cs) : ofDigits 10 cs < 10 ^ cs.length := by
  induction cs using List.reverseRecOn with
  | nil => decide
  | append_singleton cs c ih =>
    have hcs := ih (h.of_subset (List.subset_append_left ..))
    have hc := digitValue_lt (h c (List.mem_append_right _ (List.mem_singleton.mpr rfl)))
    have hlength : 10 ^ (cs ++ [c]).length = 10 ^ cs.length * 10 := by
      rw [List.length_append, List.length_singleton, Nat.pow_succ]
    rw [ofDigits_append, ofDigits_singleton, List.length_singleton, Nat.pow_one, hlength]
    omega

theorem ofDigits_zeros (n : Nat) : ofDigits 10 (List.replicate n '0') = 0 := by
  have hzero : digitValue '0' = 0 := by decide
  induction n with
  | zero => rfl
  | succ n ih =>
    rw [List.replicate_succ', ofDigits_append, ih, ofDigits_singleton, hzero, Nat.zero_mul]

/-- The place of a digit among the digits of base sixteen, in letters of either case. -/
def digitPlace (c : Char) : Nat := "0123456789abcdef".toList.idxOf c.toLower

/-- The number that a row of digits is in a base, by the places of the digits. -/
def placeValue (base : Nat) (cs : List Char) : Nat := Nat.ofDigits base (cs.reverse.map digitPlace)

theorem digitValue_eq_place {c : Char} (h : c.isDigit = true) : digitValue c = digitPlace c := by
  have hlt := digitValue_lt h
  conv_rhs => rw [← digitChar_digitValue h]
  generalize digitValue c = d at hlt
  interval_cases d <;> rfl

theorem ofDigits_eq_placeValue (base : Nat) (h : ∀ c ∈ cs, digitValue c = digitPlace c) :
    ofDigits base cs = placeValue base cs := by
  rw [placeValue, Nat.ofDigits_eq_foldr, List.foldr_map, List.foldr_reverse]
  refine List.foldl_ext _ _ _ fun n c hc => ?_
  rw [h c hc, Nat.cast_id, Nat.add_comm]

theorem AllDigits.ofDigits_eq (h : AllDigits cs) : ofDigits 10 cs = placeValue 10 cs :=
  ofDigits_eq_placeValue 10 fun c hc => digitValue_eq_place (h c hc)

/-! ## Writing -/

theorem allDigits_digitsOf (n : Nat) : AllDigits (digitsOf n) := fun _ hc =>
  Nat.isDigit_of_mem_toDigits (by decide) (by decide) hc

theorem digitsOf_ne_nil (n : Nat) : digitsOf n ≠ [] := Nat.toDigits_ne_nil

theorem ofDigits_digitsOf (n : Nat) : ofDigits 10 (digitsOf n) = n := by
  rw [ofDigits_eq_ofDigitChars (allDigits_digitsOf n)]
  exact Nat.ofDigitChars_toDigits (by decide) (by decide)

theorem digitsOf_append {n d : Nat} (hn : 0 < n) (hd : d < 10) :
    digitsOf (10 * n + d) = digitsOf n ++ [d.digitChar] := by
  have hlast : Nat.toDigits 10 d = [d.digitChar] := Nat.toDigits_of_lt_base hd
  rw [digitsOf, ← Nat.toDigits_append_toDigits (by decide) hn hd, hlast]
  rfl

/-- No zero stands at the start of the digits of a positive number. -/
theorem head_digitsOf {n : Nat} (hn : 0 < n) : (digitsOf n).head? ≠ some '0' := by
  induction n using Nat.strongRecOn with
  | _ n ih =>
    by_cases hlt : n < 10
    · have hdigit : digitsOf n = [n.digitChar] := Nat.toDigits_of_lt_base hlt
      rw [hdigit]
      interval_cases n <;> decide
    · have hn' : n = 10 * (n / 10) + n % 10 := by omega
      rw [hn', digitsOf_append (by omega) (by omega), head?_append_of_ne (digitsOf_ne_nil _)]
      exact ih (n / 10) (by omega) (by omega)

theorem digitsOf_mul_pow {n : Nat} (hn : 0 < n) (k : Nat) :
    digitsOf (n * 10 ^ k) = digitsOf n ++ List.replicate k '0' := by
  induction k with
  | zero => rw [Nat.pow_zero, Nat.mul_one, List.replicate_zero, List.append_nil]
  | succ k ih =>
    have hpos : 0 < n * 10 ^ k := Nat.mul_pos hn (Nat.pow_pos (by omega))
    have hstep : n * 10 ^ (k + 1) = 10 * (n * 10 ^ k) + 0 := by ring
    rw [hstep, digitsOf_append hpos (by decide), ih, List.append_assoc, List.replicate_succ']
    rfl

/-- Digits are those of the number they are read as unless a zero at their start could be left
out. -/
theorem digitsOf_ofDigits (h : AllDigits cs) (hne : cs ≠ []) (hlead : cs.head? = some '0' → cs = ['0']) :
    digitsOf (ofDigits 10 cs) = cs := by
  induction cs using List.reverseRecOn with
  | nil => exact absurd rfl hne
  | append_singleton cs c ih =>
    have hc : c.isDigit = true := h c (List.mem_append_right _ (List.mem_singleton.mpr rfl))
    rw [ofDigits_append, ofDigits_singleton, List.length_singleton, Nat.pow_one, Nat.mul_comm]
    by_cases hcs : cs = []
    · have hdigit : digitsOf (digitValue c) = [c] := by
        have hone : digitsOf (digitValue c) = [(digitValue c).digitChar] :=
          Nat.toDigits_of_lt_base (digitValue_lt hc)
        rw [hone, digitChar_digitValue hc]
      rw [hcs]
      simpa [ofDigits] using hdigit
    · have hhead : cs.head? ≠ some '0' := by
        intro hzero
        have hall := hlead (by rw [head?_append_of_ne hcs]; exact hzero)
        cases cs with
        | nil => exact hcs rfl
        | cons d cs => simp at hall
      have hcs' := ih (h.of_subset (List.subset_append_left ..)) hcs fun hzero => absurd hzero hhead
      have hpos : 0 < ofDigits 10 cs := by
        by_contra hzero
        rw [Nat.eq_zero_of_not_pos hzero] at hcs'
        rw [← hcs'] at hhead
        exact hhead (by decide)
      rw [digitsOf_append hpos (digitValue_lt hc), hcs', digitChar_digitValue hc]

theorem getLast?_digitsOf (n : Nat) : (digitsOf n).getLast? = some (n % 10).digitChar := by
  by_cases hlt : n < 10
  · have hdigit : digitsOf n = [n.digitChar] := Nat.toDigits_of_lt_base hlt
    rw [hdigit, Nat.mod_eq_of_lt hlt]
    rfl
  · have hn : n = 10 * (n / 10) + n % 10 := by omega
    conv_lhs => rw [hn, digitsOf_append (by omega) (by omega)]
    exact List.getLast?_concat ..

/-- The digits of a number, behind as many zeros as it takes to make a given number of places. -/
def paddedDigits (places n : Nat) : List Char :=
  List.replicate (places - (digitsOf n).length) '0' ++ digitsOf n

theorem allDigits_paddedDigits (places n : Nat) : AllDigits (paddedDigits places n) :=
  (AllDigits.replicate _).append (allDigits_digitsOf n)

theorem ofDigits_paddedDigits (places n : Nat) : ofDigits 10 (paddedDigits places n) = n := by
  rw [paddedDigits, ofDigits_append, ofDigits_zeros, ofDigits_digitsOf, Nat.zero_mul, Nat.zero_add]

theorem getLast?_paddedDigits (places n : Nat) :
    (paddedDigits places n).getLast? = some (n % 10).digitChar := by
  rw [paddedDigits, List.getLast?_append, getLast?_digitsOf]
  rfl

theorem length_paddedDigits (places n : Nat) :
    (paddedDigits places n).length = max places (digitsOf n).length := by
  rw [paddedDigits, List.length_append, List.length_replicate]
  omega

/-- Digits are those of the number they are read as, behind the zeros at their start. -/
theorem paddedDigits_ofDigits (h : AllDigits cs) (hne : cs ≠ []) :
    paddedDigits cs.length (ofDigits 10 cs) = cs := by
  induction cs with
  | nil => exact absurd rfl hne
  | cons c cs ih =>
    by_cases hlead : c = '0' ∧ cs ≠ []
    · obtain ⟨rfl, hcs⟩ := hlead
      have hrest := ih (h.of_subset (List.subset_cons_self ..)) hcs
      have hvalue : ofDigits 10 ('0' :: cs) = ofDigits 10 cs := by
        have happend := ofDigits_append 10 ['0'] cs
        have hzero : ofDigits 10 ['0'] = 0 := by decide
        rw [hzero, Nat.zero_mul, Nat.zero_add] at happend
        exact happend
      have hlength := length_paddedDigits cs.length (ofDigits 10 cs)
      rw [hrest] at hlength
      have hplaces : cs.length + 1 - (digitsOf (ofDigits 10 cs)).length =
          cs.length - (digitsOf (ofDigits 10 cs)).length + 1 := by omega
      rw [paddedDigits, hvalue, List.length_cons, hplaces, List.replicate_succ, List.cons_append]
      exact congrArg ('0' :: ·) hrest
    · have hdigits : digitsOf (ofDigits 10 (c :: cs)) = c :: cs := by
        refine digitsOf_ofDigits h hne fun hhead => ?_
        obtain rfl : c = '0' := by simpa using hhead
        by_cases hcs : cs = []
        · rw [hcs]
        · exact absurd ⟨rfl, hcs⟩ hlead
      rw [paddedDigits, hdigits, Nat.sub_self]
      rfl

/-! ## Signs -/

/-- What may stand in front of the digits of a number. -/
inductive Sign where
  | none
  | plus
  | minus
  deriving DecidableEq

namespace Sign

/-- The sign as written. -/
def chars : Sign → List Char
  | none => []
  | plus => ['+']
  | minus => ['-']

/-- A whole number behind the sign. -/
def applyTo (sign : Sign) (n : Nat) : Int := if sign = .minus then -(n : Int) else n

end Sign

theorem takeSign_append (sign : Sign) {cs : List Char} (h : ∀ c ∈ cs.head?, c ≠ '-' ∧ c ≠ '+') :
    takeSign (sign.chars ++ cs) = (decide (sign = .minus), cs) := by
  cases sign with
  | plus => rfl
  | minus => rfl
  | none =>
    cases cs with
    | nil => rfl
    | cons c rest =>
      obtain ⟨hminus, hplus⟩ := h c rfl
      show takeSign (c :: rest) = (false, c :: rest)
      unfold takeSign
      split
      · next heq => exact absurd (List.cons.inj heq).1 hminus
      · next heq => exact absurd (List.cons.inj heq).1 hplus
      · rfl

theorem exists_sign (cs : List Char) :
    ∃ sign : Sign, cs = sign.chars ++ (takeSign cs).2 ∧
      (takeSign cs).1 = decide (sign = .minus) := by
  unfold takeSign
  split
  · exact ⟨.minus, rfl, rfl⟩
  · exact ⟨.plus, rfl, rfl⟩
  · exact ⟨.none, rfl, rfl⟩

theorem AllDigits.unsigned (h : AllDigits cs) : ∀ c ∈ cs.head?, c ≠ '-' ∧ c ≠ '+' := by
  intro c hc
  have hdigit := h c (List.mem_of_mem_head? hc)
  refine ⟨?_, ?_⟩
  · rintro rfl
    exact absurd hdigit (by decide)
  · rintro rfl
    exact absurd hdigit (by decide)

end Criteria

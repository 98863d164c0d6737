import Criteria.Proofs.Number.Integers
import Criteria.Proofs.Text.Bytes
import Criteria.Proofs.Text.Trimming
import Criteria.Request

/-!
# Whole numbers at the front of a text

A text gives a whole number if it begins with one: behind blanks, at most one sign and a row of
digits, which ends where no digit follows. The number is there if and only if it fits into 64 bits, and
the two ends of their range are not alike. The sign and the digits are characters of ASCII, so that the
number can be sliced out by counting bytes, whatever stands around it.
-/

namespace Criteria

open Text

/-! ## What fits into 64 bits -/

theorem int64?_eq_some_iff {n : Int} {m : Int64} : int64? n = some m ↔ n = m.toInt := by
  have hmin : Int64.minValue.toInt = -2 ^ 63 := by decide
  have hmax : Int64.maxValue.toInt = 2 ^ 63 - 1 := by decide
  have hlow := m.le_toInt
  have hhigh := m.toInt_lt
  unfold int64?
  rw [hmin, hmax]
  split
  · next hfits =>
    simp only [Bool.and_eq_true, decide_eq_true_eq] at hfits
    rw [Option.some.injEq, ← Int64.toInt_inj, Int64.toInt_ofInt_of_le hfits.1 (by omega)]
  · next hfits =>
    simp only [Bool.and_eq_true, decide_eq_true_eq] at hfits
    constructor
    · intro h
      exact absurd h (by simp)
    · rintro rfl
      exact absurd ⟨hlow, by omega⟩ hfits

theorem int64?_eq_none_iff {n : Int} : int64? n = none ↔ ¬ (-2 ^ 63 ≤ n ∧ n ≤ 2 ^ 63 - 1) := by
  have hmin : Int64.minValue.toInt = -2 ^ 63 := by decide
  have hmax : Int64.maxValue.toInt = 2 ^ 63 - 1 := by decide
  unfold int64?
  rw [hmin, hmax]
  split
  · next hfits => simpa using hfits
  · next hfits => simpa using hfits

/-! ## The grammar -/

/-- A text that begins with a whole number. -/
structure LeadingInt where
  blanks : List Char
  sign : Sign
  digits : List Char
  /-- What stands behind the number. -/
  rest : List Char
  all_blank : ∀ c ∈ blanks, isBlank c = true
  allDigits : AllDigits digits
  digits_ne : digits ≠ []
  /-- All digits belong to the number. -/
  stops : rest.head?.any Char.isDigit = false

namespace LeadingInt

/-- The text as written. -/
def chars (l : LeadingInt) : List Char := l.blanks ++ (l.sign.chars ++ (l.digits ++ l.rest))

/-- The number that the text begins with. -/
def value (l : LeadingInt) : Int := l.sign.applyTo (placeValue 10 l.digits)

theorem not_isBlank_of_isDigit {c : Char} (h : c.isDigit = true) : isBlank c = false := by
  have hbounds := digit_bounds h
  simp only [isBlank, Bool.or_eq_false_iff, Bool.and_eq_false_iff, decide_eq_false_iff_not,
    beq_eq_false_iff_ne]
  omega

variable (l : LeadingInt)

theorem trimStart_chars : trimStart l.chars = l.sign.chars ++ (l.digits ++ l.rest) := by
  have hfront : trimStart l.chars = trimStart (l.sign.chars ++ (l.digits ++ l.rest)) :=
    List.dropWhile_append_of_pos l.all_blank
  rw [hfront]
  refine trimStart_of_head ?_
  intro c hc
  cases hsign : l.sign with
  | plus =>
    obtain rfl : '+' = c := by simpa [hsign, Sign.chars] using hc
    decide
  | minus =>
    obtain rfl : '-' = c := by simpa [hsign, Sign.chars] using hc
    decide
  | none =>
    rw [hsign, Sign.chars, List.nil_append, head?_append_of_ne l.digits_ne] at hc
    exact not_isBlank_of_isDigit (l.allDigits c (List.mem_of_mem_head? hc))

theorem takeSign_trimStart :
    takeSign (trimStart l.chars) = (decide (l.sign = .minus), l.digits ++ l.rest) := by
  rw [l.trimStart_chars]
  refine takeSign_append l.sign ?_
  rw [head?_append_of_ne l.digits_ne]
  exact l.allDigits.unsigned

/-- The number is read off its text if it fits into 64 bits. -/
theorem leadingInt?_eq {s : String} (h : l.chars = s.toList) : leadingInt? s = int64? l.value := by
  obtain ⟨htake, -⟩ := takeWhile_digits l.allDigits l.stops
  have hne : l.digits.isEmpty = false := List.isEmpty_eq_false_iff.mpr l.digits_ne
  unfold leadingInt? value Sign.applyTo
  rw [← l.allDigits.ofDigits_eq, ← h, l.takeSign_trimStart]
  dsimp only
  rw [htake, hne]
  simp

/-- A text either begins with a whole number or has no digit where one would begin. -/
theorem exists_of_digit {cs : List Char}
    (h : (takeSign (trimStart cs)).2.head?.any Char.isDigit = true) :
    ∃ l : LeadingInt, l.chars = cs := by
  obtain ⟨sign, hsign, -⟩ := exists_sign (trimStart cs)
  generalize (takeSign (trimStart cs)).2 = rest at h hsign
  have hcut : rest.takeWhile Char.isDigit ++ rest.dropWhile Char.isDigit = rest :=
    List.takeWhile_append_dropWhile
  have hblank : cs.takeWhile isBlank ++ trimStart cs = cs := List.takeWhile_append_dropWhile
  refine ⟨⟨cs.takeWhile isBlank, sign, rest.takeWhile Char.isDigit, rest.dropWhile Char.isDigit,
    ?_, ?_, ?_, ?_⟩, ?_⟩
  · intro c hc
    exact List.mem_takeWhile_imp hc
  · exact allDigits_takeWhile rest
  · cases rest with
    | nil => simp at h
    | cons c rest =>
      have hc : c.isDigit = true := by simpa using h
      simp [hc]
  · exact stops_dropWhile rest
  · rw [chars, hcut, ← hsign, hblank]

theorem leadingInt?_eq_none {s : String}
    (h : (takeSign (trimStart s.toList)).2.head?.any Char.isDigit = false) :
    leadingInt? s = none := by
  unfold leadingInt?
  generalize takeSign (trimStart s.toList) = signed at h
  obtain ⟨negative, rest⟩ := signed
  cases rest with
  | nil => rfl
  | cons c rest =>
    have hc : c.isDigit = false := by simpa using h
    simp [hc]

theorem head_takeSign : (takeSign (trimStart l.chars)).2.head?.any Char.isDigit = true := by
  rw [l.takeSign_trimStart]
  dsimp only
  rw [head?_append_of_ne l.digits_ne]
  cases hdigits : l.digits with
  | nil => exact absurd hdigits l.digits_ne
  | cons c digits =>
    have hc := l.allDigits c (by rw [hdigits]; exact List.mem_cons_self)
    simpa using hc

theorem leadingInt?_cases (s : String) :
    (∃ l : LeadingInt, l.chars = s.toList ∧ leadingInt? s = int64? l.value) ∨
      (leadingInt? s = none ∧ ∀ l : LeadingInt, l.chars ≠ s.toList) := by
  cases hdigit : (takeSign (trimStart s.toList)).2.head?.any Char.isDigit with
  | true =>
    obtain ⟨l, hl⟩ := exists_of_digit hdigit
    exact Or.inl ⟨l, hl, l.leadingInt?_eq hl⟩
  | false =>
    refine Or.inr ⟨leadingInt?_eq_none hdigit, ?_⟩
    intro l hl
    have hhead := l.head_takeSign
    rw [hl, hdigit] at hhead
    exact absurd hhead (by decide)

end LeadingInt

theorem leadingInt?_eq_some_iff {s : String} {n : Int64} :
    leadingInt? s = some n ↔ ∃ l : LeadingInt, l.chars = s.toList ∧ l.value = n.toInt := by
  constructor
  · intro h
    rcases LeadingInt.leadingInt?_cases s with ⟨l, hl, hread⟩ | ⟨hnone, -⟩
    · exact ⟨l, hl, int64?_eq_some_iff.mp (hread.symm.trans h)⟩
    · rw [hnone] at h
      exact absurd h (by simp)
  · rintro ⟨l, hl, hvalue⟩
    rw [l.leadingInt?_eq hl]
    exact int64?_eq_some_iff.mpr hvalue

theorem leadingInt?_eq_none_iff {s : String} :
    leadingInt? s = none ↔
      ∀ l : LeadingInt, l.chars = s.toList → ¬ (-2 ^ 63 ≤ l.value ∧ l.value ≤ 2 ^ 63 - 1) := by
  constructor
  · intro h l hl
    rw [l.leadingInt?_eq hl] at h
    exact int64?_eq_none_iff.mp h
  · intro h
    rcases LeadingInt.leadingInt?_cases s with ⟨l, hl, hread⟩ | ⟨hnone, -⟩
    · rw [hread]
      exact int64?_eq_none_iff.mpr (h l hl)
    · exact hnone

/-! ## Written numbers -/

namespace LeadingInt

/-- A whole number as written, in front of a text that does not go on with a digit. -/
def ofInt (n : Int) {rest : List Char} (h : rest.head?.any Char.isDigit = false) : LeadingInt where
  blanks := []
  sign := if n < 0 then .minus else .none
  digits := Layout.digitsOf n.natAbs
  rest := rest
  all_blank := by simp
  allDigits := allDigits_digitsOf _
  digits_ne := digitsOf_ne_nil _
  stops := h

theorem value_ofInt (n : Int) {rest : List Char} (h : rest.head?.any Char.isDigit = false) :
    (ofInt n h).value = n := by
  unfold value ofInt Sign.applyTo
  rw [← (allDigits_digitsOf _).ofDigits_eq, ofDigits_digitsOf]
  by_cases hn : n < 0
  · simp only [hn, ↓reduceIte]
    omega
  · simp only [hn, ↓reduceIte, reduceCtorEq]
    omega

theorem chars_ofInt (n : Int) {rest : String} (h : rest.toList.head?.any Char.isDigit = false) :
    (ofInt n h).chars = (Numeral.intText n ++ rest).toList := by
  rw [String.toList_append, Numeral.intText, String.toList_ofList]
  by_cases hn : n < 0
  · simp [chars, ofInt, hn, Sign.chars]
  · simp [chars, ofInt, hn, Sign.chars]

end LeadingInt

theorem leadingInt?_intText (n : Int64) {rest : String}
    (h : rest.toList.head?.any Char.isDigit = false) :
    leadingInt? (Numeral.intText n.toInt ++ rest) = some n :=
  leadingInt?_eq_some_iff.mpr
    ⟨.ofInt n.toInt h, LeadingInt.chars_ofInt n.toInt h, LeadingInt.value_ofInt n.toInt h⟩

/-! ## Slicing -/

/-- Whether a byte is that of a digit. -/
def isDigitByte (b : UInt8) : Bool := 48 ≤ b.toNat && b.toNat ≤ 57

/-- The sign of a number, less a plus, and what stands behind it; the sign is told by its byte. -/
def signSlice? (text : String) : Option (String × String) :=
  if (bytes text).head? = some 45 then (cutAt? text 1).map fun (_, rest) => ("-", rest)
  else if (bytes text).head? = some 43 then (cutAt? text 1).map fun (_, rest) => ("", rest)
  else some ("", text)

/-- The digits that a text begins with, as many as there are bytes of digits. -/
def digitSlice? (text : String) : Option String :=
  (cutAt? text ((bytes text).takeWhile isDigitByte).length).map Prod.fst

/-- The number that a whole text is: a sign at most, then digits, in 64 bits. -/
def readInt64? (text : String) : Option Int64 :=
  let (negative, digits) := takeSign text.toList
  if digits.isEmpty || !digits.all Char.isDigit then none
  else int64? (if negative then -(ofDigits 10 digits : Int) else ofDigits 10 digits)

/-- Slices a number out of the front of a text, puts it together again and reads that. There is no
result at all if a slice fails. -/
def leadingSlice? (s : String) : Option (Option Int64) := do
  let (sign, rest) ← signSlice? (String.ofList (trimStart s.toList))
  let digits ← digitSlice? rest
  return if digits = "" then none else readInt64? (sign ++ digits)

theorem isDigitByte_leadByte (c : Char) :
    isDigitByte (UInt8.ofNat (leadByte c.val.toNat)) = c.isDigit := by
  have hbyte := leadByte_lt_size c
  have hsame : (UInt8.ofNat (leadByte c.val.toNat)).toNat = leadByte c.val.toNat := by
    rw [UInt8.toNat_ofNat']
    omega
  rw [Bool.eq_iff_iff, Char.isDigit_iff_toNat, isDigitByte, hsame, Bool.and_eq_true,
    decide_eq_true_eq, decide_eq_true_eq]
  show _ ↔ 48 ≤ c.val.toNat ∧ c.val.toNat ≤ 57
  rcases leadByte_cases c.val.toNat with h | h | h | h
  · omega
  · omega
  · omega
  · omega

theorem isDigitByte_of_mem {digits : String} (h : AllDigits digits.toList) {b : UInt8}
    (hb : b ∈ bytes digits) : isDigitByte b = true := by
  rw [bytes_eq] at hb
  obtain ⟨c, hc, hb⟩ := List.mem_flatMap.mp hb
  have hdigit := h c hc
  have hbounds : 48 ≤ c.val.toNat ∧ c.val.toNat ≤ 57 := digit_bounds hdigit
  have hlead : leadByte c.val.toNat = c.val.toNat := by
    rcases leadByte_cases c.val.toNat with h | h | h | h
    · omega
    · omega
    · omega
    · omega
  rw [utf8EncodeChar_ascii (by omega), List.mem_singleton] at hb
  rw [hb, ← hlead, isDigitByte_leadByte, hdigit]

theorem takeWhile_bytes {digits rest : String} (h : AllDigits digits.toList)
    (hstop : rest.toList.head?.any Char.isDigit = false) :
    (bytes (digits ++ rest)).takeWhile isDigitByte = bytes digits := by
  have hrest : (bytes rest).takeWhile isDigitByte = [] := by
    rw [bytes_eq]
    cases hchars : rest.toList with
    | nil => rfl
    | cons c cs =>
      rw [hchars] at hstop
      have hc : c.isDigit = false := by simpa using hstop
      rw [List.flatMap_cons, utf8EncodeChar_eq, List.cons_append, List.takeWhile_cons,
        isDigitByte_leadByte, hc]
      rfl
  rw [bytes_append, List.takeWhile_append_of_pos fun b hb => isDigitByte_of_mem h hb, hrest,
    List.append_nil]

theorem digitSlice?_append {digits rest : String} (h : AllDigits digits.toList)
    (hstop : rest.toList.head?.any Char.isDigit = false) :
    digitSlice? (digits ++ rest) = some digits := by
  have hcut := cutAt?_append digits rest
  have hsize : digits.utf8ByteSize = (bytes digits).length := rfl
  rw [digitSlice?, takeWhile_bytes h hstop, ← hsize, hcut]
  rfl

theorem digitSlice?_eq (text : String) :
    digitSlice? text = some (String.ofList (text.toList.takeWhile Char.isDigit)) := by
  have hcut : text = String.ofList (text.toList.takeWhile Char.isDigit) ++
      String.ofList (text.toList.dropWhile Char.isDigit) := by
    rw [← String.toList_inj, String.toList_append, String.toList_ofList, String.toList_ofList,
      List.takeWhile_append_dropWhile]
  conv_lhs => rw [hcut]
  refine digitSlice?_append ?_ ?_
  · rw [String.toList_ofList]
    exact allDigits_takeWhile _
  · rw [String.toList_ofList]
    exact stops_dropWhile _

theorem signSlice?_eq (text : String) :
    signSlice? text = some (if (takeSign text.toList).1 then "-" else "",
      String.ofList (takeSign text.toList).2) := by
  have hminus := head?_bytes_eq_iff (s := text) (c := '-') (by decide)
  have hplus := head?_bytes_eq_iff (s := text) (c := '+') (by decide)
  have hslice : ∀ (c : Char) (rest : List Char), c.val.toNat ≤ 127 → text.toList = c :: rest →
      cutAt? text 1 = some (String.ofList [c], String.ofList rest) := by
    intro c rest hc htext
    have happend : text = String.ofList [c] ++ String.ofList rest := by
      rw [← String.toList_inj, String.toList_append, String.toList_ofList, String.toList_ofList,
        htext]
      rfl
    have hsize : (bytes (String.ofList [c])).length = 1 := by
      rw [bytes_eq, String.toList_ofList, List.flatMap_singleton, utf8EncodeChar_ascii hc]
      rfl
    have hcut := cutAt?_append (String.ofList [c]) (String.ofList rest)
    rw [← happend] at hcut
    have hsame : (String.ofList [c]).utf8ByteSize = (bytes (String.ofList [c])).length := rfl
    rwa [hsame, hsize] at hcut
  unfold signSlice? takeSign
  split
  · next h =>
    obtain ⟨rest, hrest⟩ := List.head?_eq_some_iff.mp (hminus.mp h)
    rw [hslice _ rest (by decide) hrest, hrest]
    rfl
  · next h =>
    split
    · next h' =>
      obtain ⟨rest, hrest⟩ := List.head?_eq_some_iff.mp (hplus.mp h')
      rw [hslice _ rest (by decide) hrest, hrest]
      rfl
    · next h' =>
      split
      · next hrest => exact absurd (hminus.mpr (by rw [hrest]; rfl)) h
      · next hrest => exact absurd (hplus.mpr (by rw [hrest]; rfl)) h'
      · rw [String.ofList_toList]
        rfl

theorem readInt64?_append {digits : List Char} (h : AllDigits digits) (hne : digits ≠ [])
    (negative : Bool) :
    readInt64? ((if negative then "-" else "") ++ String.ofList digits) =
      int64? (if negative then -(ofDigits 10 digits : Int) else ofDigits 10 digits) := by
  have hsign : takeSign ((if negative then "-" else "") ++ String.ofList digits).toList =
      (negative, digits) := by
    rw [String.toList_append, String.toList_ofList]
    cases negative with
    | true => rfl
    | false => exact takeSign_append .none h.unsigned
  have hall : digits.all Char.isDigit = true := List.all_eq_true.mpr h
  unfold readInt64?
  rw [hsign]
  simp [hall, hne]

/-- No slice fails, and the number that is sliced out is the one that the text begins with. -/
theorem leadingSlice?_eq (s : String) : leadingSlice? s = some (leadingInt? s) := by
  have hdigits := allDigits_takeWhile (takeSign (trimStart s.toList)).2
  unfold leadingSlice? leadingInt?
  simp only [signSlice?_eq, digitSlice?_eq, String.toList_ofList, Option.bind_eq_bind,
    Option.bind_some, Option.pure_def]
  generalize takeSign (trimStart s.toList) = signed at hdigits
  obtain ⟨negative, rest⟩ := signed
  dsimp only at hdigits ⊢
  by_cases hne : rest.takeWhile Char.isDigit = []
  · simp [hne]
  · have hempty : String.ofList (rest.takeWhile Char.isDigit) ≠ "" := by
      rwa [Ne, ← String.toList_inj, String.toList_ofList]
    rw [if_neg hempty, readInt64?_append hdigits hne]
    simp [hne]

/-! ## Pages -/

namespace Request

theorem bind_numericText {n : Int64} (h : n ≠ 0) : (numericText n).bind leadingInt? = some n := by
  have hread : leadingInt? (Numeral.intText n.toInt ++ "") = some n := leadingInt?_intText n rfl
  rw [String.append_empty] at hread
  simp [numericText, h, hread]

/-- What is read of page and page size. A text gives a number if and only if it begins with one that
fits into 64 bits, and reading it in place never fails. So a number that is given as such is read as
itself unless it is zero, which counts as absent; and so is every number in front of a text that does
not go on with a digit. -/
theorem page_numbers :
    (∀ (s : String) (n : Int64),
      leadingInt? s = some n ↔ ∃ l : LeadingInt, l.chars = s.toList ∧ l.value = n.toInt) ∧
    (∀ s : String, leadingInt? s = none ↔
      ∀ l : LeadingInt, l.chars = s.toList → ¬ (-2 ^ 63 ≤ l.value ∧ l.value ≤ 2 ^ 63 - 1)) ∧
    (∀ s : String, leadingSlice? s = some (leadingInt? s)) ∧
    (∀ (r : Request) (n : Int64), n ≠ 0 →
      { r with page := numericText n }.parse.page = some n ∧
      { r with pageSize := numericText n }.parse.pageSize = some n) ∧
    (∀ (r : Request) (n : Int64) (rest : String), rest.toList.head?.any Char.isDigit = false →
      { r with page := some (Numeral.intText n.toInt ++ rest) }.parse.page = some n ∧
      { r with pageSize := some (Numeral.intText n.toInt ++ rest) }.parse.pageSize = some n) ∧
    ∀ r : Request, { r with page := numericText 0 }.parse.page = none ∧
      { r with pageSize := numericText 0 }.parse.pageSize = none := by
  refine ⟨fun _ _ => leadingInt?_eq_some_iff, fun _ => leadingInt?_eq_none_iff, leadingSlice?_eq,
    ?_, ?_, ?_⟩
  · intro r n hn
    exact ⟨bind_numericText hn, bind_numericText hn⟩
  · intro r n rest hrest
    have hread : leadingInt? (Numeral.intText n.toInt ++ rest) = some n :=
      leadingInt?_intText n hrest
    refine ⟨?_, ?_⟩
    · simp only [parse, Option.bind_some, hread]
    · simp only [parse, Option.bind_some, hread]
  · intro r
    exact ⟨rfl, rfl⟩

/-- The least number has no opposite, and a digit of another script ends it. -/
theorem page_numbers_least :
    Int64.minValue ≠ 0 ∧ "٣".toList.head?.any Char.isDigit = false ∧
      { page := numericText Int64.minValue : Request }.parse.page = some Int64.minValue ∧
      { pageSize := some "-9223372036854775808٣" : Request }.parse.pageSize =
        some Int64.minValue ∧
      leadingInt? "9223372036854775808" = none := by
  obtain ⟨-, -, -, hgiven, htext, -⟩ := page_numbers
  have hne : Int64.minValue ≠ 0 := by decide
  have hstop : "٣".toList.head?.any Char.isDigit = false := by decide
  have hwritten : Numeral.intText Int64.minValue.toInt ++ "٣" = "-9223372036854775808٣" := by
    decide +kernel
  refine ⟨hne, hstop, (hgiven {} _ hne).1, ?_, by decide +kernel⟩
  rw [← hwritten]
  exact (htext {} _ "٣" hstop).2

end Request

end Criteria

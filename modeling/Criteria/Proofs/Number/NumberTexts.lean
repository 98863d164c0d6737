import Criteria.Proofs.Number.NumberGrammar

/-!
# Texts that are numbers

A text is a truth value, a number or itself, by how it is written. Numbers can also be read stage by
stage: by the marks of the bases in their order, and without a mark by a reader of decimals that takes
words for infinity and for no number as well. It gives nothing else for that, since no byte but those of
decimals is let through to it, and there is a letter in each of the words that no decimal has.
-/

namespace Criteria

open Text

namespace Value

/-! ## Reading in stages -/

/-- The marks, each with its base, in the order in which they are tried. -/
def marks : List (List Char × Nat) :=
  [Base.sixteen, Base.eight, Base.two].flatMap fun base =>
    base.marks.map fun mark => (mark, base.size)

/-- What a text has behind the first mark that it begins with, and the base of the mark. -/
def findMark? (cs : List Char) : Option (Nat × List Char) :=
  marks.findSome? fun (mark, base) =>
    if mark.isPrefixOf cs then some (base, cs.drop mark.length) else none

/-- The bytes that are let through to the reader of decimals. -/
def isNumberByte (b : UInt8) : Bool := (48 ≤ b && b ≤ 57) || [43, 45, 46, 101, 69].contains b

def numberChars : List Char := "0123456789+-.eE".toList

/-- The words for infinity and for no number, in letters of either case and with or without a
sign. -/
def word? (cs : List Char) : Option Double :=
  let (negative, word) := takeSign cs
  let word := word.map Char.toLower
  if word = "inf".toList ∨ word = "infinity".toList then some (.infinity negative)
  else if word = "nan".toList then some .nan
  else none

/-- A reader of decimals that takes the words as well. -/
def floatText? (cs : List Char) : Option Double :=
  (word? cs).or ((Decimal.read? cs).map Decimal.toDouble)

/-- Reads a number stage by stage: the marks in their order, the bytes that are let through, the
reader that takes words, and whether its number is finite. -/
def stagedNumber? (s : String) : Option Double :=
  if s.isEmpty then none
  else
    match findMark? s.toList with
    | some (base, digits) =>
      if digits.isEmpty || !digits.all (isDigitOf base) then none
      else (uint64? (ofDigits base digits)).map fun n => .ofInt n.toNat
    | none =>
      if (bytes s).all isNumberByte then (floatText? s.toList).filter Double.isFinite else none

theorem mem_marks_iff {mark : List Char} {k : Nat} :
    (mark, k) ∈ marks ↔ ∃ base : Base, base.size = k ∧ mark ∈ base.marks := by
  constructor
  · intro h
    obtain ⟨base, -, hmark⟩ := List.mem_flatMap.mp h
    obtain ⟨mark', hmem, heq⟩ := List.mem_map.mp hmark
    obtain ⟨rfl, rfl⟩ := Prod.mk.inj heq
    exact ⟨base, rfl, hmem⟩
  · rintro ⟨base, rfl, hmem⟩
    have hbase : base ∈ [Base.sixteen, Base.eight, Base.two] := by
      cases base with
      | sixteen => exact List.mem_cons_self
      | eight => exact List.mem_cons_of_mem _ List.mem_cons_self
      | two => exact List.mem_cons_of_mem _ (List.mem_cons_of_mem _ List.mem_cons_self)
    exact List.mem_flatMap.mpr ⟨base, hbase, List.mem_map.mpr ⟨mark, hmem, rfl⟩⟩

theorem findMark?_eq (cs : List Char) : findMark? cs = basePart? cs := by
  cases hfind : findMark? cs with
  | none =>
    refine (basePart?_eq_none_iff.mpr fun base mark hmark hprefix => ?_).symm
    have hskip := List.findSome?_eq_none_iff.mp hfind _ (mem_marks_iff.mpr ⟨base, rfl, hmark⟩)
    dsimp only at hskip
    rw [if_pos (List.isPrefixOf_iff_prefix.mpr hprefix)] at hskip
    exact absurd hskip (by simp)
  | some part =>
    obtain ⟨⟨mark, k⟩, hmem, hpart⟩ := List.exists_of_findSome?_eq_some hfind
    obtain ⟨base, rfl, hmark⟩ := mem_marks_iff.mp hmem
    dsimp only at hpart
    split at hpart
    · next hprefix =>
      obtain ⟨rest, rfl⟩ := List.isPrefixOf_iff_prefix.mp hprefix
      rw [← Option.some.inj hpart, List.drop_left]
      exact (basePart?_eq_some_iff.mpr ⟨base, rfl, mark, hmark, rfl⟩).symm
    · exact absurd hpart (by simp)

theorem all_isNumberByte (c : Char) :
    (String.utf8EncodeChar c).all isNumberByte = numberChars.contains c := by
  by_cases hc : c.toNat < 128
  · have hencode := utf8EncodeChar_ascii (c := c) (Nat.le_of_lt_succ hc)
    rw [hencode, List.all_cons, List.all_nil, Bool.and_true]
    exact forall_ascii (p := fun c => isNumberByte (UInt8.ofNat c.toNat) = numberChars.contains c)
      (by decide +kernel) hc
  · have hcode : 127 < c.val.toNat := Nat.lt_of_not_le fun hle => hc (Nat.lt_succ_of_le hle)
    have hlead := le_leadByte hcode
    have hlt := leadByte_lt_size c
    have hbyte : ∀ n < 256, 192 ≤ n → isNumberByte (UInt8.ofNat n) = false := by decide +kernel
    have hascii : numberChars.all (fun d => decide (d.toNat < 128)) = true := by decide
    have hchar : numberChars.contains c = false := by
      rw [← Bool.not_eq_true, List.contains_iff_mem]
      exact fun hmem => hc (of_decide_eq_true (List.all_eq_true.mp hascii c hmem))
    rw [hchar, utf8EncodeChar_eq, List.all_cons, hbyte _ hlt hlead, Bool.false_and]

theorem all_bytes_iff (s : String) :
    (bytes s).all isNumberByte = true ↔ ∀ c ∈ s.toList, c ∈ numberChars := by
  rw [bytes_eq, List.all_flatMap, List.all_eq_true]
  constructor
  · intro h c hc
    have hbytes := h c hc
    rw [all_isNumberByte] at hbytes
    exact List.contains_iff_mem.mp hbytes
  · intro h c hc
    rw [all_isNumberByte]
    exact List.contains_iff_mem.mpr (h c hc)

theorem mem_numberChars_of_isDigit {c : Char} (h : c.isDigit = true) : c ∈ numberChars := by
  have hbounds := digit_bounds h
  have hdigits : ∀ n < 128, (Char.ofNat n).isDigit = true → Char.ofNat n ∈ numberChars := by
    decide +kernel
  exact forall_ascii (p := fun c => c.isDigit = true → c ∈ numberChars) hdigits (by omega) h

theorem mem_numberChars_of_sign {sign : Sign} {c : Char} (h : c ∈ sign.chars) : c ∈ numberChars := by
  cases sign with
  | none => exact absurd h List.not_mem_nil
  | plus =>
    rw [List.mem_singleton.mp h]
    decide
  | minus =>
    rw [List.mem_singleton.mp h]
    decide

/-- Every character of a decimal is let through. -/
theorem mem_numberChars_of_written {n : WrittenDecimal} {c : Char} (h : c ∈ n.chars) :
    c ∈ numberChars := by
  have hfraction := n.fraction_digits
  simp only [WrittenDecimal.chars, List.mem_append] at h
  rcases h with hsign | hwhole | hpoint | hpower
  · exact mem_numberChars_of_sign hsign
  · exact mem_numberChars_of_isDigit (n.whole_digits c hwhole)
  · cases hdigits : n.fraction with
    | none =>
      rw [hdigits] at hpoint
      exact absurd hpoint List.not_mem_nil
    | some digits =>
      rw [hdigits] at hpoint hfraction
      rcases List.mem_cons.mp hpoint with rfl | hc
      · decide
      · exact mem_numberChars_of_isDigit (hfraction c hc)
  · cases hsome : n.power with
    | none =>
      rw [hsome] at hpower
      exact absurd hpower List.not_mem_nil
    | some power =>
      rw [hsome] at hpower
      have hchars : c ∈ power.letter :: (power.sign.chars ++ power.digits) := hpower
      rw [List.mem_cons, List.mem_append] at hchars
      rcases hchars with rfl | hsign | hc
      · rcases power.letter_eq with heq | heq
        · rw [heq]
          decide
        · rw [heq]
          decide
      · exact mem_numberChars_of_sign hsign
      · exact mem_numberChars_of_isDigit (power.allDigits c hc)

/-- No word is let through: each has an `n`, which no decimal has. -/
theorem word?_eq_none {cs : List Char} (h : ∀ c ∈ cs, c ∈ numberChars) : word? cs = none := by
  obtain ⟨sign, hcs, -⟩ := exists_sign cs
  have hletter : numberChars.all (fun c => c.toLower != 'n') = true := by decide
  have hword : ∀ word : List Char, 'n' ∈ word → (takeSign cs).2.map Char.toLower ≠ word := by
    rintro word hn rfl
    obtain ⟨c, hc, hlower⟩ := List.mem_map.mp hn
    have hmem : c ∈ cs := by
      rw [hcs]
      exact List.mem_append_right _ hc
    exact bne_iff_ne.mp (List.all_eq_true.mp hletter c (h c hmem)) hlower
  unfold word?
  dsimp only
  rw [if_neg (not_or.mpr ⟨hword _ (by decide), hword _ (by decide)⟩), if_neg (hword _ (by decide))]

theorem uint64?_natCast {k : Nat} :
    (uint64? k).map (fun n => Double.ofInt n.toNat) =
      if k < UInt64.size then some (Double.ofInt k) else none := by
  unfold uint64?
  by_cases hfits : k < UInt64.size
  · have hword : (UInt64.ofNat k).toNat = k := UInt64.toNat_ofNat_of_lt hfits
    simp [hfits, hword]
  · simp [hfits]

/-- Reading stage by stage gives the same number. -/
theorem stagedNumber?_eq (s : String) : stagedNumber? s = number? s.toList := by
  unfold stagedNumber? number?
  rw [findMark?_eq]
  by_cases hempty : s = ""
  · rw [hempty]
    rfl
  · rw [if_neg (String.isEmpty_iff.not.mpr hempty)]
    cases hpart : basePart? s.toList with
    | some part =>
      obtain ⟨base, digits⟩ := part
      dsimp only
      rw [uint64?_natCast]
      by_cases hne : digits.isEmpty = true
      · simp [hne]
      · by_cases hall : digits.all (isDigitOf base) = true
        · simp [hne, hall]
        · simp [hne, hall]
    | none =>
      dsimp only
      split
      · next hbytes =>
        rw [floatText?, word?_eq_none ((all_bytes_iff s).mp hbytes), Option.none_or]
      · next hbytes =>
        have hread : Decimal.read? s.toList = none := by
          by_contra hsome
          obtain ⟨d, hd⟩ := Option.ne_none_iff_exists'.mp hsome
          obtain ⟨n, hchars, -⟩ := WrittenDecimal.read?_eq_some_iff.mp hd
          refine hbytes ((all_bytes_iff s).mpr fun c hc => mem_numberChars_of_written (n := n) ?_)
          rw [hchars]
          exact hc
        rw [hread]
        rfl

/-! ## Values -/

theorem ofText_boolText (b : Bool) : ofText (boolText b) = bool b := by
  cases b with
  | false => rfl
  | true => rfl

theorem ofText_of_none {s : String} (hword : ∀ b, s ≠ boolText b) (h : number? s.toList = none) :
    ofText s = text s := by
  have htrue : s ≠ "true" := hword true
  have hfalse : s ≠ "false" := hword false
  rw [ofText, if_neg htrue, if_neg hfalse, h]

/-- A text stands for a value in one of three ways. -/
theorem ofText_cases (s : String) :
    (∃ b, s = boolText b) ∨ (∃ x, number? s.toList = some x) ∨
      (∀ b, s ≠ boolText b) ∧ number? s.toList = none := by
  by_cases hword : ∃ b, s = boolText b
  · exact Or.inl hword
  · cases hread : number? s.toList with
    | some x => exact Or.inr (Or.inl ⟨x, rfl⟩)
    | none => exact Or.inr (Or.inr ⟨fun b hb => hword ⟨b, hb⟩, rfl⟩)

theorem ofText_eq_bool_iff (s : String) (b : Bool) : ofText s = bool b ↔ s = boolText b := by
  constructor
  · intro h
    rcases ofText_cases s with ⟨b', rfl⟩ | ⟨x, hread⟩ | ⟨hword, hnone⟩
    · rw [ofText_boolText, bool.injEq] at h
      rw [h]
    · rw [ofText_of_number? hread] at h
      exact absurd h (by simp)
    · rw [ofText_of_none hword hnone] at h
      exact absurd h (by simp)
  · rintro rfl
    exact ofText_boolText b

theorem ofText_eq_number_iff (s : String) (x : Double) :
    ofText s = number x ↔ number? s.toList = some x := by
  constructor
  · intro h
    rcases ofText_cases s with ⟨b, rfl⟩ | ⟨x', hread⟩ | ⟨hword, hnone⟩
    · rw [ofText_boolText] at h
      exact absurd h (by simp)
    · rw [ofText_of_number? hread, number.injEq] at h
      rw [hread, h]
    · rw [ofText_of_none hword hnone] at h
      exact absurd h (by simp)
  · exact ofText_of_number?

theorem ofText_eq_text_iff (s : String) :
    ofText s = text s ↔ (∀ b, s ≠ boolText b) ∧ number? s.toList = none := by
  constructor
  · intro h
    rcases ofText_cases s with ⟨b, rfl⟩ | ⟨x, hread⟩ | hnone
    · rw [ofText_boolText] at h
      exact absurd h (by simp)
    · rw [ofText_of_number? hread] at h
      exact absurd h (by simp)
    · exact hnone
  · rintro ⟨hword, hnone⟩
    exact ofText_of_none hword hnone

/-- A text is a truth value if it is the word for one, a number if it is written for one, and itself
in every other case. Reading it stage by stage comes to the same. -/
theorem ofText_by_grammar (s : String) :
    (∀ b, ofText s = bool b ↔ s = boolText b) ∧
    (∀ x, ofText s = number x ↔ Reads s.toList x) ∧
    (ofText s = text s ↔ (∀ b, s ≠ boolText b) ∧ ∀ x, ¬ Reads s.toList x) ∧
    number? s.toList = stagedNumber? s := by
  refine ⟨ofText_eq_bool_iff s, fun x => ?_, ?_, (stagedNumber?_eq s).symm⟩
  · rw [ofText_eq_number_iff, number?_eq_some_iff]
  · rw [ofText_eq_text_iff, number?_eq_none_iff]

example : ofText "-.5E+3" = number (.ofInt (-500)) := by decide +kernel

example : ofText "-0x1f" = text "-0x1f" := by decide +kernel

end Value

end Criteria

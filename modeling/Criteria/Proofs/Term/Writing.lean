import Criteria.Proofs.Term.Decoding
import Mathlib.Data.List.Infix

/-!
# Writing filters

A clause that is given by its names, its token and its values has a written form: the names in
parentheses with bars between them, the token, a space, and the escaped values with bars between
them. Written clauses with commas between them are a filters text.
-/

namespace Criteria

open Text

/-- A clause to be written. -/
structure Clause where
  /-- The names to the left of the operator. -/
  names : List String
  /-- The operator as written. -/
  token : Token
  /-- The values to the right of the operator. -/
  values : List String

namespace Clause

def namesChars (c : Clause) : List Char :=
  '(' :: (['|'].intercalate (c.names.map String.toList) ++ [')'])

def valuesChars (marks : List Char) (c : Clause) : List Char :=
  ['|'].intercalate (c.values.map fun v => FilterTerm.escape marks v.toList)

/-- The written form of a clause, with the given marks escaped in its values. -/
def chars (marks : List Char) (c : Clause) : List Char :=
  c.namesChars ++ c.token.chars ++ ' ' :: c.valuesChars marks

/-- A filters text of written clauses. -/
def filtersText (cs : List Clause) : String :=
  String.ofList ([','].intercalate (cs.map (chars FilterTerm.valueMarks)))

/-- The term that a clause is read back as. -/
def term (c : Clause) : FilterTerm :=
  { raw := String.ofList (trim (c.chars FilterTerm.clauseMarks))
    names := c.names
    values := c.values
    token := c.token }

/-- A text that may be a name in a written clause. -/
structure PlainName (cs : List Char) : Prop where
  ne_nil : cs ≠ []
  tight : Tight cs
  no_mark : ∀ c ∈ FilterTerm.valueMarks, c ∉ cs
  no_token : ∀ t ∈ Token.table, ¬ t.chars <:+: cs

/-- A clause that can be written. Its values may hold anything but blanks at their ends. -/
structure WellFormed (c : Clause) : Prop where
  token : c.token ∈ Token.table
  names : ∀ n ∈ c.names, PlainName n.toList
  values : ∀ v ∈ c.values, v.toList ≠ [] ∧ Tight v.toList

instance : DecidablePred PlainName := fun cs =>
  decidable_of_iff (cs ≠ [] ∧ Tight cs ∧
      (FilterTerm.valueMarks.all fun c => !cs.contains c) = true ∧
      ∀ t ∈ Token.table, ¬ t.chars <:+: cs)
    ⟨fun ⟨hne, ht, hm, hno⟩ => ⟨hne, ht, by simpa using hm, hno⟩,
      fun h => ⟨h.ne_nil, h.tight, by simpa using h.no_mark, h.no_token⟩⟩

instance : DecidablePred WellFormed := fun c =>
  decidable_of_iff (c.token ∈ Token.table ∧ (∀ n ∈ c.names, PlainName n.toList) ∧
      ∀ v ∈ c.values, v.toList ≠ [] ∧ Tight v.toList)
    ⟨fun ⟨ht, hn, hv⟩ => ⟨ht, hn, hv⟩, fun h => ⟨h.token, h.names, h.values⟩⟩

end Clause

namespace FilterTerm

/-! ## What an escaped value looks like -/

theorem getLast?_escapeFrom (marks : List Char) (skip : Nat) (cs : List Char) :
    (escapeFrom marks skip cs).getLast? = cs.getLast? := by
  induction cs generalizing skip with
  | nil => cases skip <;> rfl
  | cons c rest ih =>
    cases skip with
    | succ skip => simp [escapeFrom, List.getLast?_cons, ih]
    | zero =>
      unfold escapeFrom
      split
      · simp [List.getLast?_cons, ih]
      · split <;> simp [List.getLast?_cons, ih]

theorem escape_ne_nil {marks cs : List Char} (h : cs ≠ []) : escape marks cs ≠ [] := by
  intro hnil
  have hlast := getLast?_escapeFrom marks 0 cs
  rw [show escapeFrom marks 0 cs = [] from hnil] at hlast
  exact h (List.getLast?_eq_none_iff.mp hlast.symm)

theorem tight_escape {marks cs : List Char} (h : Tight cs) : Tight (escape marks cs) := by
  refine ⟨?_, fun c hc => h.2 c ?_⟩
  · cases cs with
    | nil => exact h.1
    | cons a rest =>
      have ha : isBlank a = false := h.1 a rfl
      have hesc : isBlank escapeChar = false := by decide
      unfold escape escapeFrom
      split
      · simpa using hesc
      · split
        · simpa using hesc
        · simpa using ha
  · rwa [← getLast?_escapeFrom marks 0 cs]

/-- Whole pairs of backslashes change nothing about what follows them. -/
theorem closed_backslashes {delimiter : Char} (hd : delimiter ≠ escapeChar) (n : Nat) :
    Closed delimiter (backslashes (2 * n)) := by
  induction n with
  | zero => exact .nil delimiter
  | succ n ih => exact (Closed.escape hd escapeChar).append ih

/-- An escaped value can stand between two delimiters, if those are marks. -/
theorem closed_escape {delimiter : Char} (hd : delimiter ≠ escapeChar)
    (hsign : delimiter ∉ Token.signs) {marks : List Char} (hesc : escapeChar ∈ marks)
    (hmark : delimiter ∈ marks) (cs : List Char) : Closed delimiter (escape marks cs) := by
  induction cs using scan_induction with
  | ending n =>
    rw [escape_run_ending hesc]
    exact closed_backslashes hd n
  | token n t rest hstart ih =>
    have ht := (Token.of_atStart? hstart).1
    have hchars : Closed delimiter (escapeChar :: t.chars) := by
      cases hcs : t.chars with
      | nil => exact absurd hcs (Token.chars_ne_nil t ht)
      | cons c cs =>
        have hc : ∀ x, x ∉ t.chars → x ∉ cs := fun x hx hmem => hx (by simp [hcs, hmem])
        exact (Closed.escape hd c).append
          (.of_not_mem (hc _ (Token.escapeChar_not_mem_chars ht))
            (hc _ (Token.not_mem_chars ht hsign)))
    rw [escape_backslashes hesc, escape_token hstart]
    exact (closed_backslashes hd n).append (hchars.append ih)
  | plain n c rest hc hstart ih =>
    rw [escape_backslashes hesc, escape_plain hstart]
    refine (closed_backslashes hd n).append ?_
    by_cases hcm : c ∈ marks
    · simpa [hcm, backslashes_succ] using (Closed.escape hd c).append ih
    · have hcd : delimiter ∉ [c] := by
        intro hmem
        exact hcm (List.mem_singleton.mp hmem ▸ hmark)
      simpa [hcm] using (Closed.of_not_mem (by simpa using hc.symm) hcd).append ih

/-- Undoing the escapes of commas leaves a value escaped as a single clause needs it. -/
theorem unescape_comma_escape (cs : List Char) {tail : List Char} (htail : ¬ [','] <+: tail) :
    unescape [','] (escape valueMarks cs ++ tail) =
      escape clauseMarks cs ++ unescape [','] tail := by
  have hfree : escapeChar ∉ [','] := by decide
  have hcomma := unescape_backslashes hfree (List.cons_ne_nil ',' [])
  have hv : escapeChar ∈ valueMarks := by decide
  have hm : escapeChar ∈ clauseMarks := by decide
  induction cs using scan_induction with
  | ending n =>
    rw [escape_run_ending hv, escape_run_ending hm, hcomma, if_neg htail, Nat.sub_zero]
  | token n t rest hstart ih =>
    have ht := (Token.of_atStart? hstart).1
    have hno : ¬ [','] <+: t.chars ++ (escape valueMarks rest ++ tail) :=
      not_singleton_prefix (Token.chars_ne_nil t ht) (Token.not_mem_chars ht (by decide)) _
    rw [escape_run_token hv n hstart, escape_run_token hm n hstart, List.append_assoc,
      List.append_assoc, hcomma, if_neg hno, Nat.sub_zero,
      unescape_append (Token.escapeChar_not_mem_chars ht), ih]
    simp only [List.append_assoc]
  | plain n c rest hc hstart ih =>
    -- a comma is a mark in the text as a whole, and loses its backslash here
    have hlen : 2 * n + (if c ∈ valueMarks then 1 else 0) -
        (if [','] <+: c :: (escape valueMarks rest ++ tail) then 1 else 0) =
          2 * n + if c ∈ clauseMarks then 1 else 0 := by
      simp only [List.singleton_prefix_cons_iff]
      by_cases hcomma : c = ','
      · subst hcomma
        simp [valueMarks, clauseMarks, escapeChar]
      · simp [valueMarks, clauseMarks, hc, hcomma, Ne.symm hcomma]
    rw [escape_run_plain hv n hstart, escape_run_plain hm n hstart, List.append_assoc,
      List.cons_append, hcomma, hlen, unescape_cons_of_ne hc, ih]
    simp only [List.append_assoc, List.cons_append]

end FilterTerm

end Criteria

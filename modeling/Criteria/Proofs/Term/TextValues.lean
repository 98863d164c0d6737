import Criteria.Condition
import Criteria.Proofs.Term.Writing

/-!
# Texts as written values

A text without operators is written as a value by a backslash before every mark in it, and is read
back as itself. The word `null` would stand for nothing, so it is written with a backslash too, which
stays in the value and is taken off only when a condition is made. There it cannot be told from a
backslash that belongs to the text: of all texts this one alone cannot be asked for.
-/

namespace Criteria

open Text

namespace FilterTerm

/-! ## Writing a text -/

/-- A text with a backslash before every mark. -/
def guarded (cs : List Char) : List Char :=
  cs.flatMap fun c => if c ∈ valueMarks then [escapeChar, c] else [c]

/-- A text as a value of a filters text. -/
def written (v : String) : String :=
  if v = "null" then "\\null" else String.ofList (guarded v.toList)

/-- A text without operators that can stand as a value. -/
structure PlainText (cs : List Char) : Prop where
  ne_nil : cs ≠ []
  tight : Tight cs
  no_token : ∀ t ∈ Token.table, ¬ t.chars <:+: cs

/-- A name that an operator can follow: no token reaches from the name into what is behind it. -/
structure BareName (cs : List Char) : Prop extends Clause.PlainName cs where
  last : ∀ c ∈ cs.getLast?, c ∉ Token.signs

theorem escape_of_no_token {cs : List Char} (h : ∀ t ∈ Token.table, ¬ t.chars <:+: cs) :
    escape valueMarks cs = guarded cs := by
  induction cs with
  | nil => rfl
  | cons c rest ih =>
    have hstart : Token.atStart? (c :: rest) = none := by
      rw [Token.atStart?_eq_none]
      intro t ht hbegin
      exact h t ht hbegin.isInfix
    have hrest : ∀ t ∈ Token.table, ¬ t.chars <:+: rest := by
      intro t ht hinfix
      exact h t ht (List.IsInfix.trans hinfix (List.suffix_cons c rest).isInfix)
    rw [escape_plain hstart, ih hrest]
    by_cases hc : c ∈ valueMarks
    · simp [guarded, hc, backslashes_succ]
    · simp [guarded, hc]

/-! ## Reading a clause -/

/-- The token of plain equality. -/
def equality : Token := ⟨.equals, false, false⟩

theorem BareName.atStart?_append {name rest : List Char} (h : BareName name) (hs : rest <:+ name)
    (hne : rest ≠ []) (back : List Char) : Token.atStart? (rest ++ back) = none := by
  rw [Token.atStart?_eq_none]
  intro t ht hbegin
  rcases List.prefix_or_prefix_of_prefix hbegin (List.prefix_append rest back) with hin | hover
  · exact h.no_token t ht (hin.isInfix.trans hs.isInfix)
  -- the token would hold the last character of the name
  · have hlast : name.getLast? = some (rest.getLast hne) := by
      obtain ⟨front, rfl⟩ := hs
      rw [List.getLast?_append, List.getLast?_eq_some_getLast hne]
      rfl
    exact h.last _ hlast (Token.mem_signs ht (hover.subset (List.getLast_mem hne)))

variable {name value : List Char}

theorem find?_equality (hname : BareName name) (value : List Char) :
    Located.find? (name ++ (equality.chars ++ ' ' :: value)) =
      some ⟨name, equality, ' ' :: value⟩ := by
  have hesc : escapeChar ∉ name := hname.no_mark _ (by decide)
  have hfree : escapedBy (name.reverse ++ []) = false := by
    rw [← escapedAfter_escapedBy]
    exact (Closed.of_not_mem hesc (hname.no_mark ',' (by decide))).ends
  rw [Located.find?,
    Located.search_append fun rest hs hne => hname.atStart?_append hs hne _,
    Located.search_token (by decide) hfree (by simp [Token.signs])]
  simp

theorem ofChars?_equality (hname : BareName name) (htight : Tight value) (hne : value ≠ [])
    (hclosed : Closed '|' value) :
    ∃ t, ofChars? (name ++ (equality.chars ++ ' ' :: value)) = some t ∧ t.token = equality ∧
      t.values = [String.ofList (decodeValue value)] := by
  have hwhole : Tight (name ++ (equality.chars ++ ' ' :: value)) := by
    have happend := tight_append hname.tight htight hname.ne_nil hne (equality.chars ++ [' '])
    simpa using happend
  have hvalue : trim (' ' :: value) = value := by
    have hblank : isBlank ' ' = true := by decide
    rw [trim, trimStart, List.dropWhile_cons, if_pos hblank]
    exact trim_of_tight htight
  have hparts : splitChars '|' value = [value] := by
    rw [splitChars_of_guards hclosed.guards, trim_of_tight htight]
    simp [hne]
  unfold ofChars?
  dsimp only
  rw [trim_of_tight hwhole, find?_equality hname, Option.map_some]
  refine ⟨_, rfl, rfl, ?_⟩
  rw [hvalue, hparts]
  rfl

/-- A clause of one name and one value is read if the value can stand between commas, and between
bars once the escapes of its commas are undone. -/
theorem ofFilters_equality (hname : BareName name) (value : List Char)
    (hcomma : Closed ',' value) (hne : value ≠ []) (htight : Tight value)
    (hne' : unescape [','] value ≠ []) (htight' : Tight (unescape [','] value))
    (hbar : Closed '|' (unescape [','] value)) :
    ∃ t, ofFilters (String.ofList name ++ "== " ++ String.ofList value) = [t] ∧
      t.token = equality ∧
      t.values = [String.ofList (decodeValue (unescape [','] value))] := by
  have hesc : escapeChar ∉ name := hname.no_mark _ (by decide)
  have hchars : (String.ofList name ++ "== " ++ String.ofList value).toList =
      name ++ (equality.chars ++ ' ' :: value) := by
    simp [equality, Token.chars, Token.text, Operator.sign]
  have hclosed : Closed ',' (name ++ (equality.chars ++ ' ' :: value)) := by
    have hfront : Closed ',' (equality.chars ++ [' ']) := .of_not_mem (by decide) (by decide)
    have happend := (Closed.of_not_mem hesc (hname.no_mark ',' (by decide))).append
      (hfront.append hcomma)
    simpa using happend
  have hwhole : Tight (name ++ (equality.chars ++ ' ' :: value)) := by
    have happend := tight_append hname.tight htight hname.ne_nil hne (equality.chars ++ [' '])
    simpa using happend
  have hundo : unescape [','] (name ++ (equality.chars ++ ' ' :: value)) =
      name ++ (equality.chars ++ ' ' :: unescape [','] value) := by
    rw [unescape_append hesc, unescape_append (by decide), unescape_cons_of_ne (by decide)]
  obtain ⟨t, hread, htoken, hvalues⟩ := ofChars?_equality hname htight' hne' hbar
  refine ⟨t, ?_, htoken, hvalues⟩
  rw [ofFilters, hchars, splitChars_of_guards hclosed.guards, trim_of_tight hwhole]
  simp [hname.ne_nil, hundo, hread]

/-! ## The value that is read -/

/-- Every text is read back as it was written, but for the word `null`, which keeps its backslash. -/
theorem ofFilters_written (hname : BareName name) {v : String} (hv : PlainText v.toList) :
    ∃ t, ofFilters (String.ofList name ++ "== " ++ written v) = [t] ∧ t.token = equality ∧
      t.values = [if v = "null" then "\\null" else v] := by
  by_cases hnull : v = "null"
  · obtain ⟨t, hread, htoken, hvalues⟩ := ofFilters_equality hname "\\null".toList
      (by decide) (by decide) (by decide) (by decide) (by decide) (by decide)
    have hdecoded : decodeValue (unescape [','] "\\null".toList) = "\\null".toList := by
      decide +kernel
    rw [String.ofList_toList] at hread
    rw [hdecoded, String.ofList_toList] at hvalues
    refine ⟨t, ?_, htoken, ?_⟩
    · rw [written, if_pos hnull, hread]
    · rw [if_pos hnull, hvalues]
  · have hundo : unescape [','] (guarded v.toList) = escape clauseMarks v.toList := by
      have hnone : ¬ [','] <+: ([] : List Char) := by simp
      have hcomma := unescape_comma_escape v.toList hnone
      rw [escape_of_no_token hv.no_token] at hcomma
      simpa using hcomma
    have hclosed : Closed ',' (guarded v.toList) := by
      rw [← escape_of_no_token hv.no_token]
      exact closed_escape (by decide) (by decide) (by decide) (by decide) _
    have hne : guarded v.toList ≠ [] := by
      rw [← escape_of_no_token hv.no_token]
      exact escape_ne_nil hv.ne_nil
    have htight : Tight (guarded v.toList) := by
      rw [← escape_of_no_token hv.no_token]
      exact tight_escape hv.tight
    obtain ⟨t, hread, htoken, hvalues⟩ := ofFilters_equality hname _ hclosed hne htight
      (by rw [hundo]; exact escape_ne_nil hv.ne_nil) (by rw [hundo]; exact tight_escape hv.tight)
      (by
        rw [hundo]
        exact closed_escape (by decide) (by decide) (by decide) (by decide) _)
    refine ⟨t, ?_, htoken, ?_⟩
    · rw [written, if_neg hnull, hread]
    · rw [if_neg hnull, hvalues, hundo, decodeValue_escape, String.ofList_toList]

end FilterTerm

namespace Condition

/-- The conditions on a field for all values of a filters text. -/
def ofFilters (filters : String) (f : Field) (ignoreNulls : Bool) : List Condition :=
  (FilterTerm.ofFilters filters).flatMap fun t => t.values.map fun raw => build t f raw ignoreNulls

/-- The condition that asks for a text. -/
def equalTo (v : String) (f : Field) (ignoreNulls : Bool) : Condition :=
  ⟨f.path, .text v, .equals, false, false, ignoreNulls⟩

/-- The text that is asked for when a text is written. -/
def asked (v : String) : String := if v = "\\null" then "null" else v

theorem asked_eq_iff {v w : String} :
    asked v = asked w ↔ v = w ∨ (v = "null" ∧ w = "\\null") ∨ (v = "\\null" ∧ w = "null") := by
  unfold asked
  by_cases hv : v = "\\null"
  · by_cases hw : w = "\\null"
    · simp [hv, hw]
    · simp [hv, hw, eq_comm]
  · by_cases hw : w = "\\null"
    · simp [hv, hw]
    · simp [hv, hw]

theorem readValue_ne_escaped_null (operator : Operator) (raw : String) :
    readValue operator (some Value.text) raw ≠ .text "\\null" := by
  unfold readValue
  split
  · simp
  · by_cases hraw : raw = "\\null"
    · simp [hraw]
    · simp [hraw]

section Written

open FilterTerm

variable {name v w : String} (hname : BareName name.toList) (hv : PlainText v.toList)
  (hw : PlainText w.toList) {f : Field} (hreader : f.reader = some Value.text) (ignoreNulls : Bool)
include hname hv hreader

theorem ofFilters_written :
    Condition.ofFilters (name ++ "== " ++ written v) f ignoreNulls =
      [equalTo (asked v) f ignoreNulls] := by
  obtain ⟨t, hread, htoken, hvalues⟩ := FilterTerm.ofFilters_written hname hv
  rw [String.ofList_toList] at hread
  have hvalue : readValue .equals (some Value.text) (if v = "null" then "\\null" else v) =
      .text (asked v) := by
    by_cases hnull : v = "null"
    · simp [readValue, asked, hnull]
    · simp [readValue, asked, hnull]
  simp [Condition.ofFilters, hread, hvalues, build, equalTo, htoken, hreader, FilterTerm.operator,
    equality, hvalue]

include hw

/-- What is asked for by a written text on a field that reads values as texts. A text is asked for as
it is unless it is the word `null` with a backslash in front, which is taken for the word; so two
texts make the same condition only if they are the same or these two. No value at all makes a
condition that asks for the word with a backslash. -/
theorem conditions_of_written :
    Condition.ofFilters (name ++ "== " ++ written v) f ignoreNulls =
        [equalTo (asked v) f ignoreNulls] ∧
      (Condition.ofFilters (name ++ "== " ++ written v) f ignoreNulls =
          Condition.ofFilters (name ++ "== " ++ written w) f ignoreNulls ↔
        v = w ∨ (v = "null" ∧ w = "\\null") ∨ (v = "\\null" ∧ w = "null")) ∧
      ∀ (t : FilterTerm) (raw : String), (build t f raw ignoreNulls).value ≠ .text "\\null" := by
  have hasked := ofFilters_written hname hv hreader ignoreNulls
  have hasked' := ofFilters_written hname hw hreader ignoreNulls
  refine ⟨hasked, ?_, ?_⟩
  · rw [hasked, hasked', ← asked_eq_iff]
    simp [equalTo]
  · intro t raw
    rw [build, hreader]
    exact readValue_ne_escaped_null _ _

end Written

/-- A field of texts, all of which are read as they are. -/
def labelField : Field := ⟨"name", "label", true, false, some Value.text⟩

/-- A run of two backslashes before the word `null` stays a run of two. -/
theorem conditions_of_written_backslashes :
    FilterTerm.BareName "first_name".toList ∧ FilterTerm.PlainText "\\\\null".toList ∧
      FilterTerm.PlainText "null".toList ∧ labelField.reader = some Value.text ∧
      Condition.ofFilters "first_name== \\\\\\\\null" labelField true =
        [equalTo "\\\\null" labelField true] ∧
      Condition.ofFilters "first_name== \\\\\\\\null" labelField true ≠
        Condition.ofFilters "first_name== \\null" labelField true := by
  have hname : FilterTerm.BareName "first_name".toList := by
    refine ⟨by decide +kernel, fun c hc => ?_⟩
    obtain rfl : 'e' = c := Option.some.inj hc
    decide
  have hv : FilterTerm.PlainText "\\\\null".toList := ⟨by decide, by decide, by decide +kernel⟩
  have hw : FilterTerm.PlainText "null".toList := ⟨by decide, by decide, by decide +kernel⟩
  obtain ⟨hasked, hsame, -⟩ := conditions_of_written hname hv hw (f := labelField) rfl true
  have htext : "first_name" ++ "== " ++ FilterTerm.written "\\\\null" =
      "first_name== \\\\\\\\null" := by decide +kernel
  have hnull : "first_name" ++ "== " ++ FilterTerm.written "null" = "first_name== \\null" := by
    decide +kernel
  rw [htext] at hasked hsame
  rw [hnull] at hsame
  exact ⟨hname, hv, hw, rfl, hasked, fun h => absurd (hsame.mp h) (by decide)⟩

/-- With one backslash the text is not asked for, whatever is written. -/
theorem not_asked_as_written :
    ¬ ∀ (name v : String) (f : Field) (ignoreNulls : Bool), FilterTerm.BareName name.toList →
      FilterTerm.PlainText v.toList → f.reader = some Value.text →
        Condition.ofFilters (name ++ "== " ++ FilterTerm.written v) f ignoreNulls =
          [equalTo v f ignoreNulls] := by
  intro h
  have hname : FilterTerm.BareName "name".toList := by
    refine ⟨by decide +kernel, fun c hc => ?_⟩
    obtain rfl : 'e' = c := Option.some.inj hc
    decide
  have hasked := h "name" "\\null" labelField true hname ⟨by decide, by decide, by decide +kernel⟩
    rfl
  exact absurd hasked (by decide +kernel)

end Condition

end Criteria

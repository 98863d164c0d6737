import Criteria.Proofs.Term.Writing

/-!
# Written filters are read back

A filters text of well-formed clauses is read as exactly these clauses, in order, with their names,
their values and their tokens. Values may hold anything, tokens, bars, commas and runs of
backslashes included, as long as no blank stands at their ends.
-/

namespace Criteria

open Text

namespace Clause

/-! ## The names -/

theorem tight_namesChars (c : Clause) : Tight c.namesChars := by
  refine ⟨fun x hx => ?_, fun x hx => ?_⟩
  · obtain rfl : '(' = x := by simpa [namesChars] using hx
    decide
  · obtain rfl : ')' = x := by simpa [namesChars, List.getLast?_cons] using hx
    decide

variable {c : Clause} (h : c.WellFormed)
include h

theorem mark_not_mem_namesChars {x : Char} (hx : x ∈ FilterTerm.valueMarks) (hbar : x ≠ '|') :
    x ∉ c.namesChars := by
  intro hmem
  rw [namesChars, List.mem_cons, List.mem_append, List.mem_singleton] at hmem
  rcases hmem with rfl | hmem | rfl
  · exact absurd hx (by decide)
  · rcases mem_intercalate hmem with hmem | ⟨p, hp, hmem⟩
    · exact hbar (List.mem_singleton.mp hmem)
    · obtain ⟨n, hn, rfl⟩ := List.mem_map.mp hp
      exact (h.names n hn).no_mark x hx hmem
  · exact absurd hx (by decide)

theorem splitChars_openNames :
    splitChars '|' (FilterTerm.openNames (trim c.namesChars)) = c.names.map String.toList := by
  have hopen : FilterTerm.openNames (trim c.namesChars) =
      ['|'].intercalate (c.names.map String.toList) := by
    rw [trim_of_tight c.tight_namesChars, namesChars]
    simp [FilterTerm.openNames]
  have hplain : ∀ p ∈ c.names.map String.toList, PlainName p := by
    intro p hp
    obtain ⟨n, hn, rfl⟩ := List.mem_map.mp hp
    exact h.names n hn
  rw [hopen]
  refine splitChars_intercalate_of_tight (by decide) (fun p hp => ?_)
    (fun p hp => (hplain p hp).tight) (fun p hp => (hplain p hp).ne_nil)
  exact .of_not_mem ((hplain p hp).no_mark _ (by decide)) ((hplain p hp).no_mark _ (by decide))

/-- No token begins before the one that is written behind the names. -/
theorem atStart?_names {rest : List Char} (hsuffix : rest <:+ c.namesChars) (hne : rest ≠ [])
    (back : List Char) : Token.atStart? (rest ++ back) = none := by
  rw [Token.atStart?_eq_none]
  intro t ht hbegin
  have htne := Token.chars_ne_nil t ht
  -- the suffix ends with the closing parenthesis, which no token reaches over
  obtain ⟨inner, rfl⟩ : ∃ inner, rest = inner ++ [')'] := by
    obtain ⟨front, hfront⟩ := hsuffix
    have hlast : rest.getLast? = some ')' := by
      have hnames : (front ++ rest).getLast? = some ')' := by
        rw [hfront]
        simp [namesChars, List.getLast?_cons]
      rw [List.getLast?_append, List.getLast?_eq_some_getLast hne] at hnames
      rw [List.getLast?_eq_some_getLast hne]
      exact hnames
    exact ⟨_, (List.getLast?_eq_some_iff.mp hlast).choose_spec⟩
  have hinner : inner <:+ '(' :: ['|'].intercalate (c.names.map String.toList) :=
    List.suffix_append_self_iff.mp hsuffix
  have hclose : t.chars <+: inner := by
    rw [List.append_assoc] at hbegin
    refine prefix_of_prefix_append hbegin fun x hx => ?_
    obtain rfl : ')' = x := by simpa using hx
    exact Token.not_mem_chars ht (by decide)
  have hinfix : t.chars <:+: [] ++ '(' :: ['|'].intercalate (c.names.map String.toList) :=
    hclose.isInfix.trans hinner.isInfix
  rcases infix_append_cons (Token.not_mem_chars ht (by decide)) hinfix with hnil | hnames
  · exact htne (List.infix_nil.mp hnil)
  · refine not_infix_intercalate htne (Token.not_mem_chars ht (by decide)) (fun p hp => ?_) hnames
    obtain ⟨n, hn, rfl⟩ := List.mem_map.mp hp
    exact (h.names n hn).no_token t ht

/-! ## The values -/

omit h

/-- What is written behind the token once the clause is trimmed. -/
def tail (marks : List Char) (c : Clause) : List Char :=
  if c.values = [] then [] else ' ' :: c.valuesChars marks

include h

theorem escaped_values (marks : List Char) :
    ∀ p ∈ c.values.map fun v => FilterTerm.escape marks v.toList, p ≠ [] ∧ Tight p := by
  intro p hp
  obtain ⟨v, hv, rfl⟩ := List.mem_map.mp hp
  obtain ⟨hne, htight⟩ := h.values v hv
  exact ⟨FilterTerm.escape_ne_nil hne, FilterTerm.tight_escape htight⟩

theorem tight_valuesChars (marks : List Char) : Tight (c.valuesChars marks) :=
  tight_intercalate _ (escaped_values h marks)

theorem trim_tail (marks : List Char) : trim (c.tail marks) = c.valuesChars marks := by
  unfold tail
  split
  · next hnil => simp [valuesChars, hnil]
  · have hblank : isBlank ' ' = true := by decide
    rw [trim, trimStart, List.dropWhile_cons, if_pos hblank]
    exact trim_of_tight (tight_valuesChars h marks)

theorem trimEnd_values (marks : List Char) :
    trimEnd (' ' :: c.valuesChars marks) = c.tail marks := by
  unfold tail
  split
  · next hnil =>
    have hv : c.valuesChars marks = [] := by simp [valuesChars, hnil]
    rw [hv]
    decide
  · next hne =>
    have hv : c.valuesChars marks ≠ [] := by
      refine intercalate_ne_nil (by simpa using hne) fun p hp => (escaped_values h marks p hp).1
    refine trimEnd_of_getLast fun x hx => (tight_valuesChars h marks).2 x ?_
    rw [List.getLast?_cons, List.getLast?_eq_some_getLast hv] at hx
    rw [List.getLast?_eq_some_getLast hv]
    exact hx

theorem splitChars_tail :
    splitChars '|' (trim (c.tail FilterTerm.clauseMarks)) =
      c.values.map fun v => FilterTerm.escape FilterTerm.clauseMarks v.toList := by
  rw [trim_tail h]
  refine splitChars_intercalate_of_tight (by decide) (fun p hp => ?_)
    (fun p hp => (escaped_values h _ p hp).2) (fun p hp => (escaped_values h _ p hp).1)
  obtain ⟨v, -, rfl⟩ := List.mem_map.mp hp
  exact FilterTerm.closed_escape (by decide) (by decide) (by decide) (by decide) _

omit h

theorem unescape_comma_values (vs : List (List Char)) :
    unescape [','] (['|'].intercalate (vs.map (FilterTerm.escape FilterTerm.valueMarks))) =
      ['|'].intercalate (vs.map (FilterTerm.escape FilterTerm.clauseMarks)) := by
  have hvalue : ∀ v, unescape [','] (FilterTerm.escape FilterTerm.valueMarks v) =
      FilterTerm.escape FilterTerm.clauseMarks v := by
    intro v
    have hend : ¬ [','] <+: ([] : List Char) := by simp
    simpa using FilterTerm.unescape_comma_escape v hend
  rw [unescape_intercalate (by decide) (by decide) (by decide), List.map_map]
  exact congrArg _ (List.map_congr_left fun v _ => hvalue v)

theorem unescape_comma_tail (c : Clause) :
    unescape [','] (c.tail FilterTerm.valueMarks) = c.tail FilterTerm.clauseMarks := by
  have hvalues := unescape_comma_values (c.values.map String.toList)
  simp only [List.map_map, Function.comp_def] at hvalues
  unfold tail
  split
  · rfl
  · rw [unescape_cons_of_ne (by decide), valuesChars, hvalues, valuesChars]

/-! ## The clause -/

include h

theorem trim_chars (marks : List Char) :
    trim (c.chars marks) = c.namesChars ++ (c.token.chars ++ c.tail marks) := by
  have hne : c.namesChars ++ c.token.chars ≠ [] := by simp [namesChars]
  have hfront : Tight (c.namesChars ++ c.token.chars) := by
    have htoken := Token.tight_chars _ h.token
    have happend := tight_append c.tight_namesChars htoken (by simp [namesChars])
      (Token.chars_ne_nil _ h.token) []
    simpa using happend
  rw [chars, trim_append hne hfront, trimEnd_values h, List.append_assoc]

theorem unescape_comma_trim_chars :
    unescape [','] (trim (c.chars FilterTerm.valueMarks)) =
      trim (c.chars FilterTerm.clauseMarks) := by
  have hnames : escapeChar ∉ c.namesChars :=
    mark_not_mem_namesChars h (by decide) (by decide)
  rw [trim_chars h, trim_chars h, unescape_append hnames,
    unescape_append (Token.escapeChar_not_mem_chars h.token), unescape_comma_tail]

theorem find?_chars :
    Located.find? (trim (c.chars FilterTerm.clauseMarks)) =
      some ⟨c.namesChars, c.token, c.tail FilterTerm.clauseMarks⟩ := by
  have hclosed : escapedBy (c.namesChars.reverse ++ []) = false := by
    simp [namesChars, escapedBy, escapeChar]
  have htail : ∀ x ∈ (c.tail FilterTerm.clauseMarks).head?, x ∉ Token.signs := by
    intro x hx
    unfold tail at hx
    split at hx
    · simp at hx
    · obtain rfl : ' ' = x := by simpa using hx
      decide
  rw [trim_chars h, Located.find?,
    Located.search_append fun rest hs hne => atStart?_names h hs hne _,
    Located.search_token h.token hclosed htail]
  simp

theorem ofChars?_chars :
    FilterTerm.ofChars? (trim (c.chars FilterTerm.clauseMarks)) = some c.term := by
  have hvalues : (c.values.map fun v => FilterTerm.escape FilterTerm.clauseMarks v.toList).map
      (fun value => String.ofList (FilterTerm.decodeValue value)) = c.values := by
    simp [Function.comp_def, FilterTerm.decodeValue_escape]
  simp only [FilterTerm.ofChars?, trim_trim, find?_chars h, Option.map_some,
    splitChars_openNames h, splitChars_tail h, hvalues]
  simp [term, Function.comp_def]

theorem closed_chars : Closed ',' (c.chars FilterTerm.valueMarks) := by
  have hnames : Closed ',' c.namesChars :=
    .of_not_mem (mark_not_mem_namesChars h (by decide) (by decide))
      (mark_not_mem_namesChars h (by decide) (by decide))
  have htoken : Closed ',' c.token.chars :=
    .of_not_mem (Token.escapeChar_not_mem_chars h.token) (Token.not_mem_chars h.token (by decide))
  have hspace : Closed ',' [' '] := .of_not_mem (by decide) (by decide)
  have hvalues : Closed ',' (c.valuesChars FilterTerm.valueMarks) := by
    refine Closed.intercalate (.of_not_mem (by decide) (by decide)) fun p hp => ?_
    obtain ⟨v, -, rfl⟩ := List.mem_map.mp hp
    exact FilterTerm.closed_escape (by decide) (by decide) (by decide) (by decide) _
  exact (hnames.append htoken).append (hspace.append hvalues)

end Clause

/-! ## The text -/

theorem splitChars_filtersText {cs : List Clause} (h : ∀ c ∈ cs, c.WellFormed) :
    splitChars ',' (Clause.filtersText cs).toList =
      cs.map fun c => trim (c.chars FilterTerm.valueMarks) := by
  have hclosed : ∀ p ∈ cs.map (Clause.chars FilterTerm.valueMarks), Closed ',' p := by
    intro p hp
    obtain ⟨c, hc, rfl⟩ := List.mem_map.mp hp
    exact Clause.closed_chars (h c hc)
  rw [Clause.filtersText, String.toList_ofList,
    splitChars_intercalate (by decide) (.of_closed hclosed), List.map_map,
    List.filter_eq_self.mpr]
  · rfl
  · intro p hp
    obtain ⟨c, hc, rfl⟩ := List.mem_map.mp hp
    simp [Clause.trim_chars (h c hc), Clause.namesChars]

theorem read_filtersText {cs : List Clause} (h : ∀ c ∈ cs, c.WellFormed) :
    FilterTerm.ofFilters (Clause.filtersText cs) = cs.map Clause.term := by
  rw [FilterTerm.ofFilters, splitChars_filtersText h, List.filterMap_map]
  induction cs with
  | nil => rfl
  | cons c rest ih =>
    rw [List.forall_mem_cons] at h
    rw [List.filterMap_cons, Function.comp_apply, Clause.unescape_comma_trim_chars h.1,
      Clause.ofChars?_chars h.1, ih h.2, List.map_cons]

/-- Reading a filters text of well-formed clauses gives one term for each clause, in order, with its
names, its values and its token; the token is that of the operator that its text names, and its
marks are those of the text. -/
theorem ofFilters_filtersText (cs : List Clause) (h : ∀ c ∈ cs, c.WellFormed) :
    FilterTerm.ofFilters (Clause.filtersText cs) = cs.map Clause.term ∧
      ∀ t ∈ FilterTerm.ofFilters (Clause.filtersText cs),
        Operator.ofText? t.token.text = some t.operator ∧
        (t.token.insensitive = true ↔ t.token.chars.getLast? = some '*') ∧
        (t.token.negated = true ↔
          t.operator ≠ .notEquals ∧ t.token.chars.head? = some '!') := by
  refine ⟨read_filtersText h, ?_⟩
  intro t ht
  rw [read_filtersText h] at ht
  obtain ⟨c, hc, rfl⟩ := List.mem_map.mp ht
  have htoken : c.term.token ∈ Token.table := (h c hc).token
  exact ⟨Token.ofText?_text _ htoken, Token.insensitive_iff _ htoken, Token.negated_iff _ htoken⟩

/-- Values made of what has to be escaped, in clauses with and without names and values. -/
def Clause.samples : List Clause :=
  [⟨["title", "(a"], ⟨.contains, true, true⟩, ["\\\\\\>=|\\,", "==*!=\\", "null"]⟩,
    ⟨[], ⟨.greaterThan, false, false⟩, ["=", "\\"]⟩, ⟨["b"], ⟨.endsWith, false, false⟩, []⟩]

theorem ofFilters_filtersText_samples :
    (∀ c ∈ Clause.samples, c.WellFormed) ∧
      FilterTerm.ofFilters (Clause.filtersText Clause.samples) =
        Clause.samples.map Clause.term := by
  have h : ∀ c ∈ Clause.samples, c.WellFormed := by decide +kernel
  exact ⟨h, (ofFilters_filtersText Clause.samples h).1⟩

end Criteria

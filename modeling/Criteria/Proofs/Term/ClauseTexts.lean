import Criteria.Proofs.Operator.Leftmost
import Criteria.Term.Filter

/-!
# Clauses in a filters text

A filters text is a join of clause texts, and a clause text with an operator falls into names, the
operator and values. If the parts of a clause text change places among themselves, what is read of
it changes places in the same way, as long as the new text falls into these parts again: the last
name or the first value can join the operator to another one, a backslash at the end of a name or
value can take a bar with it, and one at the end of a clause text a comma.
-/

namespace Criteria

open Text

namespace Located

/-! ## The operator of a trimmed text, and of one without escapes -/

theorem opens_iff_escapedAfter {front back : List Char} :
    Opens front back ↔
      escapedAfter false front = false ∧ ∃ t ∈ Token.table, t.chars <+: back := by
  rw [escapedAfter_eq_false_iff]
  exact ⟨fun h => ⟨h.free, h.begins⟩, fun h => ⟨h.1, h.2⟩⟩

theorem Opens.widen {lead front back : List Char} (hlead : escapedAfter false lead = false)
    (h : Opens front back) (tail : List Char) : Opens (lead ++ front) (back ++ tail) := by
  rw [opens_iff_escapedAfter] at h ⊢
  obtain ⟨hfree, t, ht, hbegin⟩ := h
  refine ⟨?_, t, ht, hbegin.trans (List.prefix_append ..)⟩
  rw [escapedAfter_append, hlead, hfree]

theorem Opens.of_widen {lead front : List Char} (hlead : escapedAfter false lead = false)
    {back : List Char} (h : Opens (lead ++ front) back) : Opens front back := by
  rw [opens_iff_escapedAfter, escapedAfter_append, hlead] at h
  exact opens_iff_escapedAfter.mpr h

/-- No token begins with a comma. -/
theorem Opens.not_comma {front back : List Char} (h : Opens front back) : ¬ [','] <+: back := by
  obtain ⟨-, t, ht, rest, rfl⟩ := h
  exact not_singleton_prefix (Token.chars_ne_nil t ht) (Token.not_mem_chars ht (by decide)) rest

theorem opens_unescape_iff {front back : List Char} :
    Opens (unescape [','] front) (unescape [','] back) ↔ Opens front back := by
  have hbegins : (∃ t ∈ Token.table, t.chars <+: unescape [','] back) ↔
      ∃ t ∈ Token.table, t.chars <+: back := by
    refine exists_congr fun t => and_congr_right fun ht => ?_
    exact prefix_unescape_iff (by decide) (Token.escapeChar_not_mem_chars ht)
      (Token.not_mem_chars ht (by decide)) back
  rw [opens_iff_escapedAfter, opens_iff_escapedAfter, escapedAfter_unescape (by decide), hbegins]

theorem tight_around {t : Token} (ht : t ∈ Token.table) {front back : List Char}
    (hhead : ∀ c ∈ front.head?, isBlank c = false)
    (hlast : ∀ c ∈ back.getLast?, isBlank c = false) :
    Tight (front ++ (t.chars ++ back)) := by
  obtain ⟨hfirst, hend⟩ := Token.tight_chars t ht
  have hne := Token.chars_ne_nil t ht
  refine ⟨?_, ?_⟩
  · intro c hc
    rw [List.head?_append, List.head?_append_of_ne_nil _ hne] at hc
    rcases Option.or_eq_some_iff.mp hc with hc | ⟨-, hc⟩
    · exact hhead c hc
    · exact hfirst c hc
  · intro c hc
    rw [← List.append_assoc, List.getLast?_append, List.getLast?_append_of_ne_nil _ hne] at hc
    rcases Option.or_eq_some_iff.mp hc with hc | ⟨-, hc⟩
    · exact hlast c hc
    · exact hend c hc

/-- Trimming a text leaves its operator where it is. -/
theorem Leftmost.trim {cs : List Char} {l : Located} (h : Leftmost cs l) :
    Leftmost (Text.trim cs) ⟨trimStart l.before, l.token, trimEnd l.after⟩ := by
  obtain ⟨before, token, after⟩ := l
  obtain ⟨lead, hbefore, hlead⟩ := exists_blank_trimStart before
  obtain ⟨tail, hafter, htail⟩ := exists_blank_trimEnd after
  have htight := tight_around h.listed (fun _ => @head?_trimStart before _)
    fun _ => @getLast?_trimEnd after _
  dsimp only at htight ⊢
  generalize trimStart before = front at *
  generalize trimEnd after = back at *
  subst hbefore hafter
  have hcs : lead ++ (front ++ (token.chars ++ back)) ++ tail = cs := by
    rw [← h.cut]
    simp only [List.append_assoc]
  have hfree : escapedAfter false lead = false := by
    refine escapedAfter_of_not_mem fun hmem => ?_
    exact absurd (hlead _ hmem) (by decide)
  rw [← hcs, trim_append_of_blank hlead htail, trim_of_tight htight]
  refine ⟨List.append_assoc .., ?_, ?_, h.listed, ?_⟩
  · refine ⟨(h.opens.of_widen hfree).free, token, h.listed, List.prefix_append ..⟩
  · intro front' back' hcut hopens
    have hwhole : (lead ++ front') ++ (back' ++ tail) = cs := by
      rw [← hcs, ← hcut]
      simp only [List.append_assoc]
    have hle := h.leftmost _ _ hwhole (hopens.widen hfree tail)
    rw [List.length_append, List.length_append] at hle
    exact Nat.le_of_add_le_add_left hle
  · intro t ht hbegin
    refine h.longest t ht (hbegin.trans ?_)
    rw [← List.append_assoc]
    exact List.prefix_append ..

/-- Undoing the escapes of commas leaves the operator of a text where it is. -/
theorem Leftmost.unescape {cs : List Char} {l : Located} (h : Leftmost cs l) :
    Leftmost (Text.unescape [','] cs)
      ⟨Text.unescape [','] l.before, l.token, Text.unescape [','] l.after⟩ := by
  have hafter : Text.unescape [','] (l.token.chars ++ l.after) =
      l.token.chars ++ Text.unescape [','] l.after :=
    unescape_append (Token.escapeChar_not_mem_chars h.listed) _ _
  have hcs : Text.unescape [','] cs =
      Text.unescape [','] l.before ++ Text.unescape [','] (l.token.chars ++ l.after) := by
    rw [← h.cut]
    exact unescape_append_of_not_marked (by decide) _ h.opens.not_comma
  refine ⟨?_, ?_, ?_, h.listed, ?_⟩
  · rw [hcs, hafter, List.append_assoc]
  · rw [← hafter]
    exact opens_unescape_iff.mpr h.opens
  · intro front back hcut hopens
    obtain ⟨front, back, hparts, rfl, rfl⟩ := exists_cut_unescape (by decide) hcut
    have hle := h.leftmost _ _ hparts (opens_unescape_iff.mp hopens)
    obtain ⟨middle, rfl⟩ : l.before <+: front :=
      List.prefix_of_prefix_length_le ⟨_, h.cut⟩ ⟨_, hparts⟩ hle
    have hrest : middle ++ back = l.token.chars ++ l.after := by
      rw [← h.cut, List.append_assoc] at hparts
      exact List.append_cancel_left hparts
    have hmiddle : ¬ [','] <+: middle := by
      intro hcomma
      exact h.opens.not_comma (hcomma.trans (hrest ▸ List.prefix_append ..))
    rw [unescape_append_of_not_marked (by decide) _ hmiddle, List.length_append]
    exact Nat.le_add_right ..
  · intro t ht hbegin
    rw [← hafter, prefix_unescape_iff (by decide) (Token.escapeChar_not_mem_chars ht)
      (Token.not_mem_chars ht (by decide))] at hbegin
    exact h.longest t ht hbegin

end Located

/-! ## Clauses in another order -/

/-- Two clauses that differ at most in how their names and their values are ordered. -/
structure FilterTerm.Rearranged (t t' : FilterTerm) : Prop where
  token : t.token = t'.token
  names : t.names.Perm t'.names
  values : t.values.Perm t'.values

/-- Every clause of the first list is in the second up to the order of its names and values. -/
def FilterTerm.Covered (ts ts' : List FilterTerm) : Prop :=
  ∀ t ∈ ts, ∃ t' ∈ ts', t.Rearranged t'

namespace FilterTerm.Rearranged

variable {t t' : FilterTerm}

theorem refl (t : FilterTerm) : t.Rearranged t := ⟨rfl, .refl _, .refl _⟩

theorem symm (h : t.Rearranged t') : t'.Rearranged t := ⟨h.token.symm, h.names.symm, h.values.symm⟩

end FilterTerm.Rearranged

/-! ## The parts of a clause text -/

/-- A clause text in its parts: names with bars between them, bare or in parentheses and with blanks
around them, an operator, and values with bars between them. -/
structure ClauseText where
  lead : List Char
  parenthesized : Bool
  names : List (List Char)
  tail : List Char
  token : Token
  values : List (List Char)

namespace ClauseText

def namesChars (c : ClauseText) : List Char :=
  if c.parenthesized then '(' :: (['|'].intercalate c.names ++ [')'])
  else ['|'].intercalate c.names

/-- What stands before the operator. -/
def before (c : ClauseText) : List Char := c.lead ++ c.namesChars ++ c.tail

/-- What stands behind the operator. -/
def after (c : ClauseText) : List Char := ['|'].intercalate c.values

def chars (c : ClauseText) : List Char := c.before ++ c.token.chars ++ c.after

/-- The text falls into these parts again: its operator is the one between the names and the values,
the names and the values are the pieces of their joins, and bare names do not look like names in
parentheses. -/
structure Readable (c : ClauseText) : Prop where
  blank : ∀ x ∈ c.lead ++ c.tail, isBlank x = true
  names : Joinable '|' c.names
  bare : c.parenthesized = false →
    ¬ ((trim c.namesChars).head? = some '(' ∧ (trim c.namesChars).getLast? = some ')')
  operator : Located.Leftmost c.chars ⟨c.before, c.token, c.after⟩
  values : Joinable '|' c.values

/-- A clause text as it is, or with its names and its values in another order. -/
inductive Reordered : List Char → List Char → Prop
  | refl (cs : List Char) : Reordered cs cs
  | parts {c c' : ClauseText} (h : c.Readable) (h' : c'.Readable) (token : c.token = c'.token)
      (names : c.names.Perm c'.names) (values : c.values.Perm c'.values) :
      Reordered c.chars c'.chars

theorem Reordered.symm {cs cs' : List Char} (h : Reordered cs cs') : Reordered cs' cs := by
  cases h with
  | refl => exact .refl cs
  | parts h h' token names values => exact .parts h' h token.symm names.symm values.symm

/-- Every text of the first list is in the second up to the order of its names and values. -/
def Covered (texts texts' : List String) : Prop :=
  ∀ s ∈ texts, ∃ s' ∈ texts', Reordered s.toList s'.toList

/-- Every text with an operator falls into such parts. -/
theorem exists_readable {cs : List Char} {l : Located} (h : Located.Leftmost cs l) :
    ∃ c : ClauseText, c.Readable ∧ c.chars = cs := by
  obtain ⟨values, hvalues, hafter⟩ := exists_joinable (by decide : '|' ≠ escapeChar) l.after
  have hread : ∀ c : ClauseText, c.before = l.before → c.token = l.token → c.after = l.after →
      c.chars = cs ∧ Located.Leftmost c.chars ⟨c.before, c.token, c.after⟩ := by
    intro c hbefore htoken hafter
    have hchars : c.chars = cs := by
      rw [chars, hbefore, htoken, hafter]
      exact h.parts
    rw [hchars, hbefore, htoken, hafter]
    exact ⟨rfl, h⟩
  by_cases hparen :
      (trim l.before).head? = some '(' ∧ (trim l.before).getLast? = some ')'
  · obtain ⟨lead, tail, hbefore, hlead, htail⟩ := exists_blanks_trim l.before
    obtain ⟨inner, hinner⟩ : ∃ inner, trim l.before = '(' :: (inner ++ [')']) := by
      obtain ⟨rest, hrest⟩ := List.head?_eq_some_iff.mp hparen.1
      obtain ⟨front, hfront⟩ := List.getLast?_eq_some_iff.mp hparen.2
      rw [hrest] at hfront ⊢
      cases front with
      | nil => exact absurd (List.cons.inj hfront).1 (by decide)
      | cons c inner => exact ⟨inner, congrArg _ (List.cons.inj hfront).2⟩
    obtain ⟨names, hnames, rfl⟩ := exists_joinable (by decide : '|' ≠ escapeChar) inner
    rw [hinner] at hbefore
    obtain ⟨hchars, hoperator⟩ := hread ⟨lead, true, names, tail, l.token, values⟩
      hbefore.symm rfl hafter
    refine ⟨_, ⟨?_, hnames, fun hbare => ?_, hoperator, hvalues⟩, hchars⟩
    · exact List.forall_mem_append.mpr ⟨hlead, htail⟩
    · exact absurd hbare.symm Bool.false_ne_true
  · obtain ⟨names, hnames, hbefore⟩ := exists_joinable (by decide : '|' ≠ escapeChar) l.before
    have hplain : [] ++ ['|'].intercalate names ++ [] = l.before := by
      rw [List.nil_append, List.append_nil, hbefore]
    obtain ⟨hchars, hoperator⟩ := hread ⟨[], false, names, [], l.token, values⟩ hplain rfl hafter
    refine ⟨_, ⟨by simp, hnames, fun _ => ?_, hoperator, hvalues⟩, hchars⟩
    simpa [namesChars, hbefore] using hparen

/-! ## What is read of the parts -/

/-- What is read of names or of values that stand between bars. -/
def readParts (parts : List (List Char)) : List (List Char) :=
  ((parts.map (unescape [','])).map trim).filter (!·.isEmpty)

theorem readParts_perm {parts parts' : List (List Char)} (h : parts.Perm parts') :
    (readParts parts).Perm (readParts parts') :=
  ((h.map _).map _).filter _

theorem splitChars_unescape {parts : List (List Char)} (h : Joinable '|' parts) :
    splitChars '|' (unescape [','] (['|'].intercalate parts)) = readParts parts := by
  rw [unescape_intercalate (by decide) (by decide) (by decide)]
  exact splitChars_intercalate (by decide) (h.unescape (by decide) (by decide) (by decide))

theorem openNames_of_not {cs : List Char}
    (h : ¬ (cs.head? = some '(' ∧ cs.getLast? = some ')')) : FilterTerm.openNames cs = cs := by
  unfold FilterTerm.openNames
  split
  · split
    · next hlast => exact absurd ⟨rfl, by rw [List.getLast?_cons, hlast]; rfl⟩ h
    · rfl
  · rfl

variable {c : ClauseText} (h : c.Readable)
include h

theorem trim_before : trim (unescape [','] c.before) = unescape [','] (trim c.namesChars) := by
  rw [trim_unescape (by decide) (by decide), before, trim_append_of_blank]
  · intro x hx
    exact h.blank x (List.mem_append_left _ hx)
  · intro x hx
    exact h.blank x (List.mem_append_right _ hx)

theorem splitChars_names :
    splitChars '|' (FilterTerm.openNames (trim (unescape [','] c.before))) =
      readParts c.names := by
  rw [trim_before h]
  cases hparen : c.parenthesized with
  | true =>
    have hchars : c.namesChars = '(' :: (['|'].intercalate c.names ++ [')']) := by
      simp only [namesChars, hparen, if_true]
    have htight : Tight ('(' :: (['|'].intercalate c.names ++ [')'])) := by
      refine ⟨?_, ?_⟩
      · intro x hx
        obtain rfl : '(' = x := by simpa using hx
        decide
      · intro x hx
        obtain rfl : ')' = x := by simpa [List.getLast?_cons] using hx
        decide
    have hclose : unescape [','] [')'] = [')'] := by decide
    rw [hchars, trim_of_tight htight, unescape_cons_of_ne (by decide),
      unescape_append_of_not_marked (by decide) _ (by decide), hclose]
    simpa [FilterTerm.openNames] using splitChars_unescape h.names
  | false =>
    have hchars : c.namesChars = ['|'].intercalate c.names := by
      simp only [namesChars, hparen, Bool.false_eq_true, if_false]
    have hbare : FilterTerm.openNames (unescape [','] (trim c.namesChars)) =
        unescape [','] (trim c.namesChars) := by
      refine openNames_of_not fun ⟨hhead, hlast⟩ => h.bare hparen ⟨?_, ?_⟩
      · rcases head?_unescape (by decide) (Option.mem_def.mpr hhead) with heq | hmem
        · exact absurd heq (by decide)
        · exact hmem
      · rwa [getLast?_unescape (by decide)] at hlast
    rw [hbare, ← trim_unescape (by decide) (by decide), splitChars_trim (by decide), hchars]
    exact splitChars_unescape h.names

theorem ofChars?_chars :
    ∃ t, FilterTerm.ofChars? (unescape [','] (trim c.chars)) = some t ∧ t.token = c.token ∧
      t.names = (readParts c.names).map String.ofList ∧
      t.values = (readParts c.values).map fun v => String.ofList (FilterTerm.decodeValue v) := by
  have hfind := Located.find?_eq_some_iff.mpr h.operator.unescape.trim
  unfold FilterTerm.ofChars?
  dsimp only
  rw [← trim_unescape (by decide) (by decide), trim_trim, hfind, Option.map_some]
  refine ⟨_, rfl, rfl, ?_, ?_⟩
  · rw [trim_trimStart, splitChars_names h]
  · rw [trim_trimEnd, splitChars_trim (by decide), after, splitChars_unescape h.values]

omit h

theorem Reordered.rearranged {cs cs' : List Char} (h : Reordered cs cs') {t : FilterTerm}
    (ht : FilterTerm.ofChars? (unescape [','] (trim cs)) = some t) :
    ∃ t', FilterTerm.ofChars? (unescape [','] (trim cs')) = some t' ∧ t.Rearranged t' := by
  cases h with
  | refl => exact ⟨t, ht, .refl t⟩
  | parts h h' token names values =>
    obtain ⟨u, hu, htoken, hnames, hvalues⟩ := ofChars?_chars h
    obtain ⟨t', ht', htoken', hnames', hvalues'⟩ := ofChars?_chars h'
    obtain rfl := Option.some.inj (hu.symm.trans ht)
    refine ⟨t', ht', ?_, ?_, ?_⟩
    · rw [htoken, htoken', token]
    · rw [hnames, hnames']
      exact (readParts_perm names).map _
    · rw [hvalues, hvalues']
      exact (readParts_perm values).map _

end ClauseText

/-! ## The clause texts of a filters text -/

theorem exists_clauseTexts (filters : String) :
    ∃ texts : List String, Joinable ',' (texts.map String.toList) ∧
      ",".intercalate texts = filters := by
  obtain ⟨parts, hparts, hjoin⟩ := exists_joinable (by decide : ',' ≠ escapeChar) filters.toList
  refine ⟨parts.map String.ofList, by simpa using hparts, ?_⟩
  rw [← String.toList_inj, String.toList_intercalate]
  simpa using hjoin

namespace FilterTerm

/-- Joining clause texts joins what is read of each. -/
theorem mem_ofFilters_intercalate {texts : List String}
    (h : Joinable ',' (texts.map String.toList)) {t : FilterTerm} :
    t ∈ ofFilters (",".intercalate texts) ↔
      ∃ s ∈ texts, ofChars? (unescape [','] (trim s.toList)) = some t := by
  have hsplit : splitChars ',' (",".intercalate texts).toList =
      ((texts.map String.toList).map trim).filter (!·.isEmpty) := by
    rw [String.toList_intercalate]
    exact splitChars_intercalate (by decide) h
  rw [ofFilters, hsplit, List.mem_filterMap]
  constructor
  · rintro ⟨part, hpart, hread⟩
    obtain ⟨cs, hcs, rfl⟩ := List.mem_map.mp (List.mem_filter.mp hpart).1
    obtain ⟨s, hs, rfl⟩ := List.mem_map.mp hcs
    exact ⟨s, hs, hread⟩
  · rintro ⟨s, hs, hread⟩
    refine ⟨trim s.toList, List.mem_filter.mpr ⟨?_, ?_⟩, hread⟩
    · exact List.mem_map_of_mem (List.mem_map_of_mem hs)
    -- nothing is read of a blank text
    · rw [Bool.not_eq_true', List.isEmpty_eq_false_iff]
      intro hnil
      rw [hnil] at hread
      exact absurd hread.symm (Option.some_ne_none t)

theorem covered_ofFilters {texts texts' : List String}
    (hjoin : Joinable ',' (texts.map String.toList))
    (hjoin' : Joinable ',' (texts'.map String.toList)) (h : ClauseText.Covered texts texts') :
    Covered (ofFilters (",".intercalate texts)) (ofFilters (",".intercalate texts')) := by
  intro t ht
  obtain ⟨s, hs, hread⟩ := (mem_ofFilters_intercalate hjoin).mp ht
  obtain ⟨s', hs', hreordered⟩ := h s hs
  obtain ⟨t', hread', hrearranged⟩ := hreordered.rearranged hread
  exact ⟨t', (mem_ofFilters_intercalate hjoin').mpr ⟨s', hs', hread'⟩, hrearranged⟩

end FilterTerm

end Criteria

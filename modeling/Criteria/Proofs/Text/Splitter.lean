import Criteria.Proofs.Text.Splitting

/-!
# Splitting in one pass

A text can be split while it is read once, with one truth value that says whether the next character
is escaped. Counting the backslashes before every delimiter comes to the same, whichever character
the delimiter is: the truth value is the parity of the backslashes before the place that is read, also
where these backslashes were delimiters themselves. What the splitter has read is laid out by the
parts and by what stands around them, and every step keeps it so.
-/

namespace Criteria.Text

/-- What stands behind a text is not escaped: the text ends in an even number of backslashes. -/
def Free (cs : List Char) : Prop := Even (cs.rtakeWhile (· == escapeChar)).length

/-- A text is laid out by parts, blanks and free delimiters. Each part is there as a whole and in its
place; it is not empty, no blank stands at its ends, and the delimiters in it are not free. -/
inductive Laid (delimiter : Char) : List Char → List (List Char) → Prop
  | nothing : Laid delimiter [] []
  | blank {front : List Char} {parts : List (List Char)} {c : Char} :
      Laid delimiter front parts → isBlank c = true → Laid delimiter (front ++ [c]) parts
  | cut {front : List Char} {parts : List (List Char)} :
      Laid delimiter front parts → Free front → Laid delimiter (front ++ [delimiter]) parts
  | part {front part : List Char} {parts : List (List Char)} :
      Laid delimiter front parts → part ≠ [] → Tight part →
      (∀ before after, part = before ++ delimiter :: after → ¬ Free (front ++ before)) →
      Laid delimiter (front ++ part) (parts ++ [part])

theorem free_iff (cs : List Char) : Free cs ↔ escapedBy cs.reverse = false :=
  (escapedBy_reverse_eq_false_iff cs).symm

theorem Laid.blanks {delimiter : Char} {front : List Char} {parts : List (List Char)}
    (h : Laid delimiter front parts) {cs : List Char} (hcs : ∀ c ∈ cs, isBlank c = true) :
    Laid delimiter (front ++ cs) parts := by
  induction cs generalizing front with
  | nil => simpa using h
  | cons c rest ih =>
    rw [List.forall_mem_cons] at hcs
    simpa using ih (h.blank hcs.1) hcs.2

/-- What has been read of a text that is being split. -/
structure Splitter where
  /-- The parts that are finished. -/
  parts : List (List Char)
  /-- The characters behind the last cut. -/
  piece : List Char
  /-- The next character is escaped. -/
  escaped : Bool

namespace Splitter

def start : Splitter := ⟨[], [], false⟩

/-- The parts once the piece ends here: the piece is trimmed, and dropped if nothing is left. -/
def finished (s : Splitter) : List (List Char) :=
  if trim s.piece = [] then s.parts else s.parts ++ [trim s.piece]

/-- Reads one character. -/
def step (delimiter : Char) (s : Splitter) (c : Char) : Splitter where
  parts := if c = delimiter ∧ s.escaped = false then s.finished else s.parts
  piece := if c = delimiter ∧ s.escaped = false then [] else s.piece ++ [c]
  escaped := c == escapeChar && !s.escaped

/-- Splits a text in one pass. -/
def split (delimiter : Char) (cs : List Char) : List (List Char) :=
  (cs.foldl (step delimiter) start).finished

variable {delimiter : Char} {s : Splitter}

theorem step_cut (h : s.escaped = false) :
    step delimiter s delimiter = ⟨s.finished, [], delimiter == escapeChar⟩ := by
  simp [step, h]

theorem step_keep {c : Char} (h : ¬ (c = delimiter ∧ s.escaped = false)) :
    step delimiter s c = ⟨s.parts, s.piece ++ [c], c == escapeChar && !s.escaped⟩ := by
  simp [step, h]

/-! ## The same parts -/

/-- The parts that splitting gives if it goes on behind `before` as it is. -/
def goOn (delimiter : Char) (before : List Char) (s : Splitter) (rest : List Char) :
    List (List Char) :=
  s.parts ++ ((piecesFrom delimiter before s.piece.reverse rest).map trim).filter (!·.isEmpty)

theorem goOn_nil (before : List Char) : goOn delimiter before s [] = s.finished := by
  by_cases h : trim s.piece = []
  · simp [goOn, piecesFrom, finished, h]
  · simp [goOn, piecesFrom, finished, h]

/-- Reading a character changes nothing about the parts of the whole text. -/
theorem goOn_step {before : List Char} (h : s.escaped = escapedBy before) (c : Char)
    (rest : List Char) :
    goOn delimiter (c :: before) (step delimiter s c) rest = goOn delimiter before s (c :: rest) := by
  by_cases hcut : c = delimiter ∧ s.escaped = false
  · obtain ⟨rfl, hfree⟩ := hcut
    have hpieces : piecesFrom c before s.piece.reverse (c :: rest) =
        s.piece :: piecesFrom c (c :: before) [] rest := by
      simp [piecesFrom, ← h, hfree]
    rw [step_cut hfree, goOn, goOn, hpieces]
    by_cases hblank : trim s.piece = []
    · simp [finished, hblank]
    · simp [finished, hblank]
  · have hpieces : piecesFrom delimiter before s.piece.reverse (c :: rest) =
        piecesFrom delimiter (c :: before) (s.piece ++ [c]).reverse rest := by
      have hgo : (c == delimiter && !escapedBy before) = false := by
        rw [← h]
        simpa using hcut
      simp [piecesFrom, hgo]
    rw [step_keep hcut, goOn, goOn, hpieces]

theorem finished_foldl (before : List Char) (h : s.escaped = escapedBy before) (rest : List Char) :
    (rest.foldl (step delimiter) s).finished = goOn delimiter before s rest := by
  induction rest generalizing s before with
  | nil => exact (goOn_nil before).symm
  | cons c rest ih =>
    have hnext : (step delimiter s c).escaped = escapedBy (c :: before) := by
      rw [escapedBy_cons, ← h]
      rfl
    rw [List.foldl_cons, ih _ hnext, goOn_step h]

theorem split_eq (delimiter : Char) (cs : List Char) :
    split delimiter cs = splitChars delimiter cs :=
  finished_foldl (s := start) [] rfl cs

/-! ## The layout -/

/-- The text `front` has been read: it is laid out up to the last cut, and the delimiters behind that
are not free. -/
structure HasRead (delimiter : Char) (front : List Char) (s : Splitter) : Prop where
  escaped : s.escaped = escapedBy front.reverse
  layout : ∃ laid, front = laid ++ s.piece ∧ Laid delimiter laid s.parts ∧
    ∀ before after, s.piece = before ++ delimiter :: after → ¬ Free (laid ++ before)

theorem HasRead.start : HasRead delimiter [] start := by
  refine ⟨rfl, [], rfl, .nothing, ?_⟩
  intro before after h
  simp [Splitter.start] at h

theorem HasRead.finished {front : List Char} (h : HasRead delimiter front s) :
    Laid delimiter front s.finished := by
  obtain ⟨-, laid, rfl, hlaid, hguarded⟩ := h
  obtain ⟨lead, tail, hpiece, hlead, htail⟩ := exists_blanks_trim s.piece
  have hfront := hlaid.blanks hlead
  unfold Splitter.finished
  split
  · next hnil =>
    rw [hpiece, hnil, List.append_nil, ← List.append_assoc]
    exact hfront.blanks htail
  · next hne =>
    rw [hpiece, ← List.append_assoc, ← List.append_assoc, ← hpiece]
    refine (hfront.part hne (tight_trim _) ?_).blanks htail
    intro before after hmem
    have hplace := hguarded (lead ++ before) (after ++ tail) (by rw [hpiece, hmem]; simp)
    rwa [← List.append_assoc] at hplace

theorem HasRead.step {front : List Char} (h : HasRead delimiter front s) (c : Char) :
    HasRead delimiter (front ++ [c]) (step delimiter s c) := by
  have hescaped : (Splitter.step delimiter s c).escaped = escapedBy (front ++ [c]).reverse := by
    rw [List.reverse_append, List.reverse_singleton, List.singleton_append, escapedBy_cons,
      ← h.escaped]
    rfl
  by_cases hcut : c = delimiter ∧ s.escaped = false
  · obtain ⟨rfl, hfree⟩ := hcut
    have hfront : Free front := by rw [free_iff, ← h.escaped, hfree]
    refine ⟨hescaped, front ++ [c], ?_, ?_, ?_⟩
    · simp [step_cut hfree]
    · rw [step_cut hfree]
      exact h.finished.cut hfront
    · intro before after hmem
      simp [step_cut hfree] at hmem
  · obtain ⟨hesc, laid, rfl, hlaid, hguarded⟩ := h
    refine ⟨hescaped, laid, ?_, ?_, ?_⟩
    · simp [step_keep hcut]
    · rwa [step_keep hcut]
    · intro before after hmem
      rw [step_keep hcut] at hmem
      rcases List.eq_nil_or_concat after with rfl | ⟨after, x, rfl⟩
      -- the delimiter is the one that has just been read
      · obtain ⟨rfl, hc⟩ := List.append_inj' hmem rfl
        obtain rfl : c = delimiter := by simpa using hc
        rw [free_iff, ← hesc]
        simpa using hcut
      · have hold : s.piece = before ++ delimiter :: after := by
          have hlast : s.piece ++ [c] = before ++ delimiter :: after ++ [x] := by simpa using hmem
          exact (List.append_inj' hlast rfl).1
        exact hguarded before after hold

theorem hasRead_foldl (delimiter : Char) (cs : List Char) :
    HasRead delimiter cs (cs.foldl (step delimiter) start) := by
  induction cs using List.reverseRecOn with
  | nil => exact .start
  | append_singleton cs c ih =>
    rw [List.foldl_append]
    exact ih.step c

theorem laid_split (delimiter : Char) (cs : List Char) : Laid delimiter cs (split delimiter cs) :=
  (hasRead_foldl delimiter cs).finished

end Splitter

/-- Splitting a text is reading it once. Of its parts none is empty and none has blanks at its ends,
and the text is laid out by them: nothing is lost but blanks and free delimiters, nothing changes its
place, and no part has a free delimiter in it. -/
theorem split_in_one_pass (s : String) (delimiter : Char) :
    splitUnescaped s delimiter = (Splitter.split delimiter s.toList).map String.ofList ∧
    (∀ part ∈ splitUnescaped s delimiter,
      part ≠ "" ∧ String.ofList (trim part.toList) = part) ∧
    Laid delimiter s.toList ((splitUnescaped s delimiter).map String.toList) := by
  have hsplit : splitUnescaped s delimiter =
      (Splitter.split delimiter s.toList).map String.ofList := by
    rw [Splitter.split_eq]
    rfl
  refine ⟨hsplit, ?_, ?_⟩
  · intro part hpart
    obtain ⟨chars, hchars, rfl⟩ := List.mem_map.mp hpart
    have hne := ne_nil_of_mem_splitChars hchars
    refine ⟨?_, ?_⟩
    · rw [Ne, ← String.toList_inj, String.toList_ofList]
      exact hne
    · obtain ⟨piece, -, rfl⟩ := List.mem_map.mp (List.mem_filter.mp hchars).1
      rw [String.toList_ofList, trim_trim]
  · rw [hsplit, List.map_map]
    simpa [Function.comp_def] using Splitter.laid_split delimiter s.toList

/-- Backslashes can be the delimiter too: the first of a run is free and escapes the second. -/
theorem split_in_one_pass_backslashes :
    splitUnescaped "a\\\\b\\ c" '\\' = ["a", "\\b", "c"] ∧
      "\\b" ∈ splitUnescaped "a\\\\b\\ c" '\\' ∧ String.ofList (trim "\\b".toList) = "\\b" ∧
      Laid '\\' "a\\\\b\\ c".toList [['a'], ['\\', 'b'], ['c']] := by
  obtain ⟨hsplit, htrimmed, hlaid⟩ := split_in_one_pass "a\\\\b\\ c" '\\'
  have hparts : splitUnescaped "a\\\\b\\ c" '\\' = ["a", "\\b", "c"] := by
    rw [hsplit]
    decide +kernel
  have hmem : "\\b" ∈ splitUnescaped "a\\\\b\\ c" '\\' := by
    rw [hparts]
    decide
  refine ⟨hparts, hmem, (htrimmed _ hmem).2, ?_⟩
  rwa [hparts] at hlaid

end Criteria.Text

import Mathlib.Algebra.Ring.Parity
import Mathlib.Data.List.DropRight
import Criteria.Proofs.Text.Unescaping

/-!
# Splitting joined texts

Whether a place is escaped depends only on the parity of the backslashes before it, so a text can be
read with one truth value as the state. A text that leaves this state as it found it can be cut off
in front of a delimiter: splitting then splits the two sides, and a list of such texts is got back
from their join. Behind the last one nothing is cut off, so it may end as it likes. Every text is
the join of such a list.
-/

namespace Criteria.Text

/-- Whether the place behind a text is escaped, if the place before it is as `esc` says. -/
def escapedAfter (esc : Bool) : List Char → Bool
  | [] => esc
  | c :: rest => escapedAfter (c == escapeChar && !esc) rest

/-- Whether every delimiter in a text is escaped, if the place before it is as `esc` says. -/
def guards (delimiter : Char) (esc : Bool) : List Char → Bool
  | [] => true
  | c :: rest => (c != delimiter || esc) && guards delimiter (c == escapeChar && !esc) rest

/-- A text that can stand between two delimiters: every delimiter in it is escaped, and it does not
escape what follows it. -/
structure Closed (delimiter : Char) (cs : List Char) : Prop where
  guards : guards delimiter false cs = true
  ends : escapedAfter false cs = false

instance (delimiter : Char) (cs : List Char) : Decidable (Closed delimiter cs) :=
  decidable_of_iff (Text.guards delimiter false cs = true ∧ escapedAfter false cs = false)
    ⟨fun ⟨hg, he⟩ => ⟨hg, he⟩, fun h => ⟨h.guards, h.ends⟩⟩

/-- Texts that are the pieces of their join: every delimiter in them is escaped, and none but the
last escapes what follows it. -/
structure Joinable (delimiter : Char) (parts : List (List Char)) : Prop where
  guards : ∀ p ∈ parts, guards delimiter false p = true
  ends : ∀ p ∈ parts.dropLast, escapedAfter false p = false

instance (delimiter : Char) (parts : List (List Char)) : Decidable (Joinable delimiter parts) :=
  decidable_of_iff ((parts.all fun p => Text.guards delimiter false p) = true ∧
      (parts.dropLast.all fun p => !escapedAfter false p) = true)
    ⟨fun ⟨hg, he⟩ => ⟨List.all_eq_true.mp hg, by simpa using he⟩,
      fun h => ⟨List.all_eq_true.mpr h.guards, by simpa using h.ends⟩⟩

theorem escapedBy_cons (c : Char) (before : List Char) :
    escapedBy (c :: before) = (c == escapeChar && !escapedBy before) := by
  by_cases h : c = escapeChar
  · subst h
    simp [escapedBy_escapeChar]
  · simp [escapedBy_of_ne h, h]

theorem escapedBy_of_not_mem {before : List Char} (h : escapeChar ∉ before) :
    escapedBy before = false := by
  cases before with
  | nil => rfl
  | cons c rest => exact escapedBy_of_ne (fun hc => h (by simp [hc])) rest

/-! ## The two readings of a text in pieces -/

theorem escapedAfter_append (esc : Bool) (cs ds : List Char) :
    escapedAfter esc (cs ++ ds) = escapedAfter (escapedAfter esc cs) ds := by
  induction cs generalizing esc with
  | nil => rfl
  | cons c rest ih => exact ih _

/-- Counting backslashes back from the end of a text comes to the same. -/
theorem escapedAfter_escapedBy (before cs : List Char) :
    escapedAfter (escapedBy before) cs = escapedBy (cs.reverse ++ before) := by
  induction cs generalizing before with
  | nil => rfl
  | cons c rest ih =>
    rw [escapedAfter, ← escapedBy_cons, ih, List.reverse_cons, List.append_assoc,
      List.singleton_append]

/-- The place behind a text is escaped if the text ends in an odd number of backslashes. -/
theorem escapedBy_reverse_iff (cs : List Char) :
    escapedBy cs.reverse = true ↔ Odd (cs.rtakeWhile (· == escapeChar)).length := by
  rw [escapedBy, List.rtakeWhile, List.length_reverse, beq_iff_eq, Nat.odd_iff]

theorem escapedBy_reverse_eq_false_iff (cs : List Char) :
    escapedBy cs.reverse = false ↔ Even (cs.rtakeWhile (· == escapeChar)).length := by
  rw [← Bool.not_eq_true, escapedBy_reverse_iff, Nat.not_odd_iff_even]

theorem escapedAfter_iff (cs : List Char) :
    escapedAfter false cs = true ↔ Odd (cs.rtakeWhile (· == escapeChar)).length := by
  rw [← escapedBy_reverse_iff, ← escapedBy_nil, escapedAfter_escapedBy, List.append_nil]

theorem escapedAfter_eq_false_iff (cs : List Char) :
    escapedAfter false cs = false ↔ Even (cs.rtakeWhile (· == escapeChar)).length := by
  rw [← Bool.not_eq_true, escapedAfter_iff, Nat.not_odd_iff_even]

theorem escapedAfter_of_not_mem {cs : List Char} (h : escapeChar ∉ cs) :
    escapedAfter false cs = false := by
  rw [← escapedBy_nil, escapedAfter_escapedBy, List.append_nil]
  exact escapedBy_of_not_mem fun hmem => h (List.mem_reverse.mp hmem)

theorem guards_of_not_mem {delimiter : Char} {cs : List Char} (h : delimiter ∉ cs) (esc : Bool) :
    guards delimiter esc cs = true := by
  induction cs generalizing esc with
  | nil => rfl
  | cons c rest ih =>
    rw [List.mem_cons, not_or] at h
    simp [guards, Ne.symm h.1, ih h.2]

theorem guards_append (delimiter : Char) (esc : Bool) (cs ds : List Char) :
    guards delimiter esc (cs ++ ds) =
      (guards delimiter esc cs && guards delimiter (escapedAfter esc cs) ds) := by
  induction cs generalizing esc with
  | nil => simp [guards, escapedAfter]
  | cons c rest ih => simp [guards, escapedAfter, ih, Bool.and_assoc]

theorem Closed.nil (delimiter : Char) : Closed delimiter [] := ⟨rfl, rfl⟩

theorem Closed.append {delimiter : Char} {cs ds : List Char} (hc : Closed delimiter cs)
    (hd : Closed delimiter ds) : Closed delimiter (cs ++ ds) := by
  refine ⟨?_, ?_⟩
  · rw [guards_append, hc.guards, hc.ends, hd.guards, Bool.and_self]
  · rw [escapedAfter_append, hc.ends, hd.ends]

/-- An escaped character is closed, whatever it is. -/
theorem Closed.escape {delimiter : Char} (h : delimiter ≠ escapeChar) (c : Char) :
    Closed delimiter [escapeChar, c] := by
  refine ⟨?_, ?_⟩
  · simp [Text.guards, h.symm]
  · simp [escapedAfter]

theorem Closed.of_not_mem {delimiter : Char} {cs : List Char} (he : escapeChar ∉ cs)
    (hd : delimiter ∉ cs) : Closed delimiter cs :=
  ⟨guards_of_not_mem hd false, escapedAfter_of_not_mem he⟩

theorem Closed.intercalate {delimiter : Char} {separator : List Char}
    (hs : Closed delimiter separator) {parts : List (List Char)}
    (h : ∀ p ∈ parts, Closed delimiter p) : Closed delimiter (separator.intercalate parts) := by
  induction parts with
  | nil => exact .nil delimiter
  | cons p rest ih =>
    rw [List.forall_mem_cons] at h
    by_cases hnil : rest = []
    · subst hnil
      simpa using h.1
    · rw [List.intercalate_cons_of_ne_nil hnil]
      exact (h.1.append hs).append (ih h.2)

theorem Joinable.of_closed {delimiter : Char} {parts : List (List Char)}
    (h : ∀ p ∈ parts, Closed delimiter p) :
    Joinable delimiter parts :=
  ⟨fun p hp => (h p hp).guards, fun p hp => (h p (List.dropLast_subset _ hp)).ends⟩

theorem Joinable.cons {delimiter : Char} {p : List Char} {rest : List (List Char)}
    (hp : Closed delimiter p) (h : Joinable delimiter rest) : Joinable delimiter (p :: rest) := by
  refine ⟨List.forall_mem_cons.mpr ⟨hp.guards, h.guards⟩, ?_⟩
  intro q hq
  cases rest with
  | nil => exact absurd hq List.not_mem_nil
  | cons r rest =>
    rw [List.dropLast_cons_cons, List.mem_cons] at hq
    rcases hq with rfl | hq
    · exact hp.ends
    · exact h.ends q hq

theorem Joinable.of_cons {delimiter : Char} {p : List Char} {rest : List (List Char)}
    (hne : rest ≠ []) (h : Joinable delimiter (p :: rest)) :
    Closed delimiter p ∧ Joinable delimiter rest := by
  obtain ⟨hguards, hends⟩ := h
  rw [List.forall_mem_cons] at hguards
  rw [List.dropLast_cons_of_ne_nil hne, List.forall_mem_cons] at hends
  exact ⟨⟨hguards.1, hends.1⟩, hguards.2, hends.2⟩

/-! ## Escapes of another character -/

section Marks

variable {mark : Char} (hm : mark ≠ escapeChar)
include hm

theorem escapedAfter_unescape (esc : Bool) (cs : List Char) :
    escapedAfter esc (unescape [mark] cs) = escapedAfter esc cs := by
  induction cs using mark_induction mark generalizing esc with
  | nil => rfl
  | escaped rest ih =>
    have hmark : (mark == escapeChar) = false := beq_eq_false_iff_ne.mpr hm
    simp only [unescape_escaped hm, escapedAfter, ih, hmark, Bool.false_and]
  | backslash rest hrest ih => simp only [unescape_backslash hm hrest, escapedAfter, ih]
  | plain c rest hc ih => simp only [unescape_cons_of_ne hc, escapedAfter, ih]

theorem guards_unescape {delimiter : Char} (hd : delimiter ≠ escapeChar) (hne : delimiter ≠ mark)
    (esc : Bool) (cs : List Char) :
    guards delimiter esc (unescape [mark] cs) = guards delimiter esc cs := by
  induction cs using mark_induction mark generalizing esc with
  | nil => rfl
  | escaped rest ih =>
    have hmark : (mark == escapeChar) = false := beq_eq_false_iff_ne.mpr hm
    have hfirst : (escapeChar != delimiter) = true := bne_iff_ne.mpr hd.symm
    have hsecond : (mark != delimiter) = true := bne_iff_ne.mpr hne.symm
    simp [unescape_escaped hm, guards, ih, hmark, hfirst, hsecond]
  | backslash rest hrest ih => simp only [unescape_backslash hm hrest, guards, ih]
  | plain c rest hc ih => simp only [unescape_cons_of_ne hc, guards, ih]

theorem Joinable.unescape {delimiter : Char} (hd : delimiter ≠ escapeChar) (hne : delimiter ≠ mark)
    {parts : List (List Char)} (h : Joinable delimiter parts) :
    Joinable delimiter (parts.map (unescape [mark])) := by
  refine ⟨?_, ?_⟩
  · intro p hp
    obtain ⟨q, hq, rfl⟩ := List.mem_map.mp hp
    rw [guards_unescape hm hd hne]
    exact h.guards q hq
  · intro p hp
    rw [← List.map_dropLast] at hp
    obtain ⟨q, hq, rfl⟩ := List.mem_map.mp hp
    rw [escapedAfter_unescape hm]
    exact h.ends q hq

end Marks

/-! ## Splitting -/

/-- Of what stands before a text, only its escaping counts. -/
theorem piecesFrom_congr {delimiter : Char} {before before' : List Char}
    (h : escapedBy before = escapedBy before') (piece cs : List Char) :
    piecesFrom delimiter before piece cs = piecesFrom delimiter before' piece cs := by
  induction cs generalizing before before' piece with
  | nil => rfl
  | cons c rest ih =>
    have hc : escapedBy (c :: before) = escapedBy (c :: before') := by
      rw [escapedBy_cons, escapedBy_cons, h]
    unfold piecesFrom
    rw [h, ih hc, ih hc]

/-- A delimiter that is not escaped separates the pieces before it from those behind it. -/
theorem piecesFrom_append {delimiter : Char} {before front : List Char}
    (h : escapedAfter (escapedBy before) front = false) (piece back : List Char) :
    piecesFrom delimiter before piece (front ++ delimiter :: back) =
      piecesFrom delimiter before piece front ++
        piecesFrom delimiter (delimiter :: (front.reverse ++ before)) [] back := by
  induction front generalizing before piece with
  | nil =>
    have hb : escapedBy before = false := h
    simp [piecesFrom, hb]
  | cons c rest ih =>
    rw [escapedAfter, ← escapedBy_cons] at h
    simp only [List.cons_append, piecesFrom, List.reverse_cons, List.append_assoc,
      List.nil_append]
    split
    · rw [ih h, List.cons_append]
    · rw [ih h]

/-- Without a delimiter that separates, a text goes on with the piece. -/
theorem piecesFrom_append_of_guards {delimiter : Char} {before front : List Char}
    (h : guards delimiter (escapedBy before) front = true) (piece back : List Char) :
    piecesFrom delimiter before piece (front ++ back) =
      piecesFrom delimiter (front.reverse ++ before) (front.reverse ++ piece) back := by
  induction front generalizing before piece with
  | nil => rfl
  | cons c rest ih =>
    rw [guards, ← escapedBy_cons, Bool.and_eq_true, Bool.or_eq_true] at h
    obtain ⟨hc, hrest⟩ := h
    have hkeep : (c == delimiter && !escapedBy before) = false := by
      rcases hc with hc | hc
      · simp [bne_iff_ne.mp hc]
      · simp [hc]
    simp [piecesFrom, hkeep, ih hrest]

theorem piecesFrom_of_guards {delimiter : Char} {before cs : List Char}
    (h : guards delimiter (escapedBy before) cs = true) (piece : List Char) :
    piecesFrom delimiter before piece cs = [piece.reverse ++ cs] := by
  have hend := piecesFrom_append_of_guards h piece []
  rw [List.append_nil] at hend
  simp [hend, piecesFrom]

theorem splitChars_append {delimiter : Char} (hd : delimiter ≠ escapeChar) {front : List Char}
    (h : escapedAfter false front = false) (back : List Char) :
    splitChars delimiter (front ++ delimiter :: back) =
      splitChars delimiter front ++ splitChars delimiter back := by
  have hfront : escapedAfter (escapedBy []) front = false := h
  have hnext : escapedBy (delimiter :: (front.reverse ++ [])) = escapedBy [] :=
    escapedBy_of_ne hd _
  rw [splitChars, piecesFrom_append hfront, piecesFrom_congr hnext]
  simp [splitChars]

/-- A comma cuts a text in two unless what stands before it ends in the middle of an escape. -/
theorem splitChars_comma {f g : String}
    (h : ¬ Odd (f.toList.rtakeWhile (· == escapeChar)).length) :
    splitChars ',' (f ++ "," ++ g).toList =
      splitChars ',' f.toList ++ splitChars ',' g.toList := by
  have hfree : escapedAfter false f.toList = false := by
    rw [← Bool.not_eq_true, escapedAfter_iff]
    exact h
  have hchars : (f ++ "," ++ g).toList = f.toList ++ ',' :: g.toList := by
    rw [String.toList_append, String.toList_append, List.append_assoc]
    rfl
  rw [hchars, splitChars_append (by decide) hfree]

theorem splitChars_of_guards {delimiter : Char} {cs : List Char}
    (h : guards delimiter false cs = true) :
    splitChars delimiter cs = [trim cs].filter (!·.isEmpty) := by
  rw [splitChars, piecesFrom_of_guards h]
  rfl

/-- Joined texts are got back, trimmed and without the empty ones. -/
theorem splitChars_intercalate {delimiter : Char} (hd : delimiter ≠ escapeChar)
    {parts : List (List Char)} (h : Joinable delimiter parts) :
    splitChars delimiter ([delimiter].intercalate parts) =
      (parts.map trim).filter (!·.isEmpty) := by
  induction parts with
  | nil => rfl
  | cons p rest ih =>
    by_cases hne : rest = []
    · subst hne
      simpa using splitChars_of_guards (h.guards p (by simp))
    · obtain ⟨hp, hrest⟩ := h.of_cons hne
      rw [List.intercalate_cons_of_ne_nil hne, List.append_assoc, List.singleton_append,
        splitChars_append hd hp.ends, splitChars_of_guards hp.guards, ih hrest,
        ← List.filter_append]
      rfl

theorem splitChars_intercalate_of_tight {delimiter : Char} (hd : delimiter ≠ escapeChar)
    {parts : List (List Char)} (hc : ∀ p ∈ parts, Closed delimiter p)
    (ht : ∀ p ∈ parts, Tight p) (hne : ∀ p ∈ parts, p ≠ []) :
    splitChars delimiter ([delimiter].intercalate parts) = parts := by
  have hmap : parts.map trim = parts.map id :=
    List.map_congr_left fun p hp => trim_of_tight (ht p hp)
  rw [splitChars_intercalate hd (.of_closed hc), hmap, List.map_id, List.filter_eq_self]
  intro p hp
  simpa using hne p hp

/-- The pieces of a text can be joined again. -/
theorem joinable_piecesFrom {delimiter : Char} (hd : delimiter ≠ escapeChar)
    {before piece : List Char} (hbefore : escapedBy before = escapedAfter false piece.reverse)
    (hpiece : guards delimiter false piece.reverse = true) (cs : List Char) :
    Joinable delimiter (piecesFrom delimiter before piece cs) := by
  induction cs generalizing before piece with
  | nil => exact ⟨by simpa [piecesFrom] using hpiece, by simp [piecesFrom]⟩
  | cons c rest ih =>
    unfold piecesFrom
    split
    · next hcut =>
      obtain ⟨hc, hfree⟩ : c = delimiter ∧ escapedBy before = false := by simpa using hcut
      refine .cons ⟨hpiece, by rw [← hbefore, hfree]⟩ (ih ?_ rfl)
      rw [hc, escapedBy_of_ne hd]
      rfl
    · next hkeep =>
      refine ih ?_ ?_
      · rw [escapedBy_cons, hbefore, List.reverse_cons, escapedAfter_append]
        rfl
      · rw [List.reverse_cons, guards_append, hpiece, ← hbefore]
        simpa [guards, imp_iff_not_or] using hkeep

/-- Every text is the join of its pieces. -/
theorem exists_joinable {delimiter : Char} (hd : delimiter ≠ escapeChar) (cs : List Char) :
    ∃ parts, Joinable delimiter parts ∧ [delimiter].intercalate parts = cs :=
  ⟨_, joinable_piecesFrom hd rfl rfl cs, intercalate_piecesFrom delimiter [] [] cs⟩

/-! ## Splitting a trimmed text -/

theorem map_trim_piecesFrom_lead {delimiter : Char} {lead : List Char}
    (h : ∀ c ∈ lead, isBlank c = true) (before piece cs : List Char) :
    (piecesFrom delimiter before (piece ++ lead.reverse) cs).map trim =
      (piecesFrom delimiter before piece cs).map trim := by
  have hpiece (piece : List Char) : trim (piece ++ lead.reverse).reverse = trim piece.reverse := by
    have hblank := trim_append_of_blank h (List.forall_mem_nil _) piece.reverse
    simpa using hblank
  induction cs generalizing before piece with
  | nil => simp only [piecesFrom, List.map_cons, List.map_nil, hpiece]
  | cons c rest ih =>
    unfold piecesFrom
    split
    · simp only [List.map_cons, hpiece]
    · exact ih _ (c :: piece)

theorem map_trim_piecesFrom_tail {delimiter : Char} {tail : List Char}
    (h : ∀ c ∈ tail, isBlank c = true) (hd : isBlank delimiter = false)
    (before piece cs : List Char) :
    (piecesFrom delimiter before piece (cs ++ tail)).map trim =
      (piecesFrom delimiter before piece cs).map trim := by
  induction cs generalizing before piece with
  | nil =>
    have hmem : delimiter ∉ tail := fun hmem => by simp [h _ hmem] at hd
    have hblank := trim_append_of_blank (List.forall_mem_nil _) h piece.reverse
    rw [List.nil_append, piecesFrom_of_guards (guards_of_not_mem hmem _)]
    simpa [piecesFrom] using hblank
  | cons c rest ih =>
    unfold piecesFrom
    rw [List.cons_append]
    dsimp only
    split
    · simp only [List.map_cons, ih]
    · exact ih _ _

/-- Blanks around a text are blanks around its parts. -/
theorem splitChars_trim {delimiter : Char} (hd : isBlank delimiter = false) (cs : List Char) :
    splitChars delimiter (trim cs) = splitChars delimiter cs := by
  obtain ⟨lead, tail, hcs, hlead, htail⟩ := exists_blanks_trim cs
  have hne : ∀ c, isBlank c = false → c ∉ lead := by
    intro c hc hmem
    exact absurd (hlead c hmem) (by simp [hc])
  have hfree : escapedBy (lead.reverse ++ []) = escapedBy [] := by
    rw [List.append_nil]
    exact escapedBy_of_not_mem fun hmem => hne escapeChar (by decide) (List.mem_reverse.mp hmem)
  have hpieces : (piecesFrom delimiter [] [] cs).map trim =
      (piecesFrom delimiter [] [] (trim cs)).map trim := by
    conv_lhs => rw [hcs]
    rw [map_trim_piecesFrom_tail htail hd,
      piecesFrom_append_of_guards (guards_of_not_mem (hne _ hd) _), piecesFrom_congr hfree]
    simpa using map_trim_piecesFrom_lead hlead [] [] (trim cs)
  rw [splitChars, splitChars, hpieces]

end Criteria.Text

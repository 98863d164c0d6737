import Criteria.Proofs.Text.Occurrences
import Criteria.Proofs.Text.Trimming
import Criteria.Text.Escape

/-!
# Unescaping and runs of backslashes

Undoing the escapes of a target works on each run of backslashes by itself. If the target has no
backslash in it, a run loses at most its last backslash, namely where the target follows the run;
undoing the escapes of backslashes halves every run and rounds up.
-/

namespace Criteria.Text

/-- A run of backslashes. -/
def backslashes (n : Nat) : List Char := List.replicate n escapeChar

@[simp] theorem backslashes_zero : backslashes 0 = [] := rfl

theorem backslashes_succ (n : Nat) : backslashes (n + 1) = escapeChar :: backslashes n := rfl

theorem backslashes_add (m n : Nat) : backslashes (m + n) = backslashes m ++ backslashes n :=
  List.replicate_append_replicate.symm

/-- A text that does not begin with a backslash, so that a run before it ends there. -/
def EndsRun (cs : List Char) : Prop := cs.head? ≠ some escapeChar

theorem EndsRun.nil : EndsRun [] := by simp [EndsRun]

theorem EndsRun.cons {c : Char} (h : c ≠ escapeChar) (cs : List Char) : EndsRun (c :: cs) := by
  simpa [EndsRun] using h

theorem EndsRun.append {front : List Char} (hne : front ≠ []) (h : escapeChar ∉ front)
    (back : List Char) : EndsRun (front ++ back) := by
  cases front with
  | nil => exact absurd rfl hne
  | cons c rest => exact .cons (fun e => h (by simp [e])) _

theorem exists_backslashes (cs : List Char) :
    ∃ n rest, cs = backslashes n ++ rest ∧ EndsRun rest := by
  induction cs with
  | nil => exact ⟨0, [], rfl, .nil⟩
  | cons c cs ih =>
    by_cases h : c = escapeChar
    · obtain ⟨n, rest, rfl, hrest⟩ := ih
      exact ⟨n + 1, rest, by rw [h, backslashes_succ, List.cons_append], hrest⟩
    · exact ⟨0, c :: cs, rfl, .cons h cs⟩

/-! ## Targets without backslashes -/

/-- What is copied because it belongs to an occurrence is followed by a fresh start. -/
theorem unescapeFrom_append (target front back : List Char) :
    unescapeFrom target front.length (front ++ back) = front ++ unescape target back := by
  induction front with
  | nil => rfl
  | cons c rest ih => simp [unescapeFrom, ih]

theorem unescape_cons_of_ne {c : Char} (h : c ≠ escapeChar) (target cs : List Char) :
    unescape target (c :: cs) = c :: unescape target cs := by
  have hc : (c == escapeChar) = false := beq_eq_false_iff_ne.mpr h
  simp [unescape, unescapeFrom, hc]

theorem unescape_append {front : List Char} (h : escapeChar ∉ front) (target back : List Char) :
    unescape target (front ++ back) = front ++ unescape target back := by
  induction front with
  | nil => rfl
  | cons c rest ih =>
    rw [List.mem_cons, not_or] at h
    rw [List.cons_append, unescape_cons_of_ne (Ne.symm h.1), ih h.2, List.cons_append]

theorem EndsRun.unescape {cs : List Char} (h : EndsRun cs) (target : List Char) :
    EndsRun (unescape target cs) := by
  cases cs with
  | nil => exact .nil
  | cons c rest =>
    have hc : c ≠ escapeChar := by simpa [EndsRun] using h
    rw [unescape_cons_of_ne hc]
    exact .cons hc _

/-- A backslash goes if the target follows it, and what follows is read afresh in any case. -/
theorem unescape_escapeChar_cons {target : List Char} (ht : escapeChar ∉ target)
    (cs : List Char) :
    unescape target (escapeChar :: cs) =
      if target <+: cs then unescape target cs else escapeChar :: unescape target cs := by
  by_cases hp : target <+: cs
  · obtain ⟨back, rfl⟩ := hp
    rw [if_pos (List.prefix_append ..), unescape_append ht, ← unescapeFrom_append]
    simp [unescape, unescapeFrom]
  · have hp' : target.isPrefixOf cs = false := by
      rw [Bool.eq_false_iff]
      exact fun h => hp (List.isPrefixOf_iff_prefix.mp h)
    rw [if_neg hp]
    simp [unescape, unescapeFrom, hp']

/-- A run loses its last backslash if the target follows it. -/
theorem unescape_backslashes {target : List Char} (ht : escapeChar ∉ target) (hne : target ≠ [])
    (n : Nat) (cs : List Char) :
    unescape target (backslashes n ++ cs) =
      backslashes (n - if target <+: cs then 1 else 0) ++ unescape target cs := by
  induction n with
  | zero => simp
  | succ n ih =>
    rw [backslashes_succ, List.cons_append, unescape_escapeChar_cons ht]
    cases n with
    | zero =>
      by_cases hp : target <+: cs
      · simp [hp]
      · simp [hp, backslashes_succ]
    | succ n =>
      -- inside the run the target, which has no backslash, does not follow
      have hp : ¬ target <+: backslashes (n + 1) ++ cs := by
        cases target with
        | nil => exact absurd rfl hne
        | cons c rest =>
          rw [List.mem_cons, not_or] at ht
          rw [backslashes_succ, List.cons_append, List.cons_prefix_cons]
          exact fun hc => ht.1 hc.1.symm
      have hlen : n + 1 + 1 - (if target <+: cs then 1 else 0) =
          n + 1 - (if target <+: cs then 1 else 0) + 1 := by
        split <;> omega
      rw [if_neg hp, ih, hlen, backslashes_succ, List.cons_append]

/-! ## A mark as the target -/

section Marks

/-- A text is read from the left: over an escaped mark, over a backslash before anything else, or
over another character. -/
theorem mark_induction (mark : Char) {motive : List Char → Prop} (nil : motive [])
    (escaped : ∀ rest, motive rest → motive (escapeChar :: mark :: rest))
    (backslash : ∀ rest, ¬ [mark] <+: rest → motive rest → motive (escapeChar :: rest))
    (plain : ∀ c rest, c ≠ escapeChar → motive rest → motive (c :: rest)) (cs : List Char) :
    motive cs := by
  induction hlen : cs.length using Nat.strongRecOn generalizing cs with
  | ind len ih =>
    cases cs with
    | nil => exact nil
    | cons c rest =>
      rw [List.length_cons] at hlen
      by_cases hc : c = escapeChar
      · subst hc
        by_cases hprefix : [mark] <+: rest
        · obtain ⟨rest, rfl⟩ := hprefix
          rw [List.length_append] at hlen
          exact escaped rest (ih rest.length (by omega) rest rfl)
        · exact backslash rest hprefix (ih rest.length (by omega) rest rfl)
      · exact plain c rest hc (ih rest.length (by omega) rest rfl)

variable {mark : Char} (hm : mark ≠ escapeChar)
include hm

theorem unescape_escaped (rest : List Char) :
    unescape [mark] (escapeChar :: mark :: rest) = mark :: unescape [mark] rest := by
  rw [unescape_escapeChar_cons (by simpa using hm.symm), if_pos (by simp),
    unescape_cons_of_ne hm]

theorem unescape_backslash {rest : List Char} (h : ¬ [mark] <+: rest) :
    unescape [mark] (escapeChar :: rest) = escapeChar :: unescape [mark] rest := by
  rw [unescape_escapeChar_cons (by simpa using hm.symm), if_neg h]

/-- Undoing the escapes of a mark works on both sides of any place that does not stand before
one. -/
theorem unescape_append_of_not_marked (front : List Char) {back : List Char}
    (h : ¬ [mark] <+: back) :
    unescape [mark] (front ++ back) = unescape [mark] front ++ unescape [mark] back := by
  induction front using mark_induction mark with
  | nil => rfl
  | escaped rest ih =>
    simp only [List.cons_append, unescape_escaped hm, ih]
  | backslash rest hrest ih =>
    have hnext : ¬ [mark] <+: rest ++ back := by
      cases rest with
      | nil => exact h
      | cons c rest => simpa [List.singleton_prefix_cons_iff] using hrest
    rw [List.cons_append, unescape_backslash hm hrest, unescape_backslash hm hnext, ih,
      List.cons_append]
  | plain c rest hc ih =>
    rw [List.cons_append, unescape_cons_of_ne hc, unescape_cons_of_ne hc, ih, List.cons_append]

theorem unescape_intercalate {separator : Char} (hs : separator ≠ escapeChar)
    (hne : separator ≠ mark) (parts : List (List Char)) :
    unescape [mark] ([separator].intercalate parts) =
      [separator].intercalate (parts.map (unescape [mark])) := by
  induction parts with
  | nil => rfl
  | cons p rest ih =>
    by_cases hnil : rest = []
    · subst hnil
      simp
    · have hback : ¬ [mark] <+: separator :: [separator].intercalate rest := by
        rw [List.singleton_prefix_cons_iff]
        exact hne.symm
      rw [List.map_cons, List.intercalate_cons_of_ne_nil hnil,
        List.intercalate_cons_of_ne_nil (by simpa using hnil), List.append_assoc,
        List.append_assoc, List.singleton_append, List.singleton_append,
        unescape_append_of_not_marked hm p hback, unescape_cons_of_ne hs, ih]

theorem getLast?_unescape (cs : List Char) : (unescape [mark] cs).getLast? = cs.getLast? := by
  induction cs using mark_induction mark with
  | nil => rfl
  | escaped rest ih => simp only [unescape_escaped hm, List.getLast?_cons, ih, Option.getD_some]
  | backslash rest hrest ih => simp only [unescape_backslash hm hrest, List.getLast?_cons, ih]
  | plain c rest hc ih => simp only [unescape_cons_of_ne hc, List.getLast?_cons, ih]

/-- Only a mark can come to stand at the head. -/
theorem head?_unescape {c : Char} {cs : List Char} (h : c ∈ (unescape [mark] cs).head?) :
    c = mark ∨ c ∈ cs.head? := by
  induction cs using mark_induction mark with
  | nil => exact Or.inr h
  | escaped rest =>
    rw [unescape_escaped hm] at h
    exact Or.inl (by simpa using h.symm)
  | backslash rest hrest =>
    rw [unescape_backslash hm hrest] at h
    exact Or.inr h
  | plain x rest hx =>
    rw [unescape_cons_of_ne hx] at h
    exact Or.inr h

theorem tight_unescape (hblank : isBlank mark = false) {cs : List Char} (h : Tight cs) :
    Tight (unescape [mark] cs) := by
  refine ⟨?_, ?_⟩
  · intro c hc
    rcases head?_unescape hm hc with rfl | hc
    · exact hblank
    · exact h.1 c hc
  · intro c hc
    rw [getLast?_unescape hm] at hc
    exact h.2 c hc

theorem trim_unescape (hblank : isBlank mark = false) (cs : List Char) :
    trim (unescape [mark] cs) = unescape [mark] (trim cs) := by
  obtain ⟨lead, tail, hcs, hlead, htail⟩ := exists_blanks_trim cs
  have hesc : ∀ {blanks : List Char}, (∀ c ∈ blanks, isBlank c = true) → escapeChar ∉ blanks := by
    intro blanks hblanks hmem
    exact absurd (hblanks _ hmem) (by decide)
  have hback : ¬ [mark] <+: tail := by
    intro hprefix
    have hmem : mark ∈ tail := hprefix.subset (by simp)
    simp [htail _ hmem] at hblank
  have htail' : unescape [mark] tail = tail := by
    simpa using unescape_append (hesc htail) [mark] []
  have hparts : unescape [mark] (lead ++ trim cs ++ tail) =
      lead ++ unescape [mark] (trim cs) ++ tail := by
    rw [unescape_append_of_not_marked hm _ hback, unescape_append (hesc hlead), htail']
  rw [← hcs] at hparts
  rw [hparts, trim_append_of_blank hlead htail]
  exact trim_of_tight (tight_unescape hm hblank (tight_trim cs))

/-- What a text begins with stays, as far as it has no backslashes and no marks. -/
theorem prefix_unescape_iff {u : List Char} (hesc : escapeChar ∉ u) (hmark : mark ∉ u)
    (cs : List Char) : u <+: unescape [mark] cs ↔ u <+: cs := by
  induction cs using mark_induction mark generalizing u with
  | nil => rfl
  | escaped rest =>
    rw [unescape_escaped hm, prefix_cons_iff_of_not_mem hmark, prefix_cons_iff_of_not_mem hesc]
  | backslash rest hrest =>
    rw [unescape_backslash hm hrest, prefix_cons_iff_of_not_mem hesc,
      prefix_cons_iff_of_not_mem hesc]
  | plain x rest hx ih =>
    rw [unescape_cons_of_ne hx]
    cases u with
    | nil => simp
    | cons c u =>
      rw [List.mem_cons, not_or] at hesc hmark
      rw [List.cons_prefix_cons, List.cons_prefix_cons, ih hesc.2 hmark.2]

/-- A place in the text without the escapes comes from a place in the text. -/
theorem exists_cut_unescape {cs front back : List Char} (h : front ++ back = unescape [mark] cs) :
    ∃ front' back', front' ++ back' = cs ∧ unescape [mark] front' = front ∧
      unescape [mark] back' = back := by
  induction cs using mark_induction mark generalizing front with
  | nil =>
    obtain ⟨rfl, rfl⟩ := List.append_eq_nil_iff.mp h
    exact ⟨[], [], rfl, rfl, rfl⟩
  | escaped rest ih =>
    rw [unescape_escaped hm] at h
    obtain ⟨rfl, rfl⟩ | ⟨front, rfl, hrest⟩ := List.append_eq_cons_iff.mp h
    · exact ⟨[], _, rfl, rfl, unescape_escaped hm rest⟩
    · obtain ⟨front', back', rfl, rfl, rfl⟩ := ih hrest.symm
      exact ⟨escapeChar :: mark :: front', back', rfl, unescape_escaped hm front', rfl⟩
  | backslash rest hnext ih =>
    rw [unescape_backslash hm hnext] at h
    obtain ⟨rfl, rfl⟩ | ⟨front, rfl, hrest⟩ := List.append_eq_cons_iff.mp h
    · exact ⟨[], _, rfl, rfl, unescape_backslash hm hnext⟩
    · obtain ⟨front', back', rfl, rfl, rfl⟩ := ih hrest.symm
      have hfront : ¬ [mark] <+: front' := fun hmark =>
        hnext (hmark.trans (List.prefix_append ..))
      exact ⟨escapeChar :: front', back', rfl, unescape_backslash hm hfront, rfl⟩
  | plain c rest hc ih =>
    rw [unescape_cons_of_ne hc] at h
    obtain ⟨rfl, rfl⟩ | ⟨front, rfl, hrest⟩ := List.append_eq_cons_iff.mp h
    · exact ⟨[], _, rfl, rfl, unescape_cons_of_ne hc ..⟩
    · obtain ⟨front', back', rfl, rfl, rfl⟩ := ih hrest.symm
      exact ⟨c :: front', back', rfl, unescape_cons_of_ne hc .., rfl⟩

end Marks

/-! ## Backslashes and bars -/

/-- Undoing the escapes of backslashes leaves one of two, and the last of an odd number. -/
theorem unescape_escapeChar_backslashes (n : Nat) {cs : List Char} (h : EndsRun cs) :
    unescape [escapeChar] (backslashes n ++ cs) =
      backslashes ((n + 1) / 2) ++ unescape [escapeChar] cs := by
  induction n using Nat.strongRecOn with
  | ind n ih =>
    match n with
    | 0 => rfl
    | 1 =>
      have hp : ([escapeChar] : List Char).isPrefixOf cs = false := by
        cases cs with
        | nil => rfl
        | cons c rest =>
          have hc : c ≠ escapeChar := by simpa [EndsRun] using h
          simp only [List.isPrefixOf, Bool.and_true]
          exact beq_eq_false_iff_ne.mpr hc.symm
      simp [backslashes_succ, unescape, unescapeFrom, hp]
    | n + 2 =>
      have hrest := ih n (by omega)
      have hhalf : (n + 2 + 1) / 2 = (n + 1) / 2 + 1 := by omega
      rw [hhalf, backslashes_succ, backslashes_succ, backslashes_succ, List.cons_append,
        List.cons_append, List.cons_append, ← hrest]
      rfl

theorem unescapeBars_append {front : List Char} (h : escapeChar ∉ front) (back : List Char) :
    unescapeBars (front ++ back) = front ++ unescapeBars back := by
  rw [unescapeBars, unescape_append h, unescape_append h, unescapeBars]

/-- A run before a bar loses the backslash that escapes it, and then every run is halved. -/
theorem unescapeBars_backslashes (n : Nat) {cs : List Char} (h : EndsRun cs) :
    unescapeBars (backslashes n ++ cs) =
      backslashes ((n - (if ['|'] <+: cs then 1 else 0) + 1) / 2) ++ unescapeBars cs := by
  rw [unescapeBars, unescape_backslashes (by decide) (by simp),
    unescape_escapeChar_backslashes _ (h.unescape _), unescapeBars]

end Criteria.Text

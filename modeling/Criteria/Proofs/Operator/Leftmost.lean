import Criteria.Proofs.Operator.Tokens
import Criteria.Proofs.Text.Splitting

/-!
# The leftmost operator

The search for the operator of a clause goes through a text once and stops at the first place where
one can be read: where a token begins and an even number of backslashes stands before it. Nothing that
it has passed is such a place, and that carries the search to its end. There the table is tried in
order; since no token follows one that it begins with, the token that is read is the longest.
-/

namespace Criteria.Located

/-- A place between two parts of a text where an operator can be read. -/
structure Opens (front back : List Char) : Prop where
  free : Even (front.rtakeWhile (· == Text.escapeChar)).length
  begins : ∃ t ∈ Token.table, t.chars <+: back

/-- No place of a text opens. -/
def Shut (cs : List Char) : Prop := ∀ front back, front ++ back = cs → ¬ Opens front back

/-- A text is cut in three at the leftmost place where an operator can be read, and at the longest
token there. -/
structure Leftmost (cs : List Char) (l : Located) : Prop where
  parts : l.before ++ l.token.chars ++ l.after = cs
  opens : Opens l.before (l.token.chars ++ l.after)
  leftmost : ∀ front back, front ++ back = cs → Opens front back →
    l.before.length ≤ front.length
  listed : l.token ∈ Token.table
  longest : ∀ t ∈ Token.table, t.chars <+: l.token.chars ++ l.after →
    t.chars.length ≤ l.token.chars.length

/-! ## One place -/

theorem opens_iff {front back : List Char} :
    Opens front back ↔
      Text.escapedBy front.reverse = false ∧ ∃ t, Token.atStart? back = some t := by
  have hfree := (Text.escapedBy_reverse_eq_false_iff front).symm
  constructor
  · rintro ⟨heven, t, ht, hbegin⟩
    refine ⟨hfree.mp heven, ?_⟩
    cases hstart : Token.atStart? back with
    | none => exact absurd hbegin (Token.atStart?_eq_none.mp hstart t ht)
    | some u => exact ⟨u, rfl⟩
  · rintro ⟨hesc, t, ht⟩
    exact ⟨hfree.mpr hesc, t, Token.of_atStart? ht⟩

theorem not_opens_nil (front : List Char) : ¬ Opens front [] := by
  rintro ⟨-, t, ht, hbegin⟩
  exact Token.chars_ne_nil t ht (List.prefix_nil.mp hbegin)

theorem Opens.lt_length {front back cs : List Char} (h : Opens front back)
    (hcut : front ++ back = cs) : front.length < cs.length := by
  have hback : back ≠ [] := by
    rintro rfl
    exact not_opens_nil front h
  have hpos := List.length_pos_of_ne_nil hback
  rw [← hcut, List.length_append]
  omega

theorem search_of_opens {front back : List Char} (h : Opens front back) :
    ∃ token after, back = token.chars ++ after ∧ Token.atStart? back = some token ∧
      search front.reverse back = some ⟨front, token, after⟩ := by
  obtain ⟨hesc, token, hstart⟩ := opens_iff.mp h
  obtain ⟨-, after, rfl⟩ := Token.of_atStart? hstart
  refine ⟨token, after, rfl, hstart, ?_⟩
  cases hback : token.chars ++ after with
  | nil =>
    rw [hback] at h
    exact absurd h (not_opens_nil front)
  | cons c rest =>
    rw [hback] at hstart
    simp only [search, hesc, Bool.false_eq_true, ↓reduceIte, hstart, List.reverse_reverse]
    rw [← hback, List.drop_left]

theorem search_of_not_opens {front rest : List Char} {c : Char} (h : ¬ Opens front (c :: rest)) :
    search front.reverse (c :: rest) = search (front ++ [c]).reverse rest := by
  rw [List.reverse_append, List.reverse_singleton, List.singleton_append, search]
  split
  · next token hstart =>
    refine absurd (opens_iff.mpr ?_) h
    cases hesc : Text.escapedBy front.reverse with
    | true => exact absurd hstart (by simp [hesc])
    | false => exact ⟨rfl, token, by simpa [hesc] using hstart⟩
  · rfl

/-! ## The whole search -/

/-- The token that is read at a place is the longest that begins there. -/
theorem length_le_of_atStart? {back : List Char} {token t : Token}
    (hstart : Token.atStart? back = some token) (ht : t ∈ Token.table) (hbegin : t.chars <+: back) :
    t.chars.length ≤ token.chars.length :=
  (Token.prefix_of_atStart? hstart ht hbegin).length_le

/-- Where nothing that has been passed opens, the search finds the leftmost operator of the whole
text or says that there is none. -/
theorem search_outcome {front back : List Char}
    (hpassed : ∀ front' back', front' ++ back' = front ++ back → front'.length < front.length →
      ¬ Opens front' back') :
    (search front.reverse back = none ∧ Shut (front ++ back)) ∨
      ∃ l, search front.reverse back = some l ∧ Leftmost (front ++ back) l := by
  induction back generalizing front with
  | nil =>
    refine Or.inl ⟨rfl, ?_⟩
    intro front' back' hcut hopens
    have hlt := hopens.lt_length hcut
    rw [List.append_nil] at hlt
    exact hpassed front' back' hcut hlt hopens
  | cons c rest ih =>
    by_cases hopens : Opens front (c :: rest)
    · obtain ⟨token, after, hback, hstart, hsearch⟩ := search_of_opens hopens
      refine Or.inr ⟨_, hsearch, ?_⟩
      refine ⟨?_, ?_, ?_, (Token.of_atStart? hstart).1, ?_⟩
      · rw [hback, List.append_assoc]
      · rw [← hback]
        exact hopens
      · intro front' back' hcut hopens'
        exact Nat.le_of_not_lt fun hlt => hpassed front' back' hcut hlt hopens'
      · intro t ht hbegin
        rw [← hback] at hbegin
        exact length_le_of_atStart? hstart ht hbegin
    · have hshift : front ++ c :: rest = (front ++ [c]) ++ rest := by
        rw [List.append_assoc, List.singleton_append]
      rw [search_of_not_opens hopens, hshift]
      refine ih ?_
      -- one more place has been passed, and it is the one that does not open
      intro front' back' hcut hlt hopens'
      rw [← hshift] at hcut
      rw [List.length_append, List.length_singleton] at hlt
      by_cases hlt' : front'.length < front.length
      · exact hpassed front' back' hcut hlt' hopens'
      · obtain ⟨rfl, rfl⟩ := List.append_inj hcut (by omega)
        exact hopens hopens'

theorem find?_outcome (cs : List Char) :
    (find? cs = none ∧ Shut cs) ∨ ∃ l, find? cs = some l ∧ Leftmost cs l := by
  refine @search_outcome [] cs ?_
  intro _ _ _ hlt
  exact absurd hlt (Nat.not_lt_zero _)

theorem Leftmost.cut {cs : List Char} {l : Located} (h : Leftmost cs l) :
    l.before ++ (l.token.chars ++ l.after) = cs := by
  rw [← List.append_assoc]
  exact h.parts

theorem Leftmost.unique {cs : List Char} {l l' : Located} (h : Leftmost cs l)
    (h' : Leftmost cs l') : l = l' := by
  have hle := h.leftmost _ _ h'.cut h'.opens
  have hge := h'.leftmost _ _ h.cut h.opens
  obtain ⟨hbefore, hrest⟩ := List.append_inj (h.cut.trans h'.cut.symm) (Nat.le_antisymm hle hge)
  have hshorter := h'.longest l.token h.listed (by rw [← hrest]; exact List.prefix_append ..)
  have hlonger := h.longest l'.token h'.listed (by rw [hrest]; exact List.prefix_append ..)
  obtain ⟨hchars, hafter⟩ := List.append_inj hrest (Nat.le_antisymm hshorter hlonger)
  have htoken := Token.eq_of_chars_eq _ h.listed _ h'.listed hchars
  cases l
  cases l'
  cases hbefore
  cases htoken
  cases hafter
  rfl

theorem Leftmost.not_shut {cs : List Char} {l : Located} (h : Leftmost cs l) : ¬ Shut cs := by
  intro hshut
  exact hshut _ _ h.cut h.opens

theorem find?_eq_none_iff {cs : List Char} : find? cs = none ↔ Shut cs := by
  rcases find?_outcome cs with ⟨hnone, hshut⟩ | ⟨l, hfound, hl⟩
  · exact iff_of_true hnone hshut
  · refine iff_of_false ?_ hl.not_shut
    rw [hfound]
    exact Option.some_ne_none l

theorem find?_eq_some_iff {cs : List Char} {l : Located} :
    find? cs = some l ↔ Leftmost cs l := by
  rcases find?_outcome cs with ⟨hnone, hshut⟩ | ⟨l', hfound, hl'⟩
  · refine iff_of_false ?_ fun hl => hl.not_shut hshut
    rw [hnone]
    exact (Option.some_ne_none l).symm
  · rw [hfound]
    constructor
    · intro heq
      rw [← Option.some.inj heq]
      exact hl'
    · intro hl
      rw [hl.unique hl']

/-- What stands before the operator has none. -/
theorem Leftmost.find?_before {cs : List Char} {l : Located} (h : Leftmost cs l) :
    find? l.before = none := by
  rw [find?_eq_none_iff]
  intro front back hcut hopens
  have hlt := hopens.lt_length hcut
  obtain ⟨hfree, t, ht, hbegin⟩ := hopens
  -- the place opens in the whole text too, to the left of the one that was found
  have hopens : Opens front (back ++ (l.token.chars ++ l.after)) :=
    ⟨hfree, t, ht, hbegin.trans (List.prefix_append ..)⟩
  have hcut' : front ++ (back ++ (l.token.chars ++ l.after)) = cs := by
    rw [← List.append_assoc, hcut, h.cut]
  have hle := h.leftmost _ _ hcut' hopens
  omega

end Criteria.Located

import Criteria.Proofs.Term.Runs

/-!
# Decoding in one pass

A value can be read once from the left, with a backslash that takes what follows it with it: another
backslash, a bar, or a token. So a run of backslashes is halved, and the last one of an odd run stays
only if it takes nothing with it.
-/

namespace Criteria

open Text

namespace FilterTerm

/-! ## One pass -/

/-- How much of a text a backslash before it takes with it. -/
def covered : List Char → Nat
  | [] => 0
  | c :: rest =>
    if c = escapeChar ∨ c = '|' then 1
    else ((Token.atStart? (c :: rest)).map fun t => t.chars.length).getD 0

/-- Decodes a text in one pass. The first `skip` characters go with a backslash that has been read
and are copied. -/
def decodeOnceFrom : (skip : Nat) → List Char → List Char
  | _, [] => []
  | skip + 1, c :: rest => c :: decodeOnceFrom skip rest
  | 0, c :: rest =>
    if c = escapeChar ∧ 0 < covered rest then decodeOnceFrom (covered rest) rest
    else c :: decodeOnceFrom 0 rest

def decodeOnce (cs : List Char) : List Char := decodeOnceFrom 0 cs

/-- A text of which a backslash before it takes something with it, apart from backslashes. -/
def Escapable (cs : List Char) : Prop := ['|'] <+: cs ∨ ∃ t ∈ Token.table, t.chars <+: cs

instance : DecidablePred Escapable := fun cs =>
  inferInstanceAs (Decidable (['|'] <+: cs ∨ ∃ t ∈ Token.table, t.chars <+: cs))

theorem decodeOnceFrom_append (front back : List Char) :
    decodeOnceFrom front.length (front ++ back) = front ++ decodeOnce back := by
  induction front with
  | nil => rfl
  | cons c rest ih => simp [decodeOnceFrom, ih]

theorem decodeOnce_append {front : List Char} (h : escapeChar ∉ front) (back : List Char) :
    decodeOnce (front ++ back) = front ++ decodeOnce back := by
  induction front with
  | nil => rfl
  | cons c rest ih =>
    rw [List.mem_cons, not_or] at h
    have hc : c ≠ escapeChar := Ne.symm h.1
    rw [List.cons_append, List.cons_append, ← ih h.2]
    simp [decodeOnce, decodeOnceFrom, hc]

theorem decodeOnce_pair (cs : List Char) :
    decodeOnce (escapeChar :: escapeChar :: cs) = escapeChar :: decodeOnce cs := by
  simp [decodeOnce, decodeOnceFrom, covered]

/-- What a backslash takes with it from a stretch is a beginning of the stretch. -/
theorem covered_append {front : List Char} (hne : front ≠ []) (hesc : escapeChar ∉ front)
    {rest : List Char} (hrest : AtRun rest) :
    (Escapable front ∧ ∃ taken left, front = taken ++ left ∧ taken ≠ [] ∧
      covered (front ++ rest) = taken.length) ∨
    (¬ Escapable front ∧ covered (front ++ rest) = 0) := by
  obtain ⟨c, cs, rfl⟩ := List.exists_cons_of_ne_nil hne
  have hc : c ≠ escapeChar := fun h => hesc (by simp [h])
  by_cases hbar : c = '|'
  · subst hbar
    exact Or.inl ⟨Or.inl (by simp), ['|'], cs, rfl, by simp, by simp [covered]⟩
  · cases hstart : Token.atStart? (c :: (cs ++ rest)) with
    | none =>
      refine Or.inr ⟨?_, by simp [covered, hc, hbar, hstart]⟩
      rintro (h | ⟨t, ht, h⟩)
      · exact hbar (List.singleton_prefix_cons_iff.mp h).symm
      · exact Token.atStart?_eq_none.mp hstart t ht (h.trans (List.prefix_append (c :: cs) rest))
    | some t =>
      obtain ⟨ht, hbegin⟩ := Token.of_atStart? hstart
      have hfront : t.chars <+: c :: cs :=
        prefix_of_atRun (Token.escapeChar_not_mem_chars ht) hrest hbegin
      obtain ⟨left, hleft⟩ := hfront
      exact Or.inl ⟨Or.inr ⟨t, ht, left, hleft⟩, t.chars, left, hleft.symm, Token.chars_ne_nil t ht,
        by simp [covered, hc, hbar, hstart]⟩

/-- In one pass a run is halved; the last backslash of an odd run goes if it takes something with
it. -/
theorem decodeOnce_run {front : List Char} (hne : front ≠ []) (hesc : escapeChar ∉ front) (n : Nat)
    {rest : List Char} (hrest : AtRun rest) :
    decodeOnce (backslashes n ++ (front ++ rest)) =
      backslashes ((n - (if Escapable front then 1 else 0) + 1) / 2) ++
        (front ++ decodeOnce rest) := by
  induction n using Nat.strongRecOn with
  | ind n ih =>
    match n with
    | 0 => simpa using decodeOnce_append hesc rest
    | 1 =>
      rw [backslashes_succ, backslashes_zero, List.singleton_append]
      rcases covered_append hne hesc hrest with ⟨he, taken, left, rfl, htaken, hlen⟩ | ⟨he, hlen⟩
      · have hleft : escapeChar ∉ left := fun h => hesc (List.mem_append_right taken h)
        have hpos := List.length_pos_iff.mpr htaken
        rw [if_pos he, decodeOnce, decodeOnceFrom, if_pos ⟨rfl, by omega⟩, hlen, List.append_assoc,
          decodeOnceFrom_append, decodeOnce_append hleft, List.append_assoc]
        rfl
      · rw [if_neg he, decodeOnce, decodeOnceFrom, if_neg (by omega)]
        exact congrArg (escapeChar :: ·) (decodeOnce_append hesc rest)
    | n + 2 =>
      have hhalf : (n + 2 - (if Escapable front then 1 else 0) + 1) / 2 =
          (n - (if Escapable front then 1 else 0) + 1) / 2 + 1 := by
        split <;> omega
      rw [backslashes_succ, backslashes_succ, List.cons_append, List.cons_append, decodeOnce_pair,
        ih n (by omega), hhalf, backslashes_succ, List.cons_append]

theorem decodeOnce_ending (n : Nat) : decodeOnce (backslashes n) = backslashes ((n + 1) / 2) := by
  induction n using Nat.strongRecOn with
  | ind n ih =>
    match n with
    | 0 => rfl
    | 1 => rfl
    | n + 2 =>
      have hhalf : (n + 2 + 1) / 2 = (n + 1) / 2 + 1 := by omega
      rw [backslashes_succ, backslashes_succ, decodeOnce_pair, ih n (by omega), hhalf,
        backslashes_succ]

end FilterTerm

end Criteria

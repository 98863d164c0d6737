import Criteria.Text.Blank

/-!
# Backslash escapes

A delimiter is meant literally when it is escaped: when an odd number of backslashes stands directly
before it. Two backslashes are an escaped backslash, so `\\,` is a backslash and a real comma.

Splitting cuts a text at its unescaped delimiters and leaves the escapes in place; the parts are
unescaped afterwards, one kind of escape at a time.
-/

namespace Criteria.Text

/-- The character that takes the meaning from the one behind it. -/
def escapeChar : Char := '\\'

/-- Whether a character is escaped when `before` precedes it, nearest character first. -/
def escapedBy (before : List Char) : Bool :=
  (before.takeWhile (· == escapeChar)).length % 2 == 1

/-- Whether the character at an index is escaped. Behind the end of the text the answer is that for
the end itself. -/
def isEscaped (s : String) (index : Nat) : Bool := escapedBy (s.toList.take index).reverse

/-- The pieces between unescaped delimiters. `before` is what has been read, nearest first, and
`piece` what has been read of the current piece, likewise. -/
def piecesFrom (delimiter : Char) : (before piece : List Char) → List Char → List (List Char)
  | _, piece, [] => [piece.reverse]
  | before, piece, c :: rest =>
    if c == delimiter && !escapedBy before then
      piece.reverse :: piecesFrom delimiter (c :: before) [] rest
    else
      piecesFrom delimiter (c :: before) (c :: piece) rest

/-- The parts of a text between unescaped delimiters: trimmed, and without the empty ones. -/
def splitChars (delimiter : Char) (cs : List Char) : List (List Char) :=
  ((piecesFrom delimiter [] [] cs).map trim).filter (!·.isEmpty)

/-- The parts of a text between unescaped delimiters: trimmed, and without the empty ones. -/
def splitUnescaped (s : String) (delimiter : Char) : List String :=
  (splitChars delimiter s.toList).map String.ofList

/-- Drops the backslash in front of `target` wherever the two occur together. The text is read once
from the left; the first `skip` characters belong to an occurrence that has been found and are
copied. -/
def unescapeFrom (target : List Char) : (skip : Nat) → List Char → List Char
  | _, [] => []
  | skip + 1, c :: rest => c :: unescapeFrom target skip rest
  | 0, c :: rest =>
    if c == escapeChar && target.isPrefixOf rest then unescapeFrom target target.length rest
    else c :: unescapeFrom target 0 rest

/-- Drops the backslash in front of every occurrence of `target` that has one. -/
def unescape (target cs : List Char) : List Char := unescapeFrom target 0 cs

/-- Undoes the escapes that the list of values needs: first those of bars, then those of backslashes
themselves. -/
def unescapeBars (cs : List Char) : List Char := unescape [escapeChar] (unescape ['|'] cs)

/-! ## First facts -/

@[simp] theorem escapedBy_nil : escapedBy [] = false := rfl

/-- A backslash turns an escaped place into a free one and the other way round. -/
theorem escapedBy_escapeChar (before : List Char) :
    escapedBy (escapeChar :: before) = !escapedBy before := by
  simp only [escapedBy, List.takeWhile_cons, beq_self_eq_true, ↓reduceIte, List.length_cons]
  rcases Nat.mod_two_eq_zero_or_one (before.takeWhile (· == escapeChar)).length with h | h <;>
    simp [Nat.add_mod, h]

/-- Behind any other character nothing is escaped. -/
theorem escapedBy_of_ne {c : Char} (h : c ≠ escapeChar) (before : List Char) :
    escapedBy (c :: before) = false := by
  simp [escapedBy, h]

theorem piecesFrom_ne_nil (delimiter : Char) (before piece cs : List Char) :
    piecesFrom delimiter before piece cs ≠ [] := by
  induction cs generalizing before piece with
  | nil => simp [piecesFrom]
  | cons c rest ih =>
    unfold piecesFrom
    split
    · simp
    · exact ih _ _

/-- Splitting loses nothing but the delimiters. -/
theorem intercalate_piecesFrom (delimiter : Char) (before piece cs : List Char) :
    [delimiter].intercalate (piecesFrom delimiter before piece cs) = piece.reverse ++ cs := by
  induction cs generalizing before piece with
  | nil => simp [piecesFrom]
  | cons c rest ih =>
    unfold piecesFrom
    split
    · next h =>
      have hc : c = delimiter := by simp_all
      rw [List.intercalate_cons_of_ne_nil (piecesFrom_ne_nil _ _ _ _), ih]
      simp [hc]
    · rw [ih]
      simp

/-- No part is empty. -/
theorem ne_nil_of_mem_splitChars {delimiter : Char} {cs part : List Char}
    (h : part ∈ splitChars delimiter cs) : part ≠ [] := by
  simp only [splitChars, List.mem_filter] at h
  simpa using h.2

@[simp] theorem unescape_nil (target : List Char) : unescape target [] = [] := rfl

end Criteria.Text

import Criteria.Proofs.Operator.Tokens
import Criteria.Proofs.Text.Splitting
import Criteria.Proofs.Text.Unescaping
import Criteria.Term.Filter

/-!
# Escaping values

A value is escaped by reading it once from the left: a backslash goes before every token that begins
at the place that is read, and before every mark outside of tokens. Decoding undoes this, although
it takes away the backslashes token by token and a run before a token can so be shortened twice: a
token begins with at most one other, so the run is odd or short of one backslash of its last pair,
and halving it gives the backslashes of the value in either case.
-/

namespace Criteria

open Text

namespace FilterTerm

/-- Escapes the tokens and the marks of a text. The first `skip` characters belong to a token that
has been found and are copied. -/
def escapeFrom (marks : List Char) : (skip : Nat) → List Char → List Char
  | _, [] => []
  | skip + 1, c :: rest => c :: escapeFrom marks skip rest
  | 0, c :: rest =>
    match Token.atStart? (c :: rest) with
    | some t => escapeChar :: c :: escapeFrom marks (t.chars.length - 1) rest
    | none =>
      if c ∈ marks then escapeChar :: c :: escapeFrom marks 0 rest
      else c :: escapeFrom marks 0 rest

/-- The marks that a value of a filters text may not hold unescaped. -/
def valueMarks : List Char := [escapeChar, '|', ',']

/-- The marks that a value of a single clause may not hold unescaped. -/
def clauseMarks : List Char := [escapeChar, '|']

def escape (marks cs : List Char) : List Char := escapeFrom marks 0 cs

/-! ## Reading a text from the left -/

/-- A text is read from the left: up to the end of a run of backslashes, and then over a token or
over a single character at which none begins. -/
theorem scan_induction {motive : List Char → Prop} (ending : ∀ n, motive (backslashes n))
    (token : ∀ n t rest, Token.atStart? (t.chars ++ rest) = some t → motive rest →
      motive (backslashes n ++ (t.chars ++ rest)))
    (plain : ∀ n c rest, c ≠ escapeChar → Token.atStart? (c :: rest) = none → motive rest →
      motive (backslashes n ++ c :: rest)) (cs : List Char) : motive cs := by
  induction hlen : cs.length using Nat.strongRecOn generalizing cs with
  | ind len ih =>
    obtain ⟨n, rest, rfl, hrest⟩ := exists_backslashes cs
    rw [List.length_append] at hlen
    cases rest with
    | nil => simpa using ending n
    | cons c rest =>
      have hc : c ≠ escapeChar := by simpa [EndsRun] using hrest
      rw [List.length_cons] at hlen
      cases hstart : Token.atStart? (c :: rest) with
      | none => exact plain n c rest hc hstart (ih rest.length (by omega) rest rfl)
      | some t =>
        obtain ⟨ht, rest', hrest'⟩ := Token.of_atStart? hstart
        have hpos : 0 < t.chars.length := List.length_pos_iff.mpr (Token.chars_ne_nil t ht)
        have hlen' : t.chars.length + rest'.length = rest.length + 1 := by
          simpa using congrArg List.length hrest'
        rw [← hrest'] at hstart ⊢
        exact token n t rest' hstart (ih rest'.length (by omega) rest' rfl)

theorem escapeFrom_length_append (marks front back : List Char) :
    escapeFrom marks front.length (front ++ back) = front ++ escape marks back := by
  induction front with
  | nil => rfl
  | cons c rest ih => simp [escapeFrom, ih]

theorem escape_plain {marks : List Char} {c : Char} {rest : List Char}
    (h : Token.atStart? (c :: rest) = none) :
    escape marks (c :: rest) =
      backslashes (if c ∈ marks then 1 else 0) ++ c :: escape marks rest := by
  by_cases hc : c ∈ marks
  · simp [escape, escapeFrom, h, hc, backslashes_succ]
  · simp [escape, escapeFrom, h, hc]

theorem escape_token {marks : List Char} {t : Token} {rest : List Char}
    (h : Token.atStart? (t.chars ++ rest) = some t) :
    escape marks (t.chars ++ rest) = escapeChar :: (t.chars ++ escape marks rest) := by
  have hne := Token.chars_ne_nil t (Token.of_atStart? h).1
  cases hchars : t.chars with
  | nil => exact absurd hchars hne
  | cons c cs =>
    rw [hchars, List.cons_append] at h
    have hlen : t.chars.length - 1 = cs.length := by simp [hchars]
    simp [escape, escapeFrom, h, hlen, escapeFrom_length_append]

theorem atStart?_escapeChar (cs : List Char) : Token.atStart? (escapeChar :: cs) = none := by
  rw [Token.atStart?_eq_none]
  intro t ht hbegin
  have hne := Token.chars_ne_nil t ht
  have hesc := Token.escapeChar_not_mem_chars ht
  cases hchars : t.chars with
  | nil => exact hne hchars
  | cons c rest =>
    rw [hchars] at hbegin hesc
    exact hesc (by simp [(List.cons_prefix_cons.mp hbegin).1])

theorem escape_backslashes {marks : List Char} (h : escapeChar ∈ marks) (n : Nat)
    (cs : List Char) :
    escape marks (backslashes n ++ cs) = backslashes (2 * n) ++ escape marks cs := by
  induction n with
  | zero => rfl
  | succ n ih =>
    rw [backslashes_succ, List.cons_append, escape_plain (atStart?_escapeChar _), if_pos h, ih]
    rfl

/-! ## Escaping a run and what it ends at -/

theorem escape_run_ending {marks : List Char} (h : escapeChar ∈ marks) (n : Nat) :
    escape marks (backslashes n) = backslashes (2 * n) := by
  have hnil := escape_backslashes h n []
  rw [List.append_nil] at hnil
  rw [hnil]
  exact List.append_nil _

theorem escape_run_token {marks : List Char} (h : escapeChar ∈ marks) (n : Nat) {t : Token}
    {rest : List Char} (hstart : Token.atStart? (t.chars ++ rest) = some t) :
    escape marks (backslashes n ++ (t.chars ++ rest)) =
      backslashes (2 * n + 1) ++ (t.chars ++ escape marks rest) := by
  rw [escape_backslashes h, escape_token hstart, backslashes_add, List.append_assoc]
  rfl

theorem escape_run_plain {marks : List Char} (h : escapeChar ∈ marks) (n : Nat) {c : Char}
    {rest : List Char} (hstart : Token.atStart? (c :: rest) = none) :
    escape marks (backslashes n ++ c :: rest) =
      backslashes (2 * n + if c ∈ marks then 1 else 0) ++ c :: escape marks rest := by
  rw [escape_backslashes h, escape_plain hstart, backslashes_add, List.append_assoc]

end FilterTerm

end Criteria

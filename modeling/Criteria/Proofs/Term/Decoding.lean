import Criteria.Proofs.Term.Escaping
import Mathlib.Data.List.Induction

/-!
# Decoding what was escaped

The stages of decoding an escaped value are followed one by one. After the escapes of the first
tokens of the table are undone, a run of backslashes before a token is shorter by the number of
those tokens that stand there; everything else is as it was. The invariant that carries this is that
no stage begins with characters that the value itself does not begin with, so that no stage shows a
token that is not there.
-/

namespace Criteria

open Text

namespace FilterTerm

/-- Undoes the escapes of some tokens, one after the other. -/
def unescapeEach (ts : List Token) (cs : List Char) : List Char :=
  ts.foldl (fun text token => unescape token.chars text) cs

theorem unescapeEach_concat (ts : List Token) (t : Token) (cs : List Char) :
    unescapeEach (ts ++ [t]) cs = unescape t.chars (unescapeEach ts cs) := by
  simp [unescapeEach]

/-- A text that begins with nothing but backslashes and what `cs` begins with. -/
def BeginsAs (cs shown : List Char) : Prop :=
  ∀ u, escapeChar ∉ u → u <+: shown → u <+: cs

theorem BeginsAs.append {cs shown : List Char} (h : BeginsAs cs shown) (front : List Char) :
    BeginsAs (front ++ cs) (front ++ shown) := by
  intro u hu hbegin
  rcases List.prefix_or_prefix_of_prefix hbegin (List.prefix_append front shown) with hf | ⟨u', rfl⟩
  · exact hf.trans (List.prefix_append front cs)
  · rw [List.prefix_append_right_inj] at hbegin ⊢
    exact h u' (fun hmem => hu (List.mem_append_right front hmem)) hbegin

theorem beginsAs_backslashes {n : Nat} (hn : n ≠ 0) (cs rest : List Char) :
    BeginsAs cs (backslashes n ++ rest) := by
  intro u hu hbegin
  obtain ⟨m, rfl⟩ := Nat.exists_eq_succ_of_ne_zero hn
  cases u with
  | nil => exact List.nil_prefix
  | cons c u =>
    rw [Nat.succ_eq_add_one, backslashes_succ, List.cons_append, List.cons_prefix_cons] at hbegin
    exact absurd (by simp [hbegin.1]) hu

/-! ## The stages -/

/-- The number of the given tokens that a text begins with. -/
def fitting (ts : List Token) (front : List Char) : Nat :=
  ts.countP (·.chars.isPrefixOf front)

/-- While no stage shows a token longer than `front`, a run before `front` is shortened by the
tokens that `front` begins with, and what is behind goes through its own stages. -/
theorem unescapeEach_backslashes {front rest : List Char} (hesc : escapeChar ∉ front)
    (hshown : ∀ ts, ts <+: Token.table → ∀ t ∈ Token.table,
      t.chars <+: front ++ unescapeEach ts rest → t.chars <+: front)
    (n : Nat) {ts : List Token} (hts : ts <+: Token.table) :
    unescapeEach ts (backslashes n ++ (front ++ rest)) =
      backslashes (n - fitting ts front) ++ (front ++ unescapeEach ts rest) := by
  induction ts using List.reverseRecOn with
  | nil => rfl
  | append_singleton ts t ih =>
    have hts' : ts <+: Token.table := (List.prefix_append ts [t]).trans hts
    have ht : t ∈ Token.table := hts.subset (by simp)
    have hesct := Token.escapeChar_not_mem_chars ht
    have hiff : t.chars <+: front ++ unescapeEach ts rest ↔ t.chars <+: front :=
      ⟨hshown ts hts' t ht, fun h => h.trans (List.prefix_append ..)⟩
    have hcount : fitting (ts ++ [t]) front =
        fitting ts front + if t.chars <+: front then 1 else 0 := by
      simp [fitting, List.countP_append]
    rw [unescapeEach_concat, ih hts', unescape_backslashes hesct (Token.chars_ne_nil t ht),
      unescape_append hesc, unescapeEach_concat, hcount, Nat.sub_add_eq]
    simp only [hiff]

theorem unescapeEach_backslashes_end (n : Nat) {ts : List Token} (hts : ts <+: Token.table) :
    unescapeEach ts (backslashes n) = backslashes n := by
  induction ts using List.reverseRecOn with
  | nil => rfl
  | append_singleton ts t ih =>
    have ht : t ∈ Token.table := hts.subset (by simp)
    have hne := Token.chars_ne_nil t ht
    have hstep := unescape_backslashes (Token.escapeChar_not_mem_chars ht) hne n []
    rw [unescapeEach_concat, ih ((List.prefix_append ts [t]).trans hts)]
    simpa [hne] using hstep

/-- What is left of an escaped value when the escapes of the tokens `ts` are undone. -/
def stage (ts : List Token) (cs : List Char) : List Char := unescapeEach ts (escape clauseMarks cs)

theorem stage_ending (n : Nat) {ts : List Token} (hts : ts <+: Token.table) :
    stage ts (backslashes n) = backslashes (2 * n) := by
  rw [stage, escape_run_ending (by decide), unescapeEach_backslashes_end _ hts]

/-- Before a token a run has twice its backslashes and one more, less those that are undone. -/
theorem stage_token {t : Token} {rest : List Char}
    (h : Token.atStart? (t.chars ++ rest) = some t)
    (hrest : ∀ ts, ts <+: Token.table → BeginsAs rest (stage ts rest)) (n : Nat) {ts : List Token}
    (hts : ts <+: Token.table) :
    stage ts (backslashes n ++ (t.chars ++ rest)) =
      backslashes (2 * n + 1 - fitting ts t.chars) ++ (t.chars ++ stage ts rest) := by
  have hesc := Token.escapeChar_not_mem_chars (Token.of_atStart? h).1
  rw [stage, escape_run_token (by decide) n h, unescapeEach_backslashes hesc _ _ hts]
  · rfl
  · intro us hus u hu hbegin
    refine Token.prefix_of_atStart? h hu ?_
    exact (hrest us hus).append t.chars u.chars (Token.escapeChar_not_mem_chars hu) hbegin

/-- Before any other character a run has twice its backslashes, and one more before a mark. -/
theorem stage_plain {c : Char} {rest : List Char} (hc : c ≠ escapeChar)
    (h : Token.atStart? (c :: rest) = none)
    (hrest : ∀ ts, ts <+: Token.table → BeginsAs rest (stage ts rest)) (n : Nat) {ts : List Token}
    (hts : ts <+: Token.table) :
    stage ts (backslashes n ++ c :: rest) =
      backslashes (2 * n + if c ∈ clauseMarks then 1 else 0) ++ c :: stage ts rest := by
  have hesc : escapeChar ∉ [c] := by simpa using hc.symm
  have hnone : ∀ us, us <+: Token.table → ∀ u ∈ Token.table,
      ¬ u.chars <+: [c] ++ stage us rest := by
    intro us hus u hu hbegin
    have hstart : u.chars <+: [c] ++ rest :=
      (hrest us hus).append [c] u.chars (Token.escapeChar_not_mem_chars hu) hbegin
    exact Token.atStart?_eq_none.mp h u hu hstart
  have hfitting : fitting ts [c] = 0 := by
    refine List.countP_eq_zero.mpr fun u hu hfits => ?_
    have hbegin : u.chars <+: [c] := List.isPrefixOf_iff_prefix.mp hfits
    exact hnone [] List.nil_prefix u (hts.subset hu) (hbegin.trans (List.prefix_append ..))
  rw [stage, escape_run_plain (by decide) n h, ← List.singleton_append,
    unescapeEach_backslashes hesc _ _ hts, hfitting]
  · rfl
  · intro us hus u hu hbegin
    exact absurd hbegin (hnone us hus u hu)

theorem fitting_le {t : Token} (ht : t ∈ Token.table) {ts : List Token}
    (hts : ts <+: Token.table) : fitting ts t.chars ≤ 2 :=
  Nat.le_trans hts.sublist.countP_le (Token.countP_prefix t ht).2

/-- No stage begins with characters that the value does not begin with. -/
theorem beginsAs_stage (cs : List Char) : ∀ ts, ts <+: Token.table → BeginsAs cs (stage ts cs) := by
  induction cs using scan_induction with
  | ending n =>
    intro ts hts
    rw [stage_ending n hts]
    cases n with
    | zero => exact fun u _ h => h
    | succ n =>
      simpa using beginsAs_backslashes (n := 2 * (n + 1)) (by omega) _ []
  | token n t rest hstart ih =>
    intro ts hts
    rw [stage_token hstart ih n hts]
    have hle := fitting_le (Token.of_atStart? hstart).1 hts
    by_cases hn : 2 * n + 1 - fitting ts t.chars = 0
    · -- a run can only be used up where the value has no backslash
      obtain rfl : n = 0 := by omega
      rw [hn]
      exact (ih ts hts).append t.chars
    · exact beginsAs_backslashes hn _ _
  | plain n c rest hc hstart ih =>
    intro ts hts
    rw [stage_plain hc hstart ih n hts]
    by_cases hn : (2 * n + if c ∈ clauseMarks then 1 else 0) = 0
    · obtain rfl : n = 0 := by omega
      rw [hn]
      exact (ih ts hts).append [c]
    · exact beginsAs_backslashes hn _ _

/-! ## The last stage -/

/-- Decoding gives back the value that was escaped. -/
theorem decodeValue_escape (cs : List Char) : decodeValue (escape clauseMarks cs) = cs := by
  have htable : Token.table <+: Token.table := List.prefix_refl _
  show unescapeBars (stage Token.table cs) = cs
  induction cs using scan_induction with
  | ending n =>
    have hhalf : (2 * n + 1) / 2 = n := by omega
    have hbars : unescapeBars (backslashes (2 * n)) = backslashes n ++ unescapeBars [] := by
      simpa [hhalf] using unescapeBars_backslashes (2 * n) EndsRun.nil
    rw [stage_ending n htable, hbars]
    exact List.append_nil _
  | token n t rest hstart ih =>
    have ht := (Token.of_atStart? hstart).1
    have hesc := Token.escapeChar_not_mem_chars ht
    have hne := Token.chars_ne_nil t ht
    have hbar : ¬ ['|'] <+: t.chars ++ stage Token.table rest :=
      not_singleton_prefix hne (Token.not_mem_chars ht (by decide)) _
    obtain ⟨hpos, hle⟩ := Token.countP_prefix t ht
    have hhalf : (2 * n + 1 - fitting Token.table t.chars + 1) / 2 = n := by
      unfold fitting
      omega
    rw [stage_token hstart (beginsAs_stage rest) n htable,
      unescapeBars_backslashes _ (EndsRun.append hne hesc _), if_neg hbar, Nat.sub_zero, hhalf,
      unescapeBars_append hesc, ih]
  | plain n c rest hc hstart ih =>
    have hesc : escapeChar ∉ [c] := by simpa using hc.symm
    have hmark : c ∈ clauseMarks ↔ ['|'] <+: c :: stage Token.table rest := by
      rw [List.singleton_prefix_cons_iff]
      simp [clauseMarks, hc, eq_comm]
    have hhalf : (2 * n + (if c ∈ clauseMarks then 1 else 0) -
        (if ['|'] <+: c :: stage Token.table rest then 1 else 0) + 1) / 2 = n := by
      simp only [hmark]
      split <;> omega
    have hcons := unescapeBars_append hesc (stage Token.table rest)
    rw [List.singleton_append, List.singleton_append, ih] at hcons
    rw [stage_plain hc hstart (beginsAs_stage rest) n htable,
      unescapeBars_backslashes _ (EndsRun.cons hc _), hhalf, hcons]

end FilterTerm

end Criteria

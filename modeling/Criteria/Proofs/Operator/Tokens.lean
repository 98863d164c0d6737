import Criteria.Operator.Location
import Criteria.Proofs.Text.Occurrences
import Criteria.Proofs.Text.Trimming

/-!
# Tokens in a text

Tokens are written with eight signs, so that no token reaches over any other character. Of the
tokens that a text begins with, the one that is read begins with all others, and there is at most
one other. A text in which no token occurs is passed over when the operator of a clause is looked
for.
-/

namespace Criteria

namespace Token

/-! ## The table -/

/-- The characters that tokens are written with. -/
def signs : List Char := ['!', '@', '_', '-', '=', '*', '>', '<']

theorem chars_subset_signs : ∀ t ∈ table, t.chars.all signs.contains = true := by decide +kernel

theorem chars_ne_nil : ∀ t ∈ table, t.chars ≠ [] := by decide +kernel

theorem eq_of_chars_eq : ∀ t ∈ table, ∀ u ∈ table, t.chars = u.chars → t = u := by decide +kernel

theorem tight_chars : ∀ t ∈ table, Text.Tight t.chars := by decide +kernel

/-- No token follows one that it begins with. -/
theorem table_pairwise : table.Pairwise fun t u => ¬ t.chars <+: u.chars := by decide +kernel

/-- A token begins with itself and with at most one other. -/
theorem countP_prefix : ∀ t ∈ table,
    1 ≤ table.countP (·.chars.isPrefixOf t.chars) ∧
      table.countP (·.chars.isPrefixOf t.chars) ≤ 2 := by
  decide +kernel

theorem insensitive_iff : ∀ t ∈ table, t.insensitive = true ↔ t.chars.getLast? = some '*' := by
  decide +kernel

/-- The tokens that begin with an exclamation mark are negated, but for those of inequality. -/
theorem negated_iff : ∀ t ∈ table,
    t.negated = true ↔ t.operator ≠ .notEquals ∧ t.chars.head? = some '!' := by
  decide +kernel

variable {t : Token} (ht : t ∈ table)
include ht

theorem mem_signs {c : Char} (h : c ∈ t.chars) : c ∈ signs :=
  List.contains_iff_mem.mp (List.all_eq_true.mp (chars_subset_signs t ht) c h)

theorem not_mem_chars {c : Char} (hc : c ∉ signs) : c ∉ t.chars := fun h => hc (mem_signs ht h)

theorem escapeChar_not_mem_chars : Text.escapeChar ∉ t.chars := not_mem_chars ht (by decide)

omit ht

/-! ## The token that a text begins with -/

theorem of_atStart? {cs : List Char} (h : atStart? cs = some t) : t ∈ table ∧ t.chars <+: cs := by
  have hfits := List.find?_some h
  exact ⟨List.mem_of_find?_eq_some h, List.isPrefixOf_iff_prefix.mp hfits⟩

theorem atStart?_eq_none {cs : List Char} : atStart? cs = none ↔ ∀ t ∈ table, ¬ t.chars <+: cs := by
  simp [atStart?]

/-- The token that is read begins with every token that the text begins with. -/
theorem prefix_of_atStart? {cs : List Char} {u : Token} (h : atStart? cs = some u)
    (ht : t ∈ table) (hp : t.chars <+: cs) : t.chars <+: u.chars := by
  obtain ⟨-, earlier, later, htable, hearlier⟩ := List.find?_eq_some_iff_append.mp h
  rcases List.prefix_or_prefix_of_prefix hp (of_atStart? h).2 with hbegin | hbegin
  · exact hbegin
  · have hmem := ht
    rw [htable, List.mem_append, List.mem_cons] at hmem
    rcases hmem with hmem | rfl | hmem
    · have hno : t.chars.isPrefixOf cs = false := by simpa using hearlier t hmem
      exact absurd (List.isPrefixOf_iff_prefix.mpr hp) (by simp [hno])
    · exact List.prefix_refl _
    · have hpair := table_pairwise
      rw [htable, List.pairwise_append, List.pairwise_cons] at hpair
      exact absurd hbegin (hpair.2.1.1 t hmem)

/-- A token is read where it stands before something that no token goes on with. -/
theorem atStart?_append (ht : t ∈ table) {tail : List Char} (htail : ∀ c ∈ tail.head?, c ∉ signs) :
    atStart? (t.chars ++ tail) = some t := by
  cases h : atStart? (t.chars ++ tail) with
  | none => exact absurd (List.prefix_append ..) (atStart?_eq_none.mp h t ht)
  | some u =>
    obtain ⟨hu, hbegin⟩ := of_atStart? h
    have hut : u.chars <+: t.chars :=
      Text.prefix_of_prefix_append hbegin fun c hc => not_mem_chars hu (htail c hc)
    have htu : t.chars <+: u.chars := prefix_of_atStart? h ht (List.prefix_append ..)
    rw [eq_of_chars_eq u hu t ht (hut.eq_of_length_le htu.length_le)]

end Token

/-! ## Looking for the operator -/

namespace Located

/-- The search passes over a text at no place of which a token begins. -/
theorem search_append {before front back : List Char}
    (h : ∀ rest, rest <:+ front → rest ≠ [] → Token.atStart? (rest ++ back) = none) :
    search before (front ++ back) = search (front.reverse ++ before) back := by
  induction front generalizing before with
  | nil => rfl
  | cons c rest ih =>
    have hnone : Token.atStart? (c :: (rest ++ back)) = none :=
      h (c :: rest) (List.suffix_refl _) (by simp)
    have hrest := @ih (c :: before) fun rest' hsuffix =>
      h rest' (hsuffix.trans (List.suffix_cons c rest))
    simp only [List.cons_append, search, hnone, ite_self, hrest, List.reverse_cons,
      List.append_assoc, List.nil_append]

/-- The search stops at a token that is not escaped and that nothing behind it goes on with. -/
theorem search_token {before : List Char} {t : Token} (ht : t ∈ Token.table)
    (hesc : Text.escapedBy before = false) {tail : List Char}
    (htail : ∀ c ∈ tail.head?, c ∉ Token.signs) :
    search before (t.chars ++ tail) = some ⟨before.reverse, t, tail⟩ := by
  have hstart := Token.atStart?_append ht htail
  have hdrop : (t.chars ++ tail).drop t.chars.length = tail := List.drop_left
  cases hcs : t.chars ++ tail with
  | nil => exact absurd (List.append_eq_nil_iff.mp hcs).1 (Token.chars_ne_nil t ht)
  | cons c rest =>
    rw [hcs] at hstart hdrop
    simp only [search, hesc, Bool.false_eq_true, ↓reduceIte, hstart, hdrop]

end Located

end Criteria

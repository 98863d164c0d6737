/-!
# Occurrences in joined texts

What occurs in a text that is put together from parts, without the character that stands between
them, occurs in one of the parts: nothing reaches over a character that does not occur in it.
-/

namespace Criteria.Text

/-- What a text begins with stays on this side of a character that does not occur in it. -/
theorem prefix_of_prefix_append {α : Type} {t front back : List α} (h : t <+: front ++ back)
    (hb : ∀ x ∈ back.head?, x ∉ t) : t <+: front := by
  rcases List.prefix_or_prefix_of_prefix h (List.prefix_append front back) with h' | ⟨t', rfl⟩
  · exact h'
  · rw [List.prefix_append_right_inj] at h
    cases t' with
    | nil => simp
    | cons x rest =>
      obtain ⟨back', rfl⟩ := h
      exact absurd (by simp) (hb x rfl)

theorem prefix_cons_iff_of_not_mem {α : Type} {t back : List α} {x : α} (hx : x ∉ t) :
    t <+: x :: back ↔ t = [] := by
  cases t with
  | nil => simp
  | cons y rest =>
    refine iff_of_false ?_ (List.cons_ne_nil y rest)
    intro h
    exact hx (by simp [(List.cons_prefix_cons.mp h).1])

theorem not_singleton_prefix {α : Type} {x : α} {front : List α} (hne : front ≠ [])
    (hx : x ∉ front) (back : List α) : ¬ [x] <+: front ++ back := by
  cases front with
  | nil => exact absurd rfl hne
  | cons y rest =>
    intro h
    exact hx (by simp [List.singleton_prefix_cons_iff.mp h])

/-- What occurs in a text occurs on one side of a character that is not in it. -/
theorem infix_append_cons {α : Type} {t front back : List α} {x : α} (hx : x ∉ t)
    (h : t <:+: front ++ x :: back) : t <:+: front ∨ t <:+: back := by
  have hcons : ∀ t', t' <:+ t → t' <+: x :: back → t' = [] := by
    intro t' hsuffix hbegin
    exact (prefix_cons_iff_of_not_mem fun hmem => hx (hsuffix.subset hmem)).mp hbegin
  rcases List.infix_append_iff.mp h with h | h | ⟨t₁, t₂, rfl, h₁, h₂⟩
  · exact Or.inl h
  · rcases List.infix_cons_iff.mp h with h | h
    · rw [hcons t (List.suffix_refl t) h]
      exact Or.inl List.nil_infix
    · exact Or.inr h
  · rw [hcons t₂ (List.suffix_append ..) h₂, List.append_nil]
    exact Or.inl h₁.isInfix

/-! ## Joins -/

theorem mem_intercalate {α : Type} {x : α} {separator : List α} {parts : List (List α)}
    (h : x ∈ separator.intercalate parts) : x ∈ separator ∨ ∃ p ∈ parts, x ∈ p := by
  induction parts with
  | nil => simp at h
  | cons p rest ih =>
    by_cases hnil : rest = []
    · subst hnil
      exact Or.inr ⟨p, by simp, by simpa using h⟩
    · rw [List.intercalate_cons_of_ne_nil hnil, List.mem_append, List.mem_append] at h
      rcases h with (h | h) | h
      · exact Or.inr ⟨p, by simp, h⟩
      · exact Or.inl h
      · rcases ih h with h | ⟨q, hq, hx⟩
        · exact Or.inl h
        · exact Or.inr ⟨q, by simp [hq], hx⟩

/-- What occurs in no part and does not hold the separator does not occur in the join. -/
theorem not_infix_intercalate {α : Type} {t : List α} {separator : α} (hne : t ≠ [])
    (hs : separator ∉ t) {parts : List (List α)} (h : ∀ p ∈ parts, ¬ t <:+: p) :
    ¬ t <:+: [separator].intercalate parts := by
  induction parts with
  | nil => simpa using hne
  | cons p rest ih =>
    rw [List.forall_mem_cons] at h
    by_cases hnil : rest = []
    · subst hnil
      simpa using h.1
    · rw [List.intercalate_cons_of_ne_nil hnil, List.append_assoc, List.singleton_append]
      intro hinfix
      rcases infix_append_cons hs hinfix with hp | hrest
      · exact h.1 hp
      · exact ih h.2 hrest

end Criteria.Text

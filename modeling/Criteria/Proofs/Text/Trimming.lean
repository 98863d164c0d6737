import Criteria.Text.Blank
import Mathlib.Data.List.TakeWhile

/-!
# Trimmed texts

Trimming changes nothing exactly when the text neither begins nor ends with a blank. Behind a
character that is not blank, trimming works on the end of a text alone, and blanks around a text are
trimmed with it.
-/

namespace Criteria.Text

/-- A text that neither begins nor ends with a blank. -/
def Tight (cs : List Char) : Prop :=
  (∀ c ∈ cs.head?, isBlank c = false) ∧ ∀ c ∈ cs.getLast?, isBlank c = false

instance (cs : List Char) : Decidable (Tight cs) :=
  decidable_of_iff ((cs.head?.all fun c => !isBlank c) = true ∧
      (cs.getLast?.all fun c => !isBlank c) = true)
    (by simp [Tight, Option.all_eq_true])

theorem trimStart_of_head {cs : List Char} (h : ∀ c ∈ cs.head?, isBlank c = false) :
    trimStart cs = cs := by
  cases cs with
  | nil => rfl
  | cons c rest => exact trimStart_cons (h c rfl) rest

theorem trimEnd_of_getLast {cs : List Char} (h : ∀ c ∈ cs.getLast?, isBlank c = false) :
    trimEnd cs = cs := by
  have hr : trimStart cs.reverse = cs.reverse := by
    refine trimStart_of_head fun c hc => h c ?_
    rwa [List.head?_reverse] at hc
  unfold trimStart at hr
  rw [trimEnd, hr, List.reverse_reverse]

theorem trim_of_tight {cs : List Char} (h : Tight cs) : trim cs = cs := by
  rw [trim, trimStart_of_head h.1, trimEnd_of_getLast h.2]

/-- A text that ends with no blank is kept in front of whatever is trimmed behind it. -/
theorem trimEnd_append {cs : List Char} (hne : cs ≠ [])
    (h : ∀ c ∈ cs.getLast?, isBlank c = false) (tail : List Char) :
    trimEnd (cs ++ tail) = cs ++ trimEnd tail := by
  obtain ⟨front, c, rfl⟩ : ∃ front c, cs = front ++ [c] :=
    ⟨cs.dropLast, cs.getLast hne, (List.dropLast_concat_getLast hne).symm⟩
  have hc : isBlank c = false := h c (by simp)
  have hcs : trimEnd (front ++ [c]) = front ++ [c] := trimEnd_of_getLast h
  unfold trimEnd at hcs ⊢
  rw [List.reverse_append, List.dropWhile_append]
  split
  · next hall =>
    rw [hcs]
    rw [List.isEmpty_iff] at hall
    simp [hall]
  · simp

/-- Behind a tight text, trimming works on the end alone. -/
theorem trim_append {front : List Char} (hne : front ≠ []) (h : Tight front) (tail : List Char) :
    trim (front ++ tail) = front ++ trimEnd tail := by
  have hhead : ∀ c ∈ (front ++ tail).head?, isBlank c = false := by
    intro c hc
    cases front with
    | nil => exact absurd rfl hne
    | cons a rest => exact h.1 c (by simpa using hc)
  rw [trim, trimStart_of_head hhead, trimEnd_append hne h.2]

theorem tight_append {front back : List Char} (hf : Tight front) (hb : Tight back)
    (hfne : front ≠ []) (hbne : back ≠ []) (middle : List Char) :
    Tight (front ++ middle ++ back) := by
  refine ⟨fun c hc => hf.1 c ?_, fun c hc => hb.2 c ?_⟩
  · cases front with
    | nil => exact absurd rfl hfne
    | cons a rest => simpa using hc
  · rw [List.getLast?_append, List.getLast?_eq_some_getLast hbne] at hc
    rw [List.getLast?_eq_some_getLast hbne]
    exact hc

theorem intercalate_ne_nil {separator : List Char} {parts : List (List Char)} (hne : parts ≠ [])
    (h : ∀ p ∈ parts, p ≠ []) : separator.intercalate parts ≠ [] := by
  cases parts with
  | nil => exact absurd rfl hne
  | cons p rest =>
    have hp : p ≠ [] := h p (by simp)
    by_cases hrest : rest = []
    · subst hrest
      simpa using hp
    · rw [List.intercalate_cons_of_ne_nil hrest]
      simp [hp]

theorem tight_intercalate (separator : List Char) {parts : List (List Char)}
    (h : ∀ p ∈ parts, p ≠ [] ∧ Tight p) : Tight (separator.intercalate parts) := by
  induction parts with
  | nil => exact ⟨by simp, by simp⟩
  | cons p rest ih =>
    rw [List.forall_mem_cons] at h
    obtain ⟨⟨hne, hp⟩, hrest⟩ := h
    by_cases hnil : rest = []
    · subst hnil
      simpa using hp
    · rw [List.intercalate_cons_of_ne_nil hnil]
      exact tight_append hp (ih hrest) hne
        (intercalate_ne_nil hnil fun q hq => (hrest q hq).1) separator

/-! ## What is trimmed -/

theorem exists_blank_trimStart (cs : List Char) :
    ∃ lead, cs = lead ++ trimStart cs ∧ ∀ c ∈ lead, isBlank c = true :=
  ⟨cs.takeWhile isBlank, List.takeWhile_append_dropWhile.symm, fun _ => List.mem_takeWhile_imp⟩

theorem exists_blank_trimEnd (cs : List Char) :
    ∃ tail, cs = trimEnd cs ++ tail ∧ ∀ c ∈ tail, isBlank c = true := by
  obtain ⟨tail, htail, hblank⟩ := exists_blank_trimStart cs.reverse
  refine ⟨tail.reverse, ?_, fun c hc => hblank c (List.mem_reverse.mp hc)⟩
  rw [trimEnd, ← List.reverse_append, ← trimStart, ← htail, List.reverse_reverse]

/-- What trimming drops are the blanks on both sides. -/
theorem exists_blanks_trim (cs : List Char) :
    ∃ lead tail, cs = lead ++ trim cs ++ tail ∧ (∀ c ∈ lead, isBlank c = true) ∧
      ∀ c ∈ tail, isBlank c = true := by
  obtain ⟨lead, hcs, hlead⟩ := exists_blank_trimStart cs
  obtain ⟨tail, hstart, htail⟩ := exists_blank_trimEnd (trimStart cs)
  refine ⟨lead, tail, ?_, hlead, htail⟩
  rw [List.append_assoc, trim, ← hstart, ← hcs]

theorem trimStart_append_of_blank {lead : List Char} (h : ∀ c ∈ lead, isBlank c = true)
    (cs : List Char) : trimStart (lead ++ cs) = trimStart cs :=
  List.dropWhile_append_of_pos h

theorem trimEnd_append_of_blank {tail : List Char} (h : ∀ c ∈ tail, isBlank c = true)
    (cs : List Char) : trimEnd (cs ++ tail) = trimEnd cs := by
  rw [trimEnd, List.reverse_append, List.dropWhile_append_of_pos]
  · rfl
  · intro c hc
    exact h c (List.mem_reverse.mp hc)

/-- Blanks around a text are trimmed together with those of the text. -/
theorem trim_append_of_blank {lead tail : List Char} (hlead : ∀ c ∈ lead, isBlank c = true)
    (htail : ∀ c ∈ tail, isBlank c = true) (cs : List Char) :
    trim (lead ++ cs ++ tail) = trim cs := by
  rw [List.append_assoc, trim, trimStart_append_of_blank hlead, trimStart, List.dropWhile_append]
  split
  · next hblank =>
    have hcs : trim cs = [] := by
      rw [trim, trimStart, List.isEmpty_iff.mp hblank]
      rfl
    rw [hcs, List.dropWhile_eq_nil_iff.mpr htail]
    rfl
  · exact trimEnd_append_of_blank htail _

/-! ## Trimming twice -/

theorem head?_trimStart {cs : List Char} {c : Char} (h : c ∈ (trimStart cs).head?) :
    isBlank c = false := by
  have hnot := List.head?_dropWhile_not isBlank cs
  rw [← trimStart, Option.mem_def.mp h] at hnot
  simpa using hnot

theorem getLast?_trimEnd {cs : List Char} {c : Char} (h : c ∈ (trimEnd cs).getLast?) :
    isBlank c = false := by
  rw [trimEnd, List.getLast?_reverse] at h
  exact head?_trimStart h

theorem tight_trim (cs : List Char) : Tight (trim cs) := by
  refine ⟨?_, fun c hc => getLast?_trimEnd hc⟩
  intro c hc
  refine @head?_trimStart cs c ?_
  obtain ⟨tail, htail, -⟩ := exists_blank_trimEnd (trimStart cs)
  rw [htail, ← trim, List.head?_append, Option.mem_def.mp hc]
  rfl

@[simp] theorem trim_trim (cs : List Char) : trim (trim cs) = trim cs :=
  trim_of_tight (tight_trim cs)

theorem trim_trimStart (cs : List Char) : trim (trimStart cs) = trim cs := by
  obtain ⟨lead, hcs, hlead⟩ := exists_blank_trimStart cs
  have hblank := trim_append_of_blank hlead (List.forall_mem_nil _) (trimStart cs)
  rwa [List.append_nil, ← hcs, eq_comm] at hblank

theorem trim_trimEnd (cs : List Char) : trim (trimEnd cs) = trim cs := by
  obtain ⟨tail, hcs, htail⟩ := exists_blank_trimEnd cs
  have hblank := trim_append_of_blank (List.forall_mem_nil _) htail (trimEnd cs)
  rwa [List.nil_append, ← hcs, eq_comm] at hblank

end Criteria.Text

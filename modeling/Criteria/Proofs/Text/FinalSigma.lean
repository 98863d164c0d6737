import Criteria.Text.Lowercase
import Mathlib.Tactic.ByContra

/-!
# The lowercase of a part of a text

A text is mapped to lowercase character by character, but for the capital sigma, of which the form
depends on what stands around it. So the lowercase of a part is a part of the lowercase of the whole
unless some sigma ends a word in one of the two and not in the other. What stands around a part
matters through the first character on either side that casing does not ignore, and it matters only to
the sigmas that have nothing but ignored characters between them and that side.
-/

namespace Criteria.Text

/-- The form of a character in lowercase; `final` says whether it ends a word. -/
def smallForm (final : Bool) (c : Char) : List Char :=
  if c == 'Σ' then [if final then 'ς' else 'σ'] else lowercaseChar c

/-- The lowercase of a text that stands between `before`, which is given nearest first, and
`after`. -/
def lowercaseBetween : (before cs after : List Char) → List Char
  | _, [], _ => []
  | before, c :: rest, after =>
    smallForm (endsWord before (rest ++ after)) c ++ lowercaseBetween (c :: before) rest after

/-- Some sigma of a text ends a word where the text stands alone and does not where it stands between
`before` and `after`, or the other way round. -/
def SigmaTurns (before cs after : List Char) : Prop :=
  ∃ front back, cs = front ++ 'Σ' :: back ∧
    endsWord (front.reverse ++ before) (back ++ after) ≠ endsWord front.reverse back

theorem lowercaseAfter_append (before cs after : List Char) :
    lowercaseAfter before (cs ++ after) =
      lowercaseBetween before cs after ++ lowercaseAfter (cs.reverse ++ before) after := by
  induction cs generalizing before with
  | nil => rfl
  | cons c rest ih =>
    rw [List.cons_append, lowercaseAfter, lowercaseBetween, ih, List.append_assoc, List.reverse_cons,
      List.append_assoc]
    rfl

theorem lowercaseAfter_eq (before cs : List Char) :
    lowercaseAfter before cs = lowercaseBetween before cs [] := by
  have h := lowercaseAfter_append before cs []
  rw [List.append_nil, lowercaseAfter, List.append_nil] at h
  exact h

/-! ## Two surroundings -/

section Surroundings

variable {b₁ a₁ b₂ a₂ : List Char}

theorem length_smallForm (final final' : Bool) (c : Char) :
    (smallForm final c).length = (smallForm final' c).length := by
  unfold smallForm
  split <;> rfl

theorem smallForm_eq_iff {final final' : Bool} {c : Char} :
    smallForm final c = smallForm final' c ↔ (c = 'Σ' → final = final') := by
  unfold smallForm
  by_cases hc : c = 'Σ'
  · subst hc
    cases final <;> cases final' <;> simp
  · simp [hc]

/-- In two surroundings a text has one lowercase just where all of its sigmas end words alike. -/
theorem lowercaseBetween_eq_iff {cs : List Char} :
    lowercaseBetween b₁ cs a₁ = lowercaseBetween b₂ cs a₂ ↔
      ∀ front back, cs = front ++ 'Σ' :: back →
        endsWord (front.reverse ++ b₁) (back ++ a₁) = endsWord (front.reverse ++ b₂) (back ++ a₂) := by
  induction cs generalizing b₁ b₂ with
  | nil =>
    refine ⟨fun _ front back h => ?_, fun _ => rfl⟩
    exact absurd h (by simp)
  | cons c rest ih =>
    have hsplit : lowercaseBetween b₁ (c :: rest) a₁ = lowercaseBetween b₂ (c :: rest) a₂ ↔
        smallForm (endsWord b₁ (rest ++ a₁)) c = smallForm (endsWord b₂ (rest ++ a₂)) c ∧
          lowercaseBetween (c :: b₁) rest a₁ = lowercaseBetween (c :: b₂) rest a₂ := by
      rw [lowercaseBetween, lowercaseBetween]
      exact ⟨fun h => List.append_inj h (length_smallForm ..), fun ⟨hhead, hrest⟩ => by rw [hhead, hrest]⟩
    rw [hsplit, smallForm_eq_iff, ih]
    constructor
    · rintro ⟨hhead, hrest⟩ front back h
      cases front with
      | nil =>
        obtain ⟨rfl, rfl⟩ := List.cons.inj h
        exact hhead rfl
      | cons d front =>
        obtain ⟨rfl, rfl⟩ := List.cons.inj h
        rw [List.reverse_cons, List.append_assoc, List.append_assoc]
        exact hrest front back rfl
    · intro h
      refine ⟨?_, fun front back hrest => ?_⟩
      · rintro rfl
        exact h [] rest rfl
      · have hplace := h (c :: front) back (by rw [hrest]; rfl)
        rw [List.reverse_cons, List.append_assoc, List.append_assoc] at hplace
        exact hplace

/-- Where the sigmas that end words in one surrounding end words in another as well, the other has the
more final forms and the fewer medial ones, unless both give one lowercase. -/
theorem count_lowercaseBetween_lt {cs : List Char}
    (hle : ∀ front back, cs = front ++ 'Σ' :: back →
      endsWord (front.reverse ++ b₁) (back ++ a₁) = true →
        endsWord (front.reverse ++ b₂) (back ++ a₂) = true) :
    lowercaseBetween b₁ cs a₁ = lowercaseBetween b₂ cs a₂ ∨
      (lowercaseBetween b₁ cs a₁).count 'ς' < (lowercaseBetween b₂ cs a₂).count 'ς' ∧
        (lowercaseBetween b₂ cs a₂).count 'σ' < (lowercaseBetween b₁ cs a₁).count 'σ' := by
  induction cs generalizing b₁ b₂ with
  | nil => exact Or.inl rfl
  | cons c rest ih =>
    have hrest := @ih (c :: b₁) (c :: b₂) fun front back h hends => by
      have hplace := hle (c :: front) back (by rw [h]; rfl)
      rw [List.reverse_cons, List.append_assoc, List.append_assoc] at hplace
      exact hplace hends
    rw [lowercaseBetween, lowercaseBetween]
    simp only [List.count_append]
    have hhead : smallForm (endsWord b₁ (rest ++ a₁)) c = smallForm (endsWord b₂ (rest ++ a₂)) c ∨
        smallForm (endsWord b₁ (rest ++ a₁)) c = ['σ'] ∧
          smallForm (endsWord b₂ (rest ++ a₂)) c = ['ς'] := by
      rw [smallForm_eq_iff]
      by_cases hc : c = 'Σ'
      · subst hc
        have hplace := hle [] rest rfl
        rw [List.reverse_nil, List.nil_append, List.nil_append] at hplace
        unfold smallForm
        generalize endsWord b₁ (rest ++ a₁) = final₁ at hplace ⊢
        generalize endsWord b₂ (rest ++ a₂) = final₂ at hplace ⊢
        cases final₁ <;> cases final₂ <;> simp at hplace ⊢
      · exact Or.inl fun h => absurd h hc
    rcases hhead with hhead | ⟨hhead, hhead'⟩
    · rw [hhead]
      rcases hrest with hrest | ⟨hfinal, hmedial⟩
      · exact Or.inl (by rw [hrest])
      · exact Or.inr ⟨by omega, by omega⟩
    · rw [hhead, hhead']
      have hσ : List.count 'ς' ['σ'] = 0 ∧ List.count 'σ' ['σ'] = 1 := by decide
      have hς : List.count 'ς' ['ς'] = 1 ∧ List.count 'σ' ['ς'] = 0 := by decide
      refine Or.inr ?_
      rcases hrest with hrest | ⟨hfinal, hmedial⟩
      · rw [hrest]
        omega
      · omega

end Surroundings

/-! ## The border of a part -/

/-- A text either decides by itself whether the first character that casing does not ignore is cased,
or leaves that to what follows it. -/
theorem meetsCased_append_cases (cs : List Char) :
    (∀ after, meetsCased (cs ++ after) = meetsCased cs) ∨
      meetsCased cs = false ∧ ∀ after, meetsCased (cs ++ after) = meetsCased after := by
  unfold meetsCased
  cases h : cs.dropWhile isCaseIgnorable with
  | nil =>
    refine Or.inr ⟨rfl, fun after => ?_⟩
    rw [List.dropWhile_append, h]
    rfl
  | cons c rest =>
    refine Or.inl fun after => ?_
    rw [List.dropWhile_append, h]
    rfl

theorem meetsCased_a : meetsCased ['a'] = true := by decide +kernel

theorem smallForm_a (final : Bool) : smallForm final 'a' = ['a'] := by
  cases final <;> decide +kernel

/-- A sigma that turns lies at a border of the text, and turns already where one cased letter stands
beyond that border. -/
theorem SigmaTurns.at_border {before cs after : List Char} (h : SigmaTurns before cs after) :
    (meetsCased after = true ∧ SigmaTurns [] cs ['a']) ∨
      (meetsCased before = true ∧ SigmaTurns ['a'] cs []) := by
  obtain ⟨front, back, rfl, hne⟩ := h
  unfold endsWord at hne
  -- A side that is decided within the text looks the same in both surroundings.
  rcases meetsCased_append_cases front.reverse with hfront | ⟨hfront, hopen⟩
  · rw [hfront] at hne
    rcases meetsCased_append_cases back with hback | ⟨hback, hopen⟩
    · rw [hback] at hne
      exact absurd rfl hne
    · rw [hopen, hback] at hne
      have hcased : meetsCased front.reverse = true := by
        by_contra hnot
        simp [hnot] at hne
      have hafter : meetsCased after = true := by
        by_contra hnot
        simp [hcased, hnot] at hne
      refine Or.inl ⟨hafter, front, back, rfl, ?_⟩
      unfold endsWord
      rw [hopen, hback, hfront, hcased, meetsCased_a]
      decide
  · rw [hopen, hfront] at hne
    have hbefore : meetsCased before = true := by
      by_contra hnot
      simp [hnot] at hne
    have hback : meetsCased back = false := by
      rcases meetsCased_append_cases back with hback | ⟨hback, -⟩
      · rw [hback] at hne
        by_contra hnot
        simp [hbefore, hnot] at hne
      · exact hback
    refine Or.inr ⟨hbefore, front, back, rfl, ?_⟩
    unfold endsWord
    rw [hopen, hfront, List.append_nil, hback, meetsCased_a]
    decide

/-! ## Parts of a text -/

section Parts

variable {before cs after : List Char}

theorem lowercaseBetween_eq_alone_iff :
    lowercaseBetween before cs after = lowercaseAfter [] cs ↔ ¬ SigmaTurns before cs after := by
  rw [lowercaseAfter_eq, lowercaseBetween_eq_iff, SigmaTurns]
  simp only [List.append_nil, not_exists, not_and, ne_eq, not_not]

instance : Decidable (SigmaTurns before cs after) :=
  decidable_of_iff (¬ lowercaseBetween before cs after = lowercaseAfter [] cs)
    (not_iff_comm.mp lowercaseBetween_eq_alone_iff.symm)

/-- The lowercase of a text in three parts. -/
theorem lowercaseAfter_parts (before cs after : List Char) :
    lowercaseAfter [] (before ++ cs ++ after) =
      lowercaseBetween [] before (cs ++ after) ++
        (lowercaseBetween before.reverse cs after ++
          lowercaseAfter (cs.reverse ++ before.reverse) after) := by
  rw [List.append_assoc, lowercaseAfter_append, List.append_nil, lowercaseAfter_append]

theorem count_final_lt (h : SigmaTurns [] cs ['a']) :
    (lowercaseAfter [] (cs ++ ['a'])).count 'ς' < (lowercaseAfter [] cs).count 'ς' := by
  have hle : ∀ front back, cs = front ++ 'Σ' :: back →
      endsWord (front.reverse ++ []) (back ++ ['a']) = true →
        endsWord (front.reverse ++ []) (back ++ []) = true := by
    intro front back _ hends
    rw [List.append_nil] at hends
    rw [List.append_nil, List.append_nil]
    unfold endsWord at hends ⊢
    rcases meetsCased_append_cases back with hback | ⟨hback, -⟩
    · rwa [hback] at hends
    · rw [hback, Bool.not_false, Bool.and_true]
      exact (Bool.and_eq_true_iff.mp hends).1
  rcases count_lowercaseBetween_lt hle with heq | ⟨hlt, -⟩
  · rw [← lowercaseAfter_eq, lowercaseBetween_eq_alone_iff] at heq
    exact absurd h heq
  · rw [lowercaseAfter_append, lowercaseAfter_eq, lowercaseAfter_eq [] cs, List.count_append]
    have hletter : List.count 'ς' (lowercaseBetween (cs.reverse ++ []) ['a'] []) = 0 := by
      rw [lowercaseBetween, smallForm_a, lowercaseBetween]
      decide
    omega

theorem count_medial_lt (h : SigmaTurns ['a'] cs []) :
    (lowercaseAfter [] ('a' :: cs)).count 'σ' < (lowercaseAfter [] cs).count 'σ' := by
  have hle : ∀ front back, cs = front ++ 'Σ' :: back →
      endsWord (front.reverse ++ []) (back ++ []) = true →
        endsWord (front.reverse ++ ['a']) (back ++ []) = true := by
    intro front back _ hends
    rw [List.append_nil, List.append_nil] at hends
    rw [List.append_nil]
    unfold endsWord at hends ⊢
    rcases meetsCased_append_cases front.reverse with hfront | ⟨hfront, -⟩
    · rwa [hfront]
    · rw [hfront] at hends
      exact absurd hends (by simp)
  rcases count_lowercaseBetween_lt hle with heq | ⟨-, hlt⟩
  · rw [← lowercaseAfter_eq, eq_comm, lowercaseBetween_eq_alone_iff] at heq
    exact absurd h heq
  · rw [lowercaseAfter_eq, lowercaseBetween, smallForm_a, List.count_append, lowercaseAfter_eq [] cs]
    have hletter : List.count 'σ' ['a'] = 0 := by decide
    omega

end Parts

end Criteria.Text

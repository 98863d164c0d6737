import Criteria.Proofs.Processor.ErrorPolicy
import Criteria.Proofs.Text.Splitting

/-!
# Filters texts in sequence

A comma behind a text cuts it off from what follows, unless the text ends in the middle of an
escape. So two filters texts with a comma between them are the clauses of the one and then those of
the other, and filtering by them is filtering by the first and, if that succeeds, by the second on
the target that the first leaves.
-/

namespace Criteria

theorem FilterTerm.ofFilters_append {f g : String}
    (h : ¬ Odd (f.toList.rtakeWhile (· == Text.escapeChar)).length) :
    ofFilters (f ++ "," ++ g) = ofFilters f ++ ofFilters g := by
  rw [ofFilters, Text.splitChars_comma h, List.filterMap_append]
  rfl

namespace Processor

variable {Q C : Type}

/-- Where failures are reported, filtering by the clauses of two requests is filtering by those of
the first and then by those of the second. -/
theorem apply_of_filters_append {p : Processor Q C} (hthrow : p.options.throwExceptions = true)
    {r r₁ r₂ : Request} (h : r.parse.filters = r₁.parse.filters ++ r₂.parse.filters)
    (context : Option C) (q : Q) :
    p.apply r (.filteringOnly context) q =
      after (p.apply r₁ (.filteringOnly context) q) (p.apply r₂ (.filteringOnly context)) := by
  rw [apply_of_throwing p hthrow, apply_of_throwing p hthrow, plan_filteringOnly,
    plan_filteringOnly, h, List.flatMap_append, interpret_append]
  congr 1
  funext q
  rw [apply_of_throwing p hthrow, plan_filteringOnly]

/-- Filters texts compose. A text that does not end in an odd number of backslashes can be followed
by a comma and another text: read together they give the clauses of both, and where failures are
reported, filtering by them gives the outcome and the target of filtering by the first and, unless
that fails, by the second on the target that it leaves. -/
theorem filters_compose (f g : String)
    (hends : ¬ Odd (f.toList.rtakeWhile (· == Text.escapeChar)).length) :
    FilterTerm.ofFilters (f ++ "," ++ g) = FilterTerm.ofFilters f ++ FilterTerm.ofFilters g ∧
    ∀ (Q C : Type) (p : Processor Q C), p.options.throwExceptions = true →
      ∀ (r : Request) (context : Option C) (q : Q),
        p.apply { r with filters := some (f ++ "," ++ g) } (.filteringOnly context) q =
          after (p.apply { r with filters := some f } (.filteringOnly context) q)
            (p.apply { r with filters := some g } (.filteringOnly context)) := by
  refine ⟨FilterTerm.ofFilters_append hends, ?_⟩
  intro Q C p hthrow r context q
  refine apply_of_filters_append hthrow ?_ context q
  exact FilterTerm.ofFilters_append hends

/-- The first text ends in an escaped backslash, and the second one fails in its middle. -/
theorem filters_compose_journal :
    ¬ Odd ("title==a,recent==b\\\\".toList.rtakeWhile (· == Text.escapeChar)).length ∧
      (journal.reporting true).options.throwExceptions = true ∧
      (journal.reporting true).apply
          { filters := some ("title==a,recent==b\\\\" ++ "," ++ "recent==c,ghost==1,title==d") }
          (.filteringOnly none) [] =
        (.error (.notFound "ghost"), ["group", "b\\", "c"]) := by
  have hends :
      ¬ Odd ("title==a,recent==b\\\\".toList.rtakeWhile (· == Text.escapeChar)).length := by
    decide +kernel
  obtain ⟨-, hcompose⟩ :=
    filters_compose "title==a,recent==b\\\\" "recent==c,ghost==1,title==d" hends
  refine ⟨hends, rfl, ?_⟩
  rw [hcompose _ _ (journal.reporting true) rfl {}]
  decide +kernel

end Processor

end Criteria

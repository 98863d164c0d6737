import Criteria.Proofs.Processor.Interpretation
import Criteria.Record.Query

/-!
# What a plan adds to a query

The steps of a query do not fail, so a plan that calls no method is carried out to its end. All that
it adds to the groups of the query are the groups that it hands over, in order, and those are made
from the clauses of the request, one from each clause that has any condition.
-/

namespace Criteria

variable {C : Type}

/-! ## Processors without methods -/

/-- Every registered name is declared only. -/
def Registry.Codeless {H : Type} (r : Registry H) : Prop :=
  ∀ entry ∈ r.entries, ∃ kind, entry.2 = .declared kind

theorem Registry.Codeless.find? {H : Type} {r : Registry H} (h : r.Codeless) (name : String)
    (caseSensitive : Bool) : r.find? name caseSensitive = none := by
  rw [Registry.find?, List.findSome?_eq_none_iff]
  rintro ⟨key, slot⟩ hentry
  obtain ⟨kind, rfl⟩ := h (key, slot) hentry
  rfl

/-- A processor of queries that calls no method and reports no failure. -/
structure Processor.Plain (p : Processor Query C) : Prop where
  backend : p.backend = Query.backend
  filters : p.filters.Codeless
  sorts : p.sorts.Codeless
  quiet : p.options.throwExceptions = false

namespace Step

variable {Q : Type}

def isCall : Step Q C → Bool
  | filter .. | sort .. => true
  | _ => false

/-- The groups that a step hands over. -/
def groups : Step Q C → List (List Condition)
  | group conditions => [conditions]
  | _ => []

end Step

namespace Processor

section Plans

variable {p : Processor Query C} (h : p.Plain)
include h

/-- A step without a call succeeds and hands over its groups. -/
theorem perform_of_plain {step : Step Query C} (hstep : step.isCall = false) (q : Query) :
    ∃ q', p.perform step q = (.ok (), q') ∧ q'.groups = q.groups ++ step.groups := by
  have hpassed : ∀ {H : Type} (name : String) (methods : Registry H),
      p.passedOver name methods q = (.ok (), q) := by
    intro H name methods
    rw [passedOver, h.quiet]
    rfl
  cases step with
  | filter | sort => exact absurd hstep Bool.noConfusion
  | unresolvedFilter name => exact ⟨q, hpassed name p.filters, (List.append_nil _).symm⟩
  | unresolvedSort name => exact ⟨q, hpassed name p.sorts, (List.append_nil _).symm⟩
  | group conditions =>
    rw [perform, h.backend]
    exact ⟨q.andGroup conditions, rfl, rfl⟩
  | sorts keys =>
    rw [perform, h.backend]
    exact ⟨_, rfl, (List.append_nil _).symm⟩
  | page page =>
    rw [perform, h.backend]
    exact ⟨q.paginate page, rfl, (List.append_nil _).symm⟩

/-- A plan without calls succeeds and hands over its groups in order. -/
theorem interpret_of_plain {steps : List (Step Query C)} (hsteps : ∀ s ∈ steps, s.isCall = false)
    (q : Query) :
    ∃ q', p.interpret steps q = (.ok (), q') ∧
      q'.groups = q.groups ++ steps.flatMap Step.groups := by
  induction steps generalizing q with
  | nil => exact ⟨q, rfl, (List.append_nil _).symm⟩
  | cons step rest ih =>
    rw [List.forall_mem_cons] at hsteps
    obtain ⟨q₁, hperform, hgroups⟩ := perform_of_plain h hsteps.1 q
    obtain ⟨q₂, hinterpret, hgroups'⟩ := ih hsteps.2 q₁
    refine ⟨q₂, ?_, ?_⟩
    · rw [interpret, hperform]
      exact hinterpret
    · rw [hgroups', hgroups, List.flatMap_cons, List.append_assoc]

/-- A processor without methods plans no calls. -/
theorem isCall_of_mem_plan (r : ParsedRequest) (phases : Phases C) :
    ∀ step ∈ p.plan r phases, step.isCall = false := by
  refine forall_mem_plan ?_ (fun _ _ => rfl) ?_ rfl (fun _ _ => rfl)
  · intro t _ name _ _
    rw [nameStep, h.filters.find?]
    rfl
  · intro t _ _ thenBy
    rw [sortStep, h.sorts.find?]
    rfl

end Plans

/-! ## The groups of a plan -/

variable (p : Processor Query C)

theorem groups_namesPlan (context : Option C) (term : FilterTerm) (names : List String) :
    (p.namesPlan context term names).flatMap Step.groups = [] := by
  rw [List.flatMap_eq_nil_iff]
  intro step hstep
  obtain ⟨name, -, rfl⟩ := List.mem_map.mp hstep
  unfold nameStep
  split <;> rfl

theorem groups_sortsPlan (context : Option C) (terms : List SortTerm) :
    (p.sortsPlan context terms).flatMap Step.groups = [] := by
  rw [List.flatMap_eq_nil_iff]
  intro step hstep
  rcases mem_sortsPlan hstep with ⟨t, -, -, thenBy, rfl⟩ | rfl
  · unfold sortStep
    split <;> rfl
  · rfl

/-- A clause hands over its conditions in one group, and none if it has no condition. -/
theorem mem_groups_termPlan {context : Option C} {term : FilterTerm} {group : List Condition} :
    group ∈ (p.termPlan context term).flatMap Step.groups ↔
      group = p.conditionsOf term term.names ∧ group ≠ [] := by
  rw [termPlan, List.flatMap_append, groups_namesPlan, List.nil_append]
  split
  · next hnil =>
    rw [List.flatMap_nil, hnil]
    simp
  · next hne =>
    rw [List.flatMap_singleton, Step.groups, List.mem_singleton]
    constructor
    · rintro rfl
      exact ⟨rfl, hne⟩
    · rintro ⟨rfl, -⟩
      rfl

/-- The groups of a request that filters are those of its clauses. -/
theorem mem_groups_plan {r : ParsedRequest} {phases : Phases C} (hon : phases.filtering = true)
    {group : List Condition} :
    group ∈ (p.plan r phases).flatMap Step.groups ↔
      ∃ t ∈ r.filters, group = p.conditionsOf t t.names ∧ group ≠ [] := by
  have hsorts : (if phases.sorting then p.sortsPlan phases.context r.sorts else []).flatMap
      Step.groups = [] := by
    split
    · exact p.groups_sortsPlan _ _
    · rfl
  have hpage : (if phases.pagination then p.pagePlan r else []).flatMap Step.groups = [] := by
    split
    · rw [pagePlan, List.flatMap_map]
      simp [Step.groups]
    · rfl
  rw [plan, List.flatMap_append, List.flatMap_append, hsorts, hpage, hon, if_pos rfl,
    List.append_nil, List.append_nil, List.flatMap_assoc, List.mem_flatMap]
  simp only [mem_groups_termPlan]

end Processor

end Criteria

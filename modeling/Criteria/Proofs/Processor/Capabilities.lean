import Criteria.Proofs.Processor.Recording

/-!
# Fields without leave

A field is looked up for a use, and one that does not allow the use is passed over, whatever its
name. So a run that filters has the same plan as if the fields that filters may not name were not
there, and with the same plan it does the same; likewise for a run that sorts. What is handed over
is made of fields that allow the use and have a name that the request gives.
-/

namespace Criteria

variable {Q C : Type}

namespace Processor

variable (p : Processor Q C)

/-- The processor without the fields that do not allow a use. -/
def restrictedTo (use : Capability) : Processor Q C :=
  { p with fields := ⟨p.fields.fields.filter (·.allows use)⟩ }

/-! ## The plan of a restricted processor -/

theorem find?_restrictedTo (use : Capability) (name : String) (caseSensitive : Bool) :
    (p.restrictedTo use).fields.find? name use caseSensitive =
      p.fields.find? name use caseSensitive := by
  rw [restrictedTo, FieldTable.find?, FieldTable.find?, List.find?_filter]
  congr 1
  funext f
  cases f.allows use <;> simp

theorem filterField?_restrictedTo : (p.restrictedTo .filter).filterField? = p.filterField? :=
  funext fun name => p.find?_restrictedTo .filter name _

theorem sortField?_restrictedTo : (p.restrictedTo .sort).sortField? = p.sortField? :=
  funext fun name => p.find?_restrictedTo .sort name _

theorem termPlan_restrictedTo (context : Option C) (term : FilterTerm) :
    (p.restrictedTo .filter).termPlan context term = p.termPlan context term := by
  have hconditions : (p.restrictedTo .filter).conditionsOf term term.names =
      p.conditionsOf term term.names := by
    rw [conditionsOf, filterField?_restrictedTo]
    rfl
  rw [termPlan, namesPlan, hconditions, filterField?_restrictedTo]
  rfl

theorem sortsPlan_restrictedTo (context : Option C) (terms : List SortTerm) :
    (p.restrictedTo .sort).sortsPlan context terms = p.sortsPlan context terms := by
  rw [sortsPlan, sortCallsFrom, keysOf, sortField?_restrictedTo]
  rfl

theorem plan_restrictedTo_filter (r : ParsedRequest) (context : Option C) :
    (p.restrictedTo .filter).plan r (.filteringOnly context) =
      p.plan r (.filteringOnly context) := by
  rw [plan_filteringOnly, plan_filteringOnly]
  congr 1
  funext term
  exact p.termPlan_restrictedTo context term

theorem plan_restrictedTo_sort (r : ParsedRequest) (context : Option C) :
    (p.restrictedTo .sort).plan r (.sortingOnly context) = p.plan r (.sortingOnly context) := by
  rw [plan_sortingOnly, plan_sortingOnly]
  exact p.sortsPlan_restrictedTo context r.sorts

/-! ## The run of a restricted processor -/

/-- What a step does, it does without regard to the fields. -/
theorem interpret_restrictedTo (use : Capability) (steps : List (Step Q C)) (q : Q) :
    (p.restrictedTo use).interpret steps q = p.interpret steps q := by
  have hperform : (p.restrictedTo use).perform = p.perform := by
    funext step q
    cases step <;> rfl
  induction steps generalizing q with
  | nil => rfl
  | cons step rest ih =>
    rw [interpret, interpret, hperform]
    congr 1
    funext q
    exact ih q

theorem apply_restrictedTo {use : Capability} {r : Request} {phases : Phases C}
    (hplan : (p.restrictedTo use).plan r.parse phases = p.plan r.parse phases) (q : Q) :
    (p.restrictedTo use).apply r phases q = p.apply r phases q := by
  have hrun : ((p.restrictedTo use).run r.parse phases).runOn q =
      (p.run r.parse phases).runOn q := by
    rw [runOn_run, runOn_run, hplan, interpret_restrictedTo]
  rw [apply, apply, hrun]
  rfl

/-- Recording keeps the fields as they are, so a restricted processor records the same calls. -/
theorem calls_restrictedTo {use : Capability} {r : Request} {phases : Phases C}
    (hplan : (p.recorded.restrictedTo use).plan r.parse phases = p.recorded.plan r.parse phases)
    (q : Q) : (p.restrictedTo use).calls r phases q = p.calls r phases q :=
  congrArg (·.2.2) (p.recorded.apply_restrictedTo hplan (q, []))

/-! ## What is handed over -/

/-- A call is permitted if what it hands over comes from the request through fields that allow it.
The conditions of a group are those of one clause, each for a field to filter by that has a name of
the clause; a key is that of a sort term, for a field to sort by that has the name of the term. -/
def Permitted (r : ParsedRequest) : Call C → Prop
  | .group conditions => ∃ t ∈ r.filters, ∀ c ∈ conditions, ∃ f ∈ p.fields.fields,
      f.canFilter = true ∧ c.field = f.path ∧
        (∃ n ∈ t.names, namesAgree p.options.caseSensitive f.name n = true) ∧
        ∃ v ∈ t.values, Condition.build t f v p.options.ignoreNullsOnNotEqual = c
  | .sorts keys => ∀ key ∈ keys, ∃ t ∈ r.sorts, ∃ f ∈ p.fields.fields,
      f.canSort = true ∧ key.field = f.path ∧
        namesAgree p.options.caseSensitive f.name t.name = true ∧ key.descending = t.descending
  | .filter .. | .sort .. | .page .. => True

theorem permitted_group {r : ParsedRequest} {t : FilterTerm} (ht : t ∈ r.filters) :
    p.Permitted r (.group (p.conditionsOf t t.names)) := by
  refine ⟨t, ht, fun c hc => ?_⟩
  obtain ⟨n, hn, f, hfield, v, hv, rfl⟩ := p.mem_conditionsOf.mp hc
  obtain ⟨hname, hallows⟩ := FieldTable.find?_some hfield
  exact ⟨f, FieldTable.mem_of_find? hfield, hallows, rfl, ⟨n, hn, hname⟩, v, hv, rfl⟩

theorem permitted_sorts (r : ParsedRequest) : p.Permitted r (.sorts (p.keysOf r.sorts)) := by
  intro key hkey
  obtain ⟨t, ht, f, hfield, rfl⟩ := p.mem_keysOf.mp hkey
  obtain ⟨hname, hallows⟩ := FieldTable.find?_some hfield
  exact ⟨t, ht, f, FieldTable.mem_of_find? hfield, hallows, rfl, hname, rfl⟩

/-- Every call of a plan is permitted. -/
theorem permitted_of_mem_plan (r : ParsedRequest) (phases : Phases C) :
    ∀ step ∈ p.plan r phases, ∀ call ∈ p.callOf step, p.Permitted r call := by
  refine forall_mem_plan ?_ ?_ ?_ ?_ ?_
  · intro t _ name _ _ call hcall
    unfold nameStep at hcall
    split at hcall
    · obtain rfl := Option.some.inj hcall
      trivial
    · exact absurd hcall (by simp [callOf])
  · intro t ht call hcall
    obtain rfl := Option.some.inj hcall
    exact p.permitted_group ht
  · intro t _ _ thenBy call hcall
    unfold sortStep at hcall
    split at hcall
    · obtain rfl := Option.some.inj hcall
      trivial
    · exact absurd hcall (by simp [callOf])
  · intro call hcall
    obtain rfl := Option.some.inj hcall
    exact p.permitted_sorts r
  · intro _ page call hcall
    obtain rfl := Option.some.inj hcall
    trivial

/-- A call that is made is that of a step. -/
theorem exists_step_of_mem_trace {steps : List (Step Q C)} {q : Q} {c : CallOn Q C}
    (h : c ∈ p.trace steps q) : ∃ step ∈ steps, c.call ∈ p.callOf step := by
  induction steps generalizing q with
  | nil => exact absurd h List.not_mem_nil
  | cons step rest ih =>
    rw [trace, List.mem_append] at h
    rcases h with h | h
    · obtain ⟨call, hcall, rfl⟩ := List.mem_map.mp h
      exact ⟨step, List.mem_cons_self, Option.mem_toList.mp hcall⟩
    · split at h
      · obtain ⟨step', hstep', hcall⟩ := ih h
        exact ⟨step', List.mem_cons_of_mem step hstep', hcall⟩
      · exact absurd h List.not_mem_nil

/-- A field that does not allow a use might as well not be there. Filtering makes the same calls on
the same targets, and has the same outcome and leaves the same target, as without the fields that
filters may not name, whatever these are; and so does sorting as without the fields that sorts may
not name. In particular every condition that is handed over is for a field to filter by that has a
name of its clause, and every sort key for a field to sort by that has the name of its term. -/
theorem runs_respect_capabilities (p : Processor Q C) (r : Request) (q : Q) :
    (∀ context : Option C,
      (p.restrictedTo .filter).calls r (.filteringOnly context) q =
        p.calls r (.filteringOnly context) q ∧
      (p.restrictedTo .filter).apply r (.filteringOnly context) q =
        p.apply r (.filteringOnly context) q) ∧
    (∀ context : Option C,
      (p.restrictedTo .sort).calls r (.sortingOnly context) q =
        p.calls r (.sortingOnly context) q ∧
      (p.restrictedTo .sort).apply r (.sortingOnly context) q =
        p.apply r (.sortingOnly context) q) ∧
    ∀ phases, ∀ c ∈ p.calls r phases q, p.Permitted r.parse c.call := by
  refine ⟨fun context => ⟨?_, ?_⟩, fun context => ⟨?_, ?_⟩, ?_⟩
  · exact p.calls_restrictedTo (p.recorded.plan_restrictedTo_filter r.parse context) q
  · exact p.apply_restrictedTo (p.plan_restrictedTo_filter r.parse context) q
  · exact p.calls_restrictedTo (p.recorded.plan_restrictedTo_sort r.parse context) q
  · exact p.apply_restrictedTo (p.plan_restrictedTo_sort r.parse context) q
  · intro phases c hc
    rw [calls_eq_trace] at hc
    obtain ⟨step, hstep, hcall⟩ := p.exists_step_of_mem_trace hc
    exact p.permitted_of_mem_plan r.parse phases step hstep c.call hcall

end Processor

end Criteria

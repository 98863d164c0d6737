import Criteria.Proofs.Processor.Plan

/-!
# A run carries out its plan

Each part of a run is shown to carry out its part of the plan and to give back what the next part
needs: the conditions of the names that were resolved, and the keys that were collected. The
invariant of the loop over the sort keys is that the collected keys are those of the terms before.
-/

namespace Criteria

variable {Q C : Type}

/-! ## Outcomes in sequence -/

theorem after_assoc {α : Type} (outcome : Except Failure Unit × Q)
    (next : Q → Except Failure Unit × Q) (last : Q → Except Failure α × Q) :
    after (after outcome next) last = after outcome fun q => after (next q) last := by
  obtain ⟨_ | _, _⟩ := outcome <;> rfl

theorem after_pure (outcome : Except Failure Unit × Q) :
    after outcome (fun q => (.ok (), q)) = outcome := by
  obtain ⟨_ | _, _⟩ := outcome <;> rfl

theorem eq_ok_of_isOk {ε : Type} (outcome : Except ε Unit) (h : outcome.isOk = true) :
    outcome = .ok () := by
  cases outcome with
  | ok => rfl
  | error => exact absurd h Bool.false_ne_true

theorem runOn_bind_unit {α : Type} (x : Action Q Failure Unit) (f : Unit → Action Q Failure α)
    (q : Q) : Action.runOn (x >>= f) q = after (x.runOn q) fun q => (f ()).runOn q := by
  rw [Action.runOn_bind]
  obtain ⟨_ | _, _⟩ := x.runOn q <;> rfl

theorem runOn_adapt {ε ε' : Type} (f : ε → ε') (action : Action Q ε Unit) (q : Q) :
    Action.runOn (action.adapt f) q =
      match action.runOn q with
      | (.ok (), q) => (.ok (), q)
      | (.error e, q) => (.error (f e), q) := by
  show ((Except.mapError f (action.run q).1), (action.run q).2) = _
  unfold Action.runOn
  generalize action.run q = outcome
  obtain ⟨answer, q⟩ := outcome
  cases answer <;> rfl

namespace Processor

variable (p : Processor Q C)

theorem interpret_append (front back : List (Step Q C)) (q : Q) :
    p.interpret (front ++ back) q = after (p.interpret front q) (p.interpret back) := by
  induction front generalizing q with
  | nil => rfl
  | cons step rest ih =>
    rw [List.cons_append, interpret, interpret, after_assoc]
    congr 1
    funext q
    exact ih q

theorem interpret_singleton (step : Step Q C) (q : Q) :
    p.interpret [step] q = p.perform step q := after_pure _

/-! ## Single steps -/

theorem runOn_backendStep (action : Action Q Refusal Unit) (q : Q) :
    (backendStep action).runOn q = refusable action q := by
  rw [backendStep, runOn_adapt]
  unfold refusable
  obtain ⟨_ | _, _⟩ := action.runOn q <;> rfl

theorem runOn_methodStep (name : String) (action : Action Q MethodError Unit) (q : Q) :
    (methodStep name action).runOn q = called name action q := by
  rw [methodStep, runOn_adapt]
  unfold called
  obtain ⟨(_ | _) | _, _⟩ := action.runOn q <;> rfl

theorem runOn_unresolved {H : Type} (name : String) (methods : Registry H) (q : Q) :
    (p.unresolved name methods).runOn q = p.passedOver name methods q := by
  unfold unresolved passedOver
  cases p.options.throwExceptions with
  | false => rfl
  | true => cases methods.declaredKind? name p.options.caseSensitive <;> rfl

/-! ## Filtering -/

/-- Resolving a name carries out its step, or gives the conditions of its field. -/
theorem runOn_resolveName (context : Option C) (term : FilterTerm) (name : String) (q : Q) :
    (p.resolveName context term name).runOn q =
      after (p.interpret (p.namesPlan context term [name]) q) fun q =>
        (.ok (p.conditionsOf term [name]), q) := by
  unfold resolveName
  cases hfield : p.filterField? name with
  | some f =>
    have hplan : p.namesPlan context term [name] = [] := by simp [namesPlan, hfield]
    have hconds : p.conditionsOf term [name] = p.conditionsFor term f := by
      simp [conditionsOf, conditionsFor, hfield]
    rw [filterField?] at hfield
    rw [hfield, hplan, hconds]
    rfl
  | none =>
    have hplan : p.namesPlan context term [name] = [p.nameStep context term name] := by
      simp [namesPlan, hfield]
    have hconds : p.conditionsOf term [name] = [] := by simp [conditionsOf, hfield]
    rw [filterField?] at hfield
    rw [hfield, hplan, hconds, interpret_singleton, nameStep]
    cases p.filters.find? name p.options.caseSensitive with
    | some method => rw [runOn_bind_unit, runOn_methodStep]; rfl
    | none => rw [runOn_bind_unit, runOn_unresolved]; rfl

theorem namesPlan_cons (context : Option C) (term : FilterTerm) (name : String)
    (rest : List String) :
    p.namesPlan context term (name :: rest) =
      p.namesPlan context term [name] ++ p.namesPlan context term rest := by
  rw [namesPlan, ← List.singleton_append, List.filter_append, List.map_append]
  rfl

theorem conditionsOf_cons (term : FilterTerm) (name : String) (rest : List String) :
    p.conditionsOf term (name :: rest) =
      p.conditionsOf term [name] ++ p.conditionsOf term rest := by
  rw [conditionsOf, ← List.singleton_append, List.filterMap_append, List.flatMap_append]
  rfl

/-- Resolving the names of a clause carries out their steps and gives the conditions of their
fields. -/
theorem runOn_resolveNames (context : Option C) (term : FilterTerm) (names : List String) (q : Q) :
    (p.resolveNames context term names).runOn q =
      after (p.interpret (p.namesPlan context term names) q) fun q =>
        (.ok (p.conditionsOf term names), q) := by
  induction names generalizing q with
  | nil => rfl
  | cons name rest ih =>
    rw [resolveNames, Action.runOn_bind, runOn_resolveName, p.namesPlan_cons context term name rest,
      p.conditionsOf_cons term name rest, interpret_append, after_assoc]
    obtain ⟨e | ⟨⟩, q'⟩ := p.interpret (p.namesPlan context term [name]) q
    · rfl
    · dsimp only [after]
      rw [Action.runOn_bind, ih]
      obtain ⟨e | ⟨⟩, q''⟩ := p.interpret (p.namesPlan context term rest) q' <;> rfl

theorem runOn_applyTerm (context : Option C) (term : FilterTerm) (q : Q) :
    (p.applyTerm context term).runOn q = p.interpret (p.termPlan context term) q := by
  rw [applyTerm, termPlan, Action.runOn_bind, runOn_resolveNames, interpret_append]
  obtain ⟨e | ⟨⟩, q'⟩ := p.interpret (p.namesPlan context term term.names) q
  · rfl
  · dsimp only [after]
    cases hconds : p.conditionsOf term term.names with
    | nil => rfl
    | cons c rest =>
      rw [List.isEmpty_cons, if_neg Bool.false_ne_true, if_neg (List.cons_ne_nil c rest),
        interpret_singleton, runOn_backendStep]
      rfl

theorem runOn_applyFilters (context : Option C) (terms : List FilterTerm) (q : Q) :
    (p.applyFilters context terms).runOn q =
      p.interpret (terms.flatMap (p.termPlan context)) q := by
  induction terms generalizing q with
  | nil => rfl
  | cons term rest ih =>
    rw [applyFilters, runOn_bind_unit, runOn_applyTerm, List.flatMap_cons, interpret_append]
    congr 1
    funext q
    exact ih q

/-! ## Sorting -/

/-- There are keys exactly if some term is a field to sort by. -/
theorem isEmpty_keysOf (terms : List SortTerm) :
    (p.keysOf terms).isEmpty = !terms.any fun t => (p.sortField? t.name).isSome := by
  induction terms with
  | nil => rfl
  | cons t rest ih =>
    rw [keysOf] at ih ⊢
    cases hfield : p.sortField? t.name with
    | none => simpa [hfield] using ih
    | some f => simp [hfield]

theorem keysOf_take_succ {terms rest : List SortTerm} {n : Nat} {t : SortTerm}
    (h : terms.drop n = t :: rest) :
    p.keysOf (terms.take (n + 1)) =
      p.keysOf (terms.take n) ++
        ((p.sortField? t.name).map fun f => (⟨f.path, t.descending⟩ : SortSpec)).toList := by
  have hget : terms[n]? = some t := by
    rw [← List.head?_drop, h, List.head?_cons]
  rw [List.take_add_one, hget, keysOf, List.filterMap_append]
  cases hfield : p.sortField? t.name <;> simp [keysOf, hfield]

theorem sortCallsFrom_eq {terms rest : List SortTerm} {n : Nat} {t : SortTerm}
    (h : terms.drop n = t :: rest) (context : Option C) :
    p.sortCallsFrom context terms n =
      (if (p.sortField? t.name).isSome then []
        else [p.sortStep context (!(p.keysOf (terms.take n)).isEmpty) t]) ++
        p.sortCallsFrom context terms (n + 1) := by
  have hrest : terms.drop (n + 1) = rest := by
    rw [← List.drop_drop, h, List.drop_one, List.tail_cons]
  rw [sortCallsFrom, h, List.zipIdx_cons, List.filterMap_cons, sortCallsFrom, hrest,
    isEmpty_keysOf, Bool.not_not]
  cases hfield : p.sortField? t.name <;> simp [hfield]

/-- Resolving the sort keys from the place `n` on, with the keys of the terms before collected,
carries out the calls from there on and gives the keys of all terms. -/
theorem runOn_resolveSorts (context : Option C) (terms : List SortTerm) (n : Nat) (q : Q) :
    (p.resolveSorts context (p.keysOf (terms.take n)) (terms.drop n)).runOn q =
      after (p.interpret (p.sortCallsFrom context terms n) q) fun q =>
        (.ok (p.keysOf terms), q) := by
  induction hdrop : terms.drop n generalizing n q with
  | nil =>
    have htake : terms.take n = terms := List.take_of_length_le (List.drop_eq_nil_iff.mp hdrop)
    have hcalls : p.sortCallsFrom context terms n = [] := by simp [sortCallsFrom, hdrop]
    rw [htake, hcalls]
    rfl
  | cons t rest ih =>
    have hrest : terms.drop (n + 1) = rest := by
      rw [← List.drop_drop, hdrop, List.drop_one, List.tail_cons]
    have hkeys := p.keysOf_take_succ hdrop
    rw [p.sortCallsFrom_eq hdrop, resolveSorts]
    cases hfield : p.sortField? t.name with
    | some f =>
      rw [hfield] at hkeys
      rw [sortField?] at hfield
      rw [hfield]
      simp only [Option.map_some, Option.toList_some] at hkeys
      simp only [Option.isSome_some, ↓reduceIte, List.nil_append]
      rw [← hkeys]
      exact ih (n + 1) q hrest
    | none =>
      have hsame : p.keysOf (terms.take (n + 1)) = p.keysOf (terms.take n) := by
        simpa [hfield] using hkeys
      have hnext := fun q => ih (n + 1) q hrest
      rw [hsame] at hnext
      rw [sortField?] at hfield
      rw [hfield]
      simp only [Option.isSome_none, Bool.false_eq_true, ↓reduceIte]
      rw [interpret_append, interpret_singleton, after_assoc, sortStep]
      cases p.sorts.find? t.name p.options.caseSensitive with
      | some method =>
        simp only [runOn_bind_unit, runOn_methodStep, hnext]
        rfl
      | none =>
        simp only [runOn_bind_unit, runOn_unresolved, hnext]
        rfl

theorem runOn_applySorts (context : Option C) (terms : List SortTerm) (q : Q) :
    (p.applySorts context terms).runOn q = p.interpret (p.sortsPlan context terms) q := by
  have hresolve := p.runOn_resolveSorts context terms 0 q
  rw [applySorts, sortsPlan, Action.runOn_bind]
  rw [List.take_zero, List.drop_zero] at hresolve
  rw [show p.resolveSorts context [] terms = p.resolveSorts context (p.keysOf []) terms from rfl,
    hresolve, interpret_append]
  obtain ⟨e | ⟨⟩, q'⟩ := p.interpret (p.sortCallsFrom context terms 0) q
  · rfl
  · dsimp only [after]
    cases hkeys : p.keysOf terms with
    | nil => rfl
    | cons key rest =>
      rw [List.isEmpty_cons, if_neg Bool.false_ne_true, if_neg (List.cons_ne_nil key rest),
        interpret_singleton, runOn_backendStep]
      rfl

/-! ## The whole run -/

theorem runOn_applyPage (r : ParsedRequest) (q : Q) :
    (p.applyPage r).runOn q = p.interpret (p.pagePlan r) q := by
  unfold applyPage pagePlan
  cases p.resolvePage r.page r.pageSize with
  | none => rfl
  | some page => exact (runOn_backendStep _ q).trans (p.interpret_singleton (.page page) q).symm

theorem runOn_phase (wanted : Bool) {action : Action Q Failure Unit} {steps : List (Step Q C)}
    (h : ∀ q, action.runOn q = p.interpret steps q) (q : Q) :
    Action.runOn (if wanted then action else pure ()) q =
      p.interpret (if wanted then steps else []) q := by
  cases wanted with
  | false => rfl
  | true => exact h q

/-- A run carries out the plan of its request. -/
theorem runOn_run (r : ParsedRequest) (phases : Phases C) (q : Q) :
    (p.run r phases).runOn q = p.interpret (p.plan r phases) q := by
  have hrun : p.run r phases =
      (if phases.filtering then p.applyFilters phases.context r.filters else pure ()) >>= fun _ =>
        (if phases.sorting then p.applySorts phases.context r.sorts else pure ()) >>= fun _ =>
          if phases.pagination then p.applyPage r else pure () := by
    unfold run
    cases phases.filtering <;> cases phases.sorting <;> rfl
  rw [hrun, plan, interpret_append, interpret_append, after_assoc, runOn_bind_unit,
    p.runOn_phase _ (p.runOn_applyFilters _ _)]
  congr 1
  funext q
  rw [runOn_bind_unit, p.runOn_phase _ (p.runOn_applySorts _ _)]
  congr 1
  funext q
  exact p.runOn_phase _ (p.runOn_applyPage r) q

/-- The target ends as the plan leaves it, whether failures are reported or not. -/
theorem apply_snd (r : Request) (phases : Phases C) (q : Q) :
    (p.apply r phases q).2 = (p.interpret (p.plan r.parse phases) q).2 := by
  rw [← runOn_run]
  rfl

/-- Where failures are reported, the outcome is that of the plan. -/
theorem apply_of_throwing (h : p.options.throwExceptions = true) (r : Request) (phases : Phases C)
    (q : Q) : p.apply r phases q = p.interpret (p.plan r.parse phases) q := by
  rw [← runOn_run]
  exact Prod.ext (if_pos h) rfl

/-- Carrying out a request is carrying out its plan, which is made without the target: the target
ends as the steps up to the first failure leave it, and that failure is reported if the options say
so. -/
theorem apply_eq_interpret_plan (r : Request) (phases : Phases C) (q : Q) :
    p.apply r phases q =
      (if p.options.throwExceptions then (p.interpret (p.plan r.parse phases) q).1 else .ok (),
        (p.interpret (p.plan r.parse phases) q).2) := by
  rw [← runOn_run]
  rfl

end Processor

end Criteria

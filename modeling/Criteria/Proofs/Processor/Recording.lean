import Criteria.Proofs.Processor.Interpretation

/-!
# Recording the calls of a run

What a run does to the outside are the calls of the backend and of the methods. A processor can be
made to record them: its backend and its methods do what they did before, but first note in a log
what they are called with and the target they are called on. Recording changes nothing about a run,
and the log is what the plan of the request says.
-/

namespace Criteria

variable {Q C : Type}

/-! ## Processors that record -/

/-- What the backend or a method is called with. A method has the name that it is registered under. -/
inductive Call (C : Type) where
  | filter (name : String) (call : FilterCall C)
  | group (conditions : List Condition)
  | sort (name : String) (call : SortCall C)
  | sorts (keys : List SortSpec)
  | page (page : Page)

/-- A call and the target it is made on. -/
structure CallOn (Q C : Type) where
  call : Call C
  target : Q

/-- A target with the calls that were made on it. -/
abbrev Logged (Q C : Type) : Type := Q × List (CallOn Q C)

/-- Notes a call, and then acts on the target alone. -/
def noted {ε : Type} (call : Call C) (action : Action Q ε Unit) : Action (Logged Q C) ε Unit :=
  ExceptT.mk fun s => ((action.runOn s.1).1, (action.runOn s.1).2, s.2 ++ [⟨call, s.1⟩])

theorem runOn_noted {ε : Type} (call : Call C) (action : Action Q ε Unit) (s : Logged Q C) :
    (noted call action).runOn s =
      ((action.runOn s.1).1, (action.runOn s.1).2, s.2 ++ [⟨call, s.1⟩]) := rfl

namespace Registry

variable {H H' : Type}

/-- The name of the entry of which the code is found. -/
def keyOf (r : Registry H) (name : String) (caseSensitive : Bool) : String :=
  (r.entries.findSome? fun (key, slot) =>
    match slot with
    | .handler _ => if namesAgree caseSensitive key name then some key else none
    | .declared _ => none).getD name

/-- Changes the code of every entry. -/
def mapCode (f : String → H → H') (r : Registry H) : Registry H' :=
  ⟨r.entries.map fun (key, slot) =>
    match slot with
    | .handler h => (key, .handler (f key h))
    | .declared kind => (key, .declared kind)⟩

theorem find?_mapCode (f : String → H → H') (r : Registry H) (name : String)
    (caseSensitive : Bool) :
    (r.mapCode f).find? name caseSensitive =
      (r.find? name caseSensitive).map (f (r.keyOf name caseSensitive)) := by
  obtain ⟨entries⟩ := r
  induction entries with
  | nil => rfl
  | cons entry rest ih =>
    obtain ⟨key, slot⟩ := entry
    unfold mapCode find? keyOf at ih ⊢
    cases slot with
    | declared kind => simpa using ih
    | handler h =>
      by_cases hname : namesAgree caseSensitive key name = true
      · simp [hname]
      · simpa [hname] using ih

theorem declaredKind?_mapCode (f : String → H → H') (r : Registry H) (name : String)
    (caseSensitive : Bool) :
    (r.mapCode f).declaredKind? name caseSensitive = r.declaredKind? name caseSensitive := by
  obtain ⟨entries⟩ := r
  induction entries with
  | nil => rfl
  | cons entry rest ih =>
    obtain ⟨key, slot⟩ := entry
    unfold mapCode declaredKind? at ih ⊢
    cases slot with
    | handler h => simpa using ih
    | declared kind =>
      by_cases hname : namesAgree caseSensitive key name = true
      · simp [hname]
      · simpa [hname] using ih

end Registry

namespace Processor

variable (p : Processor Q C)

/-- The processor that records the calls it makes. -/
def recorded : Processor (Logged Q C) C where
  options := p.options
  fields := p.fields
  backend :=
    { applyGroup := fun conditions => noted (.group conditions) (p.backend.applyGroup conditions)
      applySorts := fun keys => noted (.sorts keys) (p.backend.applySorts keys)
      applyPage := fun page => noted (.page page) (p.backend.applyPage page) }
  filters := p.filters.mapCode fun key method call => noted (.filter key call) (method call)
  sorts := p.sorts.mapCode fun key method call => noted (.sort key call) (method call)

theorem options_recorded : p.recorded.options = p.options := rfl

/-- The calls that carrying out a request makes, with the targets they are made on. -/
def calls (r : Request) (phases : Phases C) (q : Q) : List (CallOn Q C) :=
  (p.recorded.apply r phases (q, [])).2.2

/-! ## The plan of a processor that records -/

/-- A step with its method made to record. -/
def noteStep : Step Q C → Step (Logged Q C) C
  | .filter name method call =>
    .filter name
      (fun call => noted (.filter (p.filters.keyOf name p.options.caseSensitive) call) (method call))
      call
  | .unresolvedFilter name => .unresolvedFilter name
  | .group conditions => .group conditions
  | .sort name method call =>
    .sort name
      (fun call => noted (.sort (p.sorts.keyOf name p.options.caseSensitive) call) (method call))
      call
  | .unresolvedSort name => .unresolvedSort name
  | .sorts keys => .sorts keys
  | .page page => .page page

theorem nameStep_recorded (context : Option C) (term : FilterTerm) (name : String) :
    p.recorded.nameStep context term name = p.noteStep (p.nameStep context term name) := by
  unfold nameStep
  have hfind : p.recorded.filters.find? name p.recorded.options.caseSensitive = _ :=
    Registry.find?_mapCode _ p.filters name p.options.caseSensitive
  rw [hfind]
  cases p.filters.find? name p.options.caseSensitive <;> rfl

theorem sortStep_recorded (context : Option C) (thenBy : Bool) (term : SortTerm) :
    p.recorded.sortStep context thenBy term = p.noteStep (p.sortStep context thenBy term) := by
  unfold sortStep
  have hfind : p.recorded.sorts.find? term.name p.recorded.options.caseSensitive = _ :=
    Registry.find?_mapCode _ p.sorts term.name p.options.caseSensitive
  rw [hfind]
  cases p.sorts.find? term.name p.options.caseSensitive <;> rfl

theorem termPlan_recorded (context : Option C) (term : FilterTerm) :
    p.recorded.termPlan context term = (p.termPlan context term).map p.noteStep := by
  have hnames : p.recorded.namesPlan context term term.names =
      (p.namesPlan context term term.names).map p.noteStep := by
    rw [namesPlan, namesPlan, List.map_map]
    exact List.map_congr_left fun name _ => p.nameStep_recorded context term name
  rw [termPlan, termPlan, List.map_append, hnames]
  congr 1
  show (if p.conditionsOf term term.names = [] then [] else _) = _
  split <;> rfl

theorem sortsPlan_recorded (context : Option C) (terms : List SortTerm) :
    p.recorded.sortsPlan context terms = (p.sortsPlan context terms).map p.noteStep := by
  have hcalls : p.recorded.sortCallsFrom context terms 0 =
      (p.sortCallsFrom context terms 0).map p.noteStep := by
    rw [sortCallsFrom, sortCallsFrom, List.map_filterMap]
    congr 1
    funext place
    obtain ⟨t, i⟩ := place
    show (if (p.sortField? t.name).isSome then none else _) = Option.map _ (ite _ _ _)
    split
    · rfl
    · exact congrArg some (p.sortStep_recorded context _ t)
  rw [sortsPlan, sortsPlan, List.map_append, hcalls]
  congr 1
  show (if p.keysOf terms = [] then [] else _) = _
  split <;> rfl

theorem pagePlan_recorded (r : ParsedRequest) :
    p.recorded.pagePlan r = (p.pagePlan r).map p.noteStep := by
  rw [pagePlan, pagePlan, List.map_map]
  rfl

theorem plan_recorded (r : ParsedRequest) (phases : Phases C) :
    p.recorded.plan r phases = (p.plan r phases).map p.noteStep := by
  have hfilters : r.filters.flatMap (p.recorded.termPlan phases.context) =
      (r.filters.flatMap (p.termPlan phases.context)).map p.noteStep := by
    rw [List.map_flatMap]
    congr 1
    funext term
    exact p.termPlan_recorded phases.context term
  rw [plan, plan, hfilters, sortsPlan_recorded, pagePlan_recorded, List.map_append,
    List.map_append]
  congr 1
  · congr 1 <;> split <;> rfl
  · split <;> rfl

/-! ## What is recorded -/

/-- The call that a step makes, if it makes one. -/
def callOf : Step Q C → Option (Call C)
  | .filter name _ call => some (.filter (p.filters.keyOf name p.options.caseSensitive) call)
  | .group conditions => some (.group conditions)
  | .sort name _ call => some (.sort (p.sorts.keyOf name p.options.caseSensitive) call)
  | .sorts keys => some (.sorts keys)
  | .page page => some (.page page)
  | .unresolvedFilter _ | .unresolvedSort _ => none

/-- The calls of the steps of a plan, up to the first that fails. -/
def trace : List (Step Q C) → Q → List (CallOn Q C)
  | [], _ => []
  | step :: rest, q =>
    (p.callOf step).toList.map (⟨·, q⟩) ++
      match p.perform step q with
      | (.ok (), q) => trace rest q
      | (.error _, _) => []

theorem refusable_noted (call : Call C) (action : Action Q Refusal Unit) (s : Logged Q C) :
    refusable (noted call action) s =
      ((refusable action s.1).1, (refusable action s.1).2, s.2 ++ [⟨call, s.1⟩]) := by
  unfold refusable
  rw [runOn_noted]
  obtain ⟨_ | _, _⟩ := action.runOn s.1 <;> rfl

theorem called_noted (name : String) (call : Call C) (action : Action Q MethodError Unit)
    (s : Logged Q C) :
    called name (noted call action) s =
      ((called name action s.1).1, (called name action s.1).2, s.2 ++ [⟨call, s.1⟩]) := by
  unfold called
  rw [runOn_noted]
  obtain ⟨(_ | _) | _, _⟩ := action.runOn s.1 <;> rfl

/-- A step of a processor that records does what the step does, and notes its call. -/
theorem perform_recorded (step : Step Q C) (s : Logged Q C) :
    p.recorded.perform (p.noteStep step) s =
      ((p.perform step s.1).1, (p.perform step s.1).2,
        s.2 ++ (p.callOf step).toList.map (⟨·, s.1⟩)) := by
  have hpassed : ∀ {H H' : Type} (f : String → H → H') (name : String) (methods : Registry H),
      p.recorded.passedOver name (methods.mapCode f) s =
        ((p.passedOver name methods s.1).1, (p.passedOver name methods s.1).2, s.2 ++ []) := by
    intro H H' f name methods
    unfold passedOver
    rw [Registry.declaredKind?_mapCode, List.append_nil, options_recorded]
    cases p.options.throwExceptions with
    | false => rfl
    | true => cases methods.declaredKind? name p.options.caseSensitive <;> rfl
  cases step with
  | filter name method call => exact called_noted name _ (method call) s
  | unresolvedFilter name => exact hpassed _ name p.filters
  | group conditions => exact refusable_noted _ _ s
  | sort name method call => exact called_noted name _ (method call) s
  | unresolvedSort name => exact hpassed _ name p.sorts
  | sorts keys => exact refusable_noted _ _ s
  | page page => exact refusable_noted _ _ s

theorem interpret_recorded (steps : List (Step Q C)) (s : Logged Q C) :
    p.recorded.interpret (steps.map p.noteStep) s =
      ((p.interpret steps s.1).1, (p.interpret steps s.1).2, s.2 ++ p.trace steps s.1) := by
  induction steps generalizing s with
  | nil => simp [interpret, trace]
  | cons step rest ih =>
    rw [List.map_cons, interpret, interpret, perform_recorded, trace]
    obtain ⟨_ | ⟨⟩, q⟩ := p.perform step s.1
    · simp [after]
    · dsimp only [after]
      rw [ih, List.append_assoc]

/-- Recording changes nothing about what is carried out, and the log is extended by the calls of the
plan. -/
theorem apply_recorded (r : Request) (phases : Phases C) (q : Q) (log : List (CallOn Q C)) :
    p.recorded.apply r phases (q, log) =
      ((p.apply r phases q).1, (p.apply r phases q).2,
        log ++ p.trace (p.plan r.parse phases) q) := by
  have hrun : (p.recorded.run r.parse phases).runOn (q, log) =
      (((p.run r.parse phases).runOn q).1, ((p.run r.parse phases).runOn q).2,
        log ++ p.trace (p.plan r.parse phases) q) := by
    rw [runOn_run, runOn_run, plan_recorded, interpret_recorded]
  show (if p.options.throwExceptions then ((p.recorded.run r.parse phases).runOn (q, log)).1
    else .ok (), ((p.recorded.run r.parse phases).runOn (q, log)).2) = _
  rw [hrun]
  rfl

theorem calls_eq_trace (r : Request) (phases : Phases C) (q : Q) :
    p.calls r phases q = p.trace (p.plan r.parse phases) q := by
  rw [calls, apply_recorded, List.nil_append]

end Processor

end Criteria

import Criteria.Processor

/-!
# Plans

What a processor does to a target is fixed before it sees the target: a request gives a plan, a list
of steps in which every name is resolved, every condition built and every argument of a method
known. Carrying out the request is carrying out the steps of the plan one after the other, up to the
first that fails.
-/

namespace Criteria

/-- One step of a plan: all that is known of it before the target is. -/
inductive Step (Q C : Type) where
  /-- A custom filter is called. -/
  | filter (name : String) (method : FilterMethod Q C) (call : FilterCall C)
  /-- A name of a clause stands for nothing that can be used. -/
  | unresolvedFilter (name : String)
  /-- A group of conditions is handed over. -/
  | group (conditions : List Condition)
  /-- A custom sort is called. -/
  | sort (name : String) (method : SortMethod Q C) (call : SortCall C)
  /-- The name of a sort key stands for nothing that can be used. -/
  | unresolvedSort (name : String)
  /-- The sort keys are handed over. -/
  | sorts (keys : List SortSpec)
  /-- The page is handed over. -/
  | page (page : Page)

/-- A run that filters and does nothing else. -/
def Phases.filteringOnly {C : Type} (context : Option C) : Phases C :=
  { sorting := false, pagination := false, context }

/-- A run that sorts and does nothing else. -/
def Phases.sortingOnly {C : Type} (context : Option C) : Phases C :=
  { filtering := false, pagination := false, context }

/-- What follows an outcome: nothing if that is a failure. -/
def after {Q α : Type} (outcome : Except Failure Unit × Q) (next : Q → Except Failure α × Q) :
    Except Failure α × Q :=
  match outcome with
  | (.ok (), q) => next q
  | (.error e, q) => (.error e, q)

namespace Processor

variable {Q C : Type}

/-! ## The plan of a request -/

def filterField? (p : Processor Q C) (name : String) : Option Field :=
  p.fields.find? name .filter p.options.caseSensitive

def sortField? (p : Processor Q C) (name : String) : Option Field :=
  p.fields.find? name .sort p.options.caseSensitive

/-- The step for a name of a clause that is not a field to filter by. -/
def nameStep (p : Processor Q C) (context : Option C) (term : FilterTerm) (name : String) :
    Step Q C :=
  match p.filters.find? name p.options.caseSensitive with
  | some method => .filter name method ⟨term.token.text, term.values, context⟩
  | none => .unresolvedFilter name

/-- The conditions of names of a clause: each field that is named with each value. -/
def conditionsOf (p : Processor Q C) (term : FilterTerm) (names : List String) : List Condition :=
  (names.filterMap p.filterField?).flatMap fun f =>
    term.values.map fun v => .build term f v p.options.ignoreNullsOnNotEqual

/-- The steps for names of a clause: one for each that is not a field to filter by. -/
def namesPlan (p : Processor Q C) (context : Option C) (term : FilterTerm) (names : List String) :
    List (Step Q C) :=
  (names.filter fun n => (p.filterField? n).isNone).map (p.nameStep context term)

/-- The steps for a clause: those for its names, and one group if there is any condition. -/
def termPlan (p : Processor Q C) (context : Option C) (term : FilterTerm) : List (Step Q C) :=
  p.namesPlan context term term.names ++
    if p.conditionsOf term term.names = [] then []
    else [.group (p.conditionsOf term term.names)]

/-- The step for a sort key that is not a field to sort by; `thenBy` says whether an earlier key
is one. -/
def sortStep (p : Processor Q C) (context : Option C) (thenBy : Bool) (term : SortTerm) :
    Step Q C :=
  match p.sorts.find? term.name p.options.caseSensitive with
  | some method => .sort term.name method ⟨thenBy, term.descending, context⟩
  | none => .unresolvedSort term.name

def keysOf (p : Processor Q C) (terms : List SortTerm) : List SortSpec :=
  terms.filterMap fun t => (p.sortField? t.name).map fun f => ⟨f.path, t.descending⟩

/-- The steps for the sort keys from the place `n` on: one for each that is not a field to
sort by. -/
def sortCallsFrom (p : Processor Q C) (context : Option C) (terms : List SortTerm) (n : Nat) :
    List (Step Q C) :=
  ((terms.drop n).zipIdx n).filterMap fun (t, i) =>
    if (p.sortField? t.name).isSome then none
    else some (p.sortStep context ((terms.take i).any fun t => (p.sortField? t.name).isSome) t)

/-- The steps for the sort keys: the calls, and one step with all keys if there are any. -/
def sortsPlan (p : Processor Q C) (context : Option C) (terms : List SortTerm) :
    List (Step Q C) :=
  p.sortCallsFrom context terms 0 ++ if p.keysOf terms = [] then [] else [.sorts (p.keysOf terms)]

def pagePlan (p : Processor Q C) (r : ParsedRequest) : List (Step Q C) :=
  (p.resolvePage r.page r.pageSize).toList.map .page

def plan (p : Processor Q C) (r : ParsedRequest) (phases : Phases C) : List (Step Q C) :=
  (if phases.filtering then r.filters.flatMap (p.termPlan phases.context) else []) ++
    (if phases.sorting then p.sortsPlan phases.context r.sorts else []) ++
    if phases.pagination then p.pagePlan r else []

theorem plan_filteringOnly (p : Processor Q C) (r : ParsedRequest) (context : Option C) :
    p.plan r (.filteringOnly context) = r.filters.flatMap (p.termPlan context) := by
  rw [plan, Phases.filteringOnly]
  exact (List.append_nil _).trans (List.append_nil _)

theorem plan_sortingOnly (p : Processor Q C) (r : ParsedRequest) (context : Option C) :
    p.plan r (.sortingOnly context) = p.sortsPlan context r.sorts := List.append_nil _

/-! ## What a plan consists of -/

section Members

variable {p : Processor Q C} {context : Option C} {step : Step Q C}

theorem mem_conditionsOf (p : Processor Q C) {t : FilterTerm} {names : List String}
    {c : Condition} :
    c ∈ p.conditionsOf t names ↔
      ∃ n ∈ names, ∃ f ∈ p.filterField? n, ∃ v ∈ t.values,
        Condition.build t f v p.options.ignoreNullsOnNotEqual = c := by
  rw [conditionsOf, List.mem_flatMap]
  constructor
  · rintro ⟨f, hf, hc⟩
    obtain ⟨n, hn, hfield⟩ := List.mem_filterMap.mp hf
    obtain ⟨v, hv, hbuild⟩ := List.mem_map.mp hc
    exact ⟨n, hn, f, hfield, v, hv, hbuild⟩
  · rintro ⟨n, hn, f, hfield, v, hv, hbuild⟩
    exact ⟨f, List.mem_filterMap.mpr ⟨n, hn, hfield⟩, List.mem_map.mpr ⟨v, hv, hbuild⟩⟩

theorem mem_keysOf (p : Processor Q C) {terms : List SortTerm} {key : SortSpec} :
    key ∈ p.keysOf terms ↔
      ∃ t ∈ terms, ∃ f ∈ p.sortField? t.name, (⟨f.path, t.descending⟩ : SortSpec) = key := by
  simp only [keysOf, List.mem_filterMap, Option.map_eq_some_iff, Option.mem_def]

theorem mem_termPlan {term : FilterTerm} (h : step ∈ p.termPlan context term) :
    (∃ name ∈ term.names, p.filterField? name = none ∧ step = p.nameStep context term name) ∨
      step = .group (p.conditionsOf term term.names) := by
  rw [termPlan, List.mem_append] at h
  rcases h with h | h
  · obtain ⟨name, hname, rfl⟩ := List.mem_map.mp h
    obtain ⟨hmem, hnone⟩ := List.mem_filter.mp hname
    exact Or.inl ⟨name, hmem, Option.isNone_iff_eq_none.mp hnone, rfl⟩
  · split at h
    · exact absurd h List.not_mem_nil
    · exact Or.inr (List.mem_singleton.mp h)

theorem mem_sortsPlan {terms : List SortTerm} (h : step ∈ p.sortsPlan context terms) :
    (∃ t ∈ terms, p.sortField? t.name = none ∧ ∃ thenBy, step = p.sortStep context thenBy t) ∨
      step = .sorts (p.keysOf terms) := by
  rw [sortsPlan, List.mem_append] at h
  rcases h with h | h
  · obtain ⟨⟨t, i⟩, hmem, hcall⟩ := List.mem_filterMap.mp h
    dsimp only at hcall
    split at hcall
    · exact absurd hcall (Option.some_ne_none _).symm
    · next hnone =>
      rw [Bool.not_eq_true, Option.isSome_eq_false_iff, Option.isNone_iff_eq_none] at hnone
      exact Or.inl ⟨t, List.fst_mem_of_mem_zipIdx hmem, hnone, _, (Option.some.inj hcall).symm⟩
  · split at h
    · exact absurd h List.not_mem_nil
    · exact Or.inr (List.mem_singleton.mp h)

/-- What holds of the steps for the clauses, of those for the sort keys and of those for a page
holds of every step of a plan. A group is that of a clause, and the keys are those of all sort terms. -/
theorem forall_mem_plan {motive : Step Q C → Prop} {r : ParsedRequest} {phases : Phases C}
    (hname : ∀ t ∈ r.filters, ∀ name ∈ t.names, p.filterField? name = none →
      motive (p.nameStep phases.context t name))
    (hgroup : ∀ t ∈ r.filters, motive (.group (p.conditionsOf t t.names)))
    (hsort : ∀ t ∈ r.sorts, p.sortField? t.name = none →
      ∀ thenBy, motive (p.sortStep phases.context thenBy t))
    (hkeys : motive (.sorts (p.keysOf r.sorts)))
    (hpage : phases.pagination = true → ∀ page, motive (.page page)) :
    ∀ step ∈ p.plan r phases, motive step := by
  intro step hstep
  rw [plan, List.mem_append, List.mem_append] at hstep
  rcases hstep with (hstep | hstep) | hstep
  · split at hstep
    · obtain ⟨t, ht, hmem⟩ := List.mem_flatMap.mp hstep
      rcases mem_termPlan hmem with ⟨name, hn, hnone, rfl⟩ | rfl
      · exact hname t ht name hn hnone
      · exact hgroup t ht
    · exact absurd hstep List.not_mem_nil
  · split at hstep
    · rcases mem_sortsPlan hstep with ⟨t, ht, hnone, thenBy, rfl⟩ | rfl
      · exact hsort t ht hnone thenBy
      · exact hkeys
    · exact absurd hstep List.not_mem_nil
  · split at hstep
    · next hon =>
      obtain ⟨page, -, rfl⟩ := List.mem_map.mp hstep
      exact hpage hon page
    · exact absurd hstep List.not_mem_nil

end Members

/-! ## Carrying out a plan -/

/-- What a step of the target does, with its refusals as failures of the run. -/
def refusable (action : Action Q Refusal Unit) (q : Q) : Except Failure Unit × Q :=
  match action.runOn q with
  | (.ok (), q) => (.ok (), q)
  | (.error why, q) => (.error (.ofRefusal why), q)

/-- What a call of a method does, with its errors as failures of the run. -/
def called (name : String) (action : Action Q MethodError Unit) (q : Q) :
    Except Failure Unit × Q :=
  match action.runOn q with
  | (.ok (), q) => (.ok (), q)
  | (.error .noQuery, q) => (.error (.incompatible name "query-like object" "undefined"), q)
  | (.error (.refused why), q) => (.error (.ofRefusal why), q)

/-- What becomes of a name that stands for nothing: it is passed over, unless failures are
reported. -/
def passedOver {H : Type} (p : Processor Q C) (name : String) (methods : Registry H) (q : Q) :
    Except Failure Unit × Q :=
  if p.options.throwExceptions then
    match methods.declaredKind? name p.options.caseSensitive with
    | some kind => (.error (.incompatible name "function" kind), q)
    | none => (.error (.notFound name), q)
  else (.ok (), q)

def perform (p : Processor Q C) : Step Q C → Q → Except Failure Unit × Q
  | .filter name method call => called name (method call)
  | .unresolvedFilter name => p.passedOver name p.filters
  | .group conditions => refusable (p.backend.applyGroup conditions)
  | .sort name method call => called name (method call)
  | .unresolvedSort name => p.passedOver name p.sorts
  | .sorts keys => refusable (p.backend.applySorts keys)
  | .page page => refusable (p.backend.applyPage page)

/-- Carries out the steps of a plan in order, up to the first that fails. -/
def interpret (p : Processor Q C) : List (Step Q C) → Q → Except Failure Unit × Q
  | [], q => (.ok (), q)
  | step :: rest, q => after (p.perform step q) (p.interpret rest)

end Processor

end Criteria

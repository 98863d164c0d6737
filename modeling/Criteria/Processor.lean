import Criteria.Condition
import Criteria.Method
import Criteria.Options
import Criteria.Request

/-!
# Processors

A processor carries a request out on a target, in three phases.

1. Filtering. The names of a clause stand for fields or for custom filters. All fields of a clause
   together, with all its values, form one group of conditions, of which one has to hold; a group is
   handed over in one step. Custom filters act on the target by themselves, in the order of the
   names, before the group of their clause.
2. Sorting. The names stand for fields or custom sorts. The fields are collected and handed over in
   one step at the end.
3. Pagination. The page is handed over if its size is positive.

The first failure ends the run, and the target keeps what was done to it by then. Whether the
failure is reported is a matter of the options.
-/

namespace Criteria

/-- What a target can be asked to do. -/
structure Backend (Q : Type) where
  /-- Keep the records for which some condition holds. -/
  applyGroup : List Condition → Action Q Refusal Unit
  /-- Sort by keys, the most important first. -/
  applySorts : List SortSpec → Action Q Refusal Unit
  /-- Cut out a page. -/
  applyPage : Page → Action Q Refusal Unit

/-- Everything that is needed to carry out requests on targets of type `Q`. -/
structure Processor (Q C : Type) where
  /-- The options. -/
  options : Options
  /-- The fields. -/
  fields : FieldTable
  /-- The steps on the target. -/
  backend : Backend Q
  /-- The custom filters. -/
  filters : Registry (FilterMethod Q C)
  /-- The custom sorts. -/
  sorts : Registry (SortMethod Q C)

namespace Processor

variable {Q C : Type}

/-- A step of the target, with its refusals as failures of the run. -/
def backendStep (action : Action Q Refusal Unit) : Action Q Failure Unit :=
  action.adapt Failure.ofRefusal

/-- The failure of a run for that of a method. -/
def methodFailure (name : String) : MethodError → Failure
  | .noQuery => .incompatible name "query-like object" "undefined"
  | .refused why => .ofRefusal why

/-- A call of a method, with its errors as failures of the run. -/
def methodStep (name : String) (action : Action Q MethodError Unit) : Action Q Failure Unit :=
  action.adapt (methodFailure name)

/-- What becomes of a name that is neither a usable field nor a method with code: it is passed over,
or it is a failure. -/
def unresolved {H : Type} (p : Processor Q C) (name : String) (methods : Registry H) :
    Action Q Failure Unit :=
  if !p.options.throwExceptions then return ()
  else
    match methods.declaredKind? name p.options.caseSensitive with
    | some kind => throw (.incompatible name "function" kind)
    | none => throw (.notFound name)

/-- The conditions of a clause on one field. -/
def conditionsFor (p : Processor Q C) (term : FilterTerm) (f : Field) : List Condition :=
  term.values.map fun raw => .build term f raw p.options.ignoreNullsOnNotEqual

/-- Resolves one name of a clause: conditions if it is a field, a call if it is a custom filter. -/
def resolveName (p : Processor Q C) (context : Option C) (term : FilterTerm) (name : String) :
    Action Q Failure (List Condition) :=
  match p.fields.find? name .filter p.options.caseSensitive with
  | some f => pure (p.conditionsFor term f)
  | none =>
    match p.filters.find? name p.options.caseSensitive with
    | some method => do
      methodStep name (method ⟨term.token.text, term.values, context⟩)
      return []
    | none => do
      p.unresolved name p.filters
      return []

/-- Resolves the names of a clause from left to right and collects their conditions. -/
def resolveNames (p : Processor Q C) (context : Option C) (term : FilterTerm) :
    List String → Action Q Failure (List Condition)
  | [] => return []
  | name :: rest => do
    let here ← p.resolveName context term name
    let there ← p.resolveNames context term rest
    return here ++ there

/-- Carries out one clause. Without any condition there is no group to hand over. -/
def applyTerm (p : Processor Q C) (context : Option C) (term : FilterTerm) :
    Action Q Failure Unit := do
  let conditions ← p.resolveNames context term term.names
  if conditions.isEmpty then return ()
  backendStep (p.backend.applyGroup conditions)

/-- Carries out the clauses one by one. -/
def applyFilters (p : Processor Q C) (context : Option C) : List FilterTerm → Action Q Failure Unit
  | [] => return ()
  | term :: rest => do
    p.applyTerm context term
    p.applyFilters context rest

/-- Resolves the sort keys from left to right, calls the custom sorts among them, and collects the
others behind those that are collected already. -/
def resolveSorts (p : Processor Q C) (context : Option C) (collected : List SortSpec) :
    List SortTerm → Action Q Failure (List SortSpec)
  | [] => return collected
  | term :: rest =>
    match p.fields.find? term.name .sort p.options.caseSensitive with
    | some f => p.resolveSorts context (collected ++ [⟨f.path, term.descending⟩]) rest
    | none =>
      match p.sorts.find? term.name p.options.caseSensitive with
      | some method => do
        methodStep term.name (method ⟨!collected.isEmpty, term.descending, context⟩)
        p.resolveSorts context collected rest
      | none => do
        p.unresolved term.name p.sorts
        p.resolveSorts context collected rest

/-- Carries out the sort keys. -/
def applySorts (p : Processor Q C) (context : Option C) (terms : List SortTerm) :
    Action Q Failure Unit := do
  let collected ← p.resolveSorts context [] terms
  if collected.isEmpty then return ()
  backendStep (p.backend.applySorts collected)

/-- The page that is cut out. A page that is not positive is the first one. The size is that of the
request or else that of the options, and no greater than the options allow; without a positive size
there is no page. -/
def resolvePage (p : Processor Q C) (page pageSize : Option Int64) : Option Page :=
  let number : Int :=
    match page with
    | some n => if 0 < n.toInt then n.toInt else 1
    | none => 1
  let requested := (pageSize.getD p.options.defaultPageSize).toInt
  let greatest := p.options.maxPageSize.toInt
  let size := if 0 < greatest then min requested greatest else requested
  if 0 < size then some ⟨number.toNat.toUInt64, size.toNat.toUInt64⟩ else none

/-- Carries out the page. -/
def applyPage (p : Processor Q C) (r : ParsedRequest) : Action Q Failure Unit :=
  match p.resolvePage r.page r.pageSize with
  | some page => backendStep (p.backend.applyPage page)
  | none => return ()

/-- Carries out the phases of a request that are wanted. -/
def run (p : Processor Q C) (r : ParsedRequest) (phases : Phases C) : Action Q Failure Unit := do
  if phases.filtering then p.applyFilters phases.context r.filters
  if phases.sorting then p.applySorts phases.context r.sorts
  if phases.pagination then p.applyPage r

/-- Carries a request out on a target. A failure is reported only if the options say so; the target
is what the run left in any case. -/
def apply (p : Processor Q C) (r : Request) (phases : Phases C) (q : Q) : Except Failure Unit × Q :=
  let (outcome, q) := (p.run r.parse phases).runOn q
  (if p.options.throwExceptions then outcome else .ok (), q)

/-- Carries a request out on a target of its own; after a reported failure there is none. -/
def applyTo (p : Processor Q C) (r : Request) (phases : Phases C) (q : Q) : Except Failure Q :=
  match p.apply r phases q with
  | (.ok (), q) => .ok q
  | (.error e, _) => .error e

/-- Without reports there are no failures. -/
theorem apply_fst_of_not_throwing {p : Processor Q C} (h : p.options.throwExceptions = false)
    (r : Request) (phases : Phases C) (q : Q) : (p.apply r phases q).1 = .ok () := by
  simp [apply, h]

end Processor

end Criteria

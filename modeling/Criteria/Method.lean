import Criteria.Failure
import Criteria.Name

/-!
# Custom methods

A name that is not a field may be a method of the caller. A method is registered with the code to
run, or declared without any: a configuration file can name a method, but not supply it. A declared
method can be told apart from an unknown name, and never runs.
-/

namespace Criteria

/-- A computation that changes a target of type `Q` and may fail. What it has changed by then
stays. -/
abbrev Action (Q ε : Type) : Type → Type := ExceptT ε (StateM Q)

/-- The outcome of an action, and the target as it leaves it. -/
def Action.runOn {Q ε α : Type} (action : Action Q ε α) (q : Q) : Except ε α × Q := action.run q

namespace Action

variable {Q ε α β : Type}

/-- What follows an action runs on the target as that left it, and not at all if it failed. -/
theorem runOn_bind (x : Action Q ε α) (f : α → Action Q ε β) (q : Q) :
    runOn (x >>= f) q =
      match x.runOn q with
      | (.ok a, q) => (f a).runOn q
      | (.error e, q) => (.error e, q) := by
  show (ExceptT.bindCont f (x.run q).1).run (x.run q).2 = _
  unfold runOn
  generalize x.run q = outcome
  obtain ⟨answer, q⟩ := outcome
  cases answer <;> rfl

end Action

/-- How a method fails. -/
inductive MethodError where
  /-- It did not give back a target. -/
  | noQuery
  /-- It was refused, or refused itself. -/
  | refused (why : Refusal)
  deriving DecidableEq, Repr

/-- What a custom filter is called with. -/
structure FilterCall (C : Type) where
  /-- The operator as written. -/
  operator : String
  /-- The values of the clause. -/
  values : List String
  /-- The context of the run. -/
  context : Option C

/-- What a custom sort is called with. -/
structure SortCall (C : Type) where
  /-- A field is already sorted by. -/
  thenBy : Bool
  /-- From high to low. -/
  descending : Bool
  /-- The context of the run. -/
  context : Option C

/-- The code of a custom filter. -/
abbrev FilterMethod (Q C : Type) := FilterCall C → Action Q MethodError Unit

/-- The code of a custom sort. -/
abbrev SortMethod (Q C : Type) := SortCall C → Action Q MethodError Unit

/-- What a name is registered with. -/
inductive Slot (H : Type) where
  /-- Code to run. -/
  | handler (h : H)
  /-- No code, but the kind of what was given in its place. -/
  | declared (kind : String)

/-- The registered names, in the order of their first registration. -/
structure Registry (H : Type) where
  /-- The names with what they stand for. -/
  entries : List (String × Slot H) := []

namespace Registry

variable {H : Type}

instance : Inhabited (Registry H) := ⟨{}⟩

/-- How many names are registered. -/
def size (r : Registry H) : Nat := r.entries.length

/-- Registers a name, in the place of an earlier registration of exactly that name. -/
def set (r : Registry H) (name : String) (slot : Slot H) : Registry H :=
  ⟨Named.put Prod.fst (name, slot) r.entries⟩

/-- Registers a name with code. -/
def insert (r : Registry H) (name : String) (h : H) : Registry H := r.set name (.handler h)

/-- Registers a name without code. -/
def declare (r : Registry H) (name kind : String) : Registry H := r.set name (.declared kind)

/-- Adds the names of a weaker registry that are not taken. -/
def fill (r weaker : Registry H) (caseSensitive : Bool) : Registry H :=
  ⟨Named.fill Prod.fst caseSensitive r.entries weaker.entries⟩

/-- The code of the first entry of that name that has any. -/
def find? (r : Registry H) (name : String) (caseSensitive : Bool) : Option H :=
  r.entries.findSome? fun (key, slot) =>
    match slot with
    | .handler h => if namesAgree caseSensitive key name then some h else none
    | .declared _ => none

/-- The kind in the first entry of that name that has no code. -/
def declaredKind? (r : Registry H) (name : String) (caseSensitive : Bool) : Option String :=
  r.entries.findSome? fun (key, slot) =>
    match slot with
    | .handler _ => none
    | .declared kind => if namesAgree caseSensitive key name then some kind else none

/-- The registry of names that are declared in order. -/
def ofDeclared (declared : List (String × String)) : Registry H :=
  declared.foldl (fun r (name, kind) => r.declare name kind) {}

end Registry

end Criteria

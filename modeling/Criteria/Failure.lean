/-!
# Failures

A run fails because a name stands for nothing, because a method does not do what methods do, or
because the target or a method refused a step.
-/

namespace Criteria

/-- Why a run failed. -/
inductive Failure where
  /-- The name is neither a field nor a method. -/
  | notFound (method : String)
  /-- The method is not of the kind that is expected. -/
  | incompatible (method expected actual : String)
  /-- A step was refused; the source is the text of the error behind it. -/
  | failed (message : String) (source : Option String)
  deriving DecidableEq, Repr

/-- Why a step was refused, as the target or the method reports it. -/
inductive Refusal where
  /-- By a failure of the run itself. -/
  | failure (f : Failure)
  /-- By an error of some other kind, which has a text. -/
  | error (text : String)
  deriving DecidableEq, Repr

namespace Failure

/-- The failure for an error of some other kind. -/
def wrap (text : String) : Failure := failed text (some text)

/-- A failure passes through unchanged; any other error is wrapped. -/
def ofRefusal : Refusal → Failure
  | .failure f => f
  | .error text => wrap text

/-- The message of a failure. -/
def message : Failure → String
  | notFound method => method ++ " not found."
  | incompatible method expected actual =>
    method ++ " failed. Expected custom method return type '" ++ expected ++ "' but got '" ++
      actual ++ "'."
  | failed message _ => message

/-- The method that a failure is about. -/
def method? : Failure → Option String
  | notFound method => some method
  | incompatible method _ _ => some method
  | failed .. => none

end Failure

end Criteria

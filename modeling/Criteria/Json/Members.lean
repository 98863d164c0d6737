import Criteria.Json

/-!
# Records in JSON

A record has members with fixed names. It is written as an object, or as an array of its members in
their fixed order. A member that is missing takes its default; an array may only be short at its
end. An object may have other members, which are passed over, but none of the fixed ones twice.
-/

namespace Criteria.Json

/-- All members of a name. -/
def membersNamed (name : String) (members : List (Option String × Json)) : List Json :=
  (members.filter (·.1 == some name)).map Prod.snd

/-- The members of an object under fixed names, in the order of these. -/
def namedMembers? (names : List String) (members : List (Option String × Json)) :
    Option (List (Option Json)) :=
  if members.any (·.1.isNone) then none
  else
    names.mapM fun name =>
      match membersNamed name members with
      | [] => some none
      | [j] => some (some j)
      | _ => none

/-- The members of a record in their fixed order. -/
def recordMembers? (names : List String) : Json → Option (List (Option Json))
  | object members => namedMembers? names members
  | array items =>
    if items.length ≤ names.length then
      some (items.map some ++ List.replicate (names.length - items.length) none)
    else none
  | _ => none

/-- A text that may be missing or null. -/
def optionalText? : Option Json → Option (Option String)
  | none | some null => some none
  | some (text (some s)) => some (some s)
  | _ => none

/-- A truth value that may be missing. -/
def flag? (default : Bool) : Option Json → Option Bool
  | none => some default
  | some (bool b) => some b
  | _ => none

/-- A signed 64-bit integer that may be missing. It has to be written as one. -/
def integer? (default : Int64) : Option Json → Option Int64
  | none => some default
  | some (number (some (.int n))) => some n
  | _ => none

end Criteria.Json

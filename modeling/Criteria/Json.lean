import Criteria.Number.Numeral

/-!
# JSON values

A JSON value as it is written. A number may lie outside the range of doubles, and a text may contain
half of a surrogate pair: the grammar allows both, but they stand for nothing, and such a leaf is
`none`. Where a value is passed over they do no harm; a value that is used must be sound, which
also bounds how deep its containers nest.

The members of an object keep their order and their repetitions. Which of two equal names counts is
a matter of the reader: in a map it is the last one, in a record it is an error.
-/

namespace Criteria

/-- A JSON value. -/
inductive Json where
  | null
  | bool (b : Bool)
  | number (n : Option Numeral)
  | text (s : Option String)
  | array (items : List Json)
  | object (members : List (Option String × Json))

namespace Json

instance : Inhabited Json := ⟨null⟩

mutual

/-- Every number, text and name of a value stands for something, and its containers nest at most
`levels` deep. -/
def isSound : (levels : Nat) → Json → Bool
  | _, null | _, bool _ => true
  | _, number n => n.isSome
  | _, text s => s.isSome
  | 0, array _ | 0, object _ => false
  | levels + 1, array items => areSound levels items
  | levels + 1, object members => areSoundMembers levels members

/-- All items of an array are sound. -/
def areSound : (levels : Nat) → List Json → Bool
  | _, [] => true
  | levels, j :: rest => isSound levels j && areSound levels rest

/-- All members of an object are sound. -/
def areSoundMembers : (levels : Nat) → List (Option String × Json) → Bool
  | _, [] => true
  | levels, (name, j) :: rest => name.isSome && isSound levels j && areSoundMembers levels rest

end

/-- How deep the containers of a text may nest. -/
def maxLevels : Nat := 127

/-- The last member of a name. -/
def member? (name : String) (members : List (Option String × Json)) : Option Json :=
  (members.reverse.find? (·.1 == some name)).map Prod.snd

/-- The value at a path of names. Items of arrays have no name. -/
def at? : List String → Json → Option Json
  | [], j => some j
  | name :: path, object members => (member? name members).bind (at? path)
  | _ :: _, _ => none

end Json

end Criteria

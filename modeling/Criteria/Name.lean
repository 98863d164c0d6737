import Criteria.Text.Lowercase

/-!
# Names, and lists of named things

A name in a request is looked up among declared names, either as exact text or without regard to
case. The lists that hold the declared things keep their order; a later thing of exactly the same
name takes the place of the earlier one, and a list is filled up from a weaker one only with things
whose name is not yet taken.
-/

namespace Criteria

/-- Whether two names are the same: as text, or by their lowercase. -/
def namesAgree (caseSensitive : Bool) (a b : String) : Bool :=
  if caseSensitive then a == b else Text.lowercase a == Text.lowercase b

namespace Named

variable {α : Type}

/-- Puts `x` in the place of the first thing of exactly the same name, or at the end. -/
def put (name : α → String) (x : α) : List α → List α
  | [] => [x]
  | y :: rest => if name y == name x then x :: rest else y :: put name x rest

/-- Whether some name of a list agrees with the given one. -/
def taken (name : α → String) (caseSensitive : Bool) (xs : List α) (n : String) : Bool :=
  xs.any fun x => namesAgree caseSensitive (name x) n

/-- Adds the things of a weaker list, in order, whose name is not taken when their turn comes. -/
def fill (name : α → String) (caseSensitive : Bool) (xs weaker : List α) : List α :=
  weaker.foldl (fun xs x => if taken name caseSensitive xs (name x) then xs else xs ++ [x]) xs

/-- Splits a list into the first things of every name, and the others. -/
def distinct (name : α → String) (caseSensitive : Bool) (xs : List α) : List α × List α :=
  xs.foldl
    (fun (kept, dropped) x =>
      if taken name caseSensitive kept (name x) then (kept, dropped ++ [x])
      else (kept ++ [x], dropped))
    ([], [])

@[simp] theorem fill_nil (name : α → String) (caseSensitive : Bool) (xs : List α) :
    fill name caseSensitive xs [] = xs := rfl

end Named

theorem namesAgree_refl (caseSensitive : Bool) (a : String) :
    namesAgree caseSensitive a a = true := by
  cases caseSensitive <;> simp [namesAgree]

theorem namesAgree_comm (caseSensitive : Bool) (a b : String) :
    namesAgree caseSensitive a b = namesAgree caseSensitive b a := by
  cases caseSensitive <;> simp [namesAgree, Bool.beq_comm]

end Criteria

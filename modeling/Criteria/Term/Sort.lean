import Criteria.Text.Escape

/-!
# Sort terms

A sorts text is a list of names with commas between them, the most important first; a `-` in front
of a name asks for descending order. A name counts once, where it stands first, whatever its
direction.
-/

namespace Criteria

/-- One sort key as read. -/
structure SortTerm where
  /-- The trimmed text of the key. -/
  raw : String
  /-- The name without the mark of its direction. -/
  name : String
  /-- From high to low. -/
  descending : Bool
  deriving DecidableEq, Repr

namespace SortTerm

/-- The term of one part of a sorts text. -/
def ofChars (part : List Char) : SortTerm :=
  match part with
  | '-' :: name => ⟨String.ofList part, String.ofList name, true⟩
  | _ => ⟨String.ofList part, String.ofList part, false⟩

/-- Keeps the terms whose name is neither in `seen` nor the name of an earlier term. -/
def firstOccurrences (seen : List String) : List SortTerm → List SortTerm
  | [] => []
  | t :: rest =>
    if seen.contains t.name then firstOccurrences seen rest
    else t :: firstOccurrences (t.name :: seen) rest

/-- The terms of a sorts text. -/
def ofSorts (sorts : String) : List SortTerm :=
  firstOccurrences [] ((Text.splitChars ',' sorts.toList).map ofChars)

/-- No name is kept twice, and none that was seen before. -/
theorem nodup_names (seen : List String) (terms : List SortTerm) :
    ((firstOccurrences seen terms).map name).Nodup ∧
      ∀ t ∈ firstOccurrences seen terms, t.name ∉ seen := by
  induction terms generalizing seen with
  | nil => simp [firstOccurrences]
  | cons t rest ih =>
    unfold firstOccurrences
    split
    · exact ih seen
    · next h =>
      obtain ⟨distinct, fresh⟩ := ih (t.name :: seen)
      have ht : t.name ∉ seen := by simpa using h
      refine ⟨?_, ?_⟩
      · rw [List.map_cons, List.nodup_cons]
        refine ⟨?_, distinct⟩
        intro again
        obtain ⟨u, hu, same⟩ := List.mem_map.1 again
        exact fresh u hu (by simp [same])
      · intro u hu
        rcases List.mem_cons.1 hu with rfl | hu
        · exact ht
        · exact fun seen => fresh u hu (List.mem_cons_of_mem _ seen)

end SortTerm

end Criteria

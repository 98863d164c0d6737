import Criteria.Proofs.Name.Merging
import Criteria.Proofs.Text.Splitting
import Criteria.Term.Sort

/-!
# The names of a sorts text

Reading a sorts text goes through its parts once and remembers the names it has seen. What it keeps
does not depend on the order in which it remembers them: the first part of every name, and of these
the ones whose name was not seen before. So a text that is put behind another adds the terms whose
names the other does not have.
-/

namespace Criteria

namespace SortTerm

/-- The name that a part of a sorts text asks for: the part without a minus in front. -/
def bareName (part : String) : String :=
  if part.toList.head? = some '-' then String.ofList part.toList.tail else part

/-- The term that a part of a sorts text asks for. -/
def ofPart (part : String) : SortTerm where
  raw := part
  name := bareName part
  descending := part.toList.head? = some '-'

theorem ofPart_ofList (part : List Char) : ofPart (String.ofList part) = ofChars part := by
  unfold ofPart bareName
  rw [String.toList_ofList]
  cases part with
  | nil => rfl
  | cons c name =>
    by_cases hc : c = '-'
    · subst hc
      rfl
    · have hterm : ofChars (c :: name) =
          ⟨String.ofList (c :: name), String.ofList (c :: name), false⟩ := by
        unfold ofChars
        split
        · next heq => exact absurd (List.cons.inj heq).1 hc
        · rfl
      simp [hterm, hc]

theorem map_ofPart (text : String) :
    (Text.splitUnescaped text ',').map ofPart = (Text.splitChars ',' text.toList).map ofChars := by
  rw [Text.splitUnescaped, List.map_map]
  exact List.map_congr_left fun part _ => ofPart_ofList part

/-- What has been seen matters only for the names that are in it. -/
theorem firstOccurrences_eq (seen : List String) (terms : List SortTerm) :
    firstOccurrences seen terms =
      (Named.firsts name true terms).filter fun t => t.name ∉ seen := by
  induction terms generalizing seen with
  | nil => rfl
  | cons t rest ih =>
    have hname : ∀ u : SortTerm, (!namesAgree true t.name u.name) = decide (u.name ≠ t.name) := by
      intro u
      show (!(t.name == u.name)) = decide (u.name ≠ t.name)
      rw [Bool.beq_comm, decide_not, beq_eq_decide]
    rw [firstOccurrences, Named.firsts_cons, List.filter_cons, List.filter_filter]
    by_cases hseen : t.name ∈ seen
    -- the first of the rest goes, and those that share its name go as seen ones
    · rw [if_pos (by simpa using hseen), if_neg (by simpa using hseen), ih]
      refine List.filter_congr fun u _ => ?_
      rw [hname]
      by_cases hu : u.name = t.name
      · simp [hu, hseen]
      · simp [hu]
    · rw [if_neg (by simpa using hseen), if_pos (by simpa using hseen), ih]
      congr 1
      refine List.filter_congr fun u _ => ?_
      rw [hname, Bool.and_comm]
      simp

theorem ofSorts_eq_firsts (text : String) :
    ofSorts text = Named.firsts name true ((Text.splitUnescaped text ',').map ofPart) := by
  rw [ofSorts, firstOccurrences_eq, map_ofPart]
  exact List.filter_eq_self.mpr fun _ _ => rfl

/-! ## The terms of a text -/

theorem mem_names_ofSorts {text n : String} :
    n ∈ (ofSorts text).map name ↔ ∃ part ∈ Text.splitUnescaped text ',', bareName part = n := by
  rw [ofSorts_eq_firsts, ← Named.taken_exact, Named.taken_firsts, Named.taken_exact, List.map_map]
  exact List.mem_map

theorem ofSorts_append {a b : String}
    (h : ¬ Odd (a.toList.rtakeWhile (· == Text.escapeChar)).length) :
    ofSorts (a ++ "," ++ b) =
      ofSorts a ++ (ofSorts b).filter fun t => t.name ∉ (ofSorts a).map name := by
  have hparts : (Text.splitUnescaped (a ++ "," ++ b) ',').map ofPart =
      (Text.splitUnescaped a ',').map ofPart ++ (Text.splitUnescaped b ',').map ofPart := by
    rw [map_ofPart, map_ofPart, map_ofPart, Text.splitChars_comma h, List.map_append]
  rw [ofSorts_eq_firsts, hparts, Named.firsts_append, ← ofSorts_eq_firsts, ← ofSorts_eq_firsts]
  congr 1
  refine List.filter_congr fun t _ => ?_
  rw [Bool.eq_iff_iff, Bool.not_eq_true', decide_eq_true_iff, ← Bool.not_eq_true,
    ofSorts_eq_firsts a, ← Named.taken_exact, Named.taken_firsts]

/-- A sorts text asks for its parts without those whose name an earlier part has, each read as it
stands. So the names are all different, and no name of a part is lost. A text that does not end in an
odd number of backslashes can be followed by a comma and another text, which adds its terms except
those whose names are there. -/
theorem sorts_keep_first :
    (∀ text, ofSorts text =
        (Named.firsts bareName true (Text.splitUnescaped text ',')).map ofPart ∧
      ((ofSorts text).map name).Nodup ∧
      ∀ part ∈ Text.splitUnescaped text ',', ∃ t ∈ ofSorts text, t.name = bareName part) ∧
    ∀ a b : String, ¬ Odd (a.toList.rtakeWhile (· == Text.escapeChar)).length →
      ofSorts (a ++ "," ++ b) =
        ofSorts a ++ (ofSorts b).filter fun t => t.name ∉ (ofSorts a).map name := by
  refine ⟨?_, fun a b hends => ofSorts_append hends⟩
  intro text
  refine ⟨?_, (nodup_names [] _).1, ?_⟩
  · rw [ofSorts_eq_firsts, Named.firsts_map]
    rfl
  · intro part hpart
    exact List.mem_map.mp (mem_names_ofSorts.mpr ⟨part, hpart, rfl⟩)

/-- The first text ends in an escaped backslash. A second minus belongs to the name, and so does an
escaped comma. -/
theorem sorts_keep_first_sizes :
    ¬ Odd ("-size, name\\,x ,size\\\\".toList.rtakeWhile (· == Text.escapeChar)).length ∧
      ofSorts ("-size, name\\,x ,size\\\\" ++ "," ++ "--size,-name\\,x,size,-age") =
        [⟨"-size", "size", true⟩, ⟨"name\\,x", "name\\,x", false⟩,
          ⟨"size\\\\", "size\\\\", false⟩, ⟨"--size", "-size", true⟩, ⟨"-age", "age", true⟩] := by
  have hends :
      ¬ Odd ("-size, name\\,x ,size\\\\".toList.rtakeWhile (· == Text.escapeChar)).length := by
    decide +kernel
  obtain ⟨-, happend⟩ := sorts_keep_first
  refine ⟨hends, ?_⟩
  rw [happend _ _ hends]
  decide +kernel

end SortTerm

end Criteria

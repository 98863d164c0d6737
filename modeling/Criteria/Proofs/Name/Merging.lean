import Mathlib.Data.List.Induction
import Criteria.Name

/-!
# Merging lists of named things

Names agree if they have the same key, so agreement is an equivalence, and a list falls into classes
of things whose names agree. Keeping the first of each class is what `distinct` does, and filling a
list up from a weaker one keeps the same ones as putting the weaker one behind it. Putting things one
by one gives every exact name the place where it first stands and the last thing of that name.

All inductions go by the last thing of a list, for that is the one that the loops see the whole list
before.
-/

namespace Criteria

/-! ## Agreement -/

/-- What names that agree have in common. -/
def nameKey (caseSensitive : Bool) (a : String) : String :=
  if caseSensitive then a else Text.lowercase a

theorem namesAgree_iff {caseSensitive : Bool} {a b : String} :
    namesAgree caseSensitive a b = true ↔ nameKey caseSensitive a = nameKey caseSensitive b := by
  cases caseSensitive <;> simp [namesAgree, nameKey]

theorem namesAgree_exact {a b : String} : namesAgree true a b = true ↔ a = b := namesAgree_iff

theorem namesAgree_trans {caseSensitive : Bool} {a b c : String}
    (hab : namesAgree caseSensitive a b = true) (hbc : namesAgree caseSensitive b c = true) :
    namesAgree caseSensitive a c = true := by
  rw [namesAgree_iff] at hab hbc ⊢
  exact hab.trans hbc

namespace Named

variable {α : Type} (name : α → String) (caseSensitive : Bool)

/-! ## Names that are taken -/

theorem taken_iff {xs : List α} {n : String} :
    taken name caseSensitive xs n = true ↔ ∃ x ∈ xs, namesAgree caseSensitive (name x) n = true :=
  List.any_eq_true

theorem taken_append (xs ys : List α) (n : String) :
    taken name caseSensitive (xs ++ ys) n =
      (taken name caseSensitive xs n || taken name caseSensitive ys n) :=
  List.any_append

theorem taken_concat (xs : List α) (x : α) (n : String) :
    taken name caseSensitive (xs ++ [x]) n =
      (taken name caseSensitive xs n || namesAgree caseSensitive (name x) n) := by
  rw [taken_append]
  simp [taken]

/-- A name that agrees with a taken one is taken. -/
theorem taken_of_agree {xs : List α} {m n : String} (hm : taken name caseSensitive xs m = true)
    (hmn : namesAgree caseSensitive m n = true) : taken name caseSensitive xs n = true := by
  rw [taken_iff] at hm ⊢
  obtain ⟨x, hx, hxm⟩ := hm
  exact ⟨x, hx, namesAgree_trans hxm hmn⟩

/-! ## The first of every class -/

/-- The things of a list whose name agrees with that of no earlier one. -/
def firsts (xs : List α) : List α :=
  (xs.zipIdx.filter fun (x, i) => !taken name caseSensitive (xs.take i) (name x)).map Prod.fst

theorem firsts_sublist (xs : List α) : (firsts name caseSensitive xs).Sublist xs := by
  have hfirsts : (firsts name caseSensitive xs).Sublist (xs.zipIdx.map Prod.fst) :=
    List.filter_sublist.map Prod.fst
  rwa [List.zipIdx_map_fst] at hfirsts

theorem firsts_concat (xs : List α) (x : α) :
    firsts name caseSensitive (xs ++ [x]) =
      firsts name caseSensitive xs ++
        if taken name caseSensitive xs (name x) then [] else [x] := by
  have hfront : (xs.zipIdx.filter fun (y, i) =>
      !taken name caseSensitive ((xs ++ [x]).take i) (name y)) =
      xs.zipIdx.filter fun (y, i) => !taken name caseSensitive (xs.take i) (name y) := by
    refine List.filter_congr fun ⟨y, i⟩ hi => ?_
    have hlt : i < xs.length := by
      have := List.snd_lt_of_mem_zipIdx hi
      omega
    dsimp only
    rw [List.take_append_of_le_length (Nat.le_of_lt hlt)]
  rw [firsts, firsts, List.zipIdx_append, List.filter_append, List.map_append, hfront]
  congr 1
  cases htaken : taken name caseSensitive xs (name x) <;> simp [htaken]

/-- The classes of a list are those of its first things. -/
theorem taken_firsts (xs : List α) (n : String) :
    taken name caseSensitive (firsts name caseSensitive xs) n =
      taken name caseSensitive xs n := by
  induction xs using List.reverseRecOn with
  | nil => rfl
  | append_singleton xs x ih =>
    rw [firsts_concat, taken_append, ih, taken_concat]
    cases hx : taken name caseSensitive xs (name x) with
    | false => simp [taken]
    | true =>
      cases hagree : namesAgree caseSensitive (name x) n with
      | false => simp [taken]
      | true => simp [taken_of_agree name caseSensitive hx hagree]

theorem pairwise_firsts (xs : List α) :
    (firsts name caseSensitive xs).Pairwise fun x y =>
      namesAgree caseSensitive (name x) (name y) = false := by
  induction xs using List.reverseRecOn with
  | nil => exact List.Pairwise.nil
  | append_singleton xs x ih =>
    rw [firsts_concat]
    cases hx : taken name caseSensitive xs (name x) with
    | true => simpa using ih
    | false =>
      rw [← taken_firsts] at hx
      refine List.pairwise_append.mpr ⟨ih, List.pairwise_singleton _ _, fun y hy z hz => ?_⟩
      obtain rfl := List.mem_singleton.mp hz
      rw [← Bool.not_eq_true]
      intro hagree
      exact absurd ((taken_iff name caseSensitive).mpr ⟨y, hy, hagree⟩) (by simp [hx])

theorem nodup_names_firsts (xs : List α) :
    ((firsts name caseSensitive xs).map name).Nodup := by
  rw [List.Nodup, List.pairwise_map]
  refine (pairwise_firsts name caseSensitive xs).imp fun {x y} hne heq => ?_
  rw [heq, namesAgree_refl] at hne
  exact absurd hne Bool.noConfusion

/-- Of a list that is put behind another, the first things stay whose class is not there yet, and the
last of them is seen when all others are. -/
theorem filter_firsts_concat (xs ys : List α) (y : α) :
    ((firsts name caseSensitive (ys ++ [y])).filter fun z => !taken name caseSensitive xs (name z)) =
      ((firsts name caseSensitive ys).filter fun z => !taken name caseSensitive xs (name z)) ++
        if taken name caseSensitive (xs ++ ys) (name y) then [] else [y] := by
  rw [firsts_concat, List.filter_append, taken_append]
  congr 1
  cases hxs : taken name caseSensitive xs (name y) <;>
    cases hys : taken name caseSensitive ys (name y) <;> simp [hxs]

theorem firsts_append (xs ys : List α) :
    firsts name caseSensitive (xs ++ ys) =
      firsts name caseSensitive xs ++ (firsts name caseSensitive ys).filter fun y =>
        !taken name caseSensitive xs (name y) := by
  induction ys using List.reverseRecOn with
  | nil => simp [firsts]
  | append_singleton ys y ih =>
    rw [← List.append_assoc, firsts_concat, ih, filter_firsts_concat, List.append_assoc]

theorem firsts_cons (x : α) (xs : List α) :
    firsts name caseSensitive (x :: xs) =
      x :: (firsts name caseSensitive xs).filter fun y =>
        !namesAgree caseSensitive (name x) (name y) := by
  have hfront : ∀ n, taken name caseSensitive [x] n = namesAgree caseSensitive (name x) n := by
    intro n
    exact Bool.or_false _
  have happend := firsts_append name caseSensitive [x] xs
  simp only [hfront] at happend
  exact happend

theorem firsts_map {β : Type} (f : β → α) (xs : List β) :
    firsts name caseSensitive (xs.map f) = (firsts (name ∘ f) caseSensitive xs).map f := by
  induction xs using List.reverseRecOn with
  | nil => rfl
  | append_singleton xs x ih =>
    have htaken : taken name caseSensitive (xs.map f) (name (f x)) =
        taken (name ∘ f) caseSensitive xs ((name ∘ f) x) := List.any_map
    rw [List.map_append, List.map_singleton, firsts_concat, firsts_concat, List.map_append, ih,
      htaken]
    split <;> rfl

theorem distinct_fst (xs : List α) :
    (distinct name caseSensitive xs).1 = firsts name caseSensitive xs := by
  induction xs using List.reverseRecOn with
  | nil => rfl
  | append_singleton xs x ih =>
    have hstep : (distinct name caseSensitive (xs ++ [x])).1 =
        (distinct name caseSensitive xs).1 ++
          if taken name caseSensitive (distinct name caseSensitive xs).1 (name x) then []
          else [x] := by
      rw [distinct, List.foldl_append, List.foldl_cons, List.foldl_nil, ← distinct]
      dsimp only
      split <;> simp
    rw [hstep, ih, taken_firsts, firsts_concat]

/-! ## Filling up -/

theorem fill_concat (xs weaker : List α) (y : α) :
    fill name caseSensitive xs (weaker ++ [y]) =
      fill name caseSensitive xs weaker ++
        if taken name caseSensitive (fill name caseSensitive xs weaker) (name y) then []
        else [y] := by
  rw [fill, List.foldl_append, List.foldl_cons, List.foldl_nil, ← fill]
  split <;> simp

theorem taken_fill (xs weaker : List α) (n : String) :
    taken name caseSensitive (fill name caseSensitive xs weaker) n =
      taken name caseSensitive (xs ++ weaker) n := by
  induction weaker using List.reverseRecOn generalizing n with
  | nil => rw [fill_nil, List.append_nil]
  | append_singleton weaker y ih =>
    rw [fill_concat, taken_append, ih, ih, ← List.append_assoc, taken_concat]
    cases hy : taken name caseSensitive (xs ++ weaker) (name y) with
    | false => simp [taken]
    | true =>
      cases hagree : namesAgree caseSensitive (name y) n with
      | false => simp [taken]
      | true => simp [taken_of_agree name caseSensitive hy hagree]

/-- A list that is filled up has the same first things as the two lists one behind the other. -/
theorem firsts_fill (xs weaker : List α) :
    firsts name caseSensitive (fill name caseSensitive xs weaker) =
      firsts name caseSensitive (xs ++ weaker) := by
  induction weaker using List.reverseRecOn with
  | nil => rw [fill_nil, List.append_nil]
  | append_singleton weaker y ih =>
    rw [fill_concat, ← List.append_assoc, firsts_concat, taken_fill, ← ih]
    cases hy : taken name caseSensitive (xs ++ weaker) (name y) with
    | true => simp
    | false => simp [firsts_concat, taken_fill, hy]

/-- What a list is filled up with are the first things of the weaker list that it has no name for. -/
theorem fill_eq (xs weaker : List α) :
    fill name caseSensitive xs weaker =
      xs ++ (firsts name caseSensitive weaker).filter fun y =>
        !taken name caseSensitive xs (name y) := by
  induction weaker using List.reverseRecOn with
  | nil => exact (List.append_nil xs).symm
  | append_singleton weaker y ih =>
    rw [fill_concat, taken_fill, ih, filter_firsts_concat, List.append_assoc]

/-! ## Putting one by one -/

/-- The last thing of a list that has exactly the name of `x`. -/
def latest (xs : List α) (x : α) : α := (xs.reverse.find? fun y => name y == name x).getD x

/-- The things of a list with every exact name once: in the place where it first stands, the last
thing of that name. -/
def settled (xs : List α) : List α := (firsts name true xs).map (latest name xs)

theorem name_latest (xs : List α) (x : α) : name (latest name xs x) = name x := by
  unfold latest
  cases hfound : xs.reverse.find? fun y => name y == name x with
  | none => rfl
  | some y => simpa using List.find?_some hfound

theorem latest_concat (xs : List α) (x y : α) :
    latest name (xs ++ [x]) y = if name x = name y then x else latest name xs y := by
  rw [latest, List.reverse_append, List.reverse_singleton, List.singleton_append, List.find?_cons]
  by_cases hname : name x = name y
  · simp [hname]
  · have hne : (name x == name y) = false := by simpa using hname
    rw [hne, if_neg hname, latest]

theorem taken_exact {xs : List α} {n : String} :
    taken name true xs n = true ↔ n ∈ xs.map name := by
  simp [taken_iff, namesAgree]

theorem names_settled (xs : List α) : (settled name xs).map name = (firsts name true xs).map name := by
  rw [settled, List.map_map]
  exact List.map_congr_left fun x _ => name_latest name xs x

theorem nodup_names_settled (xs : List α) : ((settled name xs).map name).Nodup := by
  rw [names_settled]
  exact nodup_names_firsts name true xs

theorem put_of_not_mem {x : α} {xs : List α} (h : name x ∉ xs.map name) :
    put name x xs = xs ++ [x] := by
  induction xs with
  | nil => rfl
  | cons y rest ih =>
    rw [List.map_cons, List.mem_cons, not_or] at h
    rw [put, if_neg (by simpa using Ne.symm h.1), ih h.2]
    rfl

theorem put_of_mem {x : α} {xs : List α} (hnodup : (xs.map name).Nodup)
    (h : name x ∈ xs.map name) :
    put name x xs = xs.map fun y => if name y = name x then x else y := by
  induction xs with
  | nil => exact absurd h List.not_mem_nil
  | cons y rest ih =>
    rw [List.map_cons, List.nodup_cons] at hnodup
    rw [put, List.map_cons]
    by_cases hname : name y = name x
    · rw [if_pos (by simpa using hname), if_pos hname]
      congr 1
      refine ((List.map_congr_left fun z hz => if_neg ?_).trans rest.map_id').symm
      intro hz'
      exact hnodup.1 (List.mem_map.mpr ⟨z, hz, hz'.trans hname.symm⟩)
    · rw [if_neg (by simpa using hname), if_neg hname]
      congr 1
      refine ih hnodup.2 ?_
      rw [List.map_cons, List.mem_cons] at h
      exact h.resolve_left (Ne.symm hname)

theorem settled_concat (xs : List α) (x : α) :
    settled name (xs ++ [x]) =
      (firsts name true xs).map (latest name (xs ++ [x])) ++
        if taken name true xs (name x) then [] else [x] := by
  rw [settled, firsts_concat, List.map_append]
  congr 1
  split
  · rfl
  · rw [List.map_singleton, latest_concat, if_pos rfl]

/-- Putting things one by one settles every exact name. -/
theorem foldl_put (xs : List α) : xs.foldl (fun ys x => put name x ys) [] = settled name xs := by
  induction xs using List.reverseRecOn with
  | nil => rfl
  | append_singleton xs x ih =>
    rw [List.foldl_append, ih, List.foldl_cons, List.foldl_nil]
    have hnames : name x ∈ (settled name xs).map name ↔ taken name true xs (name x) = true := by
      rw [names_settled, ← taken_exact, taken_firsts]
    cases hx : taken name true xs (name x) with
    | false =>
      have hnot : name x ∉ (settled name xs).map name := by simp [hnames, hx]
      have hfront : (firsts name true xs).map (latest name (xs ++ [x])) = settled name xs := by
        refine List.map_congr_left fun y hy => ?_
        rw [latest_concat, if_neg]
        intro hname
        exact hnot (by rw [names_settled, hname]; exact List.mem_map_of_mem hy)
      rw [put_of_not_mem name hnot, settled_concat, hfront, hx, if_neg Bool.false_ne_true]
    | true =>
      -- The names of a settled list are different, so the thing that is replaced is the only one.
      rw [put_of_mem name (nodup_names_settled name xs) (hnames.mpr hx), settled_concat, hx,
        if_pos rfl, List.append_nil, settled, List.map_map]
      refine List.map_congr_left fun y _ => ?_
      rw [Function.comp_apply, name_latest name xs y, latest_concat]
      exact if_congr eq_comm rfl rfl

example : settled Prod.fst [("a", 1), ("b", 2), ("a", 3)] = [("a", 3), ("b", 2)] := by
  decide +kernel

theorem settled_concat_eq_put (xs : List α) (x : α) :
    settled name (xs ++ [x]) = put name x (settled name xs) := by
  rw [← foldl_put, List.foldl_append, foldl_put, List.foldl_cons, List.foldl_nil]

theorem mem_names_settled {xs : List α} {n : String} :
    n ∈ (settled name xs).map name ↔ n ∈ xs.map name := by
  rw [names_settled, ← taken_exact, taken_firsts, taken_exact]

theorem taken_settled (xs : List α) (n : String) :
    taken name caseSensitive (settled name xs) n = taken name caseSensitive xs n := by
  have hnames : ∀ ys : List α, taken name caseSensitive ys n = true ↔
      ∃ m ∈ ys.map name, namesAgree caseSensitive m n = true := by
    intro ys
    rw [taken_iff]
    simp only [List.mem_map, exists_exists_and_eq_and]
  rw [Bool.eq_iff_iff, hnames, hnames]
  exact exists_congr fun m => and_congr_left fun _ => mem_names_settled name

/-- Things with new and different names stay behind what is settled. -/
theorem settled_append (xs : List α) {ys : List α} (hnodup : (ys.map name).Nodup)
    (hnew : ∀ y ∈ ys, name y ∉ xs.map name) :
    settled name (xs ++ ys) = settled name xs ++ ys := by
  induction ys using List.reverseRecOn with
  | nil => rw [List.append_nil, List.append_nil]
  | append_singleton ys y ih =>
    rw [List.map_append, List.map_singleton] at hnodup
    obtain ⟨hys, -, hdisjoint⟩ := List.nodup_append.mp hnodup
    have hsettled := ih hys fun z hz => hnew z (List.mem_append_left _ hz)
    rw [← List.append_assoc, settled_concat_eq_put, hsettled, put_of_not_mem, List.append_assoc]
    intro hmem
    rw [List.map_append, List.mem_append, mem_names_settled] at hmem
    rcases hmem with hmem | hmem
    · exact hnew y (List.mem_append_right _ (List.mem_singleton_self y)) hmem
    · exact hdisjoint _ hmem _ (List.mem_singleton_self _) rfl

/-- Things with different names are settled. -/
theorem settled_of_nodup {xs : List α} (h : (xs.map name).Nodup) : settled name xs = xs :=
  settled_append name [] h fun _ _ => List.not_mem_nil

end Named

end Criteria

import Mathlib.Data.List.Basic
import Criteria.Method
import Criteria.Proofs.Name.Merging

/-!
# The history of a registry

A registry is what a history of calls leaves of an empty one: names are registered with code or
without, and a registry can be filled up from another that has a history of its own. Every call adds
to the registrations; filling up registers what the weaker registry has under names that are not
taken. The registry itself is the registrations settled: each name where it was first registered, with
what it was registered with last. Code and kinds are looked for in the same way, so what is found is
said once for both.
-/

namespace Criteria

variable {H β : Type}

/-- The code that a name is registered with. -/
def Slot.code? : Slot H → Option H
  | .handler h => some h
  | .declared _ => none

/-- The kind that a name is registered with in place of code. -/
def Slot.kind? : Slot H → Option String
  | .handler _ => none
  | .declared kind => some kind

theorem Slot.code?_eq_some_iff {s : Slot H} {h : H} : s.code? = some h ↔ s = .handler h := by
  cases s <;> simp [code?]

theorem Slot.kind?_eq_some_iff {s : Slot H} {kind : String} :
    s.kind? = some kind ↔ s = .declared kind := by
  cases s <;> simp [kind?]

/-! ## Looking for a name -/

namespace Registry

/-- What is seen of the first entry of a name of which something is seen. -/
def search (view : Slot H → Option β) (r : Registry H) (name : String) (caseSensitive : Bool) :
    Option β :=
  r.entries.findSome? fun (key, slot) =>
    if namesAgree caseSensitive key name then view slot else none

theorem find?_eq_search (r : Registry H) (name : String) (caseSensitive : Bool) :
    r.find? name caseSensitive = r.search Slot.code? name caseSensitive := by
  unfold find? search
  congr 1
  funext ⟨key, slot⟩
  cases slot with
  | handler h => rfl
  | declared kind => exact (ite_self _).symm

theorem declaredKind?_eq_search (r : Registry H) (name : String) (caseSensitive : Bool) :
    r.declaredKind? name caseSensitive = r.search Slot.kind? name caseSensitive := by
  unfold declaredKind? search
  congr 1
  funext ⟨key, slot⟩
  cases slot with
  | handler h => exact (ite_self _).symm
  | declared kind => rfl

/-- Filling up adds no entry under a name that agrees with a taken one. -/
theorem search_fill (view : Slot H → Option β) {r : Registry H} {name : String}
    {caseSensitive : Bool}
    (htaken : Named.taken Prod.fst caseSensitive r.entries name = true) (weaker : Registry H) :
    (r.fill weaker caseSensitive).search view name caseSensitive =
      r.search view name caseSensitive := by
  have hadded : ((Named.firsts Prod.fst caseSensitive weaker.entries).filter fun e =>
      !Named.taken Prod.fst caseSensitive r.entries e.1).findSome? (fun (key, slot) =>
        if namesAgree caseSensitive key name then view slot else none) = none := by
    rw [List.findSome?_eq_none_iff]
    rintro ⟨key, slot⟩ hmem
    have hfree : Named.taken Prod.fst caseSensitive r.entries key = false := by
      simpa using (List.mem_filter.mp hmem).2
    refine if_neg fun hagree => ?_
    rw [namesAgree_comm] at hagree
    rw [Named.taken_of_agree Prod.fst caseSensitive htaken hagree] at hfree
    exact Bool.noConfusion hfree
  rw [search, fill, Named.fill_eq, List.findSome?_append, hadded, Option.or_none, search]

end Registry

/-! ## Histories -/

/-- The calls that have been made on a registry, the last one outermost. -/
inductive History (H : Type) where
  | empty
  | insert (past : History H) (name : String) (h : H)
  | declare (past : History H) (name kind : String)
  | fill (past weaker : History H) (caseSensitive : Bool)

namespace History

/-- The registry that a history leaves. -/
def registry : History H → Registry H
  | empty => {}
  | insert past name h => past.registry.insert name h
  | declare past name kind => past.registry.declare name kind
  | fill past weaker caseSensitive => past.registry.fill weaker.registry caseSensitive

/-- What names have been registered with, in the order in which they were. Of a weaker registry, that
is the first entry of every name that is not taken. -/
def registered : History H → List (String × Slot H)
  | empty => []
  | insert past name h => past.registered ++ [(name, .handler h)]
  | declare past name kind => past.registered ++ [(name, .declared kind)]
  | fill past weaker caseSensitive =>
    past.registered ++
      (Named.firsts Prod.fst caseSensitive (Named.settled Prod.fst weaker.registered)).filter
        fun (name, _) => !Named.taken Prod.fst caseSensitive past.registered name

/-- The names, in the order of their first registration. -/
def names (past : History H) : List String :=
  (Named.firsts Prod.fst true past.registered).map Prod.fst

/-- What a name was registered with last. -/
def last? (past : History H) (name : String) : Option (Slot H) :=
  (past.registered.reverse.find? fun e => e.1 == name).map Prod.snd

/-- A registry is its registrations settled. -/
theorem entries_registry (past : History H) :
    past.registry.entries = Named.settled Prod.fst past.registered := by
  induction past with
  | empty => rfl
  | insert past name h ih =>
    rw [registered, Named.settled_concat_eq_put, ← ih]
    rfl
  | declare past name kind ih =>
    rw [registered, Named.settled_concat_eq_put, ← ih]
    rfl
  | fill past weaker caseSensitive ih ihWeaker =>
    have hentries : (past.fill weaker caseSensitive).registry.entries =
        Named.fill Prod.fst caseSensitive past.registry.entries weaker.registry.entries := rfl
    have hfilter : ((Named.firsts Prod.fst caseSensitive
        (Named.settled Prod.fst weaker.registered)).filter fun (name, _) =>
          !Named.taken Prod.fst caseSensitive past.registered name).Sublist
        (Named.firsts Prod.fst caseSensitive (Named.settled Prod.fst weaker.registered)) :=
      List.filter_sublist
    rw [hentries, registered, Named.settled_append, Named.fill_eq, ih, ihWeaker]
    · simp only [Named.taken_settled]
    -- what is added has new names, each once, so that settling leaves it where it is
    · exact (Named.nodup_names_firsts _ _ _).sublist (hfilter.map Prod.fst)
    · rintro ⟨name, slot⟩ hmem hname
      have hfree : Named.taken Prod.fst caseSensitive past.registered name = false := by
        simpa using (List.mem_filter.mp hmem).2
      obtain ⟨e, he, rfl⟩ := List.mem_map.mp hname
      have htaken := (Named.taken_iff Prod.fst caseSensitive).mpr
        ⟨e, he, namesAgree_refl caseSensitive e.1⟩
      rw [htaken] at hfree
      exact Bool.noConfusion hfree

/-! ## What is found -/

theorem last?_of_mem {past : History H} {e : String × Slot H} (h : e ∈ past.registered) :
    past.last? e.1 = some (Named.latest Prod.fst past.registered e).2 := by
  unfold last? Named.latest
  cases hfound : past.registered.reverse.find? fun e' => e'.1 == e.1 with
  | none =>
    have hnot := List.find?_eq_none.mp hfound e (List.mem_reverse.mpr h)
    exact absurd (beq_self_eq_true e.1) hnot
  | some e' => rfl

theorem last?_eq_none {past : History H} {n : String} (h : n ∉ past.names) :
    past.last? n = none := by
  rw [last?, Option.map_eq_none_iff, List.find?_eq_none]
  intro e he hname
  refine h ?_
  rw [names, ← Named.taken_exact, Named.taken_firsts, Named.taken_exact]
  exact List.mem_map.mpr ⟨e, List.mem_reverse.mp he, beq_iff_eq.mp hname⟩

/-- What is found under a name is what is seen first of the names that agree with it, each as it was
registered last. -/
theorem search_registry (view : Slot H → Option β) (past : History H) (n : String)
    (caseSensitive : Bool) :
    past.registry.search view n caseSensitive =
      past.names.findSome? fun m =>
        if namesAgree caseSensitive m n then (past.last? m).bind view else none := by
  rw [Registry.search, entries_registry, Named.settled, names, List.findSome?_map,
    List.findSome?_map, ← List.head?_filterMap, ← List.head?_filterMap]
  congr 1
  refine List.filterMap_congr fun e he => ?_
  have hname := Named.name_latest Prod.fst past.registered e
  have hlast := last?_of_mem ((Named.firsts_sublist Prod.fst true past.registered).subset he)
  rw [Function.comp_apply, Function.comp_apply, hlast, ← hname]
  rfl

theorem findSome?_only {α : Type} [DecidableEq α] {a : α} {xs : List α} (h : a ∈ xs)
    (answer : Option β) :
    xs.findSome? (fun x => if x = a then answer else none) = answer := by
  obtain ⟨front, back, rfl, hfront⟩ := List.eq_append_cons_of_mem h
  have hbefore : front.findSome? (fun x => if x = a then answer else none) = none := by
    rw [List.findSome?_eq_none_iff]
    intro x hx
    refine if_neg ?_
    rintro rfl
    exact hfront hx
  rw [List.findSome?_append, hbefore, Option.none_or, List.findSome?_cons, if_pos rfl]
  cases answer with
  | none => simp
  | some b => rfl

/-- A name that is looked for as it is written stands for what it was registered with last. -/
theorem search_registry_exact (view : Slot H → Option β) (past : History H) (n : String) :
    past.registry.search view n true = (past.last? n).bind view := by
  have hexact : ∀ m, (if namesAgree true m n then (past.last? m).bind view else none) =
      if m = n then (past.last? n).bind view else none := by
    intro m
    simp only [namesAgree_exact]
    split
    · next hm => rw [hm]
    · rfl
  simp only [search_registry, hexact]
  by_cases hn : n ∈ past.names
  · exact findSome?_only hn _
  · rw [last?_eq_none hn, Option.bind_none]
    simp

/-- What calls make of an empty registry, with code or without, each name with its own history. The
names are different, and stand in the order in which they were first registered. A name as it is
written stands for what it was registered with last, which is code or a kind and never both. A name
in either mode stands for the first code that a name which agrees with it has, whatever kinds stand
before it. And filling up changes nothing about a name that agrees with one that is there. -/
theorem registry_kept (past : History H) :
    past.registry.entries.map Prod.fst = past.names ∧ past.names.Nodup ∧
    (∀ n, past.registry.find? n true = none ∨ past.registry.declaredKind? n true = none) ∧
    (∀ n h, past.registry.find? n true = some h ↔ past.last? n = some (.handler h)) ∧
    (∀ n kind, past.registry.declaredKind? n true = some kind ↔
      past.last? n = some (.declared kind)) ∧
    (∀ n caseSensitive, past.registry.find? n caseSensitive =
      past.names.findSome? fun m =>
        if namesAgree caseSensitive m n then (past.last? m).bind Slot.code? else none) ∧
    ∀ weaker caseSensitive n,
      Named.taken Prod.fst caseSensitive past.registry.entries n = true →
        (past.fill weaker caseSensitive).registry.find? n caseSensitive =
          past.registry.find? n caseSensitive ∧
        (past.fill weaker caseSensitive).registry.declaredKind? n caseSensitive =
          past.registry.declaredKind? n caseSensitive := by
  have hcode : ∀ n h, past.registry.find? n true = some h ↔ past.last? n = some (.handler h) := by
    intro n h
    rw [Registry.find?_eq_search, search_registry_exact, Option.bind_eq_some_iff]
    simp only [Slot.code?_eq_some_iff, exists_eq_right]
  have hkind : ∀ n kind, past.registry.declaredKind? n true = some kind ↔
      past.last? n = some (.declared kind) := by
    intro n kind
    rw [Registry.declaredKind?_eq_search, search_registry_exact, Option.bind_eq_some_iff]
    simp only [Slot.kind?_eq_some_iff, exists_eq_right]
  refine ⟨?_, Named.nodup_names_firsts Prod.fst true _, ?_, hcode, hkind, ?_, ?_⟩
  · rw [entries_registry, Named.names_settled]
    rfl
  · intro n
    cases hfind : past.registry.find? n true with
    | none => exact Or.inl rfl
    | some h =>
      right
      rw [Option.eq_none_iff_forall_ne_some]
      intro kind hfound
      rw [hkind, (hcode n h).mp hfind] at hfound
      cases hfound
  · intro n caseSensitive
    rw [Registry.find?_eq_search, search_registry]
  · intro weaker caseSensitive n htaken
    simp only [Registry.find?_eq_search, Registry.declaredKind?_eq_search]
    exact ⟨Registry.search_fill _ htaken weaker.registry,
      Registry.search_fill _ htaken weaker.registry⟩

/-- A name is declared in one spelling and given code in another. -/
def legacy : History String :=
  ((empty.declare "Legacy" "string").insert "IsNew" "is new").insert "legacy" "is old"

def loaded : History String := (empty.insert "LEGACY" "is gone").declare "Archived" "boolean"

theorem registry_kept_legacy :
    Named.taken Prod.fst false legacy.registry.entries "LEGACY" = true ∧
      (legacy.fill loaded false).registry.find? "LEGACY" false = some "is old" ∧
      (legacy.fill loaded false).registry.declaredKind? "LEGACY" false = some "string" := by
  have htaken : Named.taken Prod.fst false legacy.registry.entries "LEGACY" = true := by
    decide +kernel
  obtain ⟨-, -, -, -, -, -, hfill⟩ := registry_kept legacy
  obtain ⟨hcode, hkind⟩ := hfill loaded false "LEGACY" htaken
  refine ⟨htaken, ?_, ?_⟩
  · rw [hcode]
    decide +kernel
  · rw [hkind]
    decide +kernel

end History

end Criteria

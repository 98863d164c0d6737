import Criteria.Proofs.Record.Results

/-!
# Sorting key by key

Sorting by several keys at once is sorting by each of them alone, the least important first. What is
equal under a key keeps its order, and that is the order in which the keys after it have put it.
-/

namespace Criteria

variable {ρ : Type} [Record ρ]

theorem compareRecords_append (a b : ρ) (keys keys' : List SortSpec) :
    compareRecords a b (keys ++ keys') =
      (compareRecords a b keys).then (compareRecords a b keys') := by
  induction keys with
  | nil => rfl
  | cons key rest ih =>
    rw [List.cons_append, compareRecords, ih, compareRecords, Ordering.then_assoc]

theorem OneKind.mono {records records' : List ρ} {path : String} (h : OneKind records path)
    (hsub : records' ⊆ records) : OneKind records' path := by
  obtain ⟨kind, hkind⟩ := h
  exact ⟨kind, fun r hr => hkind r (hsub hr)⟩

namespace Query

/-- The query that asks for nothing but an order. -/
def byKeys (keys : List SortSpec) : Query := { sorts := keys }

variable {records : List ρ}

theorem sortedFrom_byKeys {keys : List SortSpec} (h : ∀ key ∈ keys, OneKind records key.field) :
    SortedFrom (compareRecords · · keys) records ((byKeys keys).execute records) := by
  have hall : records.filter (byKeys keys).accepts = records :=
    List.filter_eq_self.mpr fun _ _ => rfl
  have hsorted := sortedFrom_ordered (q := byKeys keys) h
  rw [hall] at hsorted
  exact hsorted

/-- Sorting by some keys and further ones is sorting by the further ones and then by the others. -/
theorem execute_byKeys_append (keys keys' : List SortSpec)
    (h : ∀ key ∈ keys ++ keys', OneKind records key.field) :
    (byKeys (keys ++ keys')).execute records =
      (byKeys keys).execute ((byKeys keys').execute records) := by
  have hpreorders := preordersOn_compareRecords h
  rw [List.forall_mem_append] at h
  have hlater := sortedFrom_byKeys h.2
  have hearlier : SortedFrom (compareRecords · · keys) ((byKeys keys').execute records)
      ((byKeys keys).execute ((byKeys keys').execute records)) :=
    sortedFrom_byKeys fun key hkey => (h.1 key hkey).mono hlater.perm.subset
  have hboth : SortedFrom (compareRecords · · (keys ++ keys')) records
      ((byKeys keys).execute ((byKeys keys').execute records)) := by
    simp only [compareRecords_append]
    exact hlater.then (fun a ha => (preordersOn_compareRecords h.1).refl ha) hearlier
  exact SortedFrom.unique hpreorders (sortedFrom_byKeys (List.forall_mem_append.mpr h)) hboth

/-- Sorting by several keys is sorting by one after the other, from the last to the first, where all
numbers at the path of every key are of one kind. -/
theorem execute_byKeys (keys : List SortSpec) (records : List ρ)
    (h : ∀ key ∈ keys, OneKind records key.field) :
    (byKeys keys).execute records =
      keys.foldr (fun key sorted => (byKeys [key]).execute sorted) records := by
  induction keys with
  | nil => exact execute_empty records
  | cons key rest ih =>
    rw [List.foldr_cons, ← ih (List.forall_mem_cons.mp h).2]
    exact execute_byKeys_append [key] rest h

/-- From high to low by what is read, then by the sensor; the last key makes no difference. -/
def valueThenSensor : List SortSpec :=
  [.descendingBy "value", .ascendingBy "sensor", .ascendingBy "value"]

theorem execute_byKeys_readings :
    (∀ key ∈ valueThenSensor, OneKind readings key.field) ∧
      (byKeys valueThenSensor).execute readings =
        (byKeys [.descendingBy "value"]).execute ((byKeys [.ascendingBy "sensor"]).execute
          ((byKeys [.ascendingBy "value"]).execute readings)) := by
  have hkinds : ∀ key ∈ valueThenSensor, OneKind readings key.field :=
    List.forall_mem_cons.mpr ⟨⟨.double, by decide +kernel⟩,
      List.forall_mem_cons.mpr ⟨⟨.double, by decide +kernel⟩,
        List.forall_mem_singleton.mpr ⟨.double, by decide +kernel⟩⟩⟩
  have hpasses := execute_byKeys valueThenSensor readings hkinds
  refine ⟨hkinds, hpasses.trans ?_⟩
  rw [valueThenSensor, List.foldr_cons, List.foldr_cons, List.foldr_cons, List.foldr_nil]

end Query

end Criteria

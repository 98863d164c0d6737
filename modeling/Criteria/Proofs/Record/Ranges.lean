import Criteria.Proofs.Record.Comparisons
import Criteria.Proofs.Record.Results

/-!
# Ranges of a sorted list

The order by which records are sorted compares two integers of one kind exactly, and a range
compares each of them with a double. Rounding keeps the order, so a range never stops short of a
value that comes later. Where no record comes directly before a lesser one, a range is therefore one
end of the list, and this is so even though the order of integers and doubles is not transitive.
-/

namespace Criteria

/-! ## Ends of a list -/

theorem filter_suffix_of_pairwise {α : Type} {p : α → Bool} {xs : List α}
    (h : xs.Pairwise fun a b => p a = true → p b = true) : xs.filter p <:+ xs := by
  induction xs with
  | nil => exact List.suffix_rfl
  | cons x rest ih =>
    rw [List.pairwise_cons] at h
    by_cases hx : p x = true
    · have hall : (x :: rest).filter p = x :: rest :=
        List.filter_eq_self.mpr (List.forall_mem_cons.mpr ⟨hx, fun y hy => h.1 y hy hx⟩)
      simp only [hall, List.suffix_rfl]
    · rw [List.filter_cons_of_neg hx]
      exact (ih h.2).trans (List.suffix_cons x rest)

theorem filter_prefix_of_pairwise {α : Type} {p : α → Bool} {xs : List α}
    (h : xs.Pairwise fun a b => p b = true → p a = true) : xs.filter p <+: xs := by
  rw [← List.reverse_suffix, ← List.filter_reverse]
  exact filter_suffix_of_pairwise (List.pairwise_reverse.mpr h)

namespace FieldValue

/-- Two texts, or two numbers of which neither is no number. -/
def Alike : FieldValue → FieldValue → Prop
  | number x, number y => x.toDouble.isNaN = false ∧ y.toDouble.isNaN = false
  | text _, text _ => True
  | _, _ => False

instance : (a b : FieldValue) → Decidable (a.Alike b)
  | number x, number y =>
    inferInstanceAs (Decidable (x.toDouble.isNaN = false ∧ y.toDouble.isNaN = false))
  | text _, text _ => .isTrue trivial
  | number _, text _ | number _, bool _ | number _, null => .isFalse id
  | text _, number _ | text _, bool _ | text _, null => .isFalse id
  | bool _, _ | null, _ => .isFalse id

theorem Alike.comparable_iff {a b : FieldValue} (h : a.Alike b) (w : Value) :
    a.Comparable w ↔ b.Comparable w := by
  cases a <;> cases b <;> simp only [Alike] at h
  · cases w <;> exact Iff.rfl
  · cases w <;> simp [Comparable, h]

end FieldValue

namespace Query

variable {ρ : Type} [Record ρ]

theorem execute_sublist (q : Query) (records : List ρ) :
    (q.execute records).Sublist (q.ordered records) := by
  unfold execute
  split
  · exact (List.take_sublist _ _).trans (List.drop_sublist _ _)
  · exact .refl _

/-- No result comes directly before a lesser one. -/
theorem isChain_execute (q : Query) (records : List ρ) :
    (q.execute records).IsChain fun a b => (compareRecords a b q.sorts).isLE := by
  have hordered : (q.ordered records).IsChain fun a b => (compareRecords a b q.sorts).isLE := by
    unfold ordered
    split
    · next hempty =>
      rw [List.isEmpty_iff.mp hempty]
      exact (List.pairwise_of_forall fun _ _ => rfl).isChain
    · exact isChain_stableSort (fun a b => compareRecords_swap a b q.sorts) _
  unfold execute
  split
  · exact (hordered.drop _).take _
  · exact hordered

end Query

namespace Condition

open FieldValue

/-! ## One value after another -/

/-- Of two values, the second is above a value or no less if the first is, and the first is below it
or no greater if the second is. -/
structure RangesFollow (c : Condition) (a b : FieldValue) : Prop where
  greaterThan : (c.asking .greaterThan).holds a = true → (c.asking .greaterThan).holds b = true
  greaterThanOrEqual :
    (c.asking .greaterThanOrEqual).holds a = true → (c.asking .greaterThanOrEqual).holds b = true
  lessThan : (c.asking .lessThan).holds b = true → (c.asking .lessThan).holds a = true
  lessThanOrEqual :
    (c.asking .lessThanOrEqual).holds b = true → (c.asking .lessThanOrEqual).holds a = true

namespace RangesFollow

variable {c : Condition} {a b : FieldValue}

theorem trans {d : FieldValue} (hab : c.RangesFollow a b) (hbd : c.RangesFollow b d) :
    c.RangesFollow a d where
  greaterThan h := hbd.greaterThan (hab.greaterThan h)
  greaterThanOrEqual h := hbd.greaterThanOrEqual (hab.greaterThanOrEqual h)
  lessThan h := hab.lessThan (hbd.lessThan h)
  lessThanOrEqual h := hab.lessThanOrEqual (hbd.lessThanOrEqual h)

theorem of_not_comparable (ha : ¬ a.Comparable c.value) (hb : ¬ b.Comparable c.value) :
    c.RangesFollow a b := by
  have hnone : ∀ {v : FieldValue} {op : Operator}, ¬ v.Comparable c.value →
      op.isOrdering = true → (c.asking op).holds v ≠ true := by
    intro v op hv hop h
    rw [holds_of_not_comparable hop hv] at h
    cases h
  exact ⟨fun h => absurd h (hnone ha rfl), fun h => absurd h (hnone ha rfl),
    fun h => absurd h (hnone hb rfl), fun h => absurd h (hnone hb rfl)⟩

/-- Two values follow each other if they and the value of the condition are compared by something
transitive. -/
theorem of_transCmp {α : Type} (cmp : α → α → Ordering) [Std.TransCmp cmp] {u v t : α}
    (ha : a.order? c.insensitive c.value = some (cmp u t))
    (hb : b.order? c.insensitive c.value = some (cmp v t)) (huv : (cmp u v).isLE) :
    c.RangesFollow a b := by
  have hvu : (cmp v u).isGE := Std.OrientedCmp.isGE_iff_isLE.mpr huv
  constructor <;> rw [holds_eq_accepts ha rfl, holds_eq_accepts hb rfl]
  · show (cmp u t == .gt) = true → (cmp v t == .gt) = true
    rw [beq_iff_eq, beq_iff_eq]
    intro hut
    exact Std.TransCmp.gt_of_isGE_of_gt hvu hut
  · show (cmp u t != .lt) = true → (cmp v t != .lt) = true
    rw [bne_iff_ne, bne_iff_ne]
    intro hut hvt
    exact hut (Std.TransCmp.lt_of_isLE_of_lt huv hvt)
  · show (cmp v t == .lt) = true → (cmp u t == .lt) = true
    rw [beq_iff_eq, beq_iff_eq]
    intro hvt
    exact Std.TransCmp.lt_of_isLE_of_lt huv hvt
  · show (cmp v t != .gt) = true → (cmp u t != .gt) = true
    rw [bne_iff_ne, bne_iff_ne]
    intro hvt hut
    exact hvt (Std.TransCmp.gt_of_isGE_of_gt hvu hut)

/-- The ranges of a condition that minds case follow the order of values. -/
theorem of_compareTotal (hcase : c.insensitive = false) (halike : a.Alike b)
    (hle : compareTotal a b ≠ .gt) : c.RangesFollow a b := by
  by_cases hb : b.Comparable c.value
  · cases hvalue : c.value <;> rw [hvalue] at hb <;> cases b <;>
      simp only [Comparable] at hb <;> cases a <;> simp only [Alike] at halike
    · rename_i z y x
      have horder : ∀ n : Numeral, n.toDouble.isNaN = false →
          (number n).order? c.insensitive c.value = some (compare n.place z.place) := by
        intro n hn
        rw [hvalue]
        show n.compare? (.double z) = _
        rw [Numeral.compare?_double_right]
        exact Double.compare?_of_isNaN hn hb.2
      refine of_transCmp compare (horder x halike.1) (horder y halike.2) ?_
      rw [Int.isLE_compare]
      exact place_le hle
    · rename_i u t s
      have horder : ∀ s : String, (text s).order? c.insensitive c.value = some (compare s u) := by
        intro s
        rw [hvalue, hcase]
        rfl
      refine of_transCmp compare (horder s) (horder t) ?_
      exact Ordering.ne_gt_iff_isLE.mp hle
  · exact of_not_comparable (fun ha => hb ((halike.comparable_iff c.value).mp ha)) hb

end RangesFollow

/-! ## Lists -/

section Lists

variable {ρ : Type} [Record ρ] {c : Condition} {records : List ρ}

/-- What is above a value, or no less, is the end of a list, and what is below it, or no greater,
its front. -/
structure CutsOff (c : Condition) (records : List ρ) : Prop where
  ending : ∀ op ∈ [Operator.greaterThan, .greaterThanOrEqual],
    records.filter ((c.asking op).holdsFor ·) <:+ records
  front : ∀ op ∈ [Operator.lessThan, .lessThanOrEqual],
    records.filter ((c.asking op).holdsFor ·) <+: records

theorem CutsOff.of_pairwise (h : records.Pairwise fun r r' =>
    c.RangesFollow (Record.fieldValue r c.field) (Record.fieldValue r' c.field)) :
    c.CutsOff records := by
  constructor
  · rw [List.forall_mem_cons, List.forall_mem_singleton]
    constructor
    · exact filter_suffix_of_pairwise (h.imp fun hfollow => hfollow.greaterThan)
    · exact filter_suffix_of_pairwise (h.imp fun hfollow => hfollow.greaterThanOrEqual)
  · rw [List.forall_mem_cons, List.forall_mem_singleton]
    constructor
    · exact filter_prefix_of_pairwise (h.imp fun hfollow => hfollow.lessThan)
    · exact filter_prefix_of_pairwise (h.imp fun hfollow => hfollow.lessThanOrEqual)

/-- Ranges cut off a list if no record of it comes directly before a lesser one. -/
theorem CutsOff.of_isChain (hcase : c.insensitive = false)
    (halike : ∀ r ∈ records, ∀ r' ∈ records,
      (Record.fieldValue r c.field).Alike (Record.fieldValue r' c.field))
    (hchain : records.IsChain fun r r' =>
      compareTotal (Record.fieldValue r c.field) (Record.fieldValue r' c.field) ≠ .gt) :
    c.CutsOff records := by
  let follows (r r' : ρ) : Prop :=
    c.RangesFollow (Record.fieldValue r c.field) (Record.fieldValue r' c.field)
  have hfollows : records.IsChain follows :=
    hchain.imp_of_mem_imp fun r r' hr hr' hle => .of_compareTotal hcase (halike r hr r' hr') hle
  have htrans : Trans follows follows follows := ⟨fun hab hbd => hab.trans hbd⟩
  exact .of_pairwise hfollows.pairwise

theorem CutsOff.execute {q : Query} (hcase : c.insensitive = false)
    (halike : ∀ r ∈ records.filter q.accepts, ∀ r' ∈ records.filter q.accepts,
      (Record.fieldValue r c.field).Alike (Record.fieldValue r' c.field))
    (hkey : q.sorts.head? = some (.ascendingBy c.field)) : c.CutsOff (q.execute records) := by
  have hsub : q.execute records ⊆ records.filter q.accepts :=
    List.Subset.trans (q.execute_sublist records).subset (q.ordered_perm records).subset
  refine .of_isChain hcase (fun r hr r' hr' => halike r (hsub hr) r' (hsub hr')) ?_
  refine (q.isChain_execute records).imp fun r r' hle => ?_
  obtain ⟨rest, hkeys⟩ := List.head?_eq_some_iff.mp hkey
  rw [hkeys, compareRecords] at hle
  rw [ne_eq, Ordering.ne_gt_iff_isLE]
  have hfirst : ∀ o o' : Ordering, (o.then o').isLE → o.isLE := by decide
  exact hfirst _ _ hle

end Lists

/-- Ranges agree with the order of values. Of two values that are both texts or both numbers, and of
which the second comes no earlier, the second is above a value, or no less, if the first is, and the
first is below it, or no greater, if the second is. So in a list of such values in which no record
comes directly before a lesser one, what is above a value, or no less, is the end, and what is below
it, or no greater, the front; and the results of a query are such a list if its first key is the
field, from low to high. -/
theorem ranges_cut_off (c : Condition) (hcase : c.insensitive = false) :
    (∀ a b : FieldValue, a.Alike b → compareTotal a b ≠ .gt → c.RangesFollow a b) ∧
    (∀ (ρ : Type) [Record ρ] (records : List ρ),
      (∀ r ∈ records, ∀ r' ∈ records,
        (Record.fieldValue r c.field).Alike (Record.fieldValue r' c.field)) →
      (records.IsChain fun r r' =>
        compareTotal (Record.fieldValue r c.field) (Record.fieldValue r' c.field) ≠ .gt) →
      c.CutsOff records) ∧
    (∀ (ρ : Type) [Record ρ] (q : Query) (records : List ρ),
      (∀ r ∈ records.filter q.accepts, ∀ r' ∈ records.filter q.accepts,
        (Record.fieldValue r c.field).Alike (Record.fieldValue r' c.field)) →
      q.sorts.head? = some (.ascendingBy c.field) → c.CutsOff (q.execute records)) := by
  refine ⟨?_, ?_, ?_⟩
  · intro a b halike hle
    exact .of_compareTotal hcase halike hle
  · intro ρ _ records halike hchain
    exact .of_isChain hcase halike hchain
  · intro ρ _ q records halike hkey
    exact .execute hcase halike hkey

/-- Three readings of which each is equal to the next, and the first greater than the last. -/
def levels : List Query.Reading :=
  [⟨"north", .number (.int 9007199254740993)⟩,
    ⟨"middle", .number (.double (.ofInt 9007199254740992))⟩,
    ⟨"south", .number (.int 9007199254740992)⟩]

def flooded : Condition :=
  ⟨"value", .number (.ofInt 9007199254740992), .greaterThanOrEqual, false, false, true⟩

theorem ranges_cut_off_levels :
    flooded.insensitive = false ∧
      flooded.RangesFollow (.number (.nat 3)) (.number (.double (.ofInt 9007199254740992))) ∧
      flooded.CutsOff levels ∧
      flooded.CutsOff ((Query.orderBy {} (.ascendingBy "value")).execute levels.reverse) := by
  obtain ⟨hvalues, hlists, hqueries⟩ := ranges_cut_off flooded rfl
  refine ⟨rfl, ?_, ?_, ?_⟩
  · exact hvalues _ _ (by decide) (by decide +kernel)
  · exact hlists _ levels (by decide +kernel) (by decide +kernel)
  · exact hqueries _ _ levels.reverse (by decide +kernel) rfl

end Condition

end Criteria

import Criteria.Proofs.Record.Sorting
import Criteria.Proofs.Record.TotalOrder

/-!
# The results of a query

Numbers of one kind never blur each other, so where all numbers at a path are of one kind, comparing
the values there is a total preorder. A key keeps this law, in descending order as well, because
null stays last in both; and so do several keys, of which a later one counts where those before it
find two records equal. Hence the results of a query without a page are in the one order that its
keys and the order of the records leave.
-/

namespace Criteria

/-! ## Numbers of one kind -/

namespace Numeral

/-- The ways in which a record holds a number. -/
inductive Kind where
  | int
  | nat
  | double
  deriving DecidableEq

def kind : Numeral → Kind
  | int _ => .int
  | nat _ => .nat
  | double _ => .double

theorem not_blurred_of_kind {x y : Numeral} (h : x.kind = y.kind) (z : Numeral) :
    ¬ Blurred x y z := by
  rintro ⟨hxz, hxy, -⟩
  cases x with
  | double => cases z <;> exact hxz
  | int => cases y <;> first | exact hxy trivial | exact absurd h nofun
  | nat => cases y <;> first | exact hxy trivial | exact absurd h nofun

end Numeral

namespace FieldValue

/-- A value that, if it is a number, is one of the given kind. -/
def HoldsKind (kind : Numeral.Kind) (v : FieldValue) : Prop :=
  ∀ x ∈ v.asNumber?, x.kind = kind

instance (kind : Numeral.Kind) : DecidablePred (HoldsKind kind) := fun v => by
  unfold HoldsKind
  infer_instance

/-! ## Values -/

theorem compareTotal_number_swap (x y : Numeral) :
    compareTotal (number x) (number y) = (compareTotal (number y) (number x)).swap := by
  by_cases hs : x.SameIntegers y
  · rw [compareTotal_integers hs, compareTotal_integers hs.symm]
    exact Std.OrientedOrd.eq_swap
  · rw [compareTotal_places hs, compareTotal_places fun hs' => hs hs'.symm]
    exact Std.OrientedOrd.eq_swap

theorem compareTotal_swap (a b : FieldValue) : compareTotal a b = (compareTotal b a).swap := by
  by_cases hkinds : a.kindRank = b.kindRank
  · cases a with
    | bool u =>
      cases b <;> simp [kindRank] at hkinds
      exact Std.OrientedOrd.eq_swap
    | number x =>
      cases b <;> simp [kindRank] at hkinds
      exact compareTotal_number_swap x _
    | text s =>
      cases b <;> simp [kindRank] at hkinds
      exact Std.OrientedOrd.eq_swap
    | null =>
      cases b <;> simp [kindRank] at hkinds
      rfl
  · rw [compareTotal_of_kindRank_ne hkinds, compareTotal_of_kindRank_ne (Ne.symm hkinds)]
    exact Std.OrientedOrd.eq_swap

theorem compareTotal_trans {kind : Numeral.Kind} {a b c : FieldValue} (ha : a.HoldsKind kind)
    (hb : b.HoldsKind kind) (hab : (compareTotal a b).isLE) (hbc : (compareTotal b c).isLE) :
    (compareTotal a c).isLE := by
  have hchained : Chained a b c := by
    refine .of_forall_not_blurred ?_
    rintro x y z rfl rfl rfl
    exact Numeral.not_blurred_of_kind ((ha x rfl).trans (hb y rfl).symm) z
  rw [← Ordering.ne_gt_iff_isLE] at hab hbc ⊢
  exact hchained.ordered hab hbc

/-! ## Values under a key -/

theorem isNull_iff {v : FieldValue} : v.isNull = true ↔ v = null := by
  cases v <;> simp [isNull]

theorem isNull_eq_false_iff {v : FieldValue} : v.isNull = false ↔ v ≠ null := by
  rw [← Bool.not_eq_true, isNull_iff]

theorem compareBy_swap (descending : Bool) (a b : FieldValue) :
    compareBy descending a b = (compareBy descending b a).swap := by
  have hnull : (descending && !a.isNull && !b.isNull) = (descending && !b.isNull && !a.isNull) :=
    Bool.and_right_comm ..
  rw [compareBy, compareBy, hnull, compareTotal_swap a b]
  split <;> rfl

theorem compareBy_of_ne_null (descending : Bool) {a b : FieldValue} (ha : a ≠ null)
    (hb : b ≠ null) :
    compareBy descending a b = if descending then compareTotal b a else compareTotal a b := by
  rw [compareBy, isNull_eq_false_iff.mpr ha, isNull_eq_false_iff.mpr hb, ← compareTotal_swap b a,
    Bool.not_false, Bool.and_true, Bool.and_true]

theorem isLE_compareBy_null (descending : Bool) (a : FieldValue) :
    (compareBy descending a null).isLE := by
  cases a <;> cases descending <;> rfl

theorem ne_null_of_isLE {descending : Bool} {a b : FieldValue} (hb : b ≠ null)
    (hab : (compareBy descending a b).isLE) : a ≠ null := by
  rintro rfl
  rw [compareBy_null descending hb] at hab
  exact absurd hab (by decide)

theorem compareBy_trans (descending : Bool) {kind : Numeral.Kind} {a b c : FieldValue}
    (ha : a.HoldsKind kind) (hb : b.HoldsKind kind) (hc : c.HoldsKind kind)
    (hab : (compareBy descending a b).isLE) (hbc : (compareBy descending b c).isLE) :
    (compareBy descending a c).isLE := by
  by_cases hcnull : c = null
  · rw [hcnull]
    exact isLE_compareBy_null descending a
  · -- Nothing that is not null comes behind null, so none of the three is null.
    have hbnull : b ≠ null := ne_null_of_isLE hcnull hbc
    have hanull : a ≠ null := ne_null_of_isLE hbnull hab
    rw [compareBy_of_ne_null descending hanull hbnull] at hab
    rw [compareBy_of_ne_null descending hbnull hcnull] at hbc
    rw [compareBy_of_ne_null descending hanull hcnull]
    cases descending with
    | false => exact compareTotal_trans ha hb hab hbc
    | true => exact compareTotal_trans hc hb hbc hab

end FieldValue

/-! ## Records -/

section Records

variable {ρ : Type} [Record ρ]

/-- All numbers that records hold at a path are of one kind. -/
def OneKind (records : List ρ) (path : String) : Prop :=
  ∃ kind, ∀ r ∈ records, (Record.fieldValue r path).HoldsKind kind

/-- Two records are equal under every key. -/
def Tied (keys : List SortSpec) (a b : ρ) : Prop :=
  ∀ key ∈ keys, FieldValue.compareBy key.descending (Record.fieldValue a key.field)
    (Record.fieldValue b key.field) = .eq

instance (keys : List SortSpec) (a : ρ) : DecidablePred (Tied keys a) := fun b => by
  unfold Tied
  infer_instance

theorem compareRecords_swap (a b : ρ) (keys : List SortSpec) :
    compareRecords a b keys = (compareRecords b a keys).swap := by
  induction keys with
  | nil => rfl
  | cons key rest ih =>
    rw [compareRecords, compareRecords, ih, FieldValue.compareBy_swap, Ordering.swap_then]

theorem compareRecords_eq_iff {keys : List SortSpec} {a b : ρ} :
    compareRecords a b keys = .eq ↔ Tied keys a b := by
  induction keys with
  | nil => exact ⟨fun _ => nofun, fun _ => rfl⟩
  | cons key rest ih =>
    rw [compareRecords, Ordering.then_eq_eq, ih, Tied, Tied, List.forall_mem_cons]

theorem filter_compareRecords (keys : List SortSpec) (a : ρ) (records : List ρ) :
    records.filter (compareRecords a · keys == .eq) = records.filter (Tied keys a ·) := by
  refine List.filter_congr fun b _ => ?_
  rw [Bool.eq_iff_iff, beq_iff_eq, compareRecords_eq_iff, decide_eq_true_iff]

/-- Where the numbers at the path of every key are of one kind, comparing records is a total
preorder. -/
theorem preordersOn_compareRecords {records : List ρ} {keys : List SortSpec}
    (h : ∀ key ∈ keys, OneKind records key.field) :
    PreordersOn (compareRecords · · keys) records := by
  induction keys with
  | nil => exact { eq_swap := rfl, isLE_trans := fun _ _ => rfl }
  | cons key rest ih =>
    rw [List.forall_mem_cons] at h
    obtain ⟨⟨kind, hkind⟩, hrest⟩ := h
    have hkey : PreordersOn (fun a b => FieldValue.compareBy key.descending
        (Record.fieldValue a key.field) (Record.fieldValue b key.field)) records :=
      { eq_swap := FieldValue.compareBy_swap key.descending _ _
        isLE_trans := fun {a b c} => FieldValue.compareBy_trans key.descending (hkind a a.2)
          (hkind b b.2) (hkind c c.2) }
    have hlater : PreordersOn (compareRecords · · rest) records := ih hrest
    unfold PreordersOn at hkey hlater
    exact inferInstanceAs (Std.TransCmp (compareLex _ _))

end Records

namespace Query

variable {ρ : Type} [Record ρ]

theorem sortedFrom_ordered {q : Query} {records : List ρ}
    (h : ∀ key ∈ q.sorts, OneKind records key.field) :
    SortedFrom (compareRecords · · q.sorts) (records.filter q.accepts) (q.ordered records) := by
  unfold ordered
  split
  · next hempty =>
    have hkeys : q.sorts = [] := List.isEmpty_iff.mp hempty
    rw [hkeys]
    exact ⟨.refl _, List.pairwise_of_forall fun _ _ => rfl, fun _ _ => rfl⟩
  · exact sortedFrom_stableSort ((preordersOn_compareRecords h).mono List.filter_sublist.subset)

/-- The results of a query without a page. There are as many of them as are counted, whatever the
keys. And where all numbers at the path of every key are of one kind, they are the one list of
exactly the records that pass in which no record comes before a lesser one, and those that are equal
under every key are in the order they had. Records with their places are records as well, so this
also says which of two records that are the same stands where. -/
theorem eq_execute_iff (q : Query) (hpage : q.page = none) (records : List ρ) :
    (q.execute records).length = q.count records ∧
    ((∀ key ∈ q.sorts, OneKind records key.field) → ∀ results, results = q.execute records ↔
      results.Perm (records.filter q.accepts) ∧
      (results.Pairwise fun a b => compareRecords a b q.sorts ≠ .gt) ∧
      ∀ r ∈ results, results.filter (Tied q.sorts r ·) =
        (records.filter q.accepts).filter (Tied q.sorts r ·)) := by
  have hexecute : q.execute records = q.ordered records := by rw [execute, hpage]
  rw [hexecute]
  refine ⟨q.length_ordered records, ?_⟩
  intro hkinds results
  have hpreorders := (preordersOn_compareRecords hkinds).mono
    (List.filter_sublist (p := q.accepts)).subset
  have hordered := sortedFrom_ordered hkinds
  constructor
  · rintro rfl
    refine ⟨hordered.perm, hordered.ascending.imp fun hle => Ordering.ne_gt_iff_isLE.mpr hle, ?_⟩
    intro r hr
    rw [← filter_compareRecords, ← filter_compareRecords]
    exact hordered.stable r (hordered.perm.subset hr)
  · rintro ⟨hperm, hascending, hstable⟩
    refine SortedFrom.unique hpreorders ⟨hperm, ?_, ?_⟩ hordered
    · exact hascending.imp fun hne => Ordering.ne_gt_iff_isLE.mp hne
    · intro r hr
      rw [filter_compareRecords, filter_compareRecords]
      exact hstable r (hperm.symm.subset hr)

/-- What a sensor reads. -/
structure Reading where
  sensor : String
  value : FieldValue
  deriving DecidableEq

instance : Record Reading where
  fieldValue r path :=
    if path = "value" then r.value else if path = "sensor" then .text r.sensor else .null

def readings : List Reading :=
  [⟨"attic", .null⟩, ⟨"cellar", .number (.double (.signed true .zero))⟩,
    ⟨"hall", .number (.double .nan)⟩, ⟨"stairs", .text "broken"⟩, ⟨"porch", .bool true⟩,
    ⟨"garden", .number (.double .zero)⟩, ⟨"roof", .number (.double (.ofInt 7))⟩]

/-- All readings but one, from high to low; the second key makes no difference. -/
def highestFirst : Query where
  groups := [[⟨"sensor", .text "stairs", .notEquals, false, false, true⟩]]
  sorts := [.descendingBy "value", .ascendingBy "room"]

theorem eq_execute_iff_readings :
    highestFirst.page = none ∧ (∀ key ∈ highestFirst.sorts, OneKind readings key.field) ∧
      ["hall", "roof", "cellar", "garden", "porch", "attic"].filterMap
          (fun name => readings.find? (·.sensor == name)) = highestFirst.execute readings := by
  have hkinds : ∀ key ∈ highestFirst.sorts, OneKind readings key.field :=
    List.forall_mem_cons.mpr ⟨⟨.double, by decide +kernel⟩,
      List.forall_mem_singleton.mpr ⟨.double, by decide +kernel⟩⟩
  obtain ⟨-, hresults⟩ := eq_execute_iff highestFirst rfl readings
  refine ⟨rfl, hkinds, (hresults hkinds _).mpr ⟨?_, ?_, ?_⟩⟩
  · decide +kernel
  · decide +kernel
  · decide +kernel

end Query

end Criteria

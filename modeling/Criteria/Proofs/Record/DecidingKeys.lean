import Criteria.Proofs.Record.Passes

/-!
# The key that decides

Of several keys, the first that tells two records apart decides between them, and the keys behind it
are not looked at. Every key turns its answer round when the two records change places, so the same
key decides the other way round as well.
-/

namespace Criteria

variable {ρ : Type} [Record ρ]

/-- The order of two records under one key. -/
def SortSpec.order (key : SortSpec) (a b : ρ) : Ordering :=
  FieldValue.compareBy key.descending (Record.fieldValue a key.field)
    (Record.fieldValue b key.field)

/-- The first key that tells two records apart. -/
def decidingKey? (a b : ρ) (keys : List SortSpec) : Option SortSpec :=
  keys.find? fun key => key.order a b != .eq

theorem SortSpec.order_swap (key : SortSpec) (a b : ρ) :
    key.order a b = (key.order b a).swap :=
  FieldValue.compareBy_swap key.descending _ _

theorem SortSpec.order_eq_comm (key : SortSpec) (a b : ρ) :
    key.order a b = .eq ↔ key.order b a = .eq := by
  rw [key.order_swap a b, Ordering.swap_eq_eq]

theorem decidingKey?_swap (a b : ρ) (keys : List SortSpec) :
    decidingKey? a b keys = decidingKey? b a keys := by
  unfold decidingKey?
  congr 1
  funext key
  rw [Bool.eq_iff_iff, bne_iff_ne, bne_iff_ne]
  exact not_congr (key.order_eq_comm a b)

/-- Records are equal if no key decides, and otherwise as the key that does says. -/
theorem compareRecords_eq_order (a b : ρ) (keys : List SortSpec) :
    compareRecords a b keys = (decidingKey? a b keys).elim .eq (·.order a b) := by
  induction keys with
  | nil => rfl
  | cons key rest ih =>
    have hfirst : compareRecords a b (key :: rest) =
        (key.order a b).then (compareRecords a b rest) := rfl
    rw [hfirst, ih, decidingKey?, decidingKey?, List.find?_cons]
    cases hkey : key.order a b with
    | eq => rfl
    | lt => exact hkey.symm
    | gt => exact hkey.symm

/-- Comparing records by keys is antisymmetric, whatever they hold. Two records are equal just where
they are equal under every key, and otherwise the first key that tells them apart gives the answer,
in both directions; so further keys change no answer but that of equality. -/
theorem compareRecords_decided (a b : ρ) (keys : List SortSpec) :
    compareRecords a b keys = (compareRecords b a keys).swap ∧
    (compareRecords a b keys = .eq ↔ ∀ key ∈ keys, key.order a b = .eq) ∧
    compareRecords a b keys = (decidingKey? a b keys).elim .eq (·.order a b) ∧
    decidingKey? b a keys = decidingKey? a b keys ∧
    (compareRecords a b keys ≠ .eq → ∀ further,
      compareRecords a b (keys ++ further) = compareRecords a b keys) := by
  refine ⟨compareRecords_swap a b keys, compareRecords_eq_iff, compareRecords_eq_order a b keys,
    decidingKey?_swap b a keys, ?_⟩
  intro hne further
  rw [compareRecords_append]
  cases hkeys : compareRecords a b keys with
  | eq => exact absurd hkeys hne
  | lt => rfl
  | gt => rfl

namespace Query

def faulty : Reading := ⟨"hall", .number (.double .nan)⟩

/-- Its value is an integer that no double is equal to. -/
def precise : Reading := ⟨"roof", .number (.int 9007199254740993)⟩

/-- No reading has a room. -/
def roomThenValue : List SortSpec := [.ascendingBy "room", .descendingBy "value"]

theorem compareRecords_decided_readings :
    compareRecords faulty precise roomThenValue ≠ .eq ∧
      compareRecords faulty precise (roomThenValue ++ [.descendingBy "sensor"]) = .lt := by
  have hkeys : compareRecords faulty precise roomThenValue = .lt := by decide +kernel
  have hne : compareRecords faulty precise roomThenValue ≠ .eq := by
    rw [hkeys]
    exact nofun
  obtain ⟨-, -, -, -, hfurther⟩ := compareRecords_decided faulty precise roomThenValue
  exact ⟨hne, (hfurther hne _).trans hkeys⟩

end Query

end Criteria

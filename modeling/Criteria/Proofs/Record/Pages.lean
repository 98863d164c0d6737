import Criteria.Proofs.Record.Results

/-!
# The pages of the results

How many records come before a page is counted in 64 bits, and what these cannot hold is cut off. A
list in memory has fewer records than that. So a page at which the count is cut off is empty, as it
is by the exact count, and every page is the part of the results that exact arithmetic gives. The
pages of one size then lie side by side, and all of them together are the results.
-/

namespace Criteria

theorem Page.toNat_offset (p : Page) :
    p.offset.toNat = min ((p.number.toNat - 1) * p.size.toNat) (UInt64.size - 1) :=
  UInt64.toNat_ofNat_of_lt' (Nat.lt_of_le_of_lt (Nat.min_le_right ..) (by decide))

namespace Query

variable {ρ : Type} [Record ρ] {q : Query} {records : List ρ}

/-- The query without its page. -/
def unpaged (q : Query) : Query := { q with page := none }

/-- What the first pages of a size return, one page after the other. -/
def firstPages (q : Query) (size : UInt64) (records : List ρ) (n : Nat) : List ρ :=
  (List.range n).flatMap fun k => (q.paginate ⟨.ofNat (k + 1), size⟩).execute records

theorem length_execute_unpaged_le (q : Query) (records : List ρ) :
    (q.unpaged.execute records).length ≤ records.length :=
  calc (q.ordered records).length = q.count records := q.length_ordered records
    _ ≤ records.length := List.countP_le_length

/-- A page returns the results from its exact offset on, even where the offset is cut off. -/
theorem execute_paginate (hlen : records.length < UInt64.size) {number size : UInt64} {k : Nat}
    (hk : number.toNat = k + 1) :
    (q.paginate ⟨number, size⟩).execute records =
      ((q.unpaged.execute records).drop (k * size.toNat)).take size.toNat := by
  have hpage : (q.paginate ⟨number, size⟩).execute records =
      ((q.unpaged.execute records).drop (Page.offset ⟨number, size⟩).toNat).take size.toNat := rfl
  have hfull := q.length_execute_unpaged_le records
  rw [hpage, Page.toNat_offset, hk, Nat.add_sub_cancel]
  rcases Nat.le_total (k * size.toNat) (UInt64.size - 1) with hle | hle
  · rw [Nat.min_eq_left hle]
  · rw [Nat.min_eq_right hle, List.drop_eq_nil_of_le (by omega), List.drop_eq_nil_of_le (by omega)]

/-- The first pages return the front of the results. -/
theorem firstPages_eq_take (hlen : records.length < UInt64.size) (size : UInt64) {n : Nat}
    (hn : n < UInt64.size) :
    q.firstPages size records n = (q.unpaged.execute records).take (n * size.toNat) := by
  induction n with
  | zero => rw [Nat.zero_mul, List.take_zero]; rfl
  | succ n ih =>
    have hpage : (q.paginate ⟨.ofNat (n + 1), size⟩).execute records =
        ((q.unpaged.execute records).drop (n * size.toNat)).take size.toNat :=
      execute_paginate hlen (UInt64.toNat_ofNat_of_lt' hn)
    have hfront := ih (by omega)
    rw [firstPages] at hfront ⊢
    rw [List.range_succ, List.flatMap_append, List.flatMap_singleton, hfront, hpage, Nat.succ_mul,
      List.take_add]

/-- Behind a page that is not full there is nothing. -/
theorem execute_paginate_eq_nil (hlen : records.length < UInt64.size) {m n size : UInt64}
    (hm : 1 ≤ m) (hmn : m < n)
    (hshort : ((q.paginate ⟨m, size⟩).execute records).length < size.toNat) :
    (q.paginate ⟨n, size⟩).execute records = [] := by
  rw [UInt64.le_iff_toNat_le] at hm
  rw [UInt64.lt_iff_toNat_lt] at hmn
  obtain ⟨i, hi⟩ : ∃ i, m.toNat = i + 1 := Nat.exists_eq_add_of_le' hm
  obtain ⟨j, hj⟩ : ∃ j, n.toNat = j + 1 := ⟨n.toNat - 1, by omega⟩
  rw [execute_paginate hlen hi, List.length_take, List.length_drop] at hshort
  have hoffset : (i + 1) * size.toNat ≤ j * size.toNat := Nat.mul_le_mul_right _ (by omega)
  rw [Nat.succ_mul] at hoffset
  rw [execute_paginate hlen hj, List.drop_eq_nil_of_le (by omega), List.take_nil]

/-- The pages of one size cut the results of a query up. Each of them is the part of the results
between the places that exact arithmetic gives, has no more records than its size, and is empty if
it comes after one that is not full; the first of them together are the front of the results, and
all for which there is a number are the results. How many records are counted does not depend on the
page. -/
theorem pages_partition (q : Query) (records : List ρ) (hlen : records.length < UInt64.size)
    (size : UInt64) (hsize : 1 ≤ size) :
    (∀ n : UInt64, 1 ≤ n → (q.paginate ⟨n, size⟩).execute records =
      (q.unpaged.execute records).extract ((n.toNat - 1) * size.toNat) (n.toNat * size.toNat)) ∧
    (∀ n : UInt64, 1 ≤ n → ((q.paginate ⟨n, size⟩).execute records).length ≤ size.toNat) ∧
    (∀ m n : UInt64, 1 ≤ m → m < n →
      ((q.paginate ⟨m, size⟩).execute records).length < size.toNat →
        (q.paginate ⟨n, size⟩).execute records = []) ∧
    (∀ n < UInt64.size,
      q.firstPages size records n = (q.unpaged.execute records).take (n * size.toNat)) ∧
    q.firstPages size records (UInt64.size - 1) = q.unpaged.execute records ∧
    ∀ page, ({ q with page } : Query).count records = q.count records := by
  have hnumber : ∀ {n : UInt64}, 1 ≤ n → ∃ k, n.toNat = k + 1 := fun hn =>
    Nat.exists_eq_add_of_le' (UInt64.le_iff_toNat_le.mp hn)
  refine ⟨?_, ?_, ?_, ?_, ?_, fun _ => rfl⟩
  · intro n hn
    obtain ⟨k, hk⟩ := hnumber hn
    rw [execute_paginate hlen hk, hk, Nat.add_sub_cancel, Nat.succ_mul, List.extract_eq_take_drop,
      Nat.add_sub_cancel_left]
  · intro n hn
    obtain ⟨k, hk⟩ := hnumber hn
    rw [execute_paginate hlen hk]
    exact List.length_take_le _ _
  · intro m n hm hmn hshort
    exact execute_paginate_eq_nil hlen hm hmn hshort
  · intro n hn
    exact firstPages_eq_take hlen size hn
  · rw [firstPages_eq_take hlen size (by decide), List.take_of_length_le]
    calc (q.unpaged.execute records).length ≤ records.length := length_execute_unpaged_le q records
      _ ≤ (UInt64.size - 1) * 1 := by omega
      _ ≤ (UInt64.size - 1) * size.toNat :=
        Nat.mul_le_mul_left _ (UInt64.le_iff_toNat_le.mp hsize)

theorem pages_partition_readings :
    readings.length < UInt64.size ∧ (1 : UInt64) ≤ 4 ∧
      (highestFirst.paginate ⟨2, 4⟩).execute readings =
        [⟨"porch", .bool true⟩, ⟨"attic", .null⟩] ∧
      (highestFirst.paginate ⟨0x8000000000000000, 4⟩).execute readings = [] ∧
      highestFirst.firstPages 4 readings (UInt64.size - 1) =
        highestFirst.unpaged.execute readings := by
  have hlen : readings.length < UInt64.size := by decide
  obtain ⟨hpart, -, hbehind, -, hall, -⟩ :=
    pages_partition highestFirst readings hlen 4 (by decide)
  have hsecond : (highestFirst.paginate ⟨2, 4⟩).execute readings =
      [⟨"porch", .bool true⟩, ⟨"attic", .null⟩] := by
    rw [hpart 2 (by decide)]
    decide +kernel
  refine ⟨hlen, by decide, hsecond, ?_, hall⟩
  exact hbehind 2 0x8000000000000000 (by decide) (by decide) (by rw [hsecond]; decide)

end Query

end Criteria

import Mathlib.Data.List.Chain
import Mathlib.Data.List.Induction
import Criteria.Record.Query

/-!
# Stable sorting

A comparison need not be a total preorder of everything there is: it is enough that it is one of the
things that are sorted. Sorting then gives the things in ascending order, and leaves those that are
equal as they followed each other. No other list does both.
-/

namespace Criteria

variable {α : Type} {cmp : α → α → Ordering}

/-- Among the members of a list, comparing is a total preorder. -/
def PreordersOn (cmp : α → α → Ordering) (xs : List α) : Prop :=
  Std.TransCmp fun a b : {x // x ∈ xs} => cmp a b

/-- Some things put in order: they are the same things, none comes before a lesser one, and those
that are equal to one of them are in the order they had. -/
structure SortedFrom (cmp : α → α → Ordering) (xs sorted : List α) : Prop where
  perm : sorted.Perm xs
  ascending : sorted.Pairwise fun a b => (cmp a b).isLE
  stable : ∀ a ∈ xs, sorted.filter (cmp a · == .eq) = xs.filter (cmp a · == .eq)

/-! ## Preorders of the members of a list -/

namespace PreordersOn

variable {xs ys : List α} (h : PreordersOn cmp xs) {a b c : α}
include h

theorem swap (ha : a ∈ xs) (hb : b ∈ xs) : cmp a b = (cmp b a).swap :=
  h.eq_swap (a := ⟨a, ha⟩) (b := ⟨b, hb⟩)

theorem trans (ha : a ∈ xs) (hb : b ∈ xs) (hc : c ∈ xs) (hab : (cmp a b).isLE)
    (hbc : (cmp b c).isLE) : (cmp a c).isLE :=
  h.isLE_trans (a := ⟨a, ha⟩) (b := ⟨b, hb⟩) (c := ⟨c, hc⟩) hab hbc

theorem mono (hsub : ys ⊆ xs) : PreordersOn cmp ys where
  eq_swap {a b} := h.swap (hsub a.2) (hsub b.2)
  isLE_trans {a b c} := h.trans (hsub a.2) (hsub b.2) (hsub c.2)

theorem refl (ha : a ∈ xs) : cmp a a = .eq :=
  have := h.toOrientedCmp
  @Std.ReflCmp.compare_self _ (fun a b : {x // x ∈ xs} => cmp a b) _ ⟨a, ha⟩

theorem antisymm (ha : a ∈ xs) (hb : b ∈ xs) (hab : (cmp a b).isLE) (hba : (cmp b a).isLE) :
    cmp a b = .eq :=
  h.toOrientedCmp.isLE_antisymm (a := ⟨a, ha⟩) (b := ⟨b, hb⟩) hab hba

theorem isLE_of_not_lt (ha : a ∈ xs) (hb : b ∈ xs) (hlt : cmp a b ≠ .lt) : (cmp b a).isLE := by
  rw [h.swap hb ha, Ordering.isLE_swap]
  exact Ordering.isGE_iff_ne_lt.mpr hlt

theorem lt_of_eq_of_lt (ha : a ∈ xs) (hb : b ∈ xs) (hc : c ∈ xs) (hab : cmp a b = .eq)
    (hbc : cmp b c = .lt) : cmp a c = .lt := by
  have : Std.TransCmp fun a b : {x // x ∈ xs} => cmp a b := h
  exact this.lt_of_eq_of_lt (a := ⟨a, ha⟩) (b := ⟨b, hb⟩) (c := ⟨c, hc⟩) hab hbc

/-- Things that are equal to one thing are equal. -/
theorem eq_of_eq (ha : a ∈ xs) (hb : b ∈ xs) (hc : c ∈ xs) (hab : cmp a b = .eq)
    (hac : cmp a c = .eq) : cmp b c = .eq := by
  have hba : cmp b a = .eq := by
    rw [h.swap hb ha, hab]
    rfl
  exact h.eq_trans (a := ⟨b, hb⟩) (b := ⟨a, ha⟩) (c := ⟨c, hc⟩) hba hac

end PreordersOn

/-! ## Inserting one thing after the other -/

theorem stableSort_concat (before : α → α → Bool) (xs : List α) (x : α) :
    stableSort before (xs ++ [x]) =
      (insertBack before x (stableSort before xs).reverse).reverse := by
  rw [stableSort, stableSort, List.foldl_append, List.reverse_reverse]
  rfl

theorem pairwise_insertBack {x : α} {ys : List α} (h : PreordersOn cmp (x :: ys))
    (hsorted : ys.Pairwise fun a b => (cmp b a).isLE) :
    (insertBack (cmp · · == .lt) x ys).Pairwise fun a b => (cmp b a).isLE := by
  induction ys with
  | nil => exact List.pairwise_singleton _ _
  | cons y rest ih =>
    have hx : x ∈ x :: y :: rest := List.mem_cons_self
    have hy : y ∈ x :: y :: rest := List.mem_cons_of_mem _ List.mem_cons_self
    obtain ⟨hle, hrest⟩ := List.pairwise_cons.mp hsorted
    rw [insertBack]
    split
    · next hlt =>
      have hsub : x :: rest ⊆ x :: y :: rest :=
        List.cons_subset_cons x (List.subset_cons_self y rest)
      refine List.pairwise_cons.mpr ⟨fun z hz => ?_, ih (h.mono hsub) hrest⟩
      rcases List.mem_cons.mp ((insertBack_perm _ x rest).mem_iff.mp hz) with rfl | hz
      · rw [beq_iff_eq.mp hlt]
        rfl
      · exact hle z hz
    · next hlt =>
      have hyx : (cmp y x).isLE := h.isLE_of_not_lt hx hy fun heq => hlt (beq_iff_eq.mpr heq)
      refine List.pairwise_cons.mpr ⟨fun z hz => ?_, hsorted⟩
      rcases List.mem_cons.mp hz with rfl | hz
      · exact hyx
      · exact h.trans (List.mem_cons_of_mem _ (List.mem_cons_of_mem _ hz)) hy hx (hle z hz) hyx

/-- Among things of which none is put before another, the one that is inserted comes last. -/
theorem filter_insertBack {before : α → α → Bool} {p : α → Bool} {x : α} {ys : List α}
    (h : ∀ y ∈ ys, p x = true → p y = true → before x y = false) :
    (insertBack before x ys).filter p = (x :: ys).filter p := by
  induction ys with
  | nil => rfl
  | cons y rest ih =>
    rw [List.forall_mem_cons] at h
    rw [insertBack]
    split
    · next hbefore =>
      rw [List.filter_cons, ih h.2]
      cases hx : p x with
      | false => simp [hx, List.filter_cons]
      | true =>
        have hy : p y = false := by
          rw [← Bool.not_eq_true]
          intro hy
          exact absurd (h.1 hx hy) (by rw [hbefore]; decide)
        simp [hx, hy]
    · rfl

/-- Things that are not put before each other keep their order. -/
theorem filter_stableSort {before : α → α → Bool} {p : α → Bool} {xs : List α}
    (h : ∀ x ∈ xs, ∀ y ∈ xs, p x = true → p y = true → before x y = false) :
    (stableSort before xs).filter p = xs.filter p := by
  induction xs using List.reverseRecOn with
  | nil => rfl
  | append_singleton front x ih =>
    have hfront := ih fun a ha b hb =>
      h a (List.mem_append_left _ ha) b (List.mem_append_left _ hb)
    have hlast : ∀ y ∈ (stableSort before front).reverse, p x = true → p y = true →
        before x y = false := by
      intro y hy
      rw [List.mem_reverse, (stableSort_perm before front).mem_iff] at hy
      exact h x (by simp) y (List.mem_append_left _ hy)
    rw [stableSort_concat, List.filter_reverse, filter_insertBack hlast, ← List.filter_reverse,
      List.reverse_cons, List.reverse_reverse, List.filter_append, List.filter_append, hfront]

theorem pairwise_stableSort {xs : List α} (h : PreordersOn cmp xs) :
    (stableSort (cmp · · == .lt) xs).Pairwise fun a b => (cmp a b).isLE := by
  induction xs using List.reverseRecOn with
  | nil => exact List.Pairwise.nil
  | append_singleton front x ih =>
    have hsub : x :: (stableSort (cmp · · == .lt) front).reverse ⊆ front ++ [x] := by
      intro y hy
      rw [List.mem_cons, List.mem_reverse, (stableSort_perm _ front).mem_iff] at hy
      rw [List.mem_append, List.mem_singleton]
      exact hy.symm
    rw [stableSort_concat, List.pairwise_reverse]
    refine pairwise_insertBack (h.mono hsub) ?_
    rw [List.pairwise_reverse]
    exact ih (h.mono (List.subset_append_left front [x]))

theorem isChain_insertBack (hswap : ∀ a b, cmp a b = (cmp b a).swap) (x : α) {ys : List α}
    (h : ys.IsChain fun a b => (cmp b a).isLE) :
    (insertBack (cmp · · == .lt) x ys).IsChain fun a b => (cmp b a).isLE := by
  induction ys with
  | nil => exact List.isChain_singleton x
  | cons y rest ih =>
    rw [List.isChain_cons] at h
    rw [insertBack]
    split
    · next hlt =>
      have hxy : (cmp x y).isLE := Ordering.isLE_of_eq_lt (beq_iff_eq.mp hlt)
      refine List.isChain_cons.mpr ⟨?_, ih h.2⟩
      cases rest with
      | nil =>
        rintro z ⟨⟩
        exact hxy
      | cons z rest =>
        rw [insertBack]
        split
        · exact h.1
        · rintro z ⟨⟩
          exact hxy
    · next hlt =>
      have hyx : (cmp y x).isLE := by
        rw [hswap y x, Ordering.isLE_swap]
        exact Ordering.isGE_iff_ne_lt.mpr fun heq => hlt (beq_iff_eq.mpr heq)
      refine List.isChain_cons.mpr ⟨?_, List.isChain_cons.mpr h⟩
      rintro z ⟨⟩
      exact hyx

/-- Nothing comes directly before a lesser thing, even if comparing is not transitive. -/
theorem isChain_stableSort (hswap : ∀ a b, cmp a b = (cmp b a).swap) (xs : List α) :
    (stableSort (cmp · · == .lt) xs).IsChain fun a b => (cmp a b).isLE := by
  induction xs using List.reverseRecOn with
  | nil => exact List.isChain_nil
  | append_singleton front x ih =>
    rw [stableSort_concat, List.isChain_reverse]
    refine isChain_insertBack hswap x ?_
    rw [List.isChain_reverse]
    exact ih

/-- Sorting puts the members of a list in order. -/
theorem sortedFrom_stableSort {xs : List α} (h : PreordersOn cmp xs) :
    SortedFrom cmp xs (stableSort (cmp · · == .lt) xs) where
  perm := stableSort_perm _ xs
  ascending := pairwise_stableSort h
  stable a ha := by
    refine filter_stableSort fun x hx y hy hax hay => ?_
    rw [h.eq_of_eq ha hx hy (beq_iff_eq.mp hax) (beq_iff_eq.mp hay)]
    rfl

/-! ## There is one order -/

/-- Of two arrangements in ascending order the first members are equal, and so the same one if equal
members are arranged alike. -/
theorem eq_of_ascending {xs ys : List α} (h : PreordersOn cmp xs) (hperm : xs.Perm ys)
    (hxs : xs.Pairwise fun a b => (cmp a b).isLE) (hys : ys.Pairwise fun a b => (cmp a b).isLE)
    (hstable : ∀ a ∈ xs, xs.filter (cmp a · == .eq) = ys.filter (cmp a · == .eq)) : xs = ys := by
  induction xs generalizing ys with
  | nil => exact hperm.nil_eq
  | cons a rest ih =>
    cases ys with
    | nil => exact absurd hperm.eq_nil (List.cons_ne_nil a rest)
    | cons b rest' =>
      have ha : a ∈ a :: rest := List.mem_cons_self
      have hb : b ∈ a :: rest := hperm.mem_iff.mpr List.mem_cons_self
      have hfirst : ∀ {c d : α} {cs : List α}, (c :: cs).Pairwise (fun a b => (cmp a b).isLE) →
          c ∈ a :: rest → d ∈ c :: cs → (cmp c d).isLE := by
        intro c d cs hcs hc hd
        rcases List.mem_cons.mp hd with rfl | hd
        · rw [h.refl hc]
          rfl
        · exact List.rel_of_pairwise_cons hcs hd
      have hab : cmp a b = .eq :=
        h.antisymm ha hb (hfirst hxs ha hb) (hfirst hys hb (hperm.mem_iff.mp ha))
      have hsame : a = b := by
        have hheads := hstable a ha
        rw [List.filter_cons_of_pos (by rw [h.refl ha]; rfl),
          List.filter_cons_of_pos (by rw [hab]; rfl)] at hheads
        exact (List.cons.inj hheads).1
      subst hsame
      refine congrArg (a :: ·) (ih (h.mono (List.subset_cons_self a rest)) hperm.cons_inv hxs.tail
        hys.tail fun c hc => ?_)
      have hclass := hstable c (List.mem_cons_of_mem a hc)
      rw [List.filter_cons, List.filter_cons] at hclass
      split at hclass
      · exact (List.cons.inj hclass).2
      · exact hclass

/-- There is only one way to put the members of a list in order. -/
theorem SortedFrom.unique {xs ys zs : List α} (h : PreordersOn cmp xs) (hys : SortedFrom cmp xs ys)
    (hzs : SortedFrom cmp xs zs) : ys = zs := by
  refine eq_of_ascending (h.mono hys.perm.subset) (hys.perm.trans hzs.perm.symm) hys.ascending
    hzs.ascending fun a ha => ?_
  have ha' : a ∈ xs := hys.perm.subset ha
  rw [hys.stable a ha', hzs.stable a ha']

/-! ## Comparing in two steps -/

section Steps

variable {cmp' : α → α → Ordering} {xs ys zs : List α}

theorem filter_then (a : α) (xs : List α) :
    xs.filter (fun b => (cmp a b).then (cmp' a b) == .eq) =
      (xs.filter (cmp a · == .eq)).filter (cmp' a · == .eq) := by
  rw [List.filter_filter]
  refine List.filter_congr fun b _ => ?_
  rw [Bool.eq_iff_iff, beq_iff_eq, Ordering.then_eq_eq, Bool.and_eq_true, beq_iff_eq, beq_iff_eq]
  exact and_comm

/-- A list is in the order of two comparisons if it is in that of the first and those of its members
that are equal under the first are in the order of the second. -/
theorem pairwise_then (hself : ∀ a ∈ zs, cmp a a = .eq)
    (hascending : zs.Pairwise fun a b => (cmp a b).isLE)
    (hties : ∀ a ∈ zs, (zs.filter (cmp a · == .eq)).Pairwise fun a b => (cmp' a b).isLE) :
    zs.Pairwise fun a b => ((cmp a b).then (cmp' a b)).isLE := by
  induction zs with
  | nil => exact List.Pairwise.nil
  | cons a rest ih =>
    rw [List.forall_mem_cons] at hself
    obtain ⟨hle, hrest⟩ := List.pairwise_cons.mp hascending
    refine List.pairwise_cons.mpr ⟨fun b hb => ?_, ih hself.2 hrest fun c hc => ?_⟩
    · cases hab : cmp a b with
      | lt => rfl
      | eq =>
        have htied := hties a List.mem_cons_self
        rw [List.filter_cons_of_pos (by rw [hself.1]; rfl), List.pairwise_cons] at htied
        exact htied.1 b (List.mem_filter.mpr ⟨hb, by rw [hab]; rfl⟩)
      | gt =>
        have hle := hle b hb
        rw [hab] at hle
        exact absurd hle (by decide)
    · exact (hties c (List.mem_cons_of_mem a hc)).sublist ((List.sublist_cons_self a rest).filter _)

/-- Sorting by the less important comparison first and then by the more important one puts things in
the order of both. -/
theorem SortedFrom.then (hself : ∀ a ∈ xs, cmp a a = .eq) (hys : SortedFrom cmp' xs ys)
    (hzs : SortedFrom cmp ys zs) : SortedFrom (fun a b => (cmp a b).then (cmp' a b)) xs zs where
  perm := hzs.perm.trans hys.perm
  ascending := by
    have hsub : zs ⊆ ys := hzs.perm.subset
    refine pairwise_then (fun a ha => hself a (hys.perm.subset (hsub ha))) hzs.ascending ?_
    intro a ha
    rw [hzs.stable a (hsub ha)]
    exact hys.ascending.sublist List.filter_sublist
  stable a ha := by
    have hswap : ∀ ws : List α, (ws.filter (cmp a · == .eq)).filter (cmp' a · == .eq) =
        (ws.filter (cmp' a · == .eq)).filter (cmp a · == .eq) := by
      intro ws
      rw [List.filter_filter, List.filter_filter]
      exact List.filter_congr fun b _ => Bool.and_comm ..
    rw [filter_then, filter_then, hzs.stable a (hys.perm.symm.subset ha), hswap, hswap,
      hys.stable a ha]

end Steps

end Criteria

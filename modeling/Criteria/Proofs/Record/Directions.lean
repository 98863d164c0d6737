import Criteria.Proofs.Record.Passes

/-!
# The two directions of an order

Turning the direction of a key round turns the classes of equal records round, and nothing else: the
records of a class keep the order they had, and those with null at the path of the key stay behind
all others.
-/

namespace Criteria

/-! ## Sorting in parts -/

section Parts

variable {α : Type} {cmp cmp' : α → α → Ordering} {xs ys zs : List α}

theorem filter_filter_of_imp {p q : α → Bool} (h : ∀ a ∈ xs, q a = true → p a = true) :
    (xs.filter p).filter q = xs.filter q := by
  rw [List.filter_filter]
  refine List.filter_congr fun a ha => ?_
  cases hq : q a with
  | false => rfl
  | true => rw [h a ha hq]; rfl

theorem SortedFrom.congr (h : ∀ a ∈ xs, ∀ b ∈ xs, cmp a b = cmp' a b)
    (hys : SortedFrom cmp xs ys) : SortedFrom cmp' xs ys where
  perm := hys.perm
  ascending := by
    refine hys.ascending.imp_of_mem fun {a b} ha hb hle => ?_
    rw [← h a (hys.perm.subset ha) b (hys.perm.subset hb)]
    exact hle
  stable a ha := by
    have hfilter : ∀ ws ⊆ xs, ws.filter (cmp a · == .eq) = ws.filter (cmp' a · == .eq) := by
      intro ws hsub
      exact List.filter_congr fun b hb => by rw [h a ha b (hsub hb)]
    rw [← hfilter ys hys.perm.subset, ← hfilter xs (List.Subset.refl xs)]
    exact hys.stable a ha

theorem SortedFrom.of_tied (h : ∀ a ∈ xs, ∀ b ∈ xs, cmp a b = .eq) : SortedFrom cmp xs xs where
  perm := .refl xs
  ascending := List.pairwise_of_forall_mem_list fun a ha b hb => by rw [h a ha b hb]; rfl
  stable _ _ := rfl

/-- What is equal to a thing of one part is all in that part. -/
theorem SortedFrom.filter_parts {p q : α → Bool} {a : α} (hpq : ∀ b ∈ xs, q b = !p b)
    (hne : ∀ b ∈ xs.filter q, cmp a b ≠ .eq) (hys : SortedFrom cmp (xs.filter p) ys)
    (hzs : SortedFrom cmp (xs.filter q) zs) (ha : a ∈ xs.filter p) :
    ys.filter (cmp a · == .eq) = xs.filter (cmp a · == .eq) ∧ zs.filter (cmp a · == .eq) = [] := by
  constructor
  · rw [hys.stable a ha]
    refine filter_filter_of_imp fun b hb heq => ?_
    by_contra hpb
    refine hne b (List.mem_filter.mpr ⟨hb, ?_⟩) (beq_iff_eq.mp heq)
    simpa [hpq b hb] using hpb
  · refine List.filter_eq_nil_iff.mpr fun b hb heq => ?_
    exact hne b (hzs.perm.subset hb) (beq_iff_eq.mp heq)

/-- Things of which some are less than all others are put in order part by part. -/
theorem SortedFrom.append {p q : α → Bool} (hpq : ∀ a ∈ xs, q a = !p a)
    (hlt : ∀ a ∈ xs.filter p, ∀ b ∈ xs.filter q, cmp a b = .lt ∧ cmp b a = .gt)
    (hys : SortedFrom cmp (xs.filter p) ys) (hzs : SortedFrom cmp (xs.filter q) zs) :
    SortedFrom cmp xs (ys ++ zs) where
  perm := by
    have hq : xs.filter q = xs.filter (!p ·) := List.filter_congr hpq
    refine (hys.perm.append hzs.perm).trans ?_
    rw [hq]
    exact List.filter_append_perm p xs
  ascending := by
    refine List.pairwise_append.mpr ⟨hys.ascending, hzs.ascending, fun a ha b hb => ?_⟩
    rw [(hlt a (hys.perm.subset ha) b (hzs.perm.subset hb)).1]
    rfl
  stable a ha := by
    rw [List.filter_append]
    by_cases hpa : p a = true
    · have ha' : a ∈ xs.filter p := List.mem_filter.mpr ⟨ha, hpa⟩
      have hne : ∀ b ∈ xs.filter q, cmp a b ≠ .eq := by
        intro b hb heq
        rw [(hlt a ha' b hb).1] at heq
        cases heq
      obtain ⟨hpart, hother⟩ := SortedFrom.filter_parts hpq hne hys hzs ha'
      rw [hpart, hother, List.append_nil]
    · have ha' : a ∈ xs.filter q := List.mem_filter.mpr ⟨ha, by simpa [hpq a ha] using hpa⟩
      have hne : ∀ b ∈ xs.filter p, cmp a b ≠ .eq := by
        intro b hb heq
        rw [(hlt b hb a ha').2] at heq
        cases heq
      have hqp : ∀ b ∈ xs, p b = !q b := by
        intro b hb
        rw [hpq b hb, Bool.not_not]
      obtain ⟨hpart, hother⟩ := SortedFrom.filter_parts hqp hne hzs hys ha'
      rw [hpart, hother, List.nil_append]

end Parts

/-! ## Classes of equal things -/

section Classes

variable {α : Type} {cmp : α → α → Ordering} {xs : List α}

/-- Things divided into classes, the least ones first. A class is everything that is equal to one
of its members, in the order it had. Joined in this order, the classes are the things from low to
high; joined in the opposite order, from high to low. -/
structure Classes (cmp : α → α → Ordering) (xs : List α) (classes : List (List α)) : Prop where
  nonempty : [] ∉ classes
  whole : ∀ cl ∈ classes, ∀ a ∈ cl, cl = xs.filter (cmp a · == .eq)
  ascending : classes.Pairwise fun cl cl' => ∀ a ∈ cl, ∀ b ∈ cl', cmp a b = .lt
  upward : SortedFrom cmp xs classes.flatten
  downward : SortedFrom (fun a b => cmp b a) xs classes.reverse.flatten

theorem Classes.nil : Classes cmp [] [] where
  nonempty := List.not_mem_nil
  whole _ hcl := absurd hcl List.not_mem_nil
  ascending := .nil
  upward := .of_tied fun _ ha => absurd ha List.not_mem_nil
  downward := .of_tied fun _ ha => absurd ha List.not_mem_nil

section Least

variable {a : α} (h : PreordersOn cmp xs) (ha : a ∈ xs)
include h ha

theorem PreordersOn.mem_filter_self : a ∈ xs.filter (cmp a · == .eq) := by
  rw [List.mem_filter, h.refl ha]
  exact ⟨ha, rfl⟩

theorem PreordersOn.tied : ∀ b ∈ xs.filter (cmp a · == .eq), ∀ c ∈ xs.filter (cmp a · == .eq),
    cmp b c = .eq := by
  intro b hb c hc
  rw [List.mem_filter, beq_iff_eq] at hb hc
  exact h.eq_of_eq ha hb.1 hc.1 hb.2 hc.2

theorem PreordersOn.filter_eq {b : α} (hb : b ∈ xs.filter (cmp a · == .eq)) :
    xs.filter (cmp a · == .eq) = xs.filter (cmp b · == .eq) := by
  have hba : cmp b a = .eq := h.tied ha b hb a (h.mem_filter_self ha)
  rw [List.mem_filter, beq_iff_eq] at hb
  refine List.filter_congr fun c hc => ?_
  rw [Bool.eq_iff_iff, beq_iff_eq, beq_iff_eq]
  exact ⟨fun hac => h.eq_of_eq ha hb.1 hc hb.2 hac, fun hbc => h.eq_of_eq hb.1 ha hc hba hbc⟩

/-- What is equal to a least thing is less than all that is not. -/
theorem PreordersOn.lt_of_least (hleast : ∀ b ∈ xs, (cmp a b).isLE) :
    ∀ b ∈ xs.filter (cmp a · == .eq), ∀ c ∈ xs.filter (cmp a · != .eq),
      cmp b c = .lt ∧ cmp c b = .gt := by
  intro b hb c hc
  have hba : cmp b a = .eq := h.tied ha b hb a (h.mem_filter_self ha)
  rw [List.mem_filter, beq_iff_eq] at hb
  rw [List.mem_filter, bne_iff_ne] at hc
  have hac : cmp a c = .lt :=
    (Ordering.isLE_iff_eq_lt_or_eq_eq.mp (hleast c hc.1)).resolve_right hc.2
  have hbc : cmp b c = .lt := h.lt_of_eq_of_lt hb.1 ha hc.1 hba hac
  refine ⟨hbc, ?_⟩
  rw [h.swap hc.1 hb.1, hbc]
  rfl

/-- The class of a least thing comes before the classes of the others. -/
theorem Classes.cons (hleast : ∀ b ∈ xs, (cmp a b).isLE) {classes : List (List α)}
    (hrest : Classes cmp (xs.filter (cmp a · != .eq)) classes) :
    Classes cmp xs (xs.filter (cmp a · == .eq) :: classes) := by
  have hlt := h.lt_of_least ha hleast
  have hmem : ∀ cl ∈ classes, ∀ b ∈ cl, b ∈ xs.filter (cmp a · != .eq) := by
    intro cl hcl b hb
    exact hrest.upward.perm.subset (List.mem_flatten.mpr ⟨cl, hcl, hb⟩)
  constructor
  case nonempty =>
    rw [List.mem_cons, not_or]
    exact ⟨(List.ne_nil_of_mem (h.mem_filter_self ha)).symm, hrest.nonempty⟩
  case whole =>
    intro cl hcl b hb
    rcases List.mem_cons.mp hcl with rfl | hcl
    · exact h.filter_eq ha hb
    · refine (hrest.whole cl hcl b hb).trans (filter_filter_of_imp fun c hc hbc => ?_)
      -- Nothing that is equal to one of the others is in the class of the least thing.
      rw [bne_iff_ne]
      intro hac
      have hc' : c ∈ xs.filter (cmp a · == .eq) := List.mem_filter.mpr ⟨hc, beq_iff_eq.mpr hac⟩
      rw [(hlt c hc' b (hmem cl hcl b hb)).2] at hbc
      cases hbc
  case ascending =>
    refine List.pairwise_cons.mpr ⟨fun cl hcl b hb c hc => ?_, hrest.ascending⟩
    exact (hlt b hb c (hmem cl hcl c hc)).1
  case upward =>
    rw [List.flatten_cons]
    exact .append (fun _ _ => rfl) hlt (.of_tied (h.tied ha)) hrest.upward
  case downward =>
    rw [List.reverse_cons, List.flatten_append, List.flatten_singleton]
    exact .append (fun b _ => (Bool.not_not _).symm) (fun c hc b hb => hlt b hb c hc)
      hrest.downward (.of_tied fun b hb c hc => h.tied ha c hc b hb)

end Least

theorem exists_least (h : PreordersOn cmp xs) (hxs : xs ≠ []) :
    ∃ a ∈ xs, ∀ b ∈ xs, (cmp a b).isLE := by
  have hsorted := sortedFrom_stableSort h
  cases hys : stableSort (cmp · · == .lt) xs with
  | nil =>
    rw [hys] at hsorted
    exact absurd hsorted.perm.nil_eq.symm hxs
  | cons a rest =>
    rw [hys] at hsorted
    have ha : a ∈ xs := hsorted.perm.subset List.mem_cons_self
    refine ⟨a, ha, fun b hb => ?_⟩
    rcases List.mem_cons.mp (hsorted.perm.symm.subset hb) with rfl | hb
    · rw [h.refl ha]
      rfl
    · exact List.rel_of_pairwise_cons hsorted.ascending hb

theorem exists_classes (h : PreordersOn cmp xs) : ∃ classes, Classes cmp xs classes := by
  -- By induction on the number of things: those that are not equal to a least one are fewer.
  induction hlength : xs.length using Nat.strongRecOn generalizing xs with
  | _ n ih =>
    subst hlength
    by_cases hxs : xs = []
    · subst hxs
      exact ⟨[], .nil⟩
    · obtain ⟨a, ha, hleast⟩ := exists_least h hxs
      have hfewer : (xs.filter (cmp a · != .eq)).length < xs.length := by
        refine List.length_filter_lt_length_iff_exists.mpr ⟨a, ha, ?_⟩
        rw [h.refl ha]
        decide
      obtain ⟨classes, hclasses⟩ := ih _ hfewer (h.mono List.filter_sublist.subset) rfl
      exact ⟨_, .cons h ha hleast hclasses⟩

end Classes

/-! ## Records from low to high and from high to low -/

namespace Query

variable {ρ : Type} [Record ρ] {records : List ρ}

theorem mem_filter_null {path : String} {a : ρ} :
    a ∈ records.filter (fun r => (Record.fieldValue r path).isNull) ↔
      a ∈ records ∧ Record.fieldValue a path = .null := by
  rw [List.mem_filter, FieldValue.isNull_iff]

theorem mem_filter_not_null {path : String} {a : ρ} :
    a ∈ records.filter (fun r => !(Record.fieldValue r path).isNull) ↔
      a ∈ records ∧ Record.fieldValue a path ≠ .null := by
  rw [List.mem_filter, Bool.not_eq_true', FieldValue.isNull_eq_false_iff]

theorem sortedFrom_nulls_last {path : String} {descending : Bool} {ys : List ρ}
    (hys : SortedFrom (fun a b => FieldValue.compareBy descending (Record.fieldValue a path)
      (Record.fieldValue b path)) (records.filter fun r => !(Record.fieldValue r path).isNull) ys) :
    SortedFrom (fun a b => FieldValue.compareBy descending (Record.fieldValue a path)
      (Record.fieldValue b path)) records
      (ys ++ records.filter fun r => (Record.fieldValue r path).isNull) := by
  refine hys.append (fun _ _ => (Bool.not_not _).symm) (fun a ha b hb => ?_)
    (.of_tied fun a ha b hb => ?_)
  · have hgt := FieldValue.compareBy_null descending (mem_filter_not_null.mp ha).2
    rw [(mem_filter_null.mp hb).2, FieldValue.compareBy_swap, hgt]
    exact ⟨rfl, rfl⟩
  · rw [(mem_filter_null.mp ha).2, (mem_filter_null.mp hb).2]
    cases descending <;> rfl

/-- Sorting by one key is sorting the records that are not null there. -/
theorem execute_byKeys_singleton (key : SortSpec) (h : OneKind records key.field) {ys : List ρ}
    (hys : SortedFrom (fun a b => FieldValue.compareBy key.descending
      (Record.fieldValue a key.field) (Record.fieldValue b key.field))
      (records.filter fun r => !(Record.fieldValue r key.field).isNull) ys) :
    (byKeys [key]).execute records =
      ys ++ records.filter fun r => (Record.fieldValue r key.field).isNull := by
  have hkeys : ∀ key' ∈ [key], OneKind records key'.field := List.forall_mem_singleton.mpr h
  refine (sortedFrom_byKeys hkeys).unique (preordersOn_compareRecords hkeys) ?_
  refine (sortedFrom_nulls_last hys).congr fun a _ b _ => ?_
  rw [compareRecords, compareRecords, Ordering.then_eq]

/-- Where all numbers at a path are of one kind, the records that are not null there fall into
classes of equal ones, each in the order the records had. In ascending order the classes follow each
other from low to high and in descending order from high to low, and in both the records that are
null at the path come last, in the order they had. -/
theorem execute_directions (path : String) (records : List ρ) (h : OneKind records path) :
    ∃ classes : List (List ρ), [] ∉ classes ∧
      (∀ cl ∈ classes, ∀ a ∈ cl, Record.fieldValue a path ≠ .null ∧
        cl = records.filter fun r =>
          (Record.fieldValue a path).compareTotal (Record.fieldValue r path) == .eq) ∧
      (classes.Pairwise fun cl cl' => ∀ a ∈ cl, ∀ b ∈ cl',
        (Record.fieldValue a path).compareTotal (Record.fieldValue b path) = .lt) ∧
      (byKeys [.ascendingBy path]).execute records =
        classes.flatten ++ records.filter (fun r => (Record.fieldValue r path).isNull) ∧
      (byKeys [.descendingBy path]).execute records =
        classes.reverse.flatten ++ records.filter fun r => (Record.fieldValue r path).isNull := by
  obtain ⟨kind, hkind⟩ := h
  have hpreorders : PreordersOn (fun a b => (Record.fieldValue a path).compareTotal
      (Record.fieldValue b path)) (records.filter fun r => !(Record.fieldValue r path).isNull) :=
    { eq_swap := FieldValue.compareTotal_swap _ _
      isLE_trans := fun {a b _} => FieldValue.compareTotal_trans
        (hkind a (List.mem_of_mem_filter a.2)) (hkind b (List.mem_of_mem_filter b.2)) }
  obtain ⟨classes, hclasses⟩ := exists_classes hpreorders
  refine ⟨classes, hclasses.nonempty, fun cl hcl a ha => ?_, hclasses.ascending, ?_, ?_⟩
  · have hne : Record.fieldValue a path ≠ .null := by
      have hmem := hclasses.upward.perm.subset (List.mem_flatten.mpr ⟨cl, hcl, ha⟩)
      exact (mem_filter_not_null.mp hmem).2
    refine ⟨hne, (hclasses.whole cl hcl a ha).trans (filter_filter_of_imp fun r _ heq => ?_)⟩
    -- Only null is equal to null.
    rw [Bool.not_eq_true', FieldValue.isNull_eq_false_iff]
    intro hnull
    rw [hnull, FieldValue.compareTotal_swap, FieldValue.compareTotal_null hne] at heq
    cases heq
  · exact execute_byKeys_singleton (.ascendingBy path) ⟨kind, hkind⟩ hclasses.upward
  · refine execute_byKeys_singleton (.descendingBy path) ⟨kind, hkind⟩ ?_
    refine hclasses.downward.congr fun a ha b hb => ?_
    exact (FieldValue.compareBy_of_ne_null true (mem_filter_not_null.mp ha).2
      (mem_filter_not_null.mp hb).2).symm

theorem execute_directions_readings :
    OneKind readings "value" ∧
      ∃ classes : List (List Reading), [] ∉ classes ∧
        (byKeys [.ascendingBy "value"]).execute readings = classes.flatten ++ [⟨"attic", .null⟩] ∧
        (byKeys [.descendingBy "value"]).execute readings =
          classes.reverse.flatten ++ [⟨"attic", .null⟩] := by
  have hkind : OneKind readings "value" := ⟨.double, by decide +kernel⟩
  obtain ⟨classes, hnonempty, -, -, hascending, hdescending⟩ :=
    execute_directions "value" readings hkind
  exact ⟨hkind, classes, hnonempty, hascending, hdescending⟩

end Query

end Criteria

import Criteria.Proofs.Name.Merging
import Criteria.Proofs.Processor.Capabilities
import Criteria.Processor.Builder
import Criteria.Record.Query
import Mathlib.Data.List.Pairwise

/-!
# How often a field is sorted by

Two things keep a request from sorting by one field twice. The terms of a sorts text have different
names, and a name stands for a field if the processor takes the two for the same. The first goes by the
text of a name, and the second by the lowercase unless the options say otherwise. So where case does
not count, a name that is written in two ways makes two terms, and both stand for the field. Nothing
else makes a field count twice.
-/

namespace Criteria

variable {Q C : Type}

namespace SortTerm

theorem nodup_names_parse (r : Request) : (r.parse.sorts.map name).Nodup := by
  show (((r.sorts.map ofSorts).getD []).map name).Nodup
  cases r.sorts with
  | none => exact List.nodup_nil
  | some sorts => exact (nodup_names [] _).1

end SortTerm

namespace Processor

variable (p : Processor Q C)

/-- The sort terms that stand for fields, each with its field. -/
def sortedBy (terms : List SortTerm) : List (SortTerm × Field) :=
  terms.filterMap fun t => (p.sortField? t.name).map fun f => (t, f)

/-- Two sort terms with different names that stand for one field. -/
structure Respelled (s t : SortTerm) : Prop where
  differ : s.name ≠ t.name
  agree : namesAgree p.options.caseSensitive s.name t.name = true
  field : (p.sortField? s.name).isSome = true

theorem keysOf_eq_map_sortedBy (terms : List SortTerm) :
    p.keysOf terms = (p.sortedBy terms).map fun (t, f) => ⟨f.path, t.descending⟩ := by
  rw [keysOf, sortedBy, List.map_filterMap]
  congr 1
  funext t
  rw [Option.map_map]
  rfl

/-! ## Names and fields -/

theorem sortField?_congr {m n : String}
    (h : namesAgree p.options.caseSensitive m n = true) : p.sortField? m = p.sortField? n := by
  unfold sortField? FieldTable.find?
  congr 1
  funext f
  congr 1
  rw [Bool.eq_iff_iff]
  constructor
  · intro hm
    exact namesAgree_trans hm h
  · intro hn
    rw [namesAgree_comm] at h
    exact namesAgree_trans hn h

theorem namesAgree_of_sortField? {m n : String} {f : Field} (hm : p.sortField? m = some f)
    (hn : p.sortField? n = some f) : namesAgree p.options.caseSensitive m n = true := by
  obtain ⟨hfm, -⟩ := FieldTable.find?_some hm
  obtain ⟨hfn, -⟩ := FieldTable.find?_some hn
  rw [namesAgree_comm] at hfm
  exact namesAgree_trans hfm hfn

theorem not_respelled_of_caseSensitive (h : p.options.caseSensitive = true) (s t : SortTerm) :
    ¬ p.Respelled s t := by
  intro hr
  have hagree := hr.agree
  rw [h, namesAgree_iff] at hagree
  exact hr.differ hagree

instance : Std.Symm p.Respelled where
  symm s t h := by
    have hagree := h.agree
    have hfield := h.field
    rw [p.sortField?_congr hagree] at hfield
    rw [namesAgree_comm] at hagree
    exact ⟨h.differ.symm, hagree, hfield⟩

/-- Two terms of different names stand for one field just where they respell its name. -/
theorem fields_differ_iff {s t : SortTerm} (hne : s.name ≠ t.name) :
    (∀ f, p.sortField? s.name = some f → ∀ g, p.sortField? t.name = some g → f ≠ g) ↔
      ¬ p.Respelled s t := by
  constructor
  · intro h hr
    obtain ⟨f, hf⟩ := Option.isSome_iff_exists.mp hr.field
    have hg := hf
    rw [p.sortField?_congr hr.agree] at hg
    exact h f hf f hg rfl
  · rintro h f hf g hg rfl
    exact h ⟨hne, p.namesAgree_of_sortField? hf hg, by rw [hf]; rfl⟩

theorem nodup_sortedBy_iff {terms : List SortTerm} (hnames : (terms.map SortTerm.name).Nodup) :
    ((p.sortedBy terms).map Prod.snd).Nodup ↔
      ¬ ∃ s ∈ terms, ∃ t ∈ terms, p.Respelled s t := by
  have hfields : (p.sortedBy terms).map Prod.snd = terms.filterMap fun t => p.sortField? t.name := by
    rw [sortedBy, List.map_filterMap]
    congr 1
    funext t
    rw [Option.map_map]
    exact Option.map_id'
  have hdiffer : terms.Pairwise fun s t => s.name ≠ t.name := List.pairwise_map.mp hnames
  rw [hfields, List.Nodup, List.pairwise_filterMap]
  constructor
  · rintro h ⟨s, hs, t, ht, hr⟩
    have hapart : terms.Pairwise fun s t => ¬ p.Respelled s t :=
      hdiffer.imp₂ (fun s t hne hst => (p.fields_differ_iff hne).mp hst) h
    have : Std.Symm fun s t => ¬ p.Respelled s t := ⟨fun s t hst hts => hst (symm hts)⟩
    have hne : s ≠ t := fun heq => hr.differ (congrArg SortTerm.name heq)
    exact hapart.forall hs ht hne hr
  · intro h
    refine hdiffer.imp_of_mem fun hs ht hne => ?_
    rw [p.fields_differ_iff hne]
    exact fun hr => h ⟨_, hs, _, ht, hr⟩

/-! ## The keys that are handed over -/

theorem keys_of_mem_plan (r : ParsedRequest) (phases : Phases C) :
    ∀ step ∈ p.plan r phases, ∀ keys, Call.sorts keys ∈ p.callOf step → keys = p.keysOf r.sorts := by
  refine forall_mem_plan ?_ ?_ ?_ ?_ ?_
  · intro t _ name _ _ keys hcall
    unfold nameStep at hcall
    split at hcall <;> exact absurd hcall (by simp [callOf])
  · intro t _ keys hcall
    exact absurd hcall (by simp [callOf])
  · intro t _ _ thenBy keys hcall
    unfold sortStep at hcall
    split at hcall <;> exact absurd hcall (by simp [callOf])
  · intro keys hcall
    exact (Call.sorts.inj (Option.some.inj hcall)).symm
  · intro _ page keys hcall
    exact absurd hcall (by simp [callOf])

/-- How often a processor sorts by a field. The keys that it hands over are those of the terms that
stand for fields, one key for each. No field counts twice, and so each by the first term that stands
for it alone, unless two terms spell the name of one field in two ways; and no processor that compares
names as they are written lets a field count twice. -/
theorem sorted_once_iff (p : Processor Q C) (r : Request) :
    (∀ phases q, ∀ c ∈ p.calls r phases q, ∀ keys, c.call = .sorts keys →
      keys = (p.sortedBy r.parse.sorts).map fun (t, f) => ⟨f.path, t.descending⟩) ∧
    (((p.sortedBy r.parse.sorts).map Prod.snd).Nodup ↔
      ¬ ∃ s ∈ r.parse.sorts, ∃ t ∈ r.parse.sorts, p.Respelled s t) ∧
    (p.options.caseSensitive = true → ((p.sortedBy r.parse.sorts).map Prod.snd).Nodup) := by
  have hiff := p.nodup_sortedBy_iff (SortTerm.nodup_names_parse r)
  refine ⟨?_, hiff, ?_⟩
  · intro phases q c hc keys hkeys
    rw [calls_eq_trace] at hc
    obtain ⟨step, hstep, hcall⟩ := p.exists_step_of_mem_trace hc
    rw [hkeys] at hcall
    rw [p.keys_of_mem_plan r.parse phases step hstep keys hcall, keysOf_eq_map_sortedBy]
  · intro hexact
    rw [hiff]
    rintro ⟨s, -, t, -, hr⟩
    exact p.not_respelled_of_caseSensitive hexact s t hr

/-- A processor that sorts people by name, built with nothing said about case. -/
def people : Processor Query Unit :=
  Builder.build
    { backend := Query.backend, fields := ⟨[⟨"name", "full.name", true, true, none⟩]⟩ }

/-- A name that is written with a capital and without one sorts by its field twice. -/
theorem sorted_twice :
    ¬ ((people.sortedBy (Request.parse { sorts := some "Name,-name" }).sorts).map Prod.snd).Nodup ∧
      (people.apply { sorts := some "Name,-name" } {} {}).2.sorts =
        [⟨"full.name", false⟩, ⟨"full.name", true⟩] := by
  constructor
  · rw [people.nodup_sortedBy_iff (SortTerm.nodup_names_parse _), not_not]
    refine ⟨⟨"Name", "Name", false⟩, ?_, ⟨"-name", "name", true⟩, ?_, ?_⟩
    · decide +kernel
    · decide +kernel
    · exact ⟨by decide, by decide +kernel, by decide +kernel⟩
  · decide +kernel

end Processor

end Criteria

import Criteria.Proofs.Record.Groups

/-!
# The page of a query

The page is the last step of a plan, and the only step that changes the page of a query. So a run
that succeeds leaves the query with the page that the options and the request give, if they give
one. That is where the greatest page size counts, and it does not count for a request that asks for
a size of zero or less: there is no page then.
-/

namespace Criteria

variable {C : Type}

def Step.isPage {Q : Type} : Step Q C → Bool
  | page _ => true
  | _ => false

namespace Processor

/-- A processor of queries that calls no method, and that has a page size for requests without any
and a greatest one. -/
structure Capped (p : Processor Query C) : Prop where
  backend : p.backend = Query.backend
  filters : p.filters.Codeless
  sorts : p.sorts.Codeless
  fallback : 0 < p.options.defaultPageSize.toInt
  greatest : 0 < p.options.maxPageSize.toInt

variable {p : Processor Query C}

/-! ## The size of a page -/

/-- A page has the size that is asked for, but no greater one than the greatest; a size that is not
positive gives no page. -/
theorem resolvePage_cases (hgreatest : 0 < p.options.maxPageSize.toInt) (page size : Option Int64) :
    (size.getD p.options.defaultPageSize).toInt ≤ 0 ∧ p.resolvePage page size = none ∨
      0 < (size.getD p.options.defaultPageSize).toInt ∧
        ∃ found, p.resolvePage page size = some found ∧
          found.size.toNat = min (size.getD p.options.defaultPageSize).toInt.toNat
            p.options.maxPageSize.toInt.toNat := by
  have hlt : (size.getD p.options.defaultPageSize).toInt < 2 ^ 63 := Int64.toInt_lt _
  unfold resolvePage
  generalize (size.getD p.options.defaultPageSize).toInt = asked at hlt ⊢
  generalize p.options.maxPageSize.toInt = greatest at hgreatest ⊢
  dsimp only
  rw [if_pos hgreatest]
  by_cases hasked : 0 < asked
  · refine Or.inr ⟨hasked, _, if_pos (by omega), ?_⟩
    have hfits : (min asked greatest).toNat < UInt64.size := by
      show _ < 2 ^ 64
      omega
    rw [UInt64.toNat_ofNat_of_lt' hfits]
    omega
  · exact Or.inl ⟨by omega, if_neg (by omega)⟩

/-! ## The page that a run leaves -/

section Runs

variable (hbackend : p.backend = Query.backend)
include hbackend

/-- A step that is neither a call nor the page leaves the page of the query as it is. -/
theorem page_perform {step : Step Query C} (hcall : step.isCall = false)
    (hpage : step.isPage = false) (q : Query) : (p.perform step q).2.page = q.page := by
  have hpassed : ∀ {H : Type} (name : String) (methods : Registry H),
      (p.passedOver name methods q).2 = q := by
    intro H name methods
    unfold passedOver
    split
    · split <;> rfl
    · rfl
  cases step with
  | filter | sort => exact absurd hcall Bool.noConfusion
  | unresolvedFilter name => exact congrArg Query.page (hpassed name p.filters)
  | unresolvedSort name => exact congrArg Query.page (hpassed name p.sorts)
  | group conditions => rw [perform, hbackend]; rfl
  | sorts keys => rw [perform, hbackend]; rfl
  | page page => exact absurd hpage Bool.noConfusion

theorem page_interpret {steps : List (Step Query C)}
    (hsteps : ∀ s ∈ steps, s.isCall = false ∧ s.isPage = false) (q : Query) :
    (p.interpret steps q).2.page = q.page := by
  induction steps generalizing q with
  | nil => rfl
  | cons step rest ih =>
    rw [List.forall_mem_cons] at hsteps
    have hperform := page_perform hbackend hsteps.1.1 hsteps.1.2 q
    rw [interpret]
    generalize p.perform step q = outcome at hperform
    obtain ⟨_ | ⟨⟩, q₁⟩ := outcome
    · exact hperform
    · exact (ih hsteps.2 q₁).trans hperform

/-- The page step succeeds and sets the page, if there is one to set. -/
theorem interpret_pagePlan (r : ParsedRequest) (q : Query) :
    p.interpret (p.pagePlan r) q =
      (.ok (), { q with page := (p.resolvePage r.page r.pageSize).or q.page }) := by
  unfold pagePlan
  cases p.resolvePage r.page r.pageSize with
  | none => rfl
  | some page =>
    rw [Option.toList_some, List.map_singleton, interpret_singleton, perform, hbackend]
    rfl

end Runs

variable (r : Request) {phases : Phases C} (q : Query)

/-- The page comes after everything else. -/
theorem plan_eq_append_pagePlan (hon : phases.pagination = true) (r : ParsedRequest) :
    p.plan r phases = p.plan r { phases with pagination := false } ++ p.pagePlan r := by
  rw [plan, plan, if_pos hon, if_neg Bool.false_ne_true, List.append_nil]

section Requests

variable (h : p.Capped)
include h

theorem Capped.page_before (phases : Phases C) (r : ParsedRequest) :
    (p.interpret (p.plan r { phases with pagination := false }) q).2.page = q.page := by
  refine page_interpret h.backend ?_ q
  refine forall_mem_plan ?_ (fun _ _ => ⟨rfl, rfl⟩) ?_ ⟨rfl, rfl⟩
    (fun hon => absurd hon Bool.false_ne_true)
  · intro t _ name _ _
    rw [nameStep, h.filters.find?]
    exact ⟨rfl, rfl⟩
  · intro t _ _ thenBy
    rw [sortStep, h.sorts.find?]
    exact ⟨rfl, rfl⟩

/-- Without calls only an unknown name can fail, and that only where failures are reported: so a
plan succeeds if no failure is reported. -/
theorem Capped.interpret_of_ok (hok : (p.apply r phases q).1 = .ok ()) :
    p.interpret (p.plan r.parse phases) q = (.ok (), (p.apply r phases q).2) := by
  -- A quiet run is called a success whatever happened, so there the plan itself has to be looked at.
  cases hthrow : p.options.throwExceptions with
  | true =>
    rw [p.apply_of_throwing hthrow] at hok ⊢
    exact Prod.ext hok rfl
  | false =>
    have hplain : p.Plain := ⟨h.backend, h.filters, h.sorts, hthrow⟩
    obtain ⟨q', hrun, -⟩ := interpret_of_plain hplain
      (isCall_of_mem_plan hplain r.parse phases) q
    rw [apply_snd, hrun]

/-- A run that succeeds leaves the page that is to be set, and else the one that was there. -/
theorem Capped.page_apply (hon : phases.pagination = true)
    (hok : (p.apply r phases q).1 = .ok ()) :
    (p.apply r phases q).2.page =
      (p.resolvePage r.parse.page r.parse.pageSize).or q.page := by
  have hrun := h.interpret_of_ok r q hok
  have hbefore := h.page_before q phases r.parse
  rw [plan_eq_append_pagePlan hon, interpret_append] at hrun
  generalize p.interpret (p.plan r.parse { phases with pagination := false }) q = outcome
    at hrun hbefore
  obtain ⟨failure | ⟨⟩, q₁⟩ := outcome
  · rw [after, Prod.mk.injEq] at hrun
    exact absurd hrun.1 (by simp)
  · rw [after, interpret_pagePlan h.backend] at hrun
    have hleft := congrArg Prod.snd hrun
    dsimp only at hleft hbefore
    rw [← hleft, ← hbefore]

end Requests

/-- What the greatest page size does for a processor of queries without methods, with a page size
for requests without any. Whatever a request says, a run that reports no failure leaves a query that
returns no more records than the greatest page size, unless the whole number at the front of the
page size is there and not positive. In that case no page is set, and a query that had none returns
every record that passes. Where failures are not reported, there is always such a query. -/
theorem length_execute_le (p : Processor Query C) (h : p.Capped) (r : Request) (phases : Phases C)
    (hon : phases.pagination = true) (q : Query) (ρ : Type) [Record ρ] (records : List ρ) :
    (p.options.throwExceptions = false → (p.apply r phases q).1 = .ok ()) ∧
    ((p.apply r phases q).1 = .ok () → (∀ n, r.parse.pageSize = some n → 0 < n.toInt) →
      ((p.apply r phases q).2.execute records).length ≤ p.options.maxPageSize.toInt.toNat) ∧
    ((p.apply r phases q).1 = .ok () → (∃ n, r.parse.pageSize = some n ∧ n.toInt ≤ 0) →
      (p.apply r phases q).2.page = q.page ∧
        (q.page = none → ((p.apply r phases q).2.execute records).length =
          (p.apply r phases q).2.count records)) := by
  refine ⟨fun hquiet => apply_fst_of_not_throwing hquiet r phases q, ?_, ?_⟩
  · intro hok hsize
    have hpage := h.page_apply r q hon hok
    rcases resolvePage_cases h.greatest r.parse.page r.parse.pageSize with
      ⟨hnonpos, -⟩ | ⟨-, found, hfound, hfoundSize⟩
    · cases hgiven : r.parse.pageSize with
      | none => rw [hgiven, Option.getD_none] at hnonpos; exact absurd h.fallback (by omega)
      | some n => rw [hgiven, Option.getD_some] at hnonpos; exact absurd (hsize n hgiven) (by omega)
    · rw [hfound, Option.some_or] at hpage
      rw [Query.execute, hpage]
      calc _ ≤ found.size.toNat := List.length_take_le _ _
        _ ≤ p.options.maxPageSize.toInt.toNat := by omega
  · rintro hok ⟨n, hgiven, hn⟩
    have hpage := h.page_apply r q hon hok
    rcases resolvePage_cases h.greatest r.parse.page r.parse.pageSize with
      ⟨-, hnone⟩ | ⟨hpos, -⟩
    · rw [hnone, Option.none_or] at hpage
      refine ⟨hpage, fun hq => ?_⟩
      rw [Query.execute, hpage, hq, Query.count, List.countP_eq_length_filter]
      exact (Query.ordered_perm _ records).length_eq
    · rw [hgiven, Option.getD_some] at hpos
      omega

/-- A shelf that shows two books at a time, and reports failures. -/
def shelf : Processor Query Unit where
  options := { defaultPageSize := 2, maxPageSize := 2, throwExceptions := true }
  fields := ⟨[⟨"title", "title", true, true, none⟩]⟩
  backend := Query.backend
  filters := {}
  sorts := {}

theorem shelf_capped : shelf.Capped :=
  ⟨rfl, fun _ => nofun, fun _ => nofun, by decide, by decide⟩

def books : List Json :=
  ["persuasion", "emma", "evelina"].map fun title => .object [(some "title", .text (some title))]

theorem length_execute_le_shelf :
    shelf.Capped ∧ ({} : Phases Unit).pagination = true ∧
      ((shelf.apply { sorts := some "title", pageSize := some "+9 books" } {} {}).2.execute
        books).length ≤ 2 ∧
      ((shelf.apply { filters := some "title@=e", pageSize := some "-1" } {} {}).2.execute
        books).length = 3 := by
  obtain ⟨-, hcapped, -⟩ := length_execute_le shelf shelf_capped
    { sorts := some "title", pageSize := some "+9 books" } {} rfl {} Json books
  obtain ⟨-, -, hunpaged⟩ := length_execute_le shelf shelf_capped
    { filters := some "title@=e", pageSize := some "-1" } {} rfl {} Json books
  have hnine : leadingInt? "+9 books" = some 9 := by decide +kernel
  have hminus : leadingInt? "-1" = some (-1) := by decide +kernel
  refine ⟨shelf_capped, rfl, ?_, ?_⟩
  · refine hcapped (eq_ok_of_isOk _ (by decide +kernel)) fun n hn => ?_
    obtain rfl := Option.some.inj (hnine.symm.trans hn)
    decide
  · obtain ⟨-, hall⟩ := hunpaged (eq_ok_of_isOk _ (by decide +kernel)) ⟨-1, hminus, by decide⟩
    rw [hall rfl]
    decide +kernel

/-- A size of zero lifts the greatest page size, and so does a reported failure, after which the
query has no page. -/
theorem length_execute_unbounded :
    shelf.Capped ∧
      ¬((shelf.apply { pageSize := some "0" } {} {}).2.execute books).length ≤
        shelf.options.maxPageSize.toInt.toNat ∧
      ¬((shelf.apply { filters := some "ghost==1", pageSize := some "2" } {} {}).2.execute
        books).length ≤ shelf.options.maxPageSize.toInt.toNat := by
  refine ⟨shelf_capped, ?_, ?_⟩
  · decide +kernel
  · decide +kernel

end Processor

end Criteria

import Criteria.Proofs.Processor.Recording

/-!
# Reporting failures

Two processors that differ only in whether they report failures have the same plan for a request.
They perform every step of it alike, apart from the unknown names, at which the reporting one fails
and the quiet one does nothing. So the two go through the plan together, with the same calls on the
same targets, until a step fails for both or the reporting one alone stops at an unknown name.
-/

namespace Criteria

variable {Q C : Type}

def Step.isUnresolved : Step Q C → Bool
  | unresolvedFilter _ | unresolvedSort _ => true
  | _ => false

namespace Processor

variable (p : Processor Q C)

/-- The processor with failures reported, or not. -/
def reporting (on : Bool) : Processor Q C :=
  { p with options := { p.options with throwExceptions := on } }

/-! ## Unknown names -/

/-- A step for a name of the request that is neither a field with the leave asked for nor a method
with code. -/
def Unknown (r : ParsedRequest) : Step Q C → Prop
  | .unresolvedFilter name =>
    (∃ t ∈ r.filters, name ∈ t.names) ∧ p.filterField? name = none ∧
      p.filters.find? name p.options.caseSensitive = none
  | .unresolvedSort name =>
    (∃ t ∈ r.sorts, name = t.name) ∧ p.sortField? name = none ∧
      p.sorts.find? name p.options.caseSensitive = none
  | _ => False

/-- The request is carried out up to an unknown name, at which a failure is reported: no step before
it fails, and the target stays as it is when its turn comes. -/
def StopsAtUnknown (r : Request) (phases : Phases C) (q : Q) : Prop :=
  ∃ front step back failure q', p.plan r.parse phases = front ++ step :: back ∧
    p.Unknown r.parse step ∧ p.interpret front q = (.ok (), q') ∧
    p.apply r phases q = (.error failure, q')

theorem unknown_of_mem_plan (r : ParsedRequest) (phases : Phases C) :
    ∀ step ∈ p.plan r phases, step.isUnresolved = true → p.Unknown r step := by
  refine forall_mem_plan ?_ (fun _ _ => nofun) ?_ nofun (fun _ _ => nofun)
  · intro t ht name hname hnone hstep
    unfold nameStep at hstep ⊢
    cases hmethod : p.filters.find? name p.options.caseSensitive with
    | some method => rw [hmethod] at hstep; exact absurd hstep Bool.false_ne_true
    | none => exact ⟨⟨t, ht, hname⟩, hnone, hmethod⟩
  · intro t ht hnone thenBy hstep
    unfold sortStep at hstep ⊢
    cases hmethod : p.sorts.find? t.name p.options.caseSensitive with
    | some method => rw [hmethod] at hstep; exact absurd hstep Bool.false_ne_true
    | none => exact ⟨⟨t, ht, rfl⟩, hnone, hmethod⟩

/-! ## The two runs -/

theorem plan_reporting (on : Bool) (r : ParsedRequest) (phases : Phases C) :
    (p.reporting on).plan r phases = p.plan r phases := rfl

/-- Only at an unknown name does it matter whether failures are reported. -/
theorem perform_reporting (on : Bool) {step : Step Q C} (h : step.isUnresolved = false) (q : Q) :
    (p.reporting on).perform step q = p.perform step q := by
  cases step with
  | unresolvedFilter | unresolvedSort => exact absurd h Bool.noConfusion
  | filter | group | sort | sorts | page => rfl

theorem passedOver_reporting {H : Type} (name : String) (methods : Registry H) (q : Q) :
    (∃ failure, (p.reporting true).passedOver name methods q = (.error failure, q)) ∧
      (p.reporting false).passedOver name methods q = (.ok (), q) := by
  refine ⟨?_, rfl⟩
  have hthrow : (p.reporting true).options.throwExceptions = true := rfl
  rw [passedOver, if_pos hthrow]
  cases methods.declaredKind? name (p.reporting true).options.caseSensitive with
  | some kind => exact ⟨_, rfl⟩
  | none => exact ⟨_, rfl⟩

theorem perform_of_isUnresolved {step : Step Q C} (h : step.isUnresolved = true) (q : Q) :
    (∃ failure, (p.reporting true).perform step q = (.error failure, q)) ∧
      (p.reporting false).perform step q = (.ok (), q) := by
  cases step with
  | unresolvedFilter name => exact p.passedOver_reporting name p.filters q
  | unresolvedSort name => exact p.passedOver_reporting name p.sorts q
  | filter | group | sort | sorts | page => exact absurd h Bool.noConfusion

theorem callOf_of_isUnresolved {step : Step Q C} (h : step.isUnresolved = true) :
    p.callOf step = none := by
  cases step with
  | unresolvedFilter | unresolvedSort => rfl
  | filter | group | sort | sorts | page => exact absurd h Bool.noConfusion

/-- The two runs of a plan are the same, or the reporting one stops at an unresolved name, and the
quiet one has by then made the same calls. -/
theorem lockstep (steps : List (Step Q C)) (q : Q) :
    ((p.reporting true).interpret steps q = (p.reporting false).interpret steps q ∧
      (p.reporting true).trace steps q = (p.reporting false).trace steps q) ∨
    ∃ front step back failure q', steps = front ++ step :: back ∧ step.isUnresolved = true ∧
      (p.reporting true).interpret front q = (.ok (), q') ∧
      (p.reporting true).interpret steps q = (.error failure, q') ∧
      (p.reporting true).trace steps q <+: (p.reporting false).trace steps q := by
  induction steps generalizing q with
  | nil => exact Or.inl ⟨rfl, rfl⟩
  | cons step rest ih =>
    cases hstep : step.isUnresolved with
    | true =>
      -- Here the runs part. Neither makes a call, so what the quiet one calls later comes behind.
      obtain ⟨⟨failure, hfail⟩, -⟩ := p.perform_of_isUnresolved hstep q
      have htrace : (p.reporting true).trace (step :: rest) q = [] := by
        rw [trace, (p.reporting true).callOf_of_isUnresolved hstep, hfail]
        rfl
      refine Or.inr ⟨[], step, rest, failure, q, rfl, hstep, rfl, ?_, ?_⟩
      · rw [interpret, hfail]
        rfl
      · rw [htrace]
        exact List.nil_prefix
    | false =>
      have hcall : (p.reporting true).callOf step = (p.reporting false).callOf step := by
        cases step <;> rfl
      simp only [interpret, trace, hcall, p.perform_reporting _ hstep]
      rcases hperform : p.perform step q with ⟨failure | ⟨⟩, q₁⟩
      · exact Or.inl ⟨rfl, rfl⟩
      · rcases ih q₁ with ⟨hrun, htrace⟩ | ⟨front, stop, back, failure, q₂, hrest, hstop, hfront,
          hrun, htrace⟩
        · exact Or.inl ⟨hrun, congrArg (_ ++ ·) htrace⟩
        · refine Or.inr ⟨step :: front, stop, back, failure, q₂, by rw [hrest]; rfl, hstop, ?_,
            hrun, (List.prefix_append_right_inj _).mpr htrace⟩
          rw [interpret, p.perform_reporting _ hstep, hperform]
          exact hfront

/-- Whether failures are reported changes what is reported, and what becomes of unknown names. The
calls of the backend and of the methods that the reporting processor makes, on the targets it makes
them on, are the first of those of the quiet one; they are all of them and the targets end the same,
unless the reporting one stops at an unknown name. The quiet one never fails, and where the
reporting one does not, it ends with the same target. -/
theorem calls_reporting (r : Request) (phases : Phases C) (q : Q) :
    (p.reporting true).calls r phases q <+: (p.reporting false).calls r phases q ∧
    ((p.reporting true).StopsAtUnknown r phases q ∨
      (p.reporting true).calls r phases q = (p.reporting false).calls r phases q ∧
        ((p.reporting true).apply r phases q).2 = ((p.reporting false).apply r phases q).2) ∧
    ((p.reporting false).apply r phases q).1 = .ok () ∧
    (((p.reporting true).apply r phases q).1 = .ok () →
      ((p.reporting true).apply r phases q).2 = ((p.reporting false).apply r phases q).2) := by
  have hreported : (p.reporting true).apply r phases q =
      (p.reporting true).interpret (p.plan r.parse phases) q :=
    (p.reporting true).runOn_run r.parse phases q
  have hquiet : (p.reporting false).apply r phases q =
      (.ok (), ((p.reporting false).interpret (p.plan r.parse phases) q).2) :=
    congrArg (fun run => (Except.ok (), run.2)) ((p.reporting false).runOn_run r.parse phases q)
  rw [calls_eq_trace, calls_eq_trace, plan_reporting, plan_reporting, hreported, hquiet]
  rcases p.lockstep (p.plan r.parse phases) q with ⟨hrun, htrace⟩ | ⟨front, step, back, failure, q',
    hplan, hstep, hfront, hrun, htrace⟩
  · rw [htrace, hrun]
    exact ⟨List.prefix_rfl, Or.inr ⟨rfl, rfl⟩, rfl, fun _ => rfl⟩
  · refine ⟨htrace, Or.inl ⟨front, step, back, failure, q', hplan, ?_, hfront, ?_⟩, rfl, ?_⟩
    · refine (p.reporting true).unknown_of_mem_plan r.parse phases step ?_ hstep
      rw [plan_reporting, hplan]
      exact List.mem_append_right _ List.mem_cons_self
    · rw [hreported, hrun]
    · intro hok
      rw [hrun] at hok
      exact absurd hok (by simp)

/-- A journal of what was asked for. It refuses to be sorted, and notes that as well. -/
def journal : Processor (List String) Unit where
  options := {}
  fields := ⟨[⟨"title", "title", true, true, none⟩]⟩
  backend :=
    { applyGroup := fun _ => modify (· ++ ["group"])
      applySorts := fun _ => do
        modify (· ++ ["sorts"])
        throw (.error "no order")
      applyPage := fun _ => modify (· ++ ["page"]) }
  filters := ⟨[("recent", .handler fun call => modify (· ++ call.values))]⟩
  sorts := {}

theorem calls_reporting_journal :
    ((journal.reporting true).apply { filters := some "recent==7,title==a" } {} []).1 = .ok () ∧
      ((journal.reporting true).apply { filters := some "recent==7,title==a" } {} []).2 =
        ((journal.reporting false).apply { filters := some "recent==7,title==a" } {} []).2 ∧
      (journal.reporting true).StopsAtUnknown
        { filters := some "recent==7,ghost==1,title==a", sorts := some "title" } {} [] := by
  have hok := eq_ok_of_isOk
    ((journal.reporting true).apply { filters := some "recent==7,title==a" } {} []).1
    (by decide +kernel)
  obtain ⟨-, -, -, hsame⟩ := journal.calls_reporting { filters := some "recent==7,title==a" } {} []
  obtain ⟨-, hstops, -, -⟩ := journal.calls_reporting
    { filters := some "recent==7,ghost==1,title==a", sorts := some "title" } {} []
  refine ⟨hok, hsame hok, hstops.resolve_right ?_⟩
  rintro ⟨-, hends⟩
  exact absurd hends (by decide +kernel)

end Processor

end Criteria

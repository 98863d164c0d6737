import Criteria.Proofs.Record.Groups
import Criteria.Proofs.Term.ClauseTexts
import Criteria.Proofs.Term.RoundTrip

/-!
# What a filters text asks of a record

A processor without custom methods adds one group of conditions to a query for every clause that
names a field to filter by and gives a value. A record passes all groups exactly if it answers every
such clause, and it answers a clause if some field of it compares as asked with some value. Nothing
else of the clauses counts, neither their order nor their number, nor the order of the names and
values in them.
-/

namespace Criteria

variable {C : Type}

namespace Processor

variable (p : Processor Query C)

/-! ## Clauses and records -/

/-- A clause asks for something if some name of it is a field to filter by and some value is
given. -/
def Asks (t : FilterTerm) : Prop :=
  (∃ n ∈ t.names, (p.filterField? n).isSome) ∧ t.values ≠ []

/-- A record answers a clause if some field that the clause names compares as asked with some value
of the clause. -/
def Answers {ρ : Type} [Record ρ] (t : FilterTerm) (r : ρ) : Prop :=
  ∃ n ∈ t.names, ∃ f ∈ p.filterField? n, ∃ v ∈ t.values,
    (Condition.build t f v p.options.ignoreNullsOnNotEqual).holds (Record.fieldValue r f.path) =
      true

instance : DecidablePred p.Asks := fun t => by
  unfold Asks
  infer_instance

instance {ρ : Type} [Record ρ] (t : FilterTerm) (r : ρ) : Decidable (p.Answers t r) := by
  unfold Answers
  infer_instance

theorem conditionsOf_ne_nil_iff {t : FilterTerm} : p.conditionsOf t t.names ≠ [] ↔ p.Asks t := by
  constructor
  · intro hne
    obtain ⟨c, hc⟩ := List.exists_mem_of_ne_nil _ hne
    obtain ⟨n, hn, f, hfield, v, hv, -⟩ := p.mem_conditionsOf.mp hc
    exact ⟨⟨n, hn, Option.isSome_iff_exists.mpr ⟨f, hfield⟩⟩, List.ne_nil_of_mem hv⟩
  · rintro ⟨⟨n, hn, hsome⟩, hvalues⟩
    obtain ⟨f, hfield⟩ := Option.isSome_iff_exists.mp hsome
    obtain ⟨v, hv⟩ := List.exists_mem_of_ne_nil _ hvalues
    exact List.ne_nil_of_mem (p.mem_conditionsOf.mpr ⟨n, hn, f, hfield, v, hv, rfl⟩)

/-- A record passes the group of a clause that asks for something exactly if it answers the
clause. -/
theorem matchesGroup_conditionsOf {ρ : Type} [Record ρ] {t : FilterTerm} (hasks : p.Asks t)
    (r : ρ) : matchesGroup r (p.conditionsOf t t.names) = true ↔ p.Answers t r := by
  have hempty : (p.conditionsOf t t.names).isEmpty = false := by
    simpa using p.conditionsOf_ne_nil_iff.mpr hasks
  rw [matchesGroup, hempty, Bool.false_or, List.any_eq_true]
  constructor
  · rintro ⟨c, hc, hholds⟩
    obtain ⟨n, hn, f, hfield, v, hv, rfl⟩ := p.mem_conditionsOf.mp hc
    exact ⟨n, hn, f, hfield, v, hv, hholds⟩
  · rintro ⟨n, hn, f, hfield, v, hv, hholds⟩
    exact ⟨_, p.mem_conditionsOf.mpr ⟨n, hn, f, hfield, v, hv, rfl⟩, hholds⟩

/-- Applied to an empty query, a processor without methods succeeds, and a record passes exactly if
it answers every clause that asks for something. -/
theorem accepts_apply {p : Processor Query C} (h : p.Plain) (r : Request) {phases : Phases C}
    (hon : phases.filtering = true) {ρ : Type} [Record ρ] (record : ρ) :
    (p.apply r phases {}).2.accepts record = true ↔
      ∀ t ∈ r.parse.filters, p.Asks t → p.Answers t record := by
  obtain ⟨q, hinterpret, hgroups⟩ :=
    interpret_of_plain h (isCall_of_mem_plan h r.parse phases) {}
  rw [apply_snd, hinterpret, Query.accepts, matchesGroups, hgroups, List.nil_append,
    List.all_eq_true]
  constructor
  · intro hall t ht hasks
    refine (p.matchesGroup_conditionsOf hasks record).mp (hall _ ?_)
    exact (p.mem_groups_plan hon).mpr ⟨t, ht, rfl, p.conditionsOf_ne_nil_iff.mpr hasks⟩
  · intro hall group hgroup
    obtain ⟨t, ht, rfl, hne⟩ := (p.mem_groups_plan hon).mp hgroup
    have hasks : p.Asks t := p.conditionsOf_ne_nil_iff.mp hne
    exact (p.matchesGroup_conditionsOf hasks record).mpr (hall t ht hasks)

end Processor

/-! ## Clauses in another order -/

namespace FilterTerm.Rearranged

variable {t t' : FilterTerm}

variable (p : Processor Query C)

theorem asks (h : t.Rearranged t') (hasks : p.Asks t) : p.Asks t' := by
  obtain ⟨⟨n, hn, hsome⟩, hvalues⟩ := hasks
  refine ⟨⟨n, h.names.mem_iff.mp hn, hsome⟩, ?_⟩
  intro hnil
  exact hvalues (List.perm_nil.mp (hnil ▸ h.values))

theorem answers {ρ : Type} [Record ρ] {r : ρ} (h : t.Rearranged t') (hanswers : p.Answers t r) :
    p.Answers t' r := by
  obtain ⟨n, hn, f, hfield, v, hv, hholds⟩ := hanswers
  refine ⟨n, h.names.mem_iff.mp hn, f, hfield, v, h.values.mem_iff.mp hv, ?_⟩
  have hbuild (ignoreNulls : Bool) :
      Condition.build t' f v ignoreNulls = Condition.build t f v ignoreNulls := by
    rw [Condition.build, Condition.build, operator, operator, h.token]
  rw [hbuild]
  exact hholds

end FilterTerm.Rearranged

theorem FilterTerm.Covered.answers {ts ts' : List FilterTerm} (h : FilterTerm.Covered ts ts')
    {p : Processor Query C} {ρ : Type} [Record ρ] {r : ρ}
    (hall : ∀ t ∈ ts', p.Asks t → p.Answers t r) : ∀ t ∈ ts, p.Asks t → p.Answers t r := by
  intro t ht hasks
  obtain ⟨t', ht', hrearranged⟩ := h t ht
  exact hrearranged.symm.answers p (hall t' ht' (hrearranged.asks p hasks))

theorem Request.parse_filters {r : Request} {s : String} (h : r.filters = some s) :
    r.parse.filters = FilterTerm.ofFilters s := by
  rw [Request.parse, h]
  rfl

namespace Processor

/-- Two requests let the same records pass, and count the same number of them. -/
structure AgreeOn (ρ : Type) [Record ρ] (p : Processor Query C) (phases : Phases C)
    (r r' : Request) : Prop where
  accepts : ∀ record : ρ,
    (p.apply r phases {}).2.accepts record = (p.apply r' phases {}).2.accepts record
  count : ∀ records : List ρ,
    (p.apply r phases {}).2.count records = (p.apply r' phases {}).2.count records

section Agreement

variable {p : Processor Query C} (h : p.Plain) {phases : Phases C} (hon : phases.filtering = true)
include h hon

/-- Requests whose clauses cover each other agree. -/
theorem agreeOn_of_covered (ρ : Type) [Record ρ] {r r' : Request}
    (hc : FilterTerm.Covered r.parse.filters r'.parse.filters)
    (hc' : FilterTerm.Covered r'.parse.filters r.parse.filters) : p.AgreeOn ρ phases r r' := by
  have haccepts : ∀ record : ρ,
      (p.apply r phases {}).2.accepts record = (p.apply r' phases {}).2.accepts record := by
    intro record
    rw [Bool.eq_iff_iff, accepts_apply h r hon, accepts_apply h r' hon]
    exact ⟨hc'.answers, hc.answers⟩
  refine ⟨haccepts, fun records => ?_⟩
  exact congrArg (List.countP · records) (funext haccepts)

theorem agreeOn_of_texts (ρ : Type) [Record ρ] (r : Request) {texts texts' : List String}
    (hjoin : Text.Joinable ',' (texts.map String.toList))
    (hjoin' : Text.Joinable ',' (texts'.map String.toList))
    (hc : ClauseText.Covered texts texts') (hc' : ClauseText.Covered texts' texts) :
    p.AgreeOn ρ phases { r with filters := some (",".intercalate texts) }
      { r with filters := some (",".intercalate texts') } := by
  refine agreeOn_of_covered h hon ρ ?_ ?_
  · rw [Request.parse_filters rfl, Request.parse_filters rfl]
    exact FilterTerm.covered_ofFilters hjoin hjoin' hc
  · rw [Request.parse_filters rfl, Request.parse_filters rfl]
    exact FilterTerm.covered_ofFilters hjoin' hjoin hc'

theorem agreeOn_of_written (ρ : Type) [Record ρ] (r : Request) {cs cs' : List Clause}
    (hw : ∀ c ∈ cs, c.WellFormed) (hw' : ∀ c ∈ cs', c.WellFormed)
    (hc : FilterTerm.Covered (cs.map Clause.term) (cs'.map Clause.term))
    (hc' : FilterTerm.Covered (cs'.map Clause.term) (cs.map Clause.term)) :
    p.AgreeOn ρ phases { r with filters := some (Clause.filtersText cs) }
      { r with filters := some (Clause.filtersText cs') } := by
  refine agreeOn_of_covered h hon ρ ?_ ?_
  · rw [Request.parse_filters rfl, Request.parse_filters rfl, read_filtersText hw,
      read_filtersText hw']
    exact hc
  · rw [Request.parse_filters rfl, Request.parse_filters rfl, read_filtersText hw,
      read_filtersText hw']
    exact hc'

end Agreement

/-- Which records pass, and how many are counted, depends neither on the order of clauses nor on
their number, nor on the order of the names and of the values in a clause. -/
structure Unordered (ρ : Type) [Record ρ] (p : Processor Query C) (phases : Phases C)
    (r : Request) : Prop where
  /-- Clauses as they are read. -/
  terms : ∀ r' : Request, FilterTerm.Covered r.parse.filters r'.parse.filters →
    FilterTerm.Covered r'.parse.filters r.parse.filters → p.AgreeOn ρ phases r r'
  /-- Clause texts between commas, if no comma is escaped by the text before it, and names and
  values that the new texts fall into again. -/
  texts : ∀ texts texts' : List String, Text.Joinable ',' (texts.map String.toList) →
    Text.Joinable ',' (texts'.map String.toList) → ClauseText.Covered texts texts' →
    ClauseText.Covered texts' texts →
    p.AgreeOn ρ phases { r with filters := some (",".intercalate texts) }
      { r with filters := some (",".intercalate texts') }
  /-- Clauses that are written with parentheses, a space and escapes. -/
  written : ∀ cs cs' : List Clause, (∀ c ∈ cs, c.WellFormed) → (∀ c ∈ cs', c.WellFormed) →
    FilterTerm.Covered (cs.map Clause.term) (cs'.map Clause.term) →
    FilterTerm.Covered (cs'.map Clause.term) (cs.map Clause.term) →
    p.AgreeOn ρ phases { r with filters := some (Clause.filtersText cs) }
      { r with filters := some (Clause.filtersText cs') }

/-- What a processor without methods makes of a filters text. It never fails; a record passes
exactly if, for every clause with a field to filter by and a value, some such field compares as
asked with some value; and as many records are counted as pass. So nothing changes if clauses change
places or are repeated, or if the names or the values of a clause change places, in the clauses as
read, in the clause texts that the filters text is the join of, and in written clauses. Every
filters text is such a join, and every clause text with an operator falls into names and values. -/
theorem filtering_meaning (p : Processor Query C) (h : p.Plain) (r : Request) (phases : Phases C)
    (hon : phases.filtering = true) (ρ : Type) [Record ρ] :
    (p.apply r phases {}).1 = .ok () ∧
    (∀ record : ρ, (p.apply r phases {}).2.accepts record = true ↔
      ∀ t ∈ r.parse.filters, p.Asks t → p.Answers t record) ∧
    (∀ records : List ρ, (p.apply r phases {}).2.count records =
      records.countP fun record =>
        decide (∀ t ∈ r.parse.filters, p.Asks t → p.Answers t record)) ∧
    p.Unordered ρ phases r ∧
    (∀ filters : String, ∃ texts : List String, Text.Joinable ',' (texts.map String.toList) ∧
      ",".intercalate texts = filters) ∧
    (∀ (clause : List Char) (l : Located), Located.find? clause = some l →
      ∃ c : ClauseText, c.Readable ∧ c.chars = clause) := by
  refine ⟨apply_fst_of_not_throwing h.quiet r phases {}, ?_, ?_, ⟨?_, ?_, ?_⟩, ?_, ?_⟩
  · intro record
    exact accepts_apply h r hon record
  · intro records
    refine List.countP_congr fun record _ => ?_
    rw [decide_eq_true_iff]
    exact accepts_apply h r hon record
  · intro r' hc hc'
    exact agreeOn_of_covered h hon ρ hc hc'
  · intro texts texts' hjoin hjoin' hc hc'
    exact agreeOn_of_texts h hon ρ r hjoin hjoin' hc hc'
  · intro cs cs' hw hw' hc hc'
    exact agreeOn_of_written h hon ρ r hw hw' hc hc'
  · exact exists_clauseTexts
  · intro clause l hfound
    exact ClauseText.exists_readable (Located.find?_eq_some_iff.mp hfound)

/-- Two fields to filter by, a field to sort by, and a filter that is declared only. -/
def catalogue : Processor Query Unit where
  options := {}
  fields := ⟨[⟨"title", "title", true, true, none⟩, ⟨"likes", "stats.likes", true, false, none⟩,
    ⟨"rank", "rank", false, true, none⟩]⟩
  backend := Query.backend
  filters := ⟨[("popular", .declared "string")]⟩
  sorts := {}

theorem catalogue_plain : catalogue.Plain := by
  refine ⟨rfl, ?_, ?_, rfl⟩
  · intro entry hentry
    obtain rfl := List.mem_singleton.mp hentry
    exact ⟨"string", rfl⟩
  · intro entry hentry
    exact absurd hentry List.not_mem_nil

def posts : List Json :=
  [.object [(some "title", .text (some "lean")),
      (some "stats", .object [(some "likes", .number (some (.int 3)))])],
    .object [(some "title", .text (some "rust")),
      (some "stats", .object [(some "likes", .number (some (.int 7)))])],
    .object [(some "title", .text (some "rust"))]]

/-- A clause text with the names in parentheses. -/
def anyOf (names values : List String) : ClauseText where
  lead := [' ']
  parenthesized := true
  names := names.map String.toList
  tail := []
  token := ⟨.equals, false, false⟩
  values := values.map String.toList

/-- In the texts below, a clause is repeated, another one changes its place and the places of its
names and values, and the last one, which may end in a backslash, stays where it is. -/
theorem filtering_meaning_catalogue :
    catalogue.Plain ∧ ({} : Phases Unit).filtering = true ∧
      (catalogue.apply
        { filters := some "(title|likes|ghost)==lean|7,rank>1,popular@=x,title==" } {} {}).2.count
          posts = 2 ∧
      catalogue.AgreeOn Json {}
        { filters := some (",".intercalate
          ["likes>2", " (title|likes)==lean|7", "title==rust|a\\,b\\"]) }
        { filters := some (",".intercalate
          [" (likes|title)==7|lean", "likes>2", "likes>2", "title==rust|a\\,b\\"]) } := by
  obtain ⟨-, -, hcount, hunordered, -⟩ := filtering_meaning catalogue catalogue_plain
    { filters := some "(title|likes|ghost)==lean|7,rank>1,popular@=x,title==" } {} rfl Json
  have hblank : ∀ x ∈ [' '], Text.isBlank x = true := List.forall_mem_singleton.mpr rfl
  have hfirst : (anyOf ["title", "likes"] ["lean", "7"]).Readable :=
    ⟨hblank, by decide, nofun, Located.find?_eq_some_iff.mp rfl, by decide⟩
  have hsecond : (anyOf ["likes", "title"] ["7", "lean"]).Readable :=
    ⟨hblank, by decide, nofun, Located.find?_eq_some_iff.mp rfl, by decide⟩
  have hreordered : ClauseText.Reordered " (title|likes)==lean|7".toList
      " (likes|title)==7|lean".toList :=
    .parts hfirst hsecond rfl (.swap ..) (.swap ..)
  refine ⟨catalogue_plain, rfl, ?_, ?_⟩
  · rw [hcount]
    decide +kernel
  · refine hunordered.texts ["likes>2", " (title|likes)==lean|7", "title==rust|a\\,b\\"]
      [" (likes|title)==7|lean", "likes>2", "likes>2", "title==rust|a\\,b\\"]
      (by decide) (by decide) ?_ ?_
    · intro s hs
      simp only [List.mem_cons, List.not_mem_nil, or_false] at hs
      rcases hs with rfl | rfl | rfl
      · exact ⟨_, by simp, .refl _⟩
      · exact ⟨_, by simp, hreordered⟩
      · exact ⟨_, by simp, .refl _⟩
    · intro s hs
      simp only [List.mem_cons, List.not_mem_nil, or_false] at hs
      rcases hs with rfl | rfl | rfl | rfl
      · exact ⟨_, by simp, hreordered.symm⟩
      · exact ⟨_, by simp, .refl _⟩
      · exact ⟨_, by simp, .refl _⟩
      · exact ⟨_, by simp, .refl _⟩

/-- The catalogue without any methods. -/
def fieldsOnly : Processor Query Unit := { catalogue with filters := {} }

theorem fieldsOnly_plain : fieldsOnly.Plain := ⟨rfl, nofun, nofun, rfl⟩

/-- How many of the posts pass a filters text. -/
def passing (filters : String) : Nat :=
  (fieldsOnly.apply { filters := some filters } {} {}).2.count posts

/-- In the text itself no part can change its place without regard to what it then stands next to.
A backslash at the end of a clause or a value escapes the comma or the bar that comes to stand
behind it, the first value and the last name can join the operator to another one, and bare names
can come to look like names in parentheses. -/
theorem passing_depends_on_order :
    fieldsOnly.Plain ∧
      (passing (",".intercalate ["title==lean", "likes!=7\\"]) = 1 ∧
        passing (",".intercalate ["likes!=7\\", "title==lean"]) = 2) ∧
      (passing ("title==" ++ "|".intercalate ["rust", "x\\"]) = 2 ∧
        passing ("title==" ++ "|".intercalate ["x\\", "rust"]) = 0) ∧
      (passing ("title==" ++ "|".intercalate ["x", "*rust"]) = 0 ∧
        passing ("title==" ++ "|".intercalate ["*rust", "x"]) = 2) ∧
      (passing ("|".intercalate ["likes!", "title"] ++ "@=RU") = 0 ∧
        passing ("|".intercalate ["title", "likes!"] ++ "@=RU") = 3) ∧
      passing ("|".intercalate ["x)", "(title"] ++ "==rust") = 3 ∧
        passing ("|".intercalate ["(title", "x)"] ++ "==rust") = 2 :=
  ⟨fieldsOnly_plain, by decide +kernel⟩

end Processor

end Criteria

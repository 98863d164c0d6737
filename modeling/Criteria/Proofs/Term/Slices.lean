import Criteria.Proofs.Operator.Leftmost
import Criteria.Proofs.Text.Bytes
import Criteria.Term.Filter

/-!
# A clause read in place

The parts of a clause need not be carried along while its operator is looked for: they can be sliced
out of the clause at the byte where the operator starts and at the byte just behind it. A slice is
only there where the byte is the end of the text or the first of a character. Both bytes are, since
they follow whole characters, so that slicing never fails and gives the parts themselves.
-/

namespace Criteria

namespace Located

/-- A text can be sliced at both ends of an operator, and no operator can be read at an earlier
byte. -/
structure Slices (text : String) (l : Located) : Prop where
  at_start : Text.cutAt? text l.start =
    some (String.ofList l.before, l.token.text ++ String.ofList l.after)
  at_stop : Text.cutAt? text l.stop =
    some (String.ofList l.before ++ l.token.text, String.ofList l.after)
  start_lt_stop : l.start < l.stop
  stop_le : l.stop ≤ text.utf8ByteSize
  first : ∀ front back : String, front ++ back = text → Opens front.toList back.toList →
    l.start ≤ front.utf8ByteSize

theorem Leftmost.append_eq {text : String} {l : Located} (h : Leftmost text.toList l) :
    String.ofList l.before ++ l.token.text ++ String.ofList l.after = text := by
  rw [← String.toList_inj, String.toList_append, String.toList_append, String.toList_ofList,
    String.toList_ofList]
  exact h.parts

theorem stop_eq (l : Located) : l.stop = (String.ofList l.before ++ l.token.text).utf8ByteSize := by
  rw [String.utf8ByteSize_append]
  rfl

theorem start_lt_stop {l : Located} (h : l.token ∈ Token.table) : l.start < l.stop := by
  have hne : l.token.text ≠ "" := by
    intro hempty
    exact Token.chars_ne_nil _ h (String.toList_eq_nil_iff.mpr hempty)
  have hpos : l.token.text.utf8ByteSize ≠ 0 := by
    rwa [Ne, String.utf8ByteSize_eq_zero_iff]
  rw [stop]
  omega

theorem Leftmost.slices {text : String} {l : Located} (h : Leftmost text.toList l) :
    Slices text l := by
  have happend := h.append_eq
  refine ⟨?_, ?_, start_lt_stop h.listed, ?_, ?_⟩
  · rw [← happend, String.append_assoc]
    exact Text.cutAt?_append _ _
  · rw [← happend, stop_eq]
    exact Text.cutAt?_append _ _
  · have hsize := congrArg String.utf8ByteSize happend
    rw [String.utf8ByteSize_append, ← stop_eq] at hsize
    omega
  · intro front back hcut hopens
    have hchars : front.toList ++ back.toList = text.toList := by
      rw [← String.toList_append, hcut]
    have hle := h.leftmost _ _ hchars hopens
    -- both are parts of one text, so the shorter begins the longer
    obtain ⟨rest, hrest⟩ : l.before <+: front.toList :=
      List.prefix_of_prefix_length_le ⟨_, h.cut⟩ ⟨_, hchars⟩ hle
    have hfront : String.ofList l.before ++ String.ofList rest = front := by
      rw [← String.toList_inj, String.toList_append, String.toList_ofList, String.toList_ofList]
      exact hrest
    rw [← hfront, String.utf8ByteSize_append]
    exact Nat.le_add_right _ _

end Located

namespace FilterTerm

/-- A clause without the blanks around it. -/
def trimmed (clause : String) : String := String.ofList (Text.trim clause.toList)

/-- The term of a trimmed clause with an operator, from the texts on both sides of it. -/
def ofParts (clause names values : String) (token : Token) : FilterTerm where
  raw := clause
  names := (Text.splitChars '|' (openNames (Text.trim names.toList))).map String.ofList
  values := (Text.splitChars '|' (Text.trim values.toList)).map fun value =>
    String.ofList (decodeValue value)
  token := token

/-- Reads a clause by slicing it at both ends of its operator. There is no result at all when a
slice fails; otherwise there is the term, if the clause has an operator with a meaning. -/
def ofSlices? (clause : String) : Option (Option FilterTerm) :=
  match Located.find? (trimmed clause).toList with
  | none => some none
  | some found =>
    match Operator.ofText? found.token.text with
    | none => some none
    | some _ => do
      let (names, _) ← Text.cutAt? (trimmed clause) found.start
      let (_, values) ← Text.cutAt? (trimmed clause) found.stop
      return some (ofParts (trimmed clause) names values found.token)

theorem ofClause?_eq_map (clause : String) :
    ofClause? clause = (Located.find? (trimmed clause).toList).map fun found =>
      ofParts (trimmed clause) (String.ofList found.before) (String.ofList found.after)
        found.token := by
  simp only [ofClause?, ofChars?, trimmed, ofParts, String.toList_ofList]

theorem ofSlices?_eq (clause : String) : ofSlices? clause = some (ofClause? clause) := by
  rw [ofClause?_eq_map]
  cases hfound : Located.find? (trimmed clause).toList with
  | none => simp only [ofSlices?, hfound, Option.map_none]
  | some found =>
    have hleftmost := Located.find?_eq_some_iff.mp hfound
    have hslices := hleftmost.slices
    simp only [ofSlices?, hfound, Token.ofText?_text _ hleftmost.listed, hslices.at_start,
      hslices.at_stop, Option.bind_eq_bind, Option.bind_some, Option.pure_def, Option.map_some]

theorem ofClause?_eq_none_iff {clause : String} :
    ofClause? clause = none ↔ Located.Shut (trimmed clause).toList := by
  rw [ofClause?_eq_map, Option.map_eq_none_iff, Located.find?_eq_none_iff]

theorem exists_leftmost_of_ofClause? {clause : String} {t : FilterTerm}
    (h : ofClause? clause = some t) :
    ∃ l, Located.Leftmost (trimmed clause).toList l ∧
      t = ofParts (trimmed clause) (String.ofList l.before) (String.ofList l.after) l.token := by
  rw [ofClause?_eq_map, Option.map_eq_some_iff] at h
  obtain ⟨l, hfound, rfl⟩ := h
  exact ⟨l, Located.find?_eq_some_iff.mp hfound, rfl⟩

/-- The operator of a text stands at the leftmost place that opens and is the longest there; the
text can be sliced at its ends. So a clause is read in place without a failure, and the term that is
read cuts the trimmed clause in three. -/
theorem read_at_leftmost (text : String) :
    (Located.find? text.toList = none ↔ Located.Shut text.toList) ∧
    (∀ l, Located.find? text.toList = some l ↔ Located.Leftmost text.toList l) ∧
    (∀ l, Located.find? text.toList = some l → Located.Slices text l ∧
      Located.find? l.before = none ∧ Operator.ofText? l.token.text = some l.token.operator) ∧
    ofSlices? text = some (ofClause? text) ∧
    (ofClause? text = none ↔ Located.Shut (trimmed text).toList) ∧
    ∀ t, ofClause? text = some t → ∃ l, Located.Leftmost (trimmed text).toList l ∧
      Located.Slices (trimmed text) l ∧
      t = ofParts (trimmed text) (String.ofList l.before) (String.ofList l.after) l.token ∧
      trimmed text = String.ofList l.before ++ t.token.text ++ String.ofList l.after := by
  refine ⟨Located.find?_eq_none_iff, fun l => Located.find?_eq_some_iff, ?_, ofSlices?_eq text,
    ofClause?_eq_none_iff, ?_⟩
  · intro l hfound
    have hleftmost := Located.find?_eq_some_iff.mp hfound
    exact ⟨hleftmost.slices, hleftmost.find?_before, Token.ofText?_text _ hleftmost.listed⟩
  · intro t hread
    obtain ⟨l, hleftmost, rfl⟩ := exists_leftmost_of_ofClause? hread
    exact ⟨l, hleftmost, hleftmost.slices, rfl, hleftmost.append_eq.symm⟩

/-- A clause in which a backslash takes the mark of negation from the token behind it. -/
def halfEscaped : String := " naïve\\!_-=*x==y "

theorem read_at_leftmost_halfEscaped :
    ∃ l, Located.find? halfEscaped.toList = some l ∧ Located.Slices halfEscaped l ∧
      (l.token, l.start, l.stop) = (⟨.endsWith, false, true⟩, 9, 13) ∧
      ofSlices? halfEscaped = some (some
        { raw := "naïve\\!_-=*x==y"
          names := ["naïve\\!"]
          values := ["x==y"]
          token := ⟨.endsWith, false, true⟩ }) := by
  obtain ⟨-, -, hslices, hread, -⟩ := read_at_leftmost halfEscaped
  have hplace : (Located.find? halfEscaped.toList).map (fun l => (l.token, l.start, l.stop)) =
      some (⟨.endsWith, false, true⟩, 9, 13) := by
    decide +kernel
  obtain ⟨l, hfound, htoken⟩ := Option.map_eq_some_iff.mp hplace
  exact ⟨l, hfound, (hslices l hfound).1, htoken, hread.trans (by decide +kernel)⟩

end FilterTerm

end Criteria

import Criteria.Proofs.Term.OnePass
import Criteria.Proofs.Text.Splitting
import Mathlib.Data.List.Perm.Subperm

/-!
# Runs that are misread

Undoing the escapes of one token after the other gives the text of one pass but for two kinds of
runs: an even run that two tokens shorten, and an odd run that is shortened by a token that is not
there, but comes about when the single backslash of another escape is dropped. The induction goes
over the runs from the end of the text: as long as what is behind a run is read alike on both ways,
the backslashes that the run loses are those of the tokens that the text shows from the start.
-/

namespace Criteria

open Text

namespace FilterTerm

/-! ## Tokens that are not there -/

/-- A token for which the stages take a backslash from a run before `cs`: it begins `cs`, or it comes
about behind the next backslash, when the escape of a token that is tried before it is undone. -/
inductive Shows (cs : List Char) (t : Token) : Prop where
  | plain (h : t.chars <+: cs)
  | uncovered {front back : List Char} {u : Token} (hcs : cs = front ++ escapeChar :: back)
      (hne : front ≠ []) (hesc : escapeChar ∉ front) (hbefore : u.Before t) (hu : u.chars <+: back)
      (ht : t.chars <+: front ++ back)

theorem unescapeEach_uncovered {u : Token} {ts : List Token} (hts : ts ⊆ Token.table) (hu : u ∈ ts)
    {back : List Char} (h : u.chars <+: back) :
    unescapeEach ts (escapeChar :: back) = unescapeEach ts back := by
  induction ts generalizing back with
  | nil => exact absurd hu List.not_mem_nil
  | cons t ts ih =>
    rw [List.cons_subset] at hts
    rw [unescapeEach_cons, unescapeEach_cons,
      unescape_escapeChar_cons (Token.escapeChar_not_mem_chars hts.1)]
    split
    · rfl
    · next hnot =>
      rcases List.mem_cons.mp hu with rfl | hu
      · exact absurd h hnot
      · have hesc := Token.escapeChar_not_mem_chars (hts.2 hu)
        exact ih hts.2 hu (prefix_unescapeEach hesc h [t])

theorem exists_token_of_escapable {cs : List Char} (h : Escapable cs) (hequals : ['='] <+: cs) :
    ∃ t ∈ Token.table, t.chars <+: cs := by
  rcases h with hbar | htoken
  · obtain ⟨tail, rfl⟩ := hequals
    exact absurd (List.singleton_prefix_cons_iff.mp hbar) (by decide)
  · exact htoken

/-- The first stretch of a text is its beginning up to the first backslash. -/
theorem stretch_unique {front front' rest back : List Char} (hesc : escapeChar ∉ front)
    (hesc' : escapeChar ∉ front') (hrest : AtRun rest)
    (h : front ++ rest = front' ++ escapeChar :: back) :
    front = front' ∧ rest = escapeChar :: back := by
  rcases List.append_eq_append_iff.mp h with ⟨z, rfl, hz⟩ | ⟨z, rfl, hz⟩
  · cases z with
    | nil => exact ⟨by simp, hz⟩
    | cons c z =>
      rw [hz] at hrest
      exact absurd (by simp [hrest c rfl]) hesc'
  · cases z with
    | nil => exact ⟨by simp, hz.symm⟩
    | cons c z =>
      obtain ⟨rfl, -⟩ := List.cons.inj hz
      exact absurd (by simp) hesc

/-- No token comes about at the border of a stretch that begins with an equals sign and with a token:
it would have to hold that token between two equals signs. -/
theorem prefix_of_equals {done later : List Token} {u v : Token}
    (htable : Token.table = done ++ u :: later) {front rest : List Char} (hne : front ≠ [])
    (hrest : AtRun rest) (hequals : ['='] <+: front) (hv : v ∈ Token.table)
    (hvs : v.chars <+: front) (hu : u.chars <+: front ++ unescapeEach done rest) :
    u.chars <+: front := by
  by_contra hover
  obtain ⟨huchars, -⟩ := reaching htable hne hrest hu hover
  have hmem : u ∈ Token.table := by rw [htable]; simp
  have hlast : u.chars.getLast? = some '=' := by rw [huchars]; simp
  have hhead : ['='] <+: u.chars := by
    rw [huchars]
    exact hequals.trans (List.prefix_append ..)
  have hno := Token.not_prefix_dropLast u hmem hhead hlast v hv
  rw [huchars, List.dropLast_concat] at hno
  exact hno hvs

/-- Where what is behind a stretch is decoded as in one pass, a token begins the text from the
stretch on, when its turn comes, exactly if the text shows it from the start. -/
theorem begins_iff_shows {done later : List Token} {t : Token}
    (htable : Token.table = done ++ t :: later) {front rest : List Char} (hne : front ≠ [])
    (hesc : escapeChar ∉ front) (hrest : AtRun rest) (hsame : decodeValue rest = decodeOnce rest) :
    t.chars <+: front ++ unescapeEach done rest ↔ Shows (front ++ rest) t := by
  have hescape : ∀ u ∈ Token.table, escapeChar ∉ u.chars := fun u hu =>
    Token.escapeChar_not_mem_chars hu
  have ht : t ∈ Token.table := by rw [htable]; simp
  constructor
  · intro hbegin
    by_cases hover : t.chars <+: front
    · exact .plain (hover.trans (List.prefix_append ..))
    · obtain ⟨hchars, n, stretch, back, rfl, hs, hescs, hback, hequals, hlost⟩ :=
        reaching htable hne hrest hbegin hover
      have hused : n + 1 ≤ lost stretch Token.table back := by
        rw [htable, lost_append]
        omega
      have hends := fun tail : List Char => EndsRun.append hs hescs tail
      rw [decodeValue_run hs hescs, decodeOnce_run hs hescs _ hback,
        backslashes_append_inj (hends _) (hends _)] at hsame
      obtain ⟨hcount, -⟩ := hsame
      have hescapable : Escapable stretch := by
        by_contra hnot
        rw [if_neg hnot] at hcount
        omega
      rw [if_pos hescapable] at hcount
      obtain rfl : n = 0 := by omega
      obtain ⟨v, hv, hvs⟩ := exists_token_of_escapable hescapable hequals
      obtain ⟨first, u, others, rfl, hu⟩ := exists_of_lost_pos (Nat.lt_of_lt_of_le Nat.one_pos hlost)
      have hbefore : u.Before t := (Token.before_iff htable u).mpr (by simp)
      have hmem : u ∈ Token.table := by rw [htable]; simp
      have hus : u.chars <+: stretch := by
        have htable' : Token.table = first ++ u :: (others ++ t :: later) := by
          rw [htable]
          simp
        exact prefix_of_equals htable' hs hback hequals hv hvs hu
      refine .uncovered rfl hne hesc hbefore (hus.trans (List.prefix_append ..)) ?_
      rw [hchars, List.prefix_append_right_inj]
      exact hequals.trans (List.prefix_append ..)
  · rintro (h | ⟨hcs, hne', hesc', hbefore, hu, hreach⟩)
    · exact (prefix_of_atRun (hescape t ht) hrest h).trans (List.prefix_append ..)
    · obtain ⟨rfl, rfl⟩ := stretch_unique hesc hesc' hrest hcs
      have hmem := (Token.before_iff htable _).mp hbefore
      have hdone : done ⊆ Token.table := by
        rw [htable]
        exact List.subset_append_left ..
      rw [unescapeEach_uncovered hdone hmem hu]
      exact begins_unescapeEach (hescape t ht) hreach done

/-! ## Runs that are misread -/

/-- A place at which the stages leave fewer backslashes than one pass. Either the run before it is
even, so that it escapes nothing, and is shortened by two tokens; or it is odd, and is shortened by a
token although no token stands there. -/
inductive Misread (before rest : List Char) : Prop where
  | twice (hrun : before.head? = some escapeChar) (heven : escapedBy before = false) {t u : Token}
      (hne : t ≠ u) (ht : t ∈ Token.table) (hu : u ∈ Token.table) (h : Shows rest t)
      (h' : Shows rest u)
  | unfounded (hodd : escapedBy before = true) {t : Token} (ht : t ∈ Token.table)
      (h : Shows rest t) (hnone : Token.atStart? rest = none)

theorem Shows.head? {cs : List Char} {t : Token} (ht : t ∈ Token.table) (h : Shows cs t) :
    cs.head? = t.chars.head? := by
  have hne := Token.chars_ne_nil t ht
  obtain ⟨c, chars, hchars⟩ := List.exists_cons_of_ne_nil hne
  cases h with
  | plain h =>
    obtain ⟨tail, rfl⟩ := h
    rw [hchars]
    rfl
  | @uncovered front back u hcs hfront _ _ _ hreach =>
    obtain ⟨d, front, rfl⟩ := List.exists_cons_of_ne_nil hfront
    rw [hchars, List.cons_append, List.cons_prefix_cons] at hreach
    rw [hcs, hchars, hreach.1]
    rfl

theorem Shows.not_atRun {cs : List Char} {t : Token} (ht : t ∈ Token.table) (h : Shows cs t) :
    ¬ AtRun cs := by
  intro hrun
  obtain ⟨c, chars, hchars⟩ := List.exists_cons_of_ne_nil (Token.chars_ne_nil t ht)
  have hhead := h.head? ht
  rw [hchars, List.head?_cons] at hhead
  have hesc := Token.escapeChar_not_mem_chars ht
  rw [hchars, hrun c hhead] at hesc
  exact hesc (by simp)

theorem Misread.not_atRun {before rest : List Char} (h : Misread before rest) : ¬ AtRun rest := by
  cases h with
  | twice _ _ _ ht _ h _ => exact h.not_atRun ht
  | unfounded _ ht h _ => exact h.not_atRun ht

theorem Misread.head? {before rest : List Char} (h : Misread before rest) :
    before.head? = some escapeChar := by
  cases h with
  | twice hrun => exact hrun
  | unfounded hodd =>
    cases before with
    | nil => exact absurd hodd (by simp)
    | cons c before =>
      by_cases hc : c = escapeChar
      · rw [hc]
        rfl
      · rw [escapedBy_of_ne hc] at hodd
        exact absurd hodd Bool.false_ne_true

theorem Misread.congr {before before' rest : List Char} (hrun : before'.head? = before.head?)
    (hparity : escapedBy before' = escapedBy before) (h : Misread before rest) :
    Misread before' rest := by
  cases h with
  | twice hhead heven hne ht hu h h' =>
    exact .twice (hrun.trans hhead) (hparity.trans heven) hne ht hu h h'
  | unfounded hodd ht h hnone => exact .unfounded (hparity.trans hodd) ht h hnone

theorem escapedBy_append (before : List Char) {far : List Char} (h : EndsRun far) :
    escapedBy (before ++ far) = escapedBy before := by
  induction before with
  | nil =>
    cases far with
    | nil => rfl
    | cons c far =>
      have hc : c ≠ escapeChar := by simpa [EndsRun] using h
      exact escapedBy_of_ne hc far
  | cons c before ih => rw [List.cons_append, escapedBy_cons, escapedBy_cons, ih]

/-- What is far before a place makes no difference, if there is something other than a backslash in
between. -/
theorem misread_append_iff {before far rest : List Char} (hne : before ≠ []) (hfar : EndsRun far) :
    Misread (before ++ far) rest ↔ Misread before rest := by
  have hhead : (before ++ far).head? = before.head? := List.head?_append_of_ne_nil _ hne
  have hparity := escapedBy_append before hfar
  exact ⟨.congr hhead.symm hparity.symm, .congr hhead hparity⟩

/-- A place behind a backslash and not before one is in front of the stretch or in what comes behind
it. -/
theorem place_cases {front tail left rest : List Char} {n : Nat} (hesc : escapeChar ∉ front)
    (h : backslashes n ++ (front ++ tail) = left ++ rest) (hleft : left.getLast? = some escapeChar)
    (hrest : ¬ AtRun rest) :
    left = backslashes n ∧ rest = front ++ tail ∨
      ∃ y, left = backslashes n ++ (front ++ y) ∧ tail = y ++ rest := by
  rcases List.append_eq_append_iff.mp h with ⟨z, rfl, hback⟩ | ⟨z, hz, rfl⟩
  · rcases List.append_eq_append_iff.mp hback with ⟨y, rfl, rfl⟩ | ⟨y, rfl, rfl⟩
    · exact Or.inr ⟨y, rfl, rfl⟩
    · cases z using List.reverseRecOn with
      | nil => exact Or.inl ⟨List.append_nil _, by simp⟩
      | append_singleton z c =>
        -- a place inside the stretch has no backslash before it
        rw [← List.append_assoc, List.getLast?_concat] at hleft
        exact absurd (by simp [Option.some.inj hleft]) hesc
  · cases z with
    | nil => exact Or.inl ⟨by simp [hz], rfl⟩
    | cons c z =>
      have hc : c = escapeChar := List.eq_of_mem_replicate (n := n) (by
        show c ∈ backslashes n
        rw [hz]
        simp)
      refine absurd ?_ hrest
      intro d hd
      rw [List.cons_append, List.head?_cons, Option.mem_some_iff] at hd
      rw [← hd, hc]

/-- A place is misread in front of a stretch or in what comes behind it. -/
theorem exists_misread_run {front : List Char} (hne : front ≠ []) (hesc : escapeChar ∉ front)
    (n : Nat) {tail : List Char} (htail : AtRun tail) :
    (∃ before rest, backslashes n ++ (front ++ tail) = before.reverse ++ rest ∧
      Misread before rest) ↔
    Misread (backslashes n) (front ++ tail) ∨
      ∃ before rest, tail = before.reverse ++ rest ∧ Misread before rest := by
  have hends : EndsRun (front.reverse ++ backslashes n) :=
    EndsRun.append (by simpa using hne) (by simpa using hesc) _
  have hreverse : (backslashes n).reverse = backslashes n := List.reverse_replicate ..
  constructor
  · rintro ⟨before, rest, hcs, hmis⟩
    have hlast : before.reverse.getLast? = some escapeChar := by
      rw [List.getLast?_reverse, hmis.head?]
    rcases place_cases hesc hcs hlast hmis.not_atRun with ⟨hleft, rfl⟩ | ⟨y, hleft, rfl⟩
    · rw [← hreverse, List.reverse_inj] at hleft
      exact Or.inl (hleft ▸ hmis)
    · have hy : y.reverse ≠ [] := by
        intro hnil
        rw [List.reverse_eq_nil_iff.mp hnil] at htail
        exact hmis.not_atRun htail
      obtain rfl : before = y.reverse ++ (front.reverse ++ backslashes n) := by
        rw [← List.reverse_reverse before, hleft]
        simp [hreverse]
      exact Or.inr ⟨y.reverse, rest, by simp, (misread_append_iff hy hends).mp hmis⟩
  · rintro (hmis | ⟨before, rest, rfl, hmis⟩)
    · exact ⟨backslashes n, front ++ tail, by rw [hreverse], hmis⟩
    · have hbefore : before ≠ [] := by
        rintro rfl
        exact hmis.not_atRun htail
      exact ⟨before ++ (front.reverse ++ backslashes n), rest, by simp [hreverse],
        (misread_append_iff hbefore hends).mpr hmis⟩

/-! ## Counting what a run loses -/

theorem escapedBy_backslashes (n : Nat) : escapedBy (backslashes n) = (n % 2 == 1) := by
  induction n with
  | zero => rfl
  | succ n ih =>
    rw [backslashes_succ, escapedBy_escapeChar, ih]
    rcases Nat.mod_two_eq_zero_or_one n with h | h <;> simp [h, Nat.add_mod]

open Classical in
theorem two_le_countP_iff {p : Token → Prop} :
    2 ≤ Token.table.countP (fun t => p t) ↔
      ∃ t ∈ Token.table, ∃ u ∈ Token.table, t ≠ u ∧ p t ∧ p u := by
  rw [List.countP_eq_length_filter]
  have hnodup : (Token.table.filter fun t => decide (p t)).Nodup := Token.nodup_table.filter _
  constructor
  · intro hlen
    match hfilter : Token.table.filter fun t => decide (p t) with
    | [] => rw [hfilter] at hlen; simp at hlen
    | [_] => rw [hfilter] at hlen; simp at hlen
    | t :: u :: rest =>
      have hmem : ∀ v, v ∈ t :: u :: rest → v ∈ Token.table ∧ p v := by
        intro v hv
        rw [← hfilter, List.mem_filter] at hv
        exact ⟨hv.1, of_decide_eq_true hv.2⟩
      rw [hfilter, List.nodup_cons] at hnodup
      have hne : t ≠ u := by
        rintro rfl
        exact hnodup.1 (by simp)
      obtain ⟨ht, hpt⟩ := hmem t (by simp)
      obtain ⟨hu, hpu⟩ := hmem u (by simp)
      exact ⟨t, ht, u, hu, hne, hpt, hpu⟩
  · rintro ⟨t, ht, u, hu, hne, hpt, hpu⟩
    have hsub : [t, u] ⊆ Token.table.filter fun t => decide (p t) := by
      simp [List.cons_subset, ht, hu, hpt, hpu]
    have hpair : [t, u].Nodup := by simp [hne]
    exact (hpair.subperm hsub).length_le

section Counting

variable {front rest : List Char} (hne : front ≠ []) (hesc : escapeChar ∉ front)
  (hrest : AtRun rest) (hsame : decodeValue rest = decodeOnce rest)

include hrest in
theorem escapable_iff :
    Escapable front ↔ ['|'] <+: front ∨ Token.atStart? (front ++ rest) ≠ none := by
  have htoken : (∃ t ∈ Token.table, t.chars <+: front) ↔
      Token.atStart? (front ++ rest) ≠ none := by
    rw [Ne, Token.atStart?_eq_none]
    push Not
    constructor
    · rintro ⟨t, ht, hbegin⟩
      exact ⟨t, ht, hbegin.trans (List.prefix_append ..)⟩
    · rintro ⟨t, ht, hbegin⟩
      exact ⟨t, ht, prefix_of_atRun (Token.escapeChar_not_mem_chars ht) hrest hbegin⟩
  rw [Escapable, htoken]

include hne hesc hrest hsame

open Classical in
/-- A run loses one backslash for every token that is shown behind it. -/
theorem lost_eq_countP {done later : List Token} (htable : Token.table = done ++ later) :
    lost front later (unescapeEach done rest) = later.countP fun t => Shows (front ++ rest) t := by
  induction later generalizing done with
  | nil => rfl
  | cons t later ih =>
    have hnext := @ih (done ++ [t]) (by rw [htable]; simp)
    rw [unescapeEach_concat] at hnext
    rw [lost, hnext, List.countP_cons, Nat.add_comm]
    simp only [begins_iff_shows htable hne hesc hrest hsame, decide_eq_true_eq]

open Classical in
theorem lost_table_eq_countP :
    lost front Token.table rest = Token.table.countP fun t => Shows (front ++ rest) t := by
  have htable : Token.table = [] ++ Token.table := (List.nil_append _).symm
  have hcount := lost_eq_countP hne hesc hrest hsame htable
  rw [unescapeEach_nil] at hcount
  exact hcount

theorem lost_pos_iff :
    0 < lost front Token.table rest ↔ ∃ t ∈ Token.table, Shows (front ++ rest) t := by
  rw [lost_table_eq_countP hne hesc hrest hsame, List.countP_pos_iff]
  simp

theorem two_le_lost_iff :
    2 ≤ lost front Token.table rest ↔
      ∃ t ∈ Token.table, ∃ u ∈ Token.table, t ≠ u ∧ Shows (front ++ rest) t ∧
        Shows (front ++ rest) u := by
  rw [lost_table_eq_countP hne hesc hrest hsame]
  exact two_le_countP_iff

theorem misread_backslashes_iff (n : Nat) :
    Misread (backslashes n) (front ++ rest) ↔
      (n ≠ 0 ∧ n % 2 = 0 ∧ 2 ≤ lost front Token.table rest) ∨
        (n % 2 = 1 ∧ 0 < lost front Token.table rest ∧
          Token.atStart? (front ++ rest) = none) := by
  rw [lost_pos_iff hne hesc hrest hsame, two_le_lost_iff hne hesc hrest hsame]
  constructor
  · rintro (⟨hrun, heven, hne', ht, hu, h, h'⟩ | ⟨hodd, ht, h, hnone⟩)
    · have hn : n ≠ 0 := by
        rintro rfl
        simp at hrun
      rw [escapedBy_backslashes] at heven
      have hparity : ¬ n % 2 = 1 := by simpa using heven
      exact Or.inl ⟨hn, by omega, _, ht, _, hu, hne', h, h'⟩
    · rw [escapedBy_backslashes, beq_iff_eq] at hodd
      exact Or.inr ⟨hodd, ⟨_, ht, h⟩, hnone⟩
  · rintro (⟨hn, heven, t, ht, u, hu, hne', h, h'⟩ | ⟨hodd, ⟨t, ht, h⟩, hnone⟩)
    · obtain ⟨m, rfl⟩ := Nat.exists_eq_succ_of_ne_zero hn
      exact .twice rfl (by simp [escapedBy_backslashes, heven]) hne' ht hu h h'
    · exact .unfounded (by simp [escapedBy_backslashes, hodd]) ht h hnone

theorem lost_eq_zero_of_bar (hbar : ['|'] <+: front) : lost front Token.table rest = 0 := by
  obtain ⟨tail, rfl⟩ := hbar
  by_contra hlost
  obtain ⟨t, ht, h⟩ := (lost_pos_iff hne hesc hrest hsame).mp (Nat.pos_of_ne_zero hlost)
  have hmem : '|' ∈ t.chars := List.mem_of_head? (h.head? ht).symm
  exact Token.not_mem_chars ht (by decide) hmem

theorem lost_pos_of_atStart? (h : Token.atStart? (front ++ rest) ≠ none) :
    0 < lost front Token.table rest := by
  obtain ⟨t, ht⟩ := Option.ne_none_iff_exists'.mp h
  obtain ⟨hmem, hbegin⟩ := Token.of_atStart? ht
  exact (lost_pos_iff hne hesc hrest hsame).mpr ⟨t, hmem, .plain hbegin⟩

/-- Where what is behind a stretch is decoded as in one pass, the run before it is halved alike
exactly if it is not misread. -/
theorem halved_alike_iff (n : Nat) :
    (n - lost front Token.table rest - (if ['|'] <+: front then 1 else 0) + 1) / 2 =
        (n - (if Escapable front then 1 else 0) + 1) / 2 ↔
      ¬ Misread (backslashes n) (front ++ rest) := by
  have htwo := lost_le_two front rest
  have hescapable : Escapable front ↔ _ := escapable_iff hrest
  rw [misread_backslashes_iff hne hesc hrest hsame]
  by_cases hbar : ['|'] <+: front
  · have hzero := lost_eq_zero_of_bar hne hesc hrest hsame hbar
    rw [if_pos hbar, if_pos (hescapable.mpr (Or.inl hbar)), hzero]
    simp
  · by_cases hstart : Token.atStart? (front ++ rest) = none
    · have hnot : ¬ Escapable front := by simp [hescapable, hbar, hstart]
      rw [if_neg hbar, if_neg hnot]
      simp only [hstart, and_true]
      omega
    · have hpos := lost_pos_of_atStart? hne hesc hrest hsame hstart
      rw [if_neg hbar, if_pos (hescapable.mpr (Or.inr hstart))]
      simp only [hstart, and_false, or_false]
      omega

end Counting

/-! ## The two readings -/

/-- Decoding a value gives the text of one pass exactly if no place of it is misread. -/
theorem decodeValue_eq_decodeOnce_iff (cs : List Char) :
    decodeValue cs = decodeOnce cs ↔
      ¬ ∃ before rest, cs = before.reverse ++ rest ∧ Misread before rest := by
  induction cs using run_induction with
  | ending n =>
    have hno : ¬ ∃ before rest, backslashes n = before.reverse ++ rest ∧ Misread before rest := by
      rintro ⟨before, rest, hcs, hmis⟩
      refine hmis.not_atRun fun c hc => ?_
      have hmem : c ∈ backslashes n := by
        rw [hcs]
        exact List.mem_append_right _ (List.mem_of_head? hc)
      exact List.eq_of_mem_replicate hmem
    rw [decodeValue_ending, decodeOnce_ending]
    exact iff_of_true rfl hno
  | run n front rest hne hesc hrest ih =>
    have hends := fun tail : List Char => EndsRun.append hne hesc tail
    rw [decodeValue_run hne hesc, decodeOnce_run hne hesc _ hrest,
      backslashes_append_inj (hends _) (hends _), List.append_right_inj,
      exists_misread_run hne hesc n hrest, not_or, ← ih]
    constructor
    · rintro ⟨hcount, hsame⟩
      exact ⟨(halved_alike_iff hne hesc hrest hsame n).mp hcount, hsame⟩
    · rintro ⟨hmis, hsame⟩
      exact ⟨(halved_alike_iff hne hesc hrest hsame n).mpr hmis, hsame⟩

/-- The two readings differ, also on texts without a free bar: an escaped backslash before a token
that begins with another loses both its characters. -/
theorem decodeValue_ne_decodeOnce :
    ¬ ∀ cs : List Char, guards '|' false cs = true → decodeValue cs = decodeOnce cs := by
  intro h
  have hsame := h ['\\', '\\', '=', '=', '*'] (by decide)
  exact absurd hsame (by decide +kernel)

/-- An exclamation mark that becomes a token behind the next escape loses its backslash. -/
example : decodeValue ['\\', '!', '\\', '=', '='] = ['!', '=', '='] ∧
    decodeOnce ['\\', '!', '\\', '=', '='] = ['\\', '!', '=', '='] := by decide +kernel

end FilterTerm

end Criteria

import Criteria.Proofs.Term.Decoding

/-!
# Decoding run by run

A text is a row of runs of backslashes and of stretches without any. Decoding a value changes the
runs alone, and every token whose turn comes takes at most one backslash from a run, namely where it
begins what stands behind the run at that time. At most two tokens begin one text, so a run loses
at most two backslashes before it is halved. A token reaches over the end of a stretch only where
the run behind is used up, and then with an equals sign.
-/

namespace Criteria

namespace Text

/-- A text that is empty or goes on with a backslash. -/
def AtRun (cs : List Char) : Prop := ∀ c ∈ cs.head?, c = escapeChar

theorem exists_stretch {cs : List Char} (h : EndsRun cs) (hne : cs ≠ []) :
    ∃ front rest, cs = front ++ rest ∧ front ≠ [] ∧ escapeChar ∉ front ∧ AtRun rest := by
  refine ⟨cs.takeWhile (· != escapeChar), cs.dropWhile (· != escapeChar),
    List.takeWhile_append_dropWhile.symm, ?_, ?_, ?_⟩
  · cases cs with
    | nil => exact absurd rfl hne
    | cons c rest =>
      have hc : c ≠ escapeChar := by simpa [EndsRun] using h
      simp [hc]
  · intro hmem
    have hall := List.all_takeWhile (p := (· != escapeChar)) (l := cs)
    simpa using List.all_eq_true.mp hall _ hmem
  · intro c hc
    have hnot := List.head?_dropWhile_not (· != escapeChar) cs
    rw [Option.mem_def.mp hc] at hnot
    simpa using hnot

/-- A text is read from the left, one run of backslashes with the stretch behind it at a time. -/
theorem run_induction {motive : List Char → Prop} (ending : ∀ n, motive (backslashes n))
    (run : ∀ n front rest, front ≠ [] → escapeChar ∉ front → AtRun rest → motive rest →
      motive (backslashes n ++ (front ++ rest))) (cs : List Char) : motive cs := by
  induction hlen : cs.length using Nat.strongRecOn generalizing cs with
  | ind len ih =>
    obtain ⟨n, tail, rfl, hends⟩ := exists_backslashes cs
    by_cases htail : tail = []
    · subst htail
      simpa using ending n
    · obtain ⟨front, rest, rfl, hne, hesc, hrest⟩ := exists_stretch hends htail
      have hpos : 0 < front.length := List.length_pos_iff.mpr hne
      have hlt : rest.length < len := by
        rw [List.length_append, List.length_append] at hlen
        omega
      exact run n front rest hne hesc hrest (ih rest.length hlt rest rfl)

/-- What has no backslash does not reach over the end of a stretch. -/
theorem prefix_of_atRun {t front rest : List Char} (ht : escapeChar ∉ t) (hrest : AtRun rest)
    (h : t <+: front ++ rest) : t <+: front := by
  refine prefix_of_prefix_append h ?_
  intro c hc
  rw [hrest c hc]
  exact ht

theorem backslashes_append_inj {m n : Nat} {cs ds : List Char} (hc : EndsRun cs) (hd : EndsRun ds) :
    backslashes m ++ cs = backslashes n ++ ds ↔ m = n ∧ cs = ds := by
  constructor
  · intro h
    have hlen : ∀ (k : Nat) {es : List Char}, EndsRun es →
        ((backslashes k ++ es).takeWhile (· == escapeChar)).length = k := by
      intro k es hes
      have hall : ∀ c ∈ backslashes k, (c == escapeChar) = true := by
        intro c hc
        simp [List.eq_of_mem_replicate hc]
      rw [List.takeWhile_append_of_pos hall]
      have hnil : es.takeWhile (· == escapeChar) = [] := by
        cases es with
        | nil => rfl
        | cons c rest =>
          have hc : c ≠ escapeChar := by simpa [EndsRun] using hes
          simp [hc]
      simp [hnil, backslashes]
    have hmn : m = n := by
      rw [← hlen m hc, h, hlen n hd]
    subst hmn
    exact ⟨rfl, List.append_cancel_left h⟩
  · rintro ⟨rfl, rfl⟩
    rfl

end Text

open Text

namespace Token

/-- Whether a token is tried before another. -/
def Before (u t : Token) : Prop := table.idxOf u < table.idxOf t

instance : DecidableRel Before := fun u t =>
  inferInstanceAs (Decidable (table.idxOf u < table.idxOf t))

theorem nodup_table : table.Nodup := by decide +kernel

/-- What a token goes on with behind its first characters begins no token that is tried before it,
but for the equals sign. -/
theorem drop_of_before : ∀ t ∈ table, ∀ u ∈ table, u.Before t → ∀ i < t.chars.length, 0 < i →
    (t.chars.drop i <+: u.chars ∨ u.chars <+: t.chars.drop i) → t.chars.drop i = ['='] := by
  decide +kernel

/-- Between two equals signs at its ends no token holds another. -/
theorem not_prefix_dropLast : ∀ u ∈ table, ['='] <+: u.chars → u.chars.getLast? = some '=' →
    ∀ t ∈ table, ¬ t.chars <+: u.chars.dropLast := by decide +kernel

theorem before_iff {done later : List Token} {t : Token} (h : table = done ++ t :: later)
    (u : Token) : u.Before t ↔ u ∈ done := by
  have hnodup := nodup_table
  rw [h, List.nodup_append] at hnodup
  have ht : t ∉ done := fun hmem => hnodup.2.2 t hmem t (by simp) rfl
  rw [Before, h, List.idxOf_append, List.idxOf_append, if_neg ht, List.idxOf_cons_self]
  constructor
  · intro hlt
    by_contra hu
    rw [if_neg hu] at hlt
    omega
  · intro hu
    rw [if_pos hu]
    have hlt := List.idxOf_lt_length_of_mem hu
    omega

/-- At most two tokens begin one text. -/
theorem countP_begin_le (cs : List Char) : table.countP (·.chars.isPrefixOf cs) ≤ 2 := by
  cases hstart : atStart? cs with
  | none =>
    have hzero : table.countP (·.chars.isPrefixOf cs) = 0 := by
      refine List.countP_eq_zero.mpr fun t ht hbegin => ?_
      exact atStart?_eq_none.mp hstart t ht (List.isPrefixOf_iff_prefix.mp hbegin)
    omega
  | some u =>
    have hu := countP_prefix u (of_atStart? hstart).1
    refine Nat.le_trans (List.countP_mono_left ?_) hu.2
    intro t ht hbegin
    rw [List.isPrefixOf_iff_prefix] at hbegin ⊢
    exact prefix_of_atStart? hstart ht hbegin

end Token

namespace FilterTerm

/-! ## What a run loses -/

/-- How many backslashes a long run before `front` loses to some tokens, one after the other; behind
`front` the text goes on with `rest`. -/
def lost (front : List Char) : List Token → List Char → Nat
  | [], _ => 0
  | t :: ts, rest =>
    (if t.chars <+: front ++ rest then 1 else 0) + lost front ts (unescape t.chars rest)

theorem unescapeEach_cons (t : Token) (ts : List Token) (cs : List Char) :
    unescapeEach (t :: ts) cs = unescapeEach ts (unescape t.chars cs) := rfl

theorem unescapeEach_append (ts us : List Token) (cs : List Char) :
    unescapeEach (ts ++ us) cs = unescapeEach us (unescapeEach ts cs) := List.foldl_append

theorem unescapeEach_nil (cs : List Char) : unescapeEach [] cs = cs := rfl

theorem unescapeEach_run {front : List Char} (hesc : escapeChar ∉ front) {ts : List Token}
    (hts : ts ⊆ Token.table) (n : Nat) (rest : List Char) :
    unescapeEach ts (backslashes n ++ (front ++ rest)) =
      backslashes (n - lost front ts rest) ++ (front ++ unescapeEach ts rest) := by
  induction ts generalizing n rest with
  | nil => rfl
  | cons t ts ih =>
    rw [List.cons_subset] at hts
    have hesct := Token.escapeChar_not_mem_chars hts.1
    rw [unescapeEach_cons, unescape_backslashes hesct (Token.chars_ne_nil t hts.1),
      unescape_append hesc, ih hts.2, lost, Nat.sub_sub, unescapeEach_cons]

/-- What begins a text without a backslash begins it at all later stages. -/
theorem prefix_unescapeEach {u cs : List Char} (hu : escapeChar ∉ u) (h : u <+: cs)
    (ts : List Token) : u <+: unescapeEach ts cs := by
  induction ts generalizing cs with
  | nil => exact h
  | cons t ts ih =>
    obtain ⟨back, rfl⟩ := h
    rw [unescapeEach_cons, unescape_append hu]
    exact ih (List.prefix_append ..)

theorem begins_unescapeEach {u front rest : List Char} (hu : escapeChar ∉ u)
    (h : u <+: front ++ rest) (ts : List Token) : u <+: front ++ unescapeEach ts rest := by
  rcases List.prefix_or_prefix_of_prefix h (List.prefix_append front rest) with hf | ⟨z, rfl⟩
  · exact hf.trans (List.prefix_append ..)
  · rw [List.prefix_append_right_inj] at h ⊢
    exact prefix_unescapeEach (fun hz => hu (List.mem_append_right front hz)) h ts

theorem lost_append (front : List Char) (ts us : List Token) (rest : List Char) :
    lost front (ts ++ us) rest =
      lost front ts rest + lost front us (unescapeEach ts rest) := by
  induction ts generalizing rest with
  | nil => exact (Nat.zero_add _).symm
  | cons t ts ih => rw [List.cons_append, lost, lost, ih, unescapeEach_cons, Nat.add_assoc]

/-- Every token that takes a backslash from a run begins what stands behind it in the end. -/
theorem lost_le_countP (front : List Char) {ts : List Token} (hts : ts ⊆ Token.table)
    (rest : List Char) :
    lost front ts rest ≤ ts.countP (·.chars.isPrefixOf (front ++ unescapeEach ts rest)) := by
  induction ts generalizing rest with
  | nil => exact Nat.le_refl 0
  | cons t ts ih =>
    rw [List.cons_subset] at hts
    have hrest := ih hts.2 (unescape t.chars rest)
    rw [lost, unescapeEach_cons, List.countP_cons]
    by_cases hbegin : t.chars <+: front ++ rest
    · have hend := begins_unescapeEach (Token.escapeChar_not_mem_chars hts.1) hbegin (t :: ts)
      rw [unescapeEach_cons, ← List.isPrefixOf_iff_prefix] at hend
      rw [if_pos hbegin, if_pos hend]
      omega
    · rw [if_neg hbegin]
      omega

theorem lost_le_two (front rest : List Char) : lost front Token.table rest ≤ 2 :=
  Nat.le_trans (lost_le_countP front (List.Subset.refl _) rest) (Token.countP_begin_le _)

theorem exists_of_lost_pos {front : List Char} {ts : List Token} {rest : List Char}
    (h : 0 < lost front ts rest) :
    ∃ done u later, ts = done ++ u :: later ∧ u.chars <+: front ++ unescapeEach done rest := by
  induction ts generalizing rest with
  | nil => exact absurd h (Nat.lt_irrefl 0)
  | cons t ts ih =>
    by_cases hbegin : t.chars <+: front ++ rest
    · exact ⟨[], t, ts, rfl, hbegin⟩
    · rw [lost, if_neg hbegin, Nat.zero_add] at h
      obtain ⟨done, u, later, rfl, hu⟩ := ih h
      exact ⟨t :: done, u, later, rfl, hu⟩

/-- Decoding takes the lost backslashes and the one before a bar from a run and halves the rest. -/
theorem decodeValue_run {front : List Char} (hne : front ≠ []) (hesc : escapeChar ∉ front) (n : Nat)
    (rest : List Char) :
    decodeValue (backslashes n ++ (front ++ rest)) =
      backslashes ((n - lost front Token.table rest - (if ['|'] <+: front then 1 else 0) + 1) / 2) ++
        (front ++ decodeValue rest) := by
  have hbar : ∀ tail : List Char, ['|'] <+: front ++ tail ↔ ['|'] <+: front := by
    intro tail
    cases front with
    | nil => exact absurd rfl hne
    | cons c cs => rw [List.cons_append, List.singleton_prefix_cons_iff, List.singleton_prefix_cons_iff]
  show unescapeBars (unescapeEach Token.table (backslashes n ++ (front ++ rest))) = _
  rw [unescapeEach_run hesc (List.Subset.refl _),
    unescapeBars_backslashes _ (EndsRun.append hne hesc _), unescapeBars_append hesc]
  simp only [hbar]
  rfl

theorem decodeValue_ending (n : Nat) :
    decodeValue (backslashes n) = backslashes ((n + 1) / 2) := by
  show unescapeBars (unescapeEach Token.table (backslashes n)) = _
  have hbars := unescapeBars_backslashes n EndsRun.nil
  rw [List.append_nil] at hbars
  rw [unescapeEach_backslashes_end n (List.prefix_refl _), hbars]
  exact List.append_nil _

/-! ## Over the end of a stretch -/

/-- A token that reaches over the end of a stretch when its turn comes reaches over it with an equals
sign; the run there has been used up by a token before it. -/
theorem reaching {done later : List Token} {t : Token} (htable : Token.table = done ++ t :: later)
    {front rest : List Char} (hne : front ≠ []) (hrest : AtRun rest)
    (hbegin : t.chars <+: front ++ unescapeEach done rest) (hover : ¬ t.chars <+: front) :
    t.chars = front ++ ['='] ∧
      ∃ n stretch back, rest = backslashes (n + 1) ++ (stretch ++ back) ∧ stretch ≠ [] ∧
        escapeChar ∉ stretch ∧ AtRun back ∧ ['='] <+: stretch ∧ n + 1 ≤ lost stretch done back := by
  have ht : t ∈ Token.table := by rw [htable]; simp
  have hdone : done <+: Token.table := by rw [htable]; exact List.prefix_append ..
  obtain ⟨z, hz⟩ : front <+: t.chars := by
    rcases List.prefix_or_prefix_of_prefix hbegin (List.prefix_append front _) with h | h
    · exact absurd h hover
    · exact h
  have hzne : z ≠ [] := by
    rintro rfl
    rw [List.append_nil] at hz
    exact hover (hz ▸ List.prefix_refl _)
  have hescz : escapeChar ∉ z := by
    intro hmem
    have hesct := Token.escapeChar_not_mem_chars ht
    rw [← hz] at hesct
    exact hesct (List.mem_append_right front hmem)
  have hgone : ∀ (k : Nat) (tail : List Char), z <+: backslashes k ++ tail → k = 0 := by
    intro k tail hk
    cases k with
    | zero => rfl
    | succ k =>
      cases z with
      | nil => exact absurd rfl hzne
      | cons c z =>
        rw [backslashes_succ, List.cons_append, List.cons_prefix_cons] at hk
        exact absurd (by simp [hk.1]) hescz
  rw [← hz, List.prefix_append_right_inj] at hbegin
  cases rest using run_induction with
  | ending n =>
    rw [unescapeEach_backslashes_end n hdone] at hbegin
    have hn := hgone n [] (by simpa using hbegin)
    subst hn
    exact absurd (List.prefix_nil.mp hbegin) hzne
  | run m stretch back hs hescs hback _ =>
    rw [unescapeEach_run hescs hdone.subset] at hbegin
    have hused := hgone _ _ hbegin
    rw [hused, backslashes_zero, List.nil_append] at hbegin
    obtain ⟨n, rfl⟩ : ∃ n, m = n + 1 := by
      cases m with
      | zero =>
        obtain ⟨c, cs, rfl⟩ := List.exists_cons_of_ne_nil hs
        exact absurd (by simp [hrest c rfl]) hescs
      | succ n => exact ⟨n, rfl⟩
    have hlost : n + 1 ≤ lost stretch done back := by omega
    -- the token that came first begins the same text as what reaches over the stretch
    obtain ⟨before, u, behind, rfl, hu⟩ := exists_of_lost_pos (Nat.lt_of_lt_of_le n.succ_pos hlost)
    have hmem : u ∈ Token.table := hdone.subset (by simp)
    have hend := begins_unescapeEach (Token.escapeChar_not_mem_chars hmem) hu (u :: behind)
    rw [← unescapeEach_append] at hend
    have hlen : front.length < t.chars.length := by
      have hpos := List.length_pos_iff.mpr hzne
      rw [← hz, List.length_append]
      omega
    have hdrop : t.chars.drop front.length = z := by rw [← hz, List.drop_left]
    have hequals := Token.drop_of_before t ht u hmem
      ((Token.before_iff htable u).mpr (by simp)) front.length hlen (List.length_pos_iff.mpr hne)
    rw [hdrop] at hequals
    have hzeq := hequals (List.prefix_or_prefix_of_prefix hbegin hend)
    refine ⟨by rw [← hz, hzeq], n, stretch, back, rfl, hs, hescs, hback, ?_, hlost⟩
    rw [hzeq] at hbegin
    obtain ⟨c, cs, rfl⟩ := List.exists_cons_of_ne_nil hs
    rw [List.cons_append, List.singleton_prefix_cons_iff] at hbegin
    exact List.singleton_prefix_cons_iff.mpr hbegin

end FilterTerm

end Criteria

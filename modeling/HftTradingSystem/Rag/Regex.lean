import HftTradingSystem.Text

/-!
# Python's backtracking regular expressions

`extract_code_docs` scans the key C++ headers with `re.finditer` and three patterns. Python's
engine tries the ways a pattern can match in a fixed order, a greedy repetition taking as many
characters as it can first and a lazy one as few, and backtracks into the last choice when the
rest of the pattern fails. A pattern here is that search in continuation-passing style: given
the groups captured so far, the text still to match and the rest of the pattern, it returns the
first outcome for which the rest succeeds. Every repetition in these patterns is of one
character class, so each recurses on the text.

Each combinator has one lemma that says when it succeeds, as a decomposition of the text; the
patterns of `extract_code_docs` are characterised from these alone. `re.finditer` tries the
pattern at each position in turn and goes on at the end of each match: what it reports is the
left-to-right scan for leftmost matches, `LeftmostScan`.
-/

namespace HftTradingSystem

namespace Rag

/-- The rest of a pattern: from the groups captured so far and the text after the part matched
so far, the groups and the text after the whole match, if it succeeds. -/
abbrev Cont : Type := List (List Char) → List Char → Option (List (List Char) × List Char)

/-- A pattern: given the groups so far, the text, and the rest of the pattern, the first way it
matches for which the rest succeeds. -/
abbrev Pattern : Type :=
  List (List Char) → List Char → Cont → Option (List (List Char) × List Char)

/-- The end of a pattern: the match succeeds with what it has captured. -/
def done : Cont := fun groups rest => some (groups, rest)

/-- A literal text. -/
def lit : List Char → Pattern
  | [], groups, s, k => k groups s
  | _ :: _, _, [], _ => none
  | c :: w, groups, d :: s, k => if c = d then lit w groups s k else none

/-- A greedy repetition of a class, `[…]*`: it takes every character of the class it can, then
gives them back one at a time while the rest of the pattern fails. -/
def star (p : Char → Bool) : Pattern
  | groups, [], k => k groups []
  | groups, c :: s, k =>
    if p c then (star p groups s k).or (k groups (c :: s)) else k groups (c :: s)

/-- `[…]+`. -/
def plus (p : Char → Bool) : Pattern
  | _, [], _ => none
  | groups, c :: s, k => if p c then star p groups s k else none

/-- A lazy repetition of a class, `[…]*?`: it tries the rest of the pattern first, and takes one
more character of the class each time the rest fails. -/
def lazyStar (p : Char → Bool) : Pattern
  | groups, [], k => k groups []
  | groups, c :: s, k => (k groups (c :: s)).or (if p c then lazyStar p groups s k else none)

/-- `a|b`: the first alternative, then the second. -/
def alt (a b : Pattern) : Pattern := fun groups s k => (a groups s k).or (b groups s k)

/-- A greedy `(?:a)?`: with `a` first, then without it. -/
def opt (a : Pattern) : Pattern := fun groups s k => (a groups s k).or (k groups s)

/-- A capturing group `(a)`: the text `a` matched becomes the next group. The groups of these
patterns do not nest, so they close in the order Python numbers them. -/
def group (a : Pattern) : Pattern := fun groups s k =>
  a groups s fun groups' rest => k (groups' ++ [s.take (s.length - rest.length)]) rest

/-- Patterns one after the other. -/
def cat : List Pattern → Pattern
  | [] => fun groups s k => k groups s
  | a :: as => fun groups s k => a groups s fun groups' s' => cat as groups' s' k

/-- `pattern.match(s)`: the groups of the first way the pattern matches at the start of `s`, and
the text after that match. -/
def matchAt (pat : Pattern) (s : List Char) : Option (List (List Char) × List Char) :=
  pat [] s done

/-- A match object of `re.finditer`: the text it matched, and its groups. -/
structure Match where
  text : List Char
  groups : List (List Char)
  deriving DecidableEq, Repr

/-- `match.group(i)`, for a group the pattern has: `group(0)` is the whole match. -/
def Match.group (m : Match) (i : ℕ) : List Char :=
  if i = 0 then m.text else m.groups.getD (i - 1) []

/-- The scan of `re.finditer` with `fuel` steps left: where the pattern matches, the match, after
which the scan goes on at its end, and otherwise the next position. The patterns of
`extract_code_docs` never match the empty text, so Python's rule for the position after an
empty match does not arise, and the fuel `finditer` gives never runs out (`findIter_of_lt`). -/
def findIter (pat : Pattern) : ℕ → List Char → List Match
  | 0, _ => []
  | fuel + 1, s =>
    match matchAt pat s with
    | some (groups, rest) => ⟨s.take (s.length - rest.length), groups⟩ :: findIter pat fuel rest
    | none => if s = [] then [] else findIter pat fuel s.tail

/-- `re.finditer(pattern, s)`. -/
def finditer (pat : Pattern) (s : List Char) : List Match := findIter pat (s.length + 1) s

/-! ## Maximal runs of a class -/

section Runs

variable {p : Char → Bool}

/-- A run of the class that the next character does not continue is all of
`takeWhile`/`dropWhile`. -/
theorem dropWhile_append_of_stop {w s : List Char} (hw : ∀ c ∈ w, p c)
    (hs : ∀ c ∈ s.head?, p c = false) : (w ++ s).dropWhile p = s := by
  rw [List.dropWhile_append_of_pos hw]
  cases s with
  | nil => rfl
  | cons c s => simp [List.dropWhile_cons, hs c rfl]

/-- A text splits in one way only into a maximal run of a class and the rest. -/
theorem eq_of_append_eq_append_of_stop {w₁ w₂ s₁ s₂ : List Char} (h : w₁ ++ s₁ = w₂ ++ s₂)
    (hw₁ : ∀ c ∈ w₁, p c) (hw₂ : ∀ c ∈ w₂, p c) (hs₁ : ∀ c ∈ s₁.head?, p c = false)
    (hs₂ : ∀ c ∈ s₂.head?, p c = false) : w₁ = w₂ ∧ s₁ = s₂ := by
  have hs : s₁ = s₂ := by
    rw [← dropWhile_append_of_stop hw₁ hs₁, h, dropWhile_append_of_stop hw₂ hs₂]
  exact ⟨List.append_cancel_right (hs ▸ h), hs⟩

end Runs

/-! ## When each combinator succeeds -/

section Combinators

variable {p : Char → Bool} {groups : List (List Char)} {k : Cont}
  {r : List (List Char) × List Char}

/-- The text a group captures, as `group` computes it from the text before and after. -/
@[simp]
theorem take_length_sub_length (w s : List Char) :
    (w ++ s).take ((w ++ s).length - s.length) = w := by
  rw [List.length_append, Nat.add_sub_cancel, List.take_left' rfl]

theorem lit_eq_some : ∀ {w s : List Char},
    lit w groups s k = some r ↔ ∃ s', s = w ++ s' ∧ k groups s' = some r
  | [], s => by simp [lit]
  | _ :: _, [] => by simp [lit]
  | c :: w, d :: s => by
    by_cases hcd : c = d
    · subst hcd
      simpa [lit] using lit_eq_some (w := w) (s := s)
    · simp [lit, hcd, Ne.symm hcd]

/-- The rest of the pattern fails on every text that starts with a character of the class: a
repetition of the class before it must take the whole run. -/
def Rejects (p : Char → Bool) (k : Cont) : Prop :=
  ∀ groups c s, p c → k groups (c :: s) = none

theorem star_of_rejects (hk : Rejects p k) :
    ∀ s : List Char, star p groups s k = k groups (s.dropWhile p)
  | [] => rfl
  | c :: s => by
    by_cases hc : p c
    · simp [star, hc, star_of_rejects hk s, hk groups c s hc]
    · simp [star, hc]

/-- Before a continuation that rejects the class, `[…]*` takes a maximal run. -/
theorem star_eq_some (hk : Rejects p k) {s : List Char} :
    star p groups s k = some r ↔ ∃ w s', s = w ++ s' ∧ (∀ c ∈ w, p c) ∧ k groups s' = some r := by
  rw [star_of_rejects hk]
  constructor
  · exact fun h => ⟨_, _, (List.takeWhile_append_dropWhile p s).symm,
      fun c hc => List.mem_takeWhile_imp hc, h⟩
  · rintro ⟨w, s', rfl, hw, hr⟩
    have hstop : ∀ c ∈ s'.head?, p c = false := by
      cases s' with
      | nil => simp
      | cons c t =>
        simp only [List.head?_cons, Option.mem_def, Option.some.injEq, forall_eq']
        by_contra hc
        simp [hk groups c t (by simpa using hc)] at hr
    rwa [dropWhile_append_of_stop hw hstop]

theorem plus_eq_some (hk : Rejects p k) {s : List Char} :
    plus p groups s k = some r ↔
      ∃ w s', s = w ++ s' ∧ w ≠ [] ∧ (∀ c ∈ w, p c) ∧ k groups s' = some r := by
  cases s with
  | nil => simp [plus]
  | cons c s =>
    by_cases hc : p c
    · simp only [plus, hc, if_true, star_eq_some hk]
      constructor
      · rintro ⟨w, s', rfl, hw, hr⟩
        exact ⟨c :: w, s', rfl, List.cons_ne_nil _ _, List.forall_mem_cons.2 ⟨hc, hw⟩, hr⟩
      · rintro ⟨_ | ⟨d, w⟩, s', hs, hne, hw, hr⟩
        · exact absurd rfl hne
        · obtain ⟨rfl, rfl⟩ := List.cons_eq_cons.1 hs
          exact ⟨w, s', rfl, fun c hc => hw c (List.mem_cons_of_mem _ hc), hr⟩
    · simp only [plus, hc]
      constructor
      · intro h
        cases h
      · rintro ⟨_ | ⟨d, w⟩, s', hs, hne, hw, -⟩
        · exact absurd rfl hne
        · obtain ⟨rfl, -⟩ := List.cons_eq_cons.1 hs
          exact absurd (hw _ (List.mem_cons_self _ _)) hc

/-- A group around `[…]+`, before a continuation that rejects the class, captures a maximal
nonempty run. -/
theorem group_plus_eq_some (hk : Rejects p k) {s : List Char} :
    group (plus p) groups s k = some r ↔
      ∃ w s', s = w ++ s' ∧ w ≠ [] ∧ (∀ c ∈ w, p c) ∧ k (groups ++ [w]) s' = some r := by
  have hk' : Rejects p fun groups' rest => k (groups' ++ [s.take (s.length - rest.length)]) rest :=
    fun groups' c t hc => hk _ c t hc
  rw [group, plus_eq_some hk']
  constructor
  · rintro ⟨w, s', rfl, hne, hw, hr⟩
    exact ⟨w, s', rfl, hne, hw, by rwa [take_length_sub_length] at hr⟩
  · rintro ⟨w, s', rfl, hne, hw, hr⟩
    exact ⟨w, s', rfl, hne, hw, by rwa [take_length_sub_length]⟩

/-- Before a continuation that always succeeds, `[…]*` takes the whole run. -/
theorem star_of_isSome (hk : ∀ groups s, (k groups s).isSome) :
    ∀ s : List Char, star p groups s k = k groups (s.dropWhile p)
  | [] => rfl
  | c :: s => by
    by_cases hc : p c
    · obtain ⟨r', hr'⟩ := Option.isSome_iff_exists.1 (hk groups (s.dropWhile p))
      simp [star, hc, star_of_isSome hk s, hr']
    · simp [star, hc]

/-- A group around `[…]+` that ends the pattern captures the whole run. -/
theorem group_plus_done {s : List Char} :
    group (plus p) groups s done = some r ↔
      ∃ w s', s = w ++ s' ∧ w ≠ [] ∧ (∀ c ∈ w, p c) ∧ (∀ c ∈ s'.head?, p c = false) ∧
        r = (groups ++ [w], s') := by
  cases s with
  | nil => simp [group, plus]
  | cons c s =>
    have hsplit := List.takeWhile_append_dropWhile p s
    have hstop : ∀ d ∈ (s.dropWhile p).head?, p d = false := by
      intro d hd
      have hne : s.dropWhile p ≠ [] := fun h => by simp [h] at hd
      rw [List.head?_eq_head hne, Option.mem_def, Option.some.injEq] at hd
      subst hd
      simpa using List.head_dropWhile_not p s hne
    by_cases hc : p c
    · have hrun : ∀ d ∈ c :: s.takeWhile p, p d :=
        List.forall_mem_cons.2 ⟨hc, fun d hd => List.mem_takeWhile_imp hd⟩
      have htake : (c :: s).take ((c :: s).length - (s.dropWhile p).length) = c :: s.takeWhile p := by
        have := take_length_sub_length (c :: s.takeWhile p) (s.dropWhile p)
        rwa [List.cons_append, hsplit] at this
      rw [group, plus, if_pos hc, star_of_isSome, htake]
      swap
      · exact fun _ _ => rfl
      constructor
      · rintro ⟨⟩
        exact ⟨_, _, by rw [List.cons_append, hsplit], List.cons_ne_nil _ _, hrun, hstop, rfl⟩
      · rintro ⟨w, s', hs, -, hw, hs', rfl⟩
        obtain ⟨rfl, rfl⟩ := eq_of_append_eq_append_of_stop
          ((congrArg (c :: ·) hsplit).trans hs) hrun hw hstop hs'
        rfl
    · rw [group, plus, if_neg hc]
      constructor
      · intro h
        cases h
      · rintro ⟨_ | ⟨d, w⟩, s', hs, hne, hw, -⟩
        · exact absurd rfl hne
        · obtain ⟨rfl, -⟩ := List.cons_eq_cons.1 (hs.trans (List.cons_append _ _ _))
          exact absurd (hw _ (List.mem_cons_self _ _)) hc

/-- Whatever continuation follows it, what `[…]*` succeeds with splits the text into a run of the
class and a text the continuation succeeds on. -/
theorem star_sound : ∀ {s : List Char}, star p groups s k = some r →
    ∃ w s', s = w ++ s' ∧ (∀ c ∈ w, p c) ∧ k groups s' = some r
  | [], h => ⟨[], [], rfl, by simp, h⟩
  | c :: s, h => by
    by_cases hc : p c
    · rw [star, if_pos hc, Option.or_eq_some] at h
      rcases h with h | ⟨-, h⟩
      · obtain ⟨w, s', rfl, hw, hr⟩ := star_sound h
        exact ⟨c :: w, s', rfl, List.forall_mem_cons.2 ⟨hc, hw⟩, hr⟩
      · exact ⟨[], c :: s, rfl, by simp, h⟩
    · rw [star, if_neg hc] at h
      exact ⟨[], c :: s, rfl, by simp, h⟩

/-- When every split the continuation accepts gives the same outcome, `[…]*` gives it, however far
it has to backtrack. -/
theorem star_eq_some_of_unique : ∀ {s : List Char},
    (∃ w s', s = w ++ s' ∧ (∀ c ∈ w, p c) ∧ k groups s' = some r) →
    (∀ w s' r', s = w ++ s' → (∀ c ∈ w, p c) → k groups s' = some r' → r' = r) →
    star p groups s k = some r
  | [], ⟨w, s', hs, _, hr⟩, _ => by
    obtain ⟨rfl, rfl⟩ := List.append_eq_nil.1 hs.symm
    exact hr
  | c :: s, ⟨w, s', hs, hw, hr⟩, huniq => by
    have hnil : w = [] → k groups (c :: s) = some r := by
      rintro rfl
      exact hs ▸ hr
    by_cases hc : p c
    · rw [star, if_pos hc]
      cases htail : star p groups s k with
      | some r'' =>
        obtain ⟨w', s'', rfl, hw', hr''⟩ := star_sound htail
        rw [huniq (c :: w') s'' r'' rfl (List.forall_mem_cons.2 ⟨hc, hw'⟩) hr'']
        rfl
      | none =>
        rcases w with _ | ⟨d, w⟩
        · exact hnil rfl
        · obtain ⟨hcd, rfl⟩ := List.cons_eq_cons.1 (hs.trans (List.cons_append _ _ _))
          subst hcd
          rw [star_eq_some_of_unique ⟨w, s', rfl, fun c hc => hw c (List.mem_cons_of_mem _ hc), hr⟩
            fun w'' s'' r' hs'' hw'' hr' => huniq (c :: w'') s'' r' (by rw [hs'']; rfl)
              (List.forall_mem_cons.2 ⟨hc, hw''⟩) hr'] at htail
          cases htail
    · rw [star, if_neg hc]
      rcases w with _ | ⟨d, w⟩
      · exact hnil rfl
      · obtain ⟨rfl, -⟩ := List.cons_eq_cons.1 hs
        exact absurd (hw _ (List.mem_cons_self _ _)) hc

/-- `[…]*?` succeeds at the first position, from its own on, where the continuation does. -/
theorem lazyStar_eq_some : ∀ {s : List Char},
    lazyStar p groups s k = some r ↔
      ∃ w s', s = w ++ s' ∧ (∀ c ∈ w, p c) ∧ k groups s' = some r ∧
        ∀ w₁ w₂, w = w₁ ++ w₂ → w₂ ≠ [] → k groups (w₂ ++ s') = none
  | [] => by
    constructor
    · exact fun h => ⟨[], [], rfl, by simp, h, by simp⟩
    · rintro ⟨w, s', hs, -, hr, -⟩
      obtain ⟨rfl, rfl⟩ := List.append_eq_nil.1 hs.symm
      exact hr
  | c :: s => by
    rw [lazyStar, Option.or_eq_some]
    constructor
    · rintro (hr | ⟨hnone, hr⟩)
      · exact ⟨[], c :: s, rfl, by simp, hr, fun w₁ w₂ h hne => by simp_all⟩
      · split_ifs at hr with hc
        obtain ⟨w, s', rfl, hw, hr, hfirst⟩ := lazyStar_eq_some.1 hr
        refine ⟨c :: w, s', rfl, List.forall_mem_cons.2 ⟨hc, hw⟩, hr, ?_⟩
        rintro (_ | ⟨d, w₁⟩) w₂ h hne
        · rw [List.nil_append] at h
          rwa [← h]
        · obtain ⟨-, rfl⟩ := List.cons_eq_cons.1 h
          exact hfirst w₁ w₂ rfl hne
    · rintro ⟨_ | ⟨d, w⟩, s', hs, hw, hr, hfirst⟩
      · exact .inl (hs ▸ hr)
      · obtain ⟨hcd, rfl⟩ := List.cons_eq_cons.1 (hs.trans (List.cons_append _ _ _))
        subst hcd
        refine .inr ⟨hfirst [] (c :: w) rfl (List.cons_ne_nil _ _), ?_⟩
        rw [if_pos (hw c (List.mem_cons_self _ _))]
        exact lazyStar_eq_some.2 ⟨w, s', rfl, fun d hd => hw d (List.mem_cons_of_mem _ hd), hr,
          fun w₁ w₂ h hne => hfirst (c :: w₁) w₂ (by rw [h]; rfl) hne⟩

end Combinators

/-! ## The scan of `re.finditer` -/

/-- Every match of the pattern takes a nonempty prefix of the text. -/
def Consumes (pat : Pattern) : Prop :=
  ∀ s groups rest, matchAt pat s = some (groups, rest) → ∃ m, m ≠ [] ∧ s = m ++ rest

/-- The matches a left-to-right scan for `M` finds: at each position the match `M` gives there,
if any, after which the scan goes on at its end, and otherwise the next position. A judgment
about the scan, not another scanner. -/
inductive LeftmostScan (M : List Char → List (List Char) → List Char → Prop) :
    List Char → List Match → Prop
  | nil : (∀ groups rest, ¬ M [] groups rest) → LeftmostScan M [] []
  | skip {c : Char} {s : List Char} {ms : List Match} :
      (∀ groups rest, ¬ M (c :: s) groups rest) → LeftmostScan M s ms →
        LeftmostScan M (c :: s) ms
  | hit {m rest : List Char} {groups : List (List Char)} {ms : List Match} :
      M (m ++ rest) groups rest → LeftmostScan M rest ms →
        LeftmostScan M (m ++ rest) (⟨m, groups⟩ :: ms)

section Scan

variable {pat : Pattern}

theorem findIter_of_lt (hpat : Consumes pat) :
    ∀ (fuel : ℕ) (s : List Char), s.length < fuel → findIter pat fuel s = finditer pat s
  | 0, _, h => absurd h (Nat.not_lt_zero _)
  | fuel + 1, s, h => by
    rw [finditer, findIter, findIter]
    cases hmatch : matchAt pat s with
    | some found =>
      obtain ⟨groups, rest⟩ := found
      obtain ⟨m, hne, hs⟩ := hpat s groups rest hmatch
      have hlt : rest.length < s.length := by
        rw [hs, List.length_append]
        have := List.length_pos.2 hne
        omega
      dsimp only
      rw [findIter_of_lt hpat fuel rest (by omega), findIter_of_lt hpat s.length rest hlt]
    | none =>
      dsimp only
      split_ifs with hs
      · rfl
      · have hlt : s.tail.length < s.length := by
          rw [List.length_tail]
          have := List.length_pos.2 hs
          omega
        rw [findIter_of_lt hpat fuel s.tail (by omega), findIter_of_lt hpat s.length s.tail hlt]

/-- `re.finditer` one position at a time. -/
theorem finditer_eq (hpat : Consumes pat) (s : List Char) :
    finditer pat s = match matchAt pat s with
      | some (groups, rest) => ⟨s.take (s.length - rest.length), groups⟩ :: finditer pat rest
      | none => if s = [] then [] else finditer pat s.tail := by
  conv_lhs => rw [finditer, findIter]
  cases hmatch : matchAt pat s with
  | some found =>
    obtain ⟨groups, rest⟩ := found
    obtain ⟨m, hne, hs⟩ := hpat s groups rest hmatch
    have hlt : rest.length < s.length := by
      rw [hs, List.length_append]
      have := List.length_pos.2 hne
      omega
    dsimp only
    rw [findIter_of_lt hpat _ _ hlt]
  | none =>
    dsimp only
    split_ifs with hs
    · rfl
    · have := List.length_pos.2 hs
      exact findIter_of_lt hpat _ _ (by rw [List.length_tail]; omega)

/-- What `re.finditer` reports is the left-to-right scan for leftmost matches of whatever the
pattern matches. -/
theorem finditer_scan {M : List Char → List (List Char) → List Char → Prop} (hpat : Consumes pat)
    (hM : ∀ s groups rest, matchAt pat s = some (groups, rest) ↔ M s groups rest)
    (s : List Char) : LeftmostScan M s (finditer pat s) := by
  obtain ⟨n, hn⟩ : ∃ n, s.length = n := ⟨_, rfl⟩
  induction n using Nat.strong_induction_on generalizing s with
  | _ n ih =>
    rw [finditer_eq hpat]
    cases hmatch : matchAt pat s with
    | some found =>
      obtain ⟨groups, rest⟩ := found
      obtain ⟨m, hne, rfl⟩ := hpat _ groups rest hmatch
      have hlt : rest.length < n := by
        rw [← hn, List.length_append]
        have := List.length_pos.2 hne
        omega
      dsimp only
      rw [List.length_append, Nat.add_sub_cancel, List.take_left' rfl]
      exact .hit ((hM _ _ _).1 hmatch) (ih _ hlt rest rfl)
    | none =>
      have hnot : ∀ groups rest, ¬ M s groups rest := fun groups rest h => by
        rw [← hM, hmatch] at h
        cases h
      dsimp only
      cases s with
      | nil => exact .nil hnot
      | cons c s => exact .skip hnot (ih _ (by rw [← hn]; simp) s rfl)

end Scan

end Rag

end HftTradingSystem

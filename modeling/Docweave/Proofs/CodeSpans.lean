import Docweave.Proofs.HiddenText

/-!
# Code spans

A code span opens with a run of back quotes and ends with the next maximal run of the same
length. `hideSpans` remembers the lengths for which it has found no such run, and looks for
them no more. The file says which spans a text has, and proves that the scan hides these:

> `SpansFrom`: the spans of a text from one place on. An opening run is read where the scan
> stands, which may be in the middle of a run, behind an escaped back quote; a closing run is
> always maximal.

> `hideSpans_eq_afresh`: the memory changes nothing. A length is remembered when no maximal
> run of it is left, and none comes up again further on (`NoneBehind.drop`), wherever the
> next opening run is read.

> `hideAfresh_eq_hideAt`: the scan without a memory hides the spans and nothing else.
-/

namespace Docweave.Source

open Text

/-! ## Runs of back quotes -/

/-- There are `n` back quotes from place `i` on, and no more. -/
structure RunAt (t : Text) (n i : Nat) : Prop where
  nonempty : 0 < n
  quotes : ∀ k, k < n → t[i + k]? = some backtick
  behind : t[i + n]? ≠ some backtick

/-- A run of `n` back quotes that nothing extends on either side. -/
structure MaximalRun (t : Text) (n i : Nat) : Prop extends RunAt t n i where
  front : ∀ k, k + 1 = i → t[k]? ≠ some backtick

/-- No run of back quotes goes across place `p`. -/
def CutAt (t : Text) (p : Nat) : Prop :=
  ∀ k, k + 1 = p → t[k]? = some backtick → t[p]? ≠ some backtick

/-- There is no maximal run of `n` back quotes behind the first character. -/
def NoneBehind (n : Nat) (t : Text) : Prop := ∀ k, 0 < k → ¬ MaximalRun t n k

section

variable {t r a : Text} {n m i j k p fuel : Nat}

theorem RunAt.length_unique (hn : RunAt t n i) (hm : RunAt t m i) : n = m := by
  by_contra hne
  by_cases hlt : n < m
  · exact hn.behind (hm.quotes n hlt)
  · exact hm.behind (hn.quotes m (by omega))

theorem runAt_drop_iff : RunAt (t.drop p) n i ↔ RunAt t n (p + i) := by
  have hplace : ∀ k, (t.drop p)[i + k]? = t[p + i + k]? := by
    intro k
    rw [List.getElem?_drop, Nat.add_assoc]
  constructor
  · intro h
    exact ⟨h.nonempty, fun k hk => hplace k ▸ h.quotes k hk, hplace n ▸ h.behind⟩
  · intro h
    exact ⟨h.nonempty, fun k hk => (hplace k).trans (h.quotes k hk), by rw [hplace]; exact h.behind⟩

/-- Where no run goes across, the maximal runs are those of the text behind. -/
theorem maximalRun_drop_iff (hcut : CutAt t p) : MaximalRun (t.drop p) n i ↔ MaximalRun t n (p + i) := by
  constructor
  · intro h
    refine ⟨runAt_drop_iff.1 h.toRunAt, fun k hk hquote => ?_⟩
    cases i with
    | zero =>
      have hfirst := h.quotes 0 h.nonempty
      rw [List.getElem?_drop] at hfirst
      exact hcut k hk hquote hfirst
    | succ i =>
      refine h.front i rfl ?_
      rw [List.getElem?_drop, ← hquote]
      congr 1
      omega
  · intro h
    refine ⟨runAt_drop_iff.2 h.toRunAt, fun k hk hquote => ?_⟩
    rw [List.getElem?_drop] at hquote
    exact h.front (p + k) (by omega) hquote

/-- A run that starts behind the first character is one of the whole text. -/
theorem NoneBehind.drop (h : NoneBehind n t) (p : Nat) : NoneBehind n (t.drop p) := by
  intro k hk hrun
  refine h (p + k) (by omega) ⟨runAt_drop_iff.1 hrun.toRunAt, fun l hl hquote => ?_⟩
  refine hrun.front (k - 1) (by omega) ?_
  rw [List.getElem?_drop, ← hquote]
  congr 1
  omega

theorem RunAt.cut (h : RunAt t n i) : CutAt t (i + n) := fun _ _ _ => h.behind

theorem cutAt_of_not_quote (h : t[i]? ≠ some backtick) : CutAt t (i + 1) := by
  intro k hk hquote
  obtain rfl : k = i := by omega
  exact absurd hquote h

theorem RunAt.length_drop_lt (h : RunAt t n 0) : (t.drop n).length < t.length := by
  have hpos := h.nonempty
  have hlt := (List.getElem?_eq_some_iff.1 (h.quotes 0 hpos)).1
  rw [List.length_drop]
  omega

/-- The run at the front of a text that starts with a back quote. -/
theorem runAt_runLength (h : t[0]? = some backtick) : RunAt t (runLength t) 0 := by
  have hplace : ∀ k : Nat,
      t[k]? = (t.takeWhile (· = backtick) ++ t.dropWhile (· = backtick))[k]? := fun k => by
    rw [List.takeWhile_append_dropWhile]
  refine ⟨?_, fun k hk => ?_, fun hquote => ?_⟩
  · cases t with
    | nil => exact absurd h (by simp)
    | cons c t =>
      obtain rfl : c = backtick := by simpa using h
      rw [runLength, List.takeWhile_cons_of_pos (by simp)]
      exact Nat.succ_pos _
  · have hlt : k < (t.takeWhile (· = backtick)).length := hk
    have hmem := List.all_eq_true.1 List.all_takeWhile _ (List.getElem_mem hlt)
    rw [Nat.zero_add, hplace, List.getElem?_append_left hlt, List.getElem?_eq_getElem hlt]
    exact congrArg some (of_decide_eq_true hmem)
  · rw [Nat.zero_add, hplace, runLength, List.getElem?_append_right (Nat.le_refl _), Nat.sub_self,
      ← List.head?_eq_getElem?] at hquote
    have hhead := List.head?_dropWhile_not (· = backtick) t
    rw [hquote] at hhead
    exact absurd hhead (by simp)

/-! ## The search for the closing run -/

/-- The first `p` characters hold no maximal run of `n` back quotes, and no run goes on behind
them. -/
structure Skips (t : Text) (n p : Nat) : Prop where
  cut : CutAt t p
  none : ∀ k, k < p → ¬ MaximalRun t n k

/-- The maximal runs behind characters that can be skipped. -/
theorem Skips.maximalRun_iff (h : Skips t n p) :
    MaximalRun t n i ↔ ∃ j, i = p + j ∧ MaximalRun (t.drop p) n j := by
  constructor
  · intro hrun
    obtain ⟨j, rfl⟩ := Nat.exists_eq_add_of_le (Nat.le_of_not_lt fun hlt => h.none i hlt hrun)
    exact ⟨j, rfl, (maximalRun_drop_iff h.cut).2 hrun⟩
  · rintro ⟨j, rfl, hrun⟩
    exact (maximalRun_drop_iff h.cut).1 hrun

/-- A character that is no back quote can be skipped. -/
theorem skips_of_not_quote (h : t[0]? ≠ some backtick) (n : Nat) : Skips t n 1 := by
  refine ⟨cutAt_of_not_quote h, fun k hk hrun => h ?_⟩
  obtain rfl : k = 0 := by omega
  exact hrun.quotes 0 hrun.nonempty

/-- A run of another length can be skipped. -/
theorem RunAt.skips (h : RunAt t m 0) (hne : m ≠ n) : Skips t n m := by
  have hcut := h.cut
  rw [Nat.zero_add] at hcut
  refine ⟨hcut, fun k hk hrun => ?_⟩
  cases k with
  | zero => exact hne (h.length_unique hrun.toRunAt)
  | succ k =>
    have hquote := h.quotes k (by omega)
    rw [Nat.zero_add] at hquote
    exact hrun.front k rfl hquote

/-- From place `p` on, `j` is the first place of a maximal run of `n` back quotes. -/
structure NextRun (t : Text) (n p j : Nat) : Prop where
  run : MaximalRun t n j
  behind : p ≤ j
  first : ∀ k, p ≤ k → k < j → ¬ MaximalRun t n k

theorem NextRun.unique (hi : NextRun t n p i) (hj : NextRun t n p j) : i = j := by
  by_contra hne
  by_cases hlt : i < j
  · exact hj.first i hi.behind hlt hi.run
  · exact hi.first j hj.behind (by omega) hj.run

/-- Where no run goes across, the search may look at the text behind only. -/
theorem nextRun_of_drop (hcut : CutAt t p) (h : NextRun (t.drop p) n 0 j) : NextRun t n p (p + j) := by
  refine ⟨(maximalRun_drop_iff hcut).1 h.run, Nat.le_add_right p j, fun k hpk hk hrun => ?_⟩
  obtain ⟨l, rfl⟩ := Nat.exists_eq_add_of_le hpk
  exact h.first l (Nat.zero_le l) (by omega) ((maximalRun_drop_iff hcut).2 hrun)

theorem Skips.nextRun (h : Skips t n p) (hnext : NextRun (t.drop p) n 0 j) : NextRun t n 0 (p + j) := by
  refine ⟨h.maximalRun_iff.2 ⟨j, rfl, hnext.run⟩, Nat.zero_le _, fun k _ hk hrun => ?_⟩
  obtain ⟨l, rfl, hbehind⟩ := h.maximalRun_iff.1 hrun
  exact hnext.first l (Nat.zero_le l) (by omega) hbehind

/-- The text is cut behind its first maximal run of `n` back quotes. -/
def ClosedBy (t : Text) (n : Nat) (a r : Text) : Prop :=
  ∃ j, NextRun t n 0 j ∧ a = t.take (j + n) ∧ r = t.drop (j + n)

theorem Skips.closedBy (h : Skips t n p) (hclosed : ClosedBy (t.drop p) n a r) :
    ClosedBy t n (t.take p ++ a) r := by
  obtain ⟨j, hnext, rfl, rfl⟩ := hclosed
  refine ⟨p + j, h.nextRun hnext, ?_, ?_⟩
  · rw [Nat.add_assoc, List.take_add (i := p)]
  · rw [List.drop_drop, Nat.add_assoc]

/-- **The search finds the first maximal run of the length.** -/
theorem closeSpan?_eq_some (h : closeSpan? n fuel t = some (a, r)) : ClosedBy t n a r := by
  fun_induction closeSpan? n fuel t generalizing a r with
  | case1 => exact absurd h (by simp)
  | case2 => exact absurd h (by simp)
  | case3 fuel t m =>
    rename_i hn
    obtain ⟨rfl, rfl⟩ := Prod.mk.inj (Option.some.inj h)
    have hrun : RunAt (backtick :: t) n 0 := hn ▸ runAt_runLength rfl
    have hnext : NextRun (backtick :: t) n 0 0 :=
      ⟨⟨hrun, fun k hk => absurd hk (by omega)⟩, Nat.le_refl 0, fun k _ hk => absurd hk (by omega)⟩
    refine ⟨0, hnext, ?_, ?_⟩
    · rw [Nat.zero_add, ← hn]
    · rw [Nat.zero_add, ← hn]
  | case4 fuel t m =>
    rename_i hne ih
    obtain ⟨⟨a', r'⟩, hrest, heq⟩ := Option.map_eq_some_iff.1 h
    obtain ⟨rfl, rfl⟩ := Prod.mk.inj heq
    exact ((runAt_runLength rfl).skips hne).closedBy (ih hrest)
  | case5 fuel c t hc ih =>
    obtain ⟨⟨a', r'⟩, hrest, heq⟩ := Option.map_eq_some_iff.1 h
    obtain ⟨rfl, rfl⟩ := Prod.mk.inj heq
    exact (skips_of_not_quote (t := c :: t) (by simpa using hc) n).closedBy (ih hrest)

theorem not_maximalRun_nil : ¬ MaximalRun [] n k := fun h => absurd (h.quotes 0 h.nonempty) (by simp)

/-- **When the search fails** there is no maximal run of the length. -/
theorem closeSpan?_eq_none (h : closeSpan? n fuel t = none) (hfuel : t.length ≤ fuel) :
    ∀ k, ¬ MaximalRun t n k := by
  fun_induction closeSpan? n fuel t with
  | case1 t =>
    obtain rfl := List.length_eq_zero_iff.1 (Nat.le_zero.1 hfuel)
    exact fun k => not_maximalRun_nil
  | case2 => exact fun k => not_maximalRun_nil
  | case3 => exact absurd h (by simp)
  | case4 fuel t m =>
    rename_i hne ih
    intro k hrun
    have hfront : RunAt (backtick :: t) m 0 := runAt_runLength rfl
    have hpos := hfront.nonempty
    obtain ⟨j, -, hbehind⟩ := (hfront.skips hne).maximalRun_iff.1 hrun
    refine ih (Option.map_eq_none_iff.1 h) ?_ j hbehind
    rw [List.length_drop]
    rw [List.length_cons] at hfuel ⊢
    omega
  | case5 fuel c t hc ih =>
    intro k hrun
    have hskips : Skips (c :: t) n 1 := skips_of_not_quote (by simpa using hc) n
    obtain ⟨j, -, hbehind⟩ := hskips.maximalRun_iff.1 hrun
    exact ih (Option.map_eq_none_iff.1 h) (Nat.le_of_succ_le_succ hfuel) j hbehind

theorem ClosedBy.length_lt (h : ClosedBy t n a r) : r.length < t.length := by
  obtain ⟨j, hnext, -, rfl⟩ := h
  have hpos := hnext.run.nonempty
  have hlt := (List.getElem?_eq_some_iff.1 (hnext.run.quotes 0 hpos)).1
  rw [List.length_drop]
  omega

end

/-! ## The scan without a memory -/

/-- The code spans of a text hidden, with a fresh search for the closing run of every opening
run. -/
def hideAfresh : Text → Text
  | [] => []
  | c :: t =>
    if c = '\\' then c :: (t.take 1 ++ hideAfresh (t.drop 1))
    else if _quote : c = backtick then
      let n := runLength (c :: t)
      let rest := (c :: t).drop n
      match _search : closeSpan? n rest.length rest with
      | some (inner, behind) => hideAll ((c :: t).take n ++ inner) ++ hideAfresh behind
      | none => (c :: t).take n ++ hideAfresh rest
    else c :: hideAfresh t
termination_by t => t.length
decreasing_by
  · simp only [List.length_drop, List.length_cons]
    omega
  · exact Nat.lt_trans (closeSpan?_eq_some _search).length_lt
      (runAt_runLength (t := c :: t) (congrArg some _quote)).length_drop_lt
  · exact (runAt_runLength (t := c :: t) (congrArg some _quote)).length_drop_lt
  · exact Nat.lt_succ_self _

section

variable {t r a : Text} {n m i j k p fuel : Nat}

theorem hideAfresh_escape (t : Text) :
    hideAfresh ('\\' :: t) = '\\' :: (t.take 1 ++ hideAfresh (t.drop 1)) := by
  rw [hideAfresh, if_pos rfl]

theorem hideAfresh_plain {c : Char} (hslash : c ≠ '\\') (hquote : c ≠ backtick) (t : Text) :
    hideAfresh (c :: t) = c :: hideAfresh t := by
  rw [hideAfresh, if_neg hslash, dif_neg hquote]

/-- An opening run is the run at the front of a text. -/
theorem RunAt.exists_cons (h : RunAt t n 0) : ∃ r, t = backtick :: r ∧ runLength t = n := by
  have hquote := h.quotes 0 h.nonempty
  cases t with
  | nil => exact absurd hquote (by simp)
  | cons c r =>
    obtain rfl : c = backtick := by simpa using hquote
    exact ⟨r, rfl, (runAt_runLength rfl).length_unique h⟩

theorem hideAfresh_span (hrun : RunAt t n 0)
    (hsearch : closeSpan? n (t.drop n).length (t.drop n) = some (a, r)) :
    hideAfresh t = hideAll (t.take n ++ a) ++ hideAfresh r := by
  obtain ⟨u, rfl, rfl⟩ := hrun.exists_cons
  rw [hideAfresh, if_neg (by decide), dif_pos rfl]
  simp only
  split
  next inner behind hfound =>
    obtain ⟨rfl, rfl⟩ := Prod.mk.inj (Option.some.inj (hsearch.symm.trans hfound))
    rfl
  next hnone => exact absurd (hsearch.symm.trans hnone) (by simp)

theorem hideAfresh_lone (hrun : RunAt t n 0)
    (hsearch : closeSpan? n (t.drop n).length (t.drop n) = none) :
    hideAfresh t = t.take n ++ hideAfresh (t.drop n) := by
  obtain ⟨u, rfl, rfl⟩ := hrun.exists_cons
  rw [hideAfresh, if_neg (by decide), dif_pos rfl]
  simp only
  split
  next inner behind hfound => exact absurd (hsearch.symm.trans hfound) (by simp)
  next => rfl

/-! ## The memory -/

/-- Where an opening run of a remembered length is read, the search fails again. -/
theorem search_remembered (hrun : RunAt t n 0) (hnone : NoneBehind n t) (fuel : Nat) :
    closeSpan? n fuel (t.drop n) = none := by
  rw [Option.eq_none_iff_forall_ne_some]
  rintro ⟨a, r⟩ hsearch
  obtain ⟨j, hnext, -, -⟩ := closeSpan?_eq_some hsearch
  have hcut := hrun.cut
  rw [Nat.zero_add] at hcut
  exact hnone (n + j) (Nat.add_pos_left hrun.nonempty j) ((maximalRun_drop_iff hcut).1 hnext.run)

/-- **The memory changes nothing**, as long as no maximal run of a remembered length is left. -/
theorem hideSpans_eq_afresh {unmatched : List Nat} (hfuel : t.length ≤ fuel)
    (hnone : ∀ n ∈ unmatched, NoneBehind n t) : hideSpans unmatched fuel t = hideAfresh t := by
  fun_induction hideSpans unmatched fuel t with
  | case1 unmatched t =>
    obtain rfl := List.length_eq_zero_iff.1 (Nat.le_zero.1 hfuel)
    rw [hideAfresh]
  | case2 => rw [hideAfresh]
  | case3 unmatched fuel =>
    rw [hideAfresh_escape, List.drop_nil, hideAfresh]
    rfl
  | case4 unmatched fuel d t ih =>
    have hrest := ih (by simp only [List.length_cons] at hfuel; omega) fun n hn => (hnone n hn).drop 2
    rw [hideAfresh_escape, hrest]
    rfl
  | case5 unmatched fuel t hc n =>
    rename_i hmem ih
    have hrun : RunAt (backtick :: t) n 0 := runAt_runLength rfl
    have hn : n ∈ unmatched := by simpa using hmem
    have hrest := ih (Nat.le_of_lt_succ (Nat.lt_of_lt_of_le hrun.length_drop_lt hfuel))
      fun m hm => (hnone m hm).drop n
    rw [hideAfresh_lone hrun (search_remembered hrun (hnone n hn) _), hrest]
  | case6 unmatched fuel t inner behind hc n =>
    rename_i hsearch ih
    have hrun : RunAt (backtick :: t) n 0 := runAt_runLength rfl
    obtain ⟨j, -, -, hbehind⟩ := closeSpan?_eq_some hsearch
    have hlt := Nat.lt_trans (closeSpan?_eq_some hsearch).length_lt hrun.length_drop_lt
    have hrest := ih (Nat.le_of_lt_succ (Nat.lt_of_lt_of_le hlt hfuel)) fun m hm => by
      rw [hbehind, List.drop_drop]
      exact (hnone m hm).drop _
    rw [hideAfresh_span hrun hsearch, hrest]
  | case7 unmatched fuel t hc n =>
    rename_i hsearch ih
    have hrun : RunAt (backtick :: t) n 0 := runAt_runLength rfl
    have hnew : NoneBehind n ((backtick :: t).drop n) :=
      fun k _ => closeSpan?_eq_none hsearch (Nat.le_refl _) k
    have hrest := ih (Nat.le_of_lt_succ (Nat.lt_of_lt_of_le hrun.length_drop_lt hfuel))
      (List.forall_mem_cons.2 ⟨hnew, fun m hm => (hnone m hm).drop n⟩)
    rw [hideAfresh_lone hrun hsearch, hrest]
  | case8 unmatched fuel c t hslash hc ih =>
    have hrest := ih (Nat.le_of_succ_le_succ hfuel) fun n hn => (hnone n hn).drop 1
    rw [hideAfresh_plain hslash hc, hrest]

theorem hideCodeSpans_eq_afresh (t : Text) : hideCodeSpans t = hideAfresh t :=
  hideSpans_eq_afresh (Nat.le_refl _) (by simp)

end

/-! ## The spans of a text -/

/-- The code spans from place `i` on, each as the place of its opening run and the place behind
its closing run. A backslash takes the character behind it along. Where no closing run is found,
the opening run is text. -/
inductive SpansFrom (t : Text) : Nat → List (Nat × Nat) → Prop
  | done {i : Nat} (h : t.length ≤ i) : SpansFrom t i []
  | escape {i : Nat} {spans : List (Nat × Nat)} (h : t[i]? = some '\\') (rest : SpansFrom t (i + 2) spans) :
      SpansFrom t i spans
  | plain {i : Nat} {c : Char} {spans : List (Nat × Nat)} (h : t[i]? = some c) (hslash : c ≠ '\\')
      (hquote : c ≠ backtick) (rest : SpansFrom t (i + 1) spans) : SpansFrom t i spans
  | span {i j n : Nat} {spans : List (Nat × Nat)} (opens : RunAt t n i) (closes : NextRun t n (i + n) j)
      (rest : SpansFrom t (j + n) spans) : SpansFrom t i ((i, j + n) :: spans)
  | lone {i n : Nat} {spans : List (Nat × Nat)} (opens : RunAt t n i)
      (none : ∀ k, i + n ≤ k → ¬ MaximalRun t n k) (rest : SpansFrom t (i + n) spans) :
      SpansFrom t i spans

/-- Place `k` lies in one of the spans. -/
def InSpan (spans : List (Nat × Nat)) (k : Nat) : Prop := ∃ s ∈ spans, s.1 ≤ k ∧ k < s.2

instance (spans : List (Nat × Nat)) (k : Nat) : Decidable (InSpan spans k) :=
  inferInstanceAs (Decidable (∃ s ∈ spans, s.1 ≤ k ∧ k < s.2))

/-- The text, which starts at place `i`, with what lies in the spans hidden. -/
def hideAt (spans : List (Nat × Nat)) (i : Nat) : Text → Text
  | [] => []
  | c :: t => (if InSpan spans i then hide c else c) :: hideAt spans (i + 1) t

section

variable {t u : Text} {spans other : List (Nat × Nat)} {i j k n : Nat}

theorem inSpan_cons : InSpan ((i, j) :: spans) k ↔ i ≤ k ∧ k < j ∨ InSpan spans k := by
  simp [InSpan]

theorem spansFrom_bounds (h : SpansFrom t i spans) :
    ∀ s ∈ spans, i ≤ s.1 ∧ s.1 < s.2 ∧ s.2 ≤ t.length := by
  induction h with
  | done => simp
  | escape h rest ih =>
    intro s hs
    have hbounds := ih s hs
    omega
  | plain h hslash hquote rest ih =>
    intro s hs
    have hbounds := ih s hs
    omega
  | @span i j n spans opens closes rest ih =>
    have hpos := opens.nonempty
    have hbehind := closes.behind
    have hlast := (List.getElem?_eq_some_iff.1 (closes.run.quotes (n - 1) (by omega))).1
    refine List.forall_mem_cons.2 ⟨⟨Nat.le_refl i, by omega, by omega⟩, fun s hs => ?_⟩
    have hbounds := ih s hs
    omega
  | lone opens none rest ih =>
    intro s hs
    have hbounds := ih s hs
    omega

/-! ### One step -/

theorem RunAt.first (h : RunAt t n i) : t[i]? = some backtick := h.quotes 0 h.nonempty

theorem spansFrom_escape (h : t[i]? = some '\\') (hspans : SpansFrom t i spans) :
    SpansFrom t (i + 2) spans := by
  cases hspans with
  | done hend => exact absurd (List.getElem?_eq_none hend) (by simp [h])
  | escape _ rest => exact rest
  | plain hc hslash => exact absurd (Option.some.inj (hc.symm.trans h)) hslash
  | span opens => exact absurd (h.symm.trans opens.first) (by decide)
  | lone opens => exact absurd (h.symm.trans opens.first) (by decide)

theorem spansFrom_plain {c : Char} (h : t[i]? = some c) (hslash : c ≠ '\\') (hquote : c ≠ backtick)
    (hspans : SpansFrom t i spans) : SpansFrom t (i + 1) spans := by
  cases hspans with
  | done hend => exact absurd (List.getElem?_eq_none hend) (by simp [h])
  | escape he => exact absurd (Option.some.inj (h.symm.trans he)) hslash
  | plain _ _ _ rest => exact rest
  | span opens => exact absurd (Option.some.inj (h.symm.trans opens.first)) hquote
  | lone opens => exact absurd (Option.some.inj (h.symm.trans opens.first)) hquote

/-- An opening run begins a span, if it has a closing run, and is text otherwise. -/
theorem spansFrom_opening (h : RunAt t n i) (hspans : SpansFrom t i spans) :
    (∃ j rest, NextRun t n (i + n) j ∧ spans = (i, j + n) :: rest ∧ SpansFrom t (j + n) rest) ∨
    (∀ k, i + n ≤ k → ¬ MaximalRun t n k) ∧ SpansFrom t (i + n) spans := by
  cases hspans with
  | done hend => exact absurd (List.getElem?_eq_none hend) (by simp [h.first])
  | escape he => exact absurd (he.symm.trans h.first) (by decide)
  | plain hc _ hquote => exact absurd (Option.some.inj (hc.symm.trans h.first)) hquote
  | span opens closes rest =>
    obtain rfl := h.length_unique opens
    exact Or.inl ⟨_, _, closes, rfl, rest⟩
  | lone opens none rest =>
    obtain rfl := h.length_unique opens
    exact Or.inr ⟨none, rest⟩

/-- **A text has its spans in one way.** -/
theorem spansFrom_unique (h : SpansFrom t i spans) (hother : SpansFrom t i other) : spans = other := by
  induction h generalizing other with
  | done hend =>
    have hnone := List.getElem?_eq_none hend
    cases hother with
    | done => rfl
    | escape he => exact absurd he (by simp [hnone])
    | plain hc => exact absurd hc (by simp [hnone])
    | span opens => exact absurd opens.first (by simp [hnone])
    | lone opens => exact absurd opens.first (by simp [hnone])
  | escape he rest ih => exact ih (spansFrom_escape he hother)
  | plain hc hslash hquote rest ih => exact ih (spansFrom_plain hc hslash hquote hother)
  | span opens closes rest ih =>
    rcases spansFrom_opening opens hother with ⟨j, others, hnext, rfl, hothers⟩ | ⟨hnone, -⟩
    · obtain rfl := closes.unique hnext
      rw [ih hothers]
    · exact absurd closes.run (hnone _ closes.behind)
  | lone opens hnone rest ih =>
    rcases spansFrom_opening opens hother with ⟨j, others, hnext, -, -⟩ | ⟨-, hothers⟩
    · exact absurd hnext.run (hnone j hnext.behind)
    · exact ih hothers

/-! ### Hiding -/

theorem getElem?_hideAt (spans : List (Nat × Nat)) (i : Nat) (t : Text) (k : Nat) :
    (hideAt spans i t)[k]? = t[k]?.map fun c => if InSpan spans (i + k) then hide c else c := by
  induction t generalizing i k with
  | nil => rfl
  | cons c t ih =>
    cases k with
    | zero => rfl
    | succ k =>
      show (hideAt spans (i + 1) t)[k]? = _
      rw [ih, Nat.add_right_comm]
      rfl

/-- Hiding goes on behind the first `n` characters. -/
theorem hideAt_split (spans : List (Nat × Nat)) (i n : Nat) (t : Text) :
    hideAt spans i t = hideAt spans i (t.take n) ++ hideAt spans (i + n) (t.drop n) := by
  induction n generalizing i t with
  | zero => rfl
  | succ n ih =>
    cases t with
    | nil => rfl
    | cons c t =>
      have hrest := ih (i + 1) t
      rw [Nat.add_right_comm, Nat.add_assoc] at hrest
      exact congrArg (_ :: ·) hrest

theorem hideAt_outside (h : ∀ k, i ≤ k → k < i + t.length → ¬ InSpan spans k) :
    hideAt spans i t = t := by
  induction t generalizing i with
  | nil => rfl
  | cons c t ih =>
    rw [List.length_cons] at h
    rw [hideAt, if_neg (h i (Nat.le_refl i) (by omega)), ih fun k hik hk => h k (by omega) (by omega)]

theorem hideAt_inside (h : ∀ k, i ≤ k → k < i + t.length → InSpan spans k) :
    hideAt spans i t = hideAll t := by
  induction t generalizing i with
  | nil => rfl
  | cons c t ih =>
    rw [List.length_cons] at h
    rw [hideAt, if_pos (h i (Nat.le_refl i) (by omega)), ih fun k hik hk => h k (by omega) (by omega)]
    rfl

/-- A span that ends in front of a text hides nothing in it. -/
theorem hideAt_behind (h : k ≤ i) (t : Text) : hideAt ((j, k) :: spans) i t = hideAt spans i t := by
  induction t generalizing i with
  | nil => rfl
  | cons c t ih =>
    have hiff : InSpan ((j, k) :: spans) i ↔ InSpan spans i := by
      rw [inSpan_cons]
      exact or_iff_right fun hin => Nat.not_lt_of_le h hin.2
    rw [hideAt, hideAt, ih (by omega)]
    simp only [hiff]

/-- In front of the first span nothing is hidden. -/
theorem hideAt_pass (h : ∀ s ∈ spans, i + n ≤ s.1) (t : Text) :
    hideAt spans i t = t.take n ++ hideAt spans (i + n) (t.drop n) := by
  have houtside : ∀ k, i ≤ k → k < i + (t.take n).length → ¬ InSpan spans k := by
    rintro k - hk ⟨s, hs, hle, -⟩
    have hbound := h s hs
    rw [List.length_take] at hk
    omega
  rw [hideAt_split spans i n t, hideAt_outside houtside]

/-- The first span is hidden. -/
theorem hideAt_span (t : Text) : hideAt ((i, i + n) :: spans) i t =
    hideAll (t.take n) ++ hideAt spans (i + n) (t.drop n) := by
  have hinside : ∀ k, i ≤ k → k < i + (t.take n).length → InSpan ((i, i + n) :: spans) k := by
    intro k hik hk
    rw [List.length_take] at hk
    exact ⟨(i, i + n), List.mem_cons_self .., hik, by omega⟩
  rw [hideAt_split _ i n t, hideAt_inside hinside, hideAt_behind (Nat.le_refl _)]

/-- **The scan hides the spans**, and nothing else. -/
theorem hideAfresh_eq_hideAt (t : Text) (i : Nat) :
    ∃ spans, SpansFrom t i spans ∧ hideAfresh (t.drop i) = hideAt spans i (t.drop i) := by
  induction hm : t.length - i using Nat.strongRecOn generalizing i with
  | ind m ih =>
    subst hm
    -- the scan passes over `n` characters, and they are text
    have passed : ∀ n, 0 < n → i < t.length →
        hideAfresh (t.drop i) = (t.drop i).take n ++ hideAfresh ((t.drop i).drop n) →
        (∀ spans, SpansFrom t (i + n) spans → SpansFrom t i spans) →
        ∃ spans, SpansFrom t i spans ∧ hideAfresh (t.drop i) = hideAt spans i (t.drop i) := by
      intro n hn hi hstep hspans
      obtain ⟨spans, hrest, hhide⟩ := ih _ (by omega) (i + n) rfl
      refine ⟨spans, hspans spans hrest, ?_⟩
      rw [hstep, List.drop_drop, hhide, hideAt_pass fun s hs => (spansFrom_bounds hrest s hs).1,
        List.drop_drop]
    by_cases hi : i < t.length
    · have hc : t[i]? = some t[i] := List.getElem?_eq_getElem hi
      have hdrop : t.drop i = t[i] :: t.drop (i + 1) := List.drop_eq_getElem_cons hi
      by_cases hslash : t[i] = '\\'
      · refine passed 2 (by omega) hi ?_ fun spans => .escape (hc.trans (congrArg some hslash))
        rw [hdrop, hslash, hideAfresh_escape]
        rfl
      by_cases hquote : t[i] = backtick
      · have hrun : RunAt (t.drop i) (runLength (t.drop i)) 0 := runAt_runLength (by simp [hdrop, hquote])
        have hopens := runAt_drop_iff.1 hrun
        generalize runLength (t.drop i) = n at hrun hopens
        have hpos := hopens.nonempty
        have hcut := hopens.cut
        rw [Nat.add_zero] at hopens hcut
        cases hsearch : closeSpan? n ((t.drop i).drop n).length ((t.drop i).drop n) with
        | none =>
          refine passed n hpos hi (hideAfresh_lone hrun hsearch) fun spans => .lone hopens fun k hk hmax => ?_
          obtain ⟨l, rfl⟩ := Nat.exists_eq_add_of_le hk
          rw [List.drop_drop] at hsearch
          exact closeSpan?_eq_none hsearch (Nat.le_refl _) l ((maximalRun_drop_iff hcut).2 hmax)
        | some found =>
          obtain ⟨a, r⟩ := found
          rw [hideAfresh_span hrun hsearch]
          rw [List.drop_drop] at hsearch
          obtain ⟨j, hnext, rfl, rfl⟩ := closeSpan?_eq_some hsearch
          obtain ⟨spans, hrest, hhide⟩ := ih _ (by omega) (i + n + j + n) rfl
          refine ⟨_, .span hopens (nextRun_of_drop hcut hnext) hrest, ?_⟩
          have hend : i + n + j + n = i + (n + (j + n)) := by omega
          rw [hend] at hhide ⊢
          rw [hideAt_span, List.drop_drop, List.drop_drop, ← hhide, List.take_add (i := n), List.drop_drop,
            Nat.add_assoc]
      · refine passed 1 (by omega) hi ?_ fun spans => .plain hc hslash hquote
        rw [hdrop, hideAfresh_plain hslash hquote]
        rfl
    · have hend : t.drop i = [] := List.drop_eq_nil_iff.2 (by omega)
      refine ⟨[], .done (by omega), ?_⟩
      rw [hend, hideAfresh]
      rfl

end

end Docweave.Source

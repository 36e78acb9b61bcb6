import Docweave.Proofs.TextLaws
import Docweave.Source.Sections

/-!
# Searching for elements

Script and style blocks are found by two searches over a text: `findElement?`
looks for the first element of a kind, `findElements` for all of them from
left to right. An element is read in three steps, its opening tag
(`openingTag?`), the end of that tag (`tagEnd?`), and its content up to the
closing tag (`contentLength?`); `elementAt?_eq` puts them together.

> `elementAt?_ordered`: the places of an element follow one another, and lie in
> the text; `elementAt?_bracket`: its content begins behind the bracket of its
> opening tag.

> `findElement?_found`, `mem_findElements`: what a search finds is an element of
> the text.

> `findElements_pairwise`, `exists_findElements_of_elementAt?`: the elements
> that are found all together do not overlap, and each element of the text
> begins in one of them.
-/

namespace Docweave.Source

open Text

/-! ## Reading an element -/

/-- The text behind `<name` at the front, where the name ends. -/
def openingTag? (e : RawElement) (t : Text) : Option Text :=
  ((dropPrefix? "<" t).bind (dropPrefixFold? e.name)).filter fun rest =>
    !((rest.head?.map isWordChar).getD false)

/-- The text behind the next `>`. -/
def tagEnd? (t : Text) : Option Text := dropPrefix? ">" (t.dropWhile (· ≠ '>'))

/-- The places of an element that begins at index `i`, with attributes of `a`
characters, a content of `n` and a closing tag of `m`. -/
def spanAt (e : RawElement) (i a n m : Nat) : ElementSpan :=
  ⟨i, i + 1 + e.name.length, i + 1 + e.name.length + a, i + 1 + e.name.length + a + 1,
    i + 1 + e.name.length + a + 1 + n, i + 1 + e.name.length + a + 1 + n + m⟩

theorem bind_guard {α β : Type} (x : Option α) (p : α → Bool) (g : α → Option β) :
    (do let a ← x; guard (p a); g a) = (x.filter p).bind g := by
  cases x with
  | none => rfl
  | some a =>
    cases hp : p a with
    | false =>
      have hguard : (guard (p a) : Option Unit) = none := if_neg (by simp [hp])
      rw [Option.filter_some_neg (by simp [hp])]
      show (guard (p a) : Option Unit).bind (fun _ => g a) = none
      rw [hguard]
      rfl
    | true =>
      have hguard : (guard (p a) : Option Unit) = some () := if_pos hp
      rw [Option.filter_some_pos hp]
      show (guard (p a) : Option Unit).bind (fun _ => g a) = g a
      rw [hguard]
      rfl

theorem elementAt?_eq (e : RawElement) (i : Nat) (t : Text) :
    elementAt? e i t = (openingTag? e t).bind fun rest => (tagEnd? rest).bind fun inner =>
      (contentLength? e inner).map fun (n, m) =>
        spanAt e i (rest.takeWhile (· ≠ '>')).length n m := by
  unfold elementAt?
  rw [bind_guard]
  refine congrArg (Option.bind _) (funext fun rest => ?_)
  refine congrArg (Option.bind _) (funext fun inner => ?_)
  exact Option.map_eq_bind.symm

theorem dropPrefixFold?_length {p t r : Text} (h : dropPrefixFold? p t = some r) :
    t.length = p.length + r.length := by
  fun_induction dropPrefixFold? p t with
  | case1 t =>
    obtain rfl := Option.some.inj h
    exact (Nat.zero_add _).symm
  | case2 => exact absurd h (by simp)
  | case3 a p c t _ ih =>
    rw [List.length_cons, List.length_cons, ih h]
    omega
  | case4 => exact absurd h (by simp)

theorem openingTag?_length {e : RawElement} {t rest : Text} (h : openingTag? e t = some rest) :
    t.length = 1 + e.name.length + rest.length := by
  obtain ⟨hname, _⟩ := Option.filter_eq_some_iff.1 h
  obtain ⟨r, hopen, hfold⟩ := Option.bind_eq_some_iff.1 hname
  rw [dropPrefix?_eq_some.1 hopen, List.length_append, dropPrefixFold?_length hfold]
  exact (Nat.add_assoc 1 _ _).symm

theorem tagEnd?_length {rest inner : Text} (h : tagEnd? rest = some inner) :
    rest.length = (rest.takeWhile (· ≠ '>')).length + 1 + inner.length := by
  conv => lhs; rw [← List.takeWhile_append_dropWhile (p := (· ≠ '>')) (l := rest)]
  rw [dropPrefix?_eq_some.1 h, List.length_append, List.length_append]
  exact (Nat.add_assoc _ 1 _).symm

theorem closingTag?_length {e : RawElement} {t r : Text} (h : closingTag? e t = some r) :
    r.length < t.length := by
  obtain ⟨t₁, hslash, h⟩ := Option.bind_eq_some_iff.1 h
  obtain ⟨t₂, hname, hend⟩ := Option.bind_eq_some_iff.1 h
  have hdrop : (t₂.dropWhile isPatternSpace).length ≤ t₂.length :=
    (List.dropWhile_suffix _).length_le
  rw [dropPrefix?_eq_some.1 hend] at hdrop
  rw [dropPrefix?_eq_some.1 hslash, List.length_append, dropPrefixFold?_length hname]
  rw [List.length_append] at hdrop
  have htwo : ("</" : Text).length = 2 := rfl
  omega

theorem contentLength?_le {e : RawElement} {t : Text} {n m : Nat}
    (h : contentLength? e t = some (n, m)) : n + m ≤ t.length ∧ 0 < m := by
  induction t generalizing n m with
  | nil => exact absurd h (by simp [contentLength?])
  | cons c t ih =>
    unfold contentLength? at h
    split at h
    next r hclose =>
      obtain ⟨rfl, rfl⟩ := Prod.mk.inj (Option.some.inj h)
      have := closingTag?_length hclose
      omega
    next =>
      obtain ⟨⟨n', m'⟩, hrest, heq⟩ := Option.map_eq_some_iff.1 h
      obtain ⟨rfl, rfl⟩ := Prod.mk.inj heq
      have := ih hrest
      rw [List.length_cons]
      omega

/-- The places of an element in the order in which they stand in a text. -/
structure ElementSpan.Ordered (s : ElementSpan) : Prop where
  name : s.start < s.attrsStart
  attrs : s.attrsStart ≤ s.attrsStop
  tag : s.attrsStop < s.innerStart
  inner : s.innerStart ≤ s.innerStop
  closing : s.innerStop < s.stop

theorem ElementSpan.Ordered.start_lt_stop {s : ElementSpan} (h : s.Ordered) : s.start < s.stop := by
  have := h.name
  have := h.attrs
  have := h.tag
  have := h.inner
  have := h.closing
  omega

/-- **The places of an element** follow one another, and lie in the text. -/
theorem elementAt?_ordered {e : RawElement} {i : Nat} {t : Text} {s : ElementSpan}
    (h : elementAt? e i t = some s) : s.Ordered ∧ s.start = i ∧ s.stop ≤ i + t.length := by
  rw [elementAt?_eq] at h
  obtain ⟨rest, hopen, h⟩ := Option.bind_eq_some_iff.1 h
  obtain ⟨inner, hend, h⟩ := Option.bind_eq_some_iff.1 h
  obtain ⟨⟨n, m⟩, hcontent, rfl⟩ := Option.map_eq_some_iff.1 h
  have htag := openingTag?_length hopen
  have hattrs := tagEnd?_length hend
  have hinner := contentLength?_le hcontent
  refine ⟨⟨?_, ?_, ?_, ?_, ?_⟩, rfl, ?_⟩ <;> simp only [spanAt] <;> omega

theorem dropPrefixFold?_eq_drop {p t r : Text} (h : dropPrefixFold? p t = some r) :
    r = t.drop p.length := by
  fun_induction dropPrefixFold? p t with
  | case1 t => exact (Option.some.inj h).symm
  | case2 => exact absurd h (by simp)
  | case3 a p c t _ ih => exact ih h
  | case4 => exact absurd h (by simp)

theorem openingTag?_eq_drop {e : RawElement} {t rest : Text} (h : openingTag? e t = some rest) :
    rest = t.drop (1 + e.name.length) := by
  obtain ⟨hname, _⟩ := Option.filter_eq_some_iff.1 h
  obtain ⟨r, hopen, hfold⟩ := Option.bind_eq_some_iff.1 hname
  rw [dropPrefixFold?_eq_drop hfold, dropPrefix?_eq_some.1 hopen, Nat.add_comm]
  rfl

/-- The content begins behind the angle bracket of the opening tag. -/
theorem elementAt?_bracket {e : RawElement} {i : Nat} {t : Text} {s : ElementSpan}
    (h : elementAt? e i t = some s) :
    s.innerStart = s.attrsStop + 1 ∧ t[s.attrsStop - i]? = some '>' := by
  rw [elementAt?_eq] at h
  obtain ⟨rest, hopen, h⟩ := Option.bind_eq_some_iff.1 h
  obtain ⟨inner, hend, h⟩ := Option.bind_eq_some_iff.1 h
  obtain ⟨⟨n, m⟩, _, rfl⟩ := Option.map_eq_some_iff.1 h
  refine ⟨rfl, ?_⟩
  have hrest : rest[(rest.takeWhile (· ≠ '>')).length]? = some '>' := by
    conv => lhs; lhs; rw [← List.takeWhile_append_dropWhile (p := (· ≠ '>')) (l := rest)]
    rw [dropPrefix?_eq_some.1 hend, List.getElem?_append_right (Nat.le_refl _), Nat.sub_self]
    rfl
  conv at hrest => lhs; lhs; rw [openingTag?_eq_drop hopen]
  rw [List.getElem?_drop] at hrest
  rw [← hrest]
  refine congrArg (t[·]?) ?_
  show i + 1 + e.name.length + _ - i = _
  omega

/-- Only an angle bracket begins an element. -/
theorem elementAt?_eq_none {e : RawElement} {i : Nat} {c : Char} {t : Text} (h : c ≠ '<') :
    elementAt? e i (c :: t) = none := by
  have hopen : openingTag? e (c :: t) = none := by
    have hnone : dropPrefix? "<" (c :: t) = none := by
      show (if '<' = c then dropPrefix? [] t else none) = none
      rw [if_neg h.symm]
    rw [openingTag?, hnone]
    rfl
  rw [elementAt?_eq, hopen]
  rfl

theorem elementAt?_nil (e : RawElement) (i : Nat) : elementAt? e i [] = none := rfl

/-! ## The searches -/

/-- What the search for one element finds. -/
theorem findElement?_found {e : RawElement} {i : Nat} {t : Text} {s : ElementSpan}
    (h : findElement? e i t = some s) :
    ∃ k, k < t.length ∧ elementAt? e (i + k) (t.drop k) = some s := by
  induction t generalizing i with
  | nil => exact absurd h (by simp [findElement?])
  | cons c t ih =>
    unfold findElement? at h
    cases hat : elementAt? e i (c :: t) with
    | some s' =>
      rw [hat] at h
      obtain rfl : s' = s := Option.some.inj h
      exact ⟨0, Nat.succ_pos _, hat⟩
    | none =>
      rw [hat] at h
      obtain ⟨k, hk, hfound⟩ := ih h
      refine ⟨k + 1, Nat.succ_lt_succ hk, ?_⟩
      rw [show i + (k + 1) = i + 1 + k by omega]
      exact hfound

/-- What the search for all elements finds. -/
theorem mem_findElements {e : RawElement} {i skip : Nat} {t : Text} {s : ElementSpan}
    (h : s ∈ findElements e i skip t) :
    ∃ k, skip ≤ k ∧ k < t.length ∧ elementAt? e (i + k) (t.drop k) = some s := by
  induction t generalizing i skip with
  | nil => exact absurd h (by simp [findElements])
  | cons c t ih =>
    -- what is found behind the first character is found there in the whole text too
    have step : ∀ {skip' : Nat}, s ∈ findElements e (i + 1) skip' t →
        ∃ k, skip' ≤ k ∧ k + 1 < (c :: t).length ∧
          elementAt? e (i + (k + 1)) ((c :: t).drop (k + 1)) = some s := by
      intro skip' hs
      obtain ⟨k, hskip, hk, hat⟩ := ih hs
      refine ⟨k, hskip, Nat.succ_lt_succ hk, ?_⟩
      rw [show i + (k + 1) = i + 1 + k by omega]
      exact hat
    cases skip with
    | succ skip =>
      obtain ⟨k, hskip, hk, hat⟩ := step h
      exact ⟨k + 1, Nat.succ_le_succ hskip, hk, hat⟩
    | zero =>
      rw [findElements] at h
      split at h
      next span hspan =>
        rcases List.mem_cons.1 h with rfl | hs
        · exact ⟨0, Nat.le_refl 0, Nat.succ_pos _, hspan⟩
        · obtain ⟨k, _, hk, hat⟩ := step hs
          exact ⟨k + 1, Nat.zero_le _, hk, hat⟩
      next =>
        obtain ⟨k, _, hk, hat⟩ := step h
        exact ⟨k + 1, Nat.zero_le _, hk, hat⟩

/-- **Elements found together do not overlap**, and are found in their order. -/
theorem findElements_pairwise (e : RawElement) (i skip : Nat) (t : Text) :
    (findElements e i skip t).Pairwise fun a b => a.stop ≤ b.start := by
  induction t generalizing i skip with
  | nil => exact .nil
  | cons c t ih =>
    cases skip with
    | succ skip => exact ih (i + 1) skip
    | zero =>
      rw [findElements]
      split
      next span hspan =>
        refine .cons (fun b hb => ?_) (ih (i + 1) (span.stop - i - 1))
        obtain ⟨k, hskip, _, hat⟩ := mem_findElements hb
        have hstart := (elementAt?_ordered hat).2.1
        omega
      next => exact ih (i + 1) 0

/-- **Every element begins in one that is found.** -/
theorem exists_findElements_of_elementAt? {e : RawElement} {i skip k : Nat} {t : Text}
    {s : ElementSpan} (hskip : skip ≤ k) (h : elementAt? e (i + k) (t.drop k) = some s) :
    ∃ m ∈ findElements e i skip t, m.start ≤ i + k ∧ i + k < m.stop := by
  induction t generalizing i skip k with
  | nil =>
    rw [List.drop_nil, elementAt?_nil] at h
    exact absurd h (by simp)
  | cons c t ih =>
    -- behind the first character the search goes on with the tail
    have step : ∀ skip' k' : Nat, k = k' + 1 → skip' ≤ k' →
        ∃ m ∈ findElements e (i + 1) skip' t, m.start ≤ i + k ∧ i + k < m.stop := by
      rintro skip' k' rfl hskip'
      rw [show i + (k' + 1) = i + 1 + k' by omega] at h ⊢
      exact ih hskip' h
    cases skip with
    | succ skip => exact step skip (k - 1) (by omega) (by omega)
    | zero =>
      rw [findElements]
      split
      next span hspan =>
        obtain ⟨hordered, hstart, _⟩ := elementAt?_ordered hspan
        by_cases hin : i + k < span.stop
        · exact ⟨span, List.mem_cons_self .., by omega, hin⟩
        · have hstop := hordered.start_lt_stop
          obtain ⟨m, hm, hcover⟩ := step (span.stop - i - 1) (k - 1) (by omega) (by omega)
          exact ⟨m, List.mem_cons_of_mem _ hm, hcover⟩
      next hnone =>
        cases k with
        | zero => exact absurd (hnone.symm.trans h) (by simp)
        | succ k => exact step 0 k rfl (Nat.zero_le k)

/-- Characters that belong to the element before are passed over. -/
theorem findElements_skip (e : RawElement) (i skip : Nat) (t : Text) :
    findElements e i skip t = findElements e (i + skip) 0 (t.drop skip) := by
  induction t generalizing i skip with
  | nil =>
    rw [List.drop_nil]
    rfl
  | cons c t ih =>
    cases skip with
    | zero => rfl
    | succ skip =>
      have hindex : i + (skip + 1) = i + 1 + skip := by omega
      rw [findElements, ih, List.drop_succ_cons, hindex]

/-- The search goes on behind an element that it has found. -/
theorem findElements_cons (e : RawElement) (i : Nat) (c : Char) (t : Text) :
    findElements e i 0 (c :: t) =
      match elementAt? e i (c :: t) with
      | some s => s :: findElements e s.stop 0 ((c :: t).drop (s.stop - i))
      | none => findElements e (i + 1) 0 t := by
  rw [findElements]
  cases hat : elementAt? e i (c :: t) with
  | none => rfl
  | some s =>
    obtain ⟨hordered, hstart, _⟩ := elementAt?_ordered hat
    have hstop : i < s.stop := hstart ▸ hordered.start_lt_stop
    have hskip : s.stop - i = s.stop - i - 1 + 1 := by omega
    have hindex : i + 1 + (s.stop - i - 1) = s.stop := by omega
    simp only
    rw [findElements_skip, hindex, hskip, List.drop_succ_cons]
    rfl

end Docweave.Source

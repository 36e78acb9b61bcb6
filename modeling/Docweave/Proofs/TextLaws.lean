import Docweave.Text.Space
import Mathlib.Data.List.TakeWhile

/-!
# Laws of texts

Trimming, beginnings and ends, the order, the digits of numbers, and cutting
into lines, as the later files use them. Texts are ordered as lists are
(`le_iff`). Digits tell their number (`digitsValue_ofNat`). Parts that hold no
separator are found again in the text that is joined from them
(`splitOn_join`). Lines hold no newline (`not_mem_of_mem_lines`), and lines that
hold none are found again in the text that is joined from them (`lines_join`),
as the text is found again in its lines (`join_lines`).
`linesWithEnds` cuts at the same places as `lines` and leaves each newline on
its line (`getElem?_linesWithEnds`).
-/

namespace Docweave.Text

/-! ## Trimming -/

/-- A character that stays in front stays there. -/
theorem trimRight_cons {p : Char → Bool} {c : Char} (t : Text) (h : p c = false) :
    trimRight p (c :: t) = c :: trimRight p t := by
  unfold trimRight
  rw [List.reverse_cons, List.dropWhile_append]
  split
  next he =>
    rw [List.isEmpty_iff] at he
    rw [he, List.dropWhile_cons_of_neg (by simp [h])]
    rfl
  next => rw [List.reverse_append]; rfl

theorem trimRight_concat {p : Char → Bool} {c : Char} (t : Text) (h : p c = false) :
    trimRight p (t ++ [c]) = t ++ [c] := by
  rw [trimRight, List.reverse_append, List.reverse_singleton, List.singleton_append,
    List.dropWhile_cons_of_neg (by simp [h]), List.reverse_cons, List.reverse_reverse]

/-- What trimming takes off the end is of the class. -/
theorem eq_trimRight_append (p : Char → Bool) (t : Text) :
    ∃ tail, t = trimRight p t ++ tail ∧ ∀ c ∈ tail, p c = true := by
  refine ⟨(t.reverse.takeWhile p).reverse, ?_, ?_⟩
  · unfold trimRight
    rw [← List.reverse_append, List.takeWhile_append_dropWhile, List.reverse_reverse]
  · intro c hc
    exact List.all_eq_true.1 List.all_takeWhile c (List.mem_reverse.1 hc)

theorem trim_cons {c : Char} (t : Text) (h : isSpace c = false) :
    trim (c :: t) = c :: trimRight isSpace t := by
  rw [trim, trimBoth, trimLeft, List.dropWhile_cons_of_neg (by simp [h]), trimRight_cons t h]

/-- The text behind the characters of a class starts with one that is not. -/
theorem dropWhile_eq_cons {p : Char → Bool} {t : Text} (h : ∃ c ∈ t, p c = false) :
    ∃ c rest, t.dropWhile p = c :: rest ∧ c ∈ t ∧ p c = false := by
  induction t with
  | nil =>
    obtain ⟨c, hc, _⟩ := h
    exact absurd hc (by simp)
  | cons d t ih =>
    by_cases hd : p d = true
    · obtain ⟨c, hc, hp⟩ := h
      rcases List.mem_cons.1 hc with rfl | hmem
      · rw [hd] at hp
        exact absurd hp (by simp)
      · obtain ⟨c', rest, heq, hc', hp'⟩ := ih ⟨c, hmem, hp⟩
        exact ⟨c', rest, by rw [List.dropWhile_cons_of_pos hd, heq], List.mem_cons_of_mem _ hc',
          hp'⟩
    · exact ⟨d, t, List.dropWhile_cons_of_neg hd, List.mem_cons_self .., by simpa using hd⟩

theorem dropWhile_of_none {p : Char → Bool} {t : Text} (h : ∀ c ∈ t, p c = false) :
    t.dropWhile p = t := by
  cases t with
  | nil => rfl
  | cons c t => exact List.dropWhile_cons_of_neg (by simp [h c (List.mem_cons_self ..)])

/-- Trimming takes what it can off both ends. -/
theorem trimBoth_between {p : Char → Bool} {a t b : Text} (ha : ∀ c ∈ a, p c = true)
    (ht : ∀ c ∈ t, p c = false) (hb : ∀ c ∈ b, p c = true) : trimBoth p (a ++ (t ++ b)) = t := by
  rw [trimBoth, trimLeft, List.dropWhile_append_of_pos ha]
  cases t with
  | nil =>
    rw [List.nil_append, List.dropWhile_eq_nil_iff.2 hb]
    rfl
  | cons c t =>
    have hfirst : (c :: (t ++ b)).dropWhile p = c :: (t ++ b) :=
      List.dropWhile_cons_of_neg (by simp [ht c (List.mem_cons_self ..)])
    rw [List.cons_append, hfirst, ← List.cons_append, trimRight, List.reverse_append,
      List.dropWhile_append_of_pos fun d hd => hb d (List.mem_reverse.1 hd),
      dropWhile_of_none fun d hd => ht d (List.mem_reverse.1 hd), List.reverse_reverse]

/-- When the front part of a text is not all white space, the trimmed text
starts with one of its characters. -/
theorem trim_append {s : Text} (t : Text) (h : ∃ c ∈ s, isSpace c = false) :
    ∃ c rest, trim (s ++ t) = c :: rest ∧ c ∈ s ∧ isSpace c = false := by
  obtain ⟨c, rest, heq, hc, hp⟩ := dropWhile_eq_cons h
  refine ⟨c, trimRight isSpace (rest ++ t), ?_, hc, hp⟩
  rw [trim, trimBoth, trimLeft, List.dropWhile_append, heq]
  exact trimRight_cons (rest ++ t) hp

/-- A text starts and ends with characters that trimming leaves. -/
structure Edged (s : Text) : Prop where
  first : ∃ c w, s = c :: w ∧ isSpace c = false
  last : ∃ w c, s = w ++ [c] ∧ isSpace c = false

theorem trim_of_edged {s : Text} (h : Edged s) : trim s = s := by
  obtain ⟨c, w, hfirst, hc⟩ := h.first
  obtain ⟨w', d, hlast, hd⟩ := h.last
  have hleft : trimLeft isSpace s = s := by
    rw [trimLeft, hfirst, List.dropWhile_cons_of_neg (by simp [hc])]
  rw [trim, trimBoth, hleft, hlast, trimRight_concat w' hd]

/-- Nothing is left to trim, unless nothing is left. -/
theorem edged_trim {t : Text} (h : trim t ≠ []) : Edged (trim t) := by
  have hleft : trimLeft isSpace t ≠ [] := by
    intro hnil
    exact h (by rw [trim, trimBoth, hnil]; rfl)
  obtain ⟨c, w, hw⟩ := List.exists_cons_of_ne_nil hleft
  have hc := List.head?_dropWhile_not isSpace t
  rw [show t.dropWhile isSpace = c :: w from hw] at hc
  have htrim : trim t = c :: trimRight isSpace w := by
    rw [trim, trimBoth, hw, trimRight_cons w (by simpa using hc)]
  constructor
  · exact ⟨c, _, htrim, by simpa using hc⟩
  · have hback := List.head?_dropWhile_not isSpace (trimLeft isSpace t).reverse
    cases hrest : (trimLeft isSpace t).reverse.dropWhile isSpace with
    | nil => exact absurd (by rw [trim, trimBoth, trimRight, hrest]; rfl) h
    | cons d r =>
      rw [hrest] at hback
      exact ⟨r.reverse, d, by rw [trim, trimBoth, trimRight, hrest, List.reverse_cons], by simpa using hback⟩

/-- Trimming leaves a part that starts and ends with other characters than white
space. -/
theorem infix_trim {s t : Text} (hs : Edged s) (h : s <:+: t) : s <:+: trim t := by
  obtain ⟨u, v, rfl⟩ := h
  obtain ⟨c, w, hfirst, hc⟩ := hs.first
  obtain ⟨w', d, hlast, hd⟩ := hs.last
  have hleft : ∃ u', trimLeft isSpace (u ++ s ++ v) = u' ++ s ++ v := by
    refine ⟨u.dropWhile isSpace, ?_⟩
    rw [trimLeft, List.append_assoc, List.dropWhile_append]
    split
    next hempty =>
      rw [List.isEmpty_iff.1 hempty, hfirst, List.cons_append, List.dropWhile_cons_of_neg (by simp [hc])]
      rfl
    next => rw [List.append_assoc]
  obtain ⟨u', hu⟩ := hleft
  have hright : ∃ v', trimRight isSpace (u' ++ s ++ v) = u' ++ s ++ v' := by
    refine ⟨(v.reverse.dropWhile isSpace).reverse, ?_⟩
    rw [trimRight, List.reverse_append, List.dropWhile_append]
    split
    next hempty =>
      rw [List.isEmpty_iff.1 hempty, hlast, List.reverse_append, List.reverse_append, List.reverse_singleton,
        List.singleton_append, List.cons_append, List.dropWhile_cons_of_neg (by simp [hd])]
      simp
    next => simp
  obtain ⟨v', hv⟩ := hright
  rw [trim, trimBoth, hu, hv]
  exact ⟨u', v', rfl⟩

/-! ## Beginnings and ends -/

theorem dropPrefix?_eq_some {p t r : Text} : dropPrefix? p t = some r ↔ t = p ++ r := by
  fun_induction dropPrefix? p t with
  | case1 t => simp [eq_comm]
  | case2 a p => simp
  | case3 p c t ih => simp [ih]
  | case4 a p c t hne =>
    refine ⟨fun h => absurd h (by simp), fun h => ?_⟩
    exact absurd (List.cons.inj h).1.symm hne

/-- A text is cut at the first place where the mark stands, if nothing in front of it
has the first character of the mark. -/
theorem cut?_append {c : Char} {a : Text} (p r : Text) (h : c ∉ a) :
    cut? (c :: p) (a ++ c :: (p ++ r)) = some (a, r) := by
  induction a with
  | nil =>
    have hfront : dropPrefix? (c :: p) (c :: (p ++ r)) = some r := dropPrefix?_eq_some.2 rfl
    rw [List.nil_append, cut?, hfront]
  | cons x a ih =>
    obtain ⟨hx, ha⟩ := not_or.1 fun hmem => h (List.mem_cons.2 hmem)
    have hnone : dropPrefix? (c :: p) (x :: (a ++ c :: (p ++ r))) = none := if_neg hx
    rw [List.cons_append, cut?, hnone, ih ha]
    rfl

/-- The parts of a cut, with the mark between them, are the text. -/
theorem eq_of_cut? {p t a r : Text} (h : cut? p t = some (a, r)) : t = a ++ (p ++ r) := by
  induction t generalizing a with
  | nil =>
    cases p with
    | nil =>
      obtain ⟨rfl, rfl⟩ := Prod.mk.inj (Option.some.inj h)
      rfl
    | cons c p => exact absurd h (by simp [cut?])
  | cons c t ih =>
    unfold cut? at h
    split at h
    next rest hfront =>
      obtain ⟨rfl, rfl⟩ := Prod.mk.inj (Option.some.inj h)
      rw [List.nil_append]
      exact dropPrefix?_eq_some.1 hfront
    next =>
      obtain ⟨⟨a', r'⟩, hrest, heq⟩ := Option.map_eq_some_iff.1 h
      obtain ⟨rfl, rfl⟩ := Prod.mk.inj heq
      exact congrArg (c :: ·) (ih hrest)

/-- A text is cut at the first character of a kind. -/
theorem cut?_singleton_eq_some {c : Char} {t a r : Text} :
    cut? [c] t = some (a, r) ↔ c ∉ a ∧ t = a ++ c :: r := by
  constructor
  · intro h
    have ht : t = a ++ c :: r := eq_of_cut? h
    obtain ⟨front, rest, hsplit, hfront⟩ := List.eq_append_cons_of_mem (ht ▸ List.mem_append_cons_self : c ∈ t)
    obtain ⟨rfl, rfl⟩ := Prod.mk.inj (Option.some.inj ((cut?_append [] rest hfront).symm.trans (hsplit ▸ h)))
    exact ⟨hfront, ht⟩
  · rintro ⟨ha, rfl⟩
    exact cut?_append [] r ha

/-- A text that ends with another has something in front of it. -/
theorem endsWith_iff {t s : Text} : endsWith t s = true ↔ ∃ r, t = r ++ s := by
  rw [endsWith, startsWith, Option.isSome_iff_exists]
  constructor
  · rintro ⟨r, hr⟩
    refine ⟨r.reverse, ?_⟩
    rw [← List.reverse_reverse t, dropPrefix?_eq_some.1 hr, List.reverse_append,
      List.reverse_reverse]
  · rintro ⟨r, rfl⟩
    exact ⟨r.reverse, dropPrefix?_eq_some.2 List.reverse_append⟩

/-- An end that is there is taken off. -/
theorem trimSuffix_append (s t : Text) : trimSuffix s (t ++ s) = t := by
  rw [trimSuffix, dropPrefix?_eq_some.2 List.reverse_append]
  exact List.reverse_reverse t

theorem trimSuffix_of_not_endsWith {s t : Text} (h : endsWith t s = false) : trimSuffix s t = t := by
  have hnone : dropPrefix? s.reverse t.reverse = none := Option.not_isSome_iff_eq_none.1 (by
    rw [Bool.not_eq_true]
    exact h)
  rw [trimSuffix, hnone]

/-- The last parts of a joined text are joined at its end. -/
theorem join_suffix (sep : Text) (ps qs : List Text) : join sep qs <:+ join sep (ps ++ qs) := by
  induction ps with
  | nil => exact List.suffix_refl _
  | cons p ps ih =>
    cases hrest : ps ++ qs with
    | nil =>
      rw [(List.append_eq_nil_iff.1 hrest).2]
      exact List.nil_suffix
    | cons q rest =>
      rw [List.cons_append, hrest, join, ← hrest]
      exact ih.trans (List.suffix_append _ _)

/-- Joined parts in front of others. -/
theorem join_append (sep : Text) {ps qs : List Text} (hps : ps ≠ []) (hqs : qs ≠ []) :
    join sep (ps ++ qs) = join sep ps ++ sep ++ join sep qs := by
  fun_induction join sep ps with
  | case1 => exact absurd rfl hps
  | case2 p =>
    obtain ⟨q, qs, rfl⟩ := List.exists_cons_of_ne_nil hqs
    rfl
  | case3 p r ps ih =>
    rw [List.cons_append, List.cons_append, join, ← List.cons_append, ih (by simp)]
    simp only [List.append_assoc]

theorem join_concat (sep : Text) {ps : List Text} (hne : ps ≠ []) (p : Text) :
    join sep (ps ++ [p]) = join sep ps ++ sep ++ p := join_append sep hne (List.cons_ne_nil p [])

/-- What stands behind the last part stands behind the whole. -/
theorem join_concat_append (sep : Text) (ps : List Text) (p s : Text) :
    join sep (ps ++ [p ++ s]) = join sep (ps ++ [p]) ++ s := by
  by_cases hne : ps = []
  · rw [hne]
    rfl
  · rw [join_concat sep hne, join_concat sep hne, List.append_assoc _ p s]

theorem edged_join (sep : Text) {ps : List Text} (hne : ps ≠ []) (h : ∀ p ∈ ps, Edged p) :
    Edged (join sep ps) where
  first := by
    obtain ⟨p, qs, rfl⟩ := List.exists_cons_of_ne_nil hne
    obtain ⟨c, w, hp, hc⟩ := (h p (List.mem_cons_self ..)).first
    cases qs with
    | nil => exact ⟨c, w, hp, hc⟩
    | cons q qs => exact ⟨c, w ++ sep ++ join sep (q :: qs), by rw [join, hp]; rfl, hc⟩
  last := by
    obtain ⟨w, c, hlast, hc⟩ := (h _ (List.getLast_mem hne)).last
    obtain ⟨front, hjoin⟩ := join_suffix sep ps.dropLast [ps.getLast hne]
    rw [List.dropLast_concat_getLast] at hjoin
    exact ⟨front ++ w, c, by rw [← hjoin, join, hlast, List.append_assoc], hc⟩

/-! ## The order of texts -/

theorem lt_iff {s t : Text} : lt s t = true ↔ List.lt s t := by
  fun_induction lt s t with
  | case1 s => exact ⟨nofun, nofun⟩
  | case2 c t => exact ⟨fun _ => .nil, fun _ => rfl⟩
  | case3 a s t ih =>
    rw [ih]
    refine ⟨.cons, fun h => ?_⟩
    cases h with
    | rel h => exact absurd h (Nat.lt_irrefl _)
    | cons h => exact h
  | case4 a s b t hne =>
    rw [decide_eq_true_eq]
    refine ⟨fun h => List.Lex.rel (show a < b from h), fun h => ?_⟩
    cases h with
    | rel h => exact h
    | cons h => exact absurd rfl hne

theorem le_iff {s t : Text} : le s t = true ↔ List.le s t := by
  rw [le, Bool.not_eq_true', ← Bool.not_eq_true, lt_iff]
  rfl

/-- Sorting by a text sorts. -/
theorem mergeSort_sorted {α : Type} (key : α → Text) (l : List α) :
    (l.mergeSort fun a b => le (key a) (key b)).Pairwise fun a b => le (key a) (key b) = true := by
  refine List.pairwise_mergeSort (fun a b c hab hbc => ?_) (fun a b => ?_) _
  · rw [le_iff] at hab hbc ⊢
    exact List.le_trans hab hbc
  · rw [Bool.or_eq_true, le_iff, le_iff]
    exact List.le_total (key a) (key b)

theorem sort_sorted (l : List Text) : (sort l).Pairwise fun s t => le s t = true := mergeSort_sorted id l

/-! ## Decimal digits -/

/-- The digits of a number tell it. -/
theorem digitsValue_ofNat (n : Nat) : digitsValue (ofNat n) = n := by
  calc digitsValue (ofNat n) = Nat.ofDigitChars 10 (Nat.toDigits 10 n) 0 := by
        rw [Nat.ofDigitChars_eq_foldl]
        unfold digitsValue ofNat
        congr 1
        funext value c
        rw [Nat.mul_comm 10]
        rfl
    _ = n := Nat.ofDigitChars_ten_toDigits

theorem ofNat_inj {m n : Nat} (h : ofNat m = ofNat n) : m = n := by
  rw [← digitsValue_ofNat m, h, digitsValue_ofNat]

theorem isDigit_of_mem_ofNat {n : Nat} {c : Char} (h : c ∈ ofNat n) : isDigit c = true :=
  Nat.isDigit_of_mem_toDigits (by decide) (by decide) h

/-- A number is not wider than a greater one. -/
theorem length_ofNat_mono {m n : Nat} (h : m ≤ n) : (ofNat m).length ≤ (ofNat n).length := by
  have hwidth : 0 < (ofNat n).length := Nat.length_toDigits_pos
  have hn : n < 10 ^ (ofNat n).length :=
    (Nat.length_toDigits_le_iff (by decide) hwidth).1 (Nat.le_refl _)
  exact (Nat.length_toDigits_le_iff (by decide) hwidth).2 (Nat.lt_of_le_of_lt h hn)

/-! ## Lines -/

theorem splitOn_of_not_mem {sep : Char} {p : Text} (h : sep ∉ p) : splitOn sep p = [p] := by
  induction p with
  | nil => rfl
  | cons c p ih =>
    obtain ⟨hc, hp⟩ := not_or.1 fun hm => h (List.mem_cons.2 hm)
    rw [splitOn, if_neg fun he => hc he.symm, ih hp]

/-- A separator cuts. -/
theorem splitOn_append_cons (sep : Char) (s t : Text) :
    splitOn sep (s ++ sep :: t) = splitOn sep s ++ splitOn sep t := by
  induction s with
  | nil =>
    show splitOn sep (sep :: t) = [] :: splitOn sep t
    rw [splitOn, if_pos rfl]
  | cons c s ih =>
    rw [List.cons_append, splitOn, splitOn, ih]
    split
    next => rfl
    next =>
      cases hs : splitOn sep s with
      | nil => exact absurd hs (splitOn_ne_nil sep s)
      | cons p ps => rfl

/-- The part in front of the first separator is cut off. -/
theorem splitOn_append {sep : Char} {p : Text} (t : Text) (h : sep ∉ p) :
    splitOn sep (p ++ sep :: t) = p :: splitOn sep t := by
  rw [splitOn_append_cons, splitOn_of_not_mem h]
  rfl

/-- Parts without the separator are found again in the text joined from them. -/
theorem splitOn_join {sep : Char} {ps : List Text} (hne : ps ≠ []) (h : ∀ p ∈ ps, sep ∉ p) :
    splitOn sep (join [sep] ps) = ps := by
  fun_induction join [sep] ps with
  | case1 => exact absurd rfl hne
  | case2 p => exact splitOn_of_not_mem (h p (List.mem_cons_self ..))
  | case3 p q ps ih =>
    rw [List.append_assoc, List.singleton_append, splitOn_append _ (h p (List.mem_cons_self ..))]
    exact congrArg (p :: ·) (ih (by simp) fun r hr => h r (List.mem_cons_of_mem _ hr))

/-- The parts of a text join to it again. -/
theorem join_splitOn (sep : Char) (t : Text) : join [sep] (splitOn sep t) = t := by
  induction t with
  | nil => rfl
  | cons c t ih =>
    obtain ⟨p, ps, hp⟩ := List.exists_cons_of_ne_nil (splitOn_ne_nil sep t)
    rw [hp] at ih
    rw [splitOn, hp]
    split
    next hc => rw [join, ih, hc]; rfl
    next =>
      cases ps with
      | nil => rw [← ih]; rfl
      | cons q ps => rw [← ih]; rfl

theorem join_lines (t : Text) : join "\n" (lines t) = t := join_splitOn '\n' t

/-- Lines that hold no newline are the lines of the text joined from them. -/
theorem lines_join {ls : List Text} (hne : ls ≠ []) (h : ∀ l ∈ ls, '\n' ∉ l) :
    lines (join "\n" ls) = ls := splitOn_join hne h

/-- A text has one line more than newlines. -/
theorem length_lines (t : Text) : (lines t).length = t.count '\n' + 1 := by
  unfold lines
  induction t with
  | nil => rfl
  | cons c t ih =>
    rw [splitOn, List.count_cons]
    by_cases hc : c = '\n'
    · rw [if_pos hc, List.length_cons, ih, if_pos (by simpa using hc)]
    · obtain ⟨p, ps, hp⟩ := List.exists_cons_of_ne_nil (splitOn_ne_nil '\n' t)
      rw [hp] at ih
      rw [if_neg hc, hp, if_neg (by simpa using hc), ← ih]
      rfl

theorem not_mem_of_mem_splitOn {sep : Char} {t p : Text} (h : p ∈ splitOn sep t) : sep ∉ p := by
  induction t generalizing p with
  | nil =>
    rw [List.mem_singleton.1 h]
    simp
  | cons c t ih =>
    unfold splitOn at h
    split at h
    next =>
      rcases List.mem_cons.1 h with rfl | hp
      · simp
      · exact ih hp
    next hc =>
      split at h
      next heq => exact absurd heq (splitOn_ne_nil sep t)
      next q qs heq =>
        rcases List.mem_cons.1 h with rfl | hp
        · intro hm
          rcases List.mem_cons.1 hm with rfl | hm'
          · exact hc rfl
          · exact ih (heq ▸ List.mem_cons_self ..) hm'
        · exact ih (heq ▸ List.mem_cons_of_mem _ hp)

/-- A line holds no newline. -/
theorem not_mem_of_mem_lines {t l : Text} (h : l ∈ lines t) : '\n' ∉ l := not_mem_of_mem_splitOn h

theorem linesWithEnds_eq_nil {t : Text} (h : linesWithEnds t = []) : t = [] := by
  cases t with
  | nil => rfl
  | cons c t =>
    unfold linesWithEnds at h
    split at h
    next => exact absurd h (by simp)
    next => split at h <;> exact absurd h (by simp)

/-- **The two ways to cut agree.** A line with its end is the line with the
same number and a newline, except for the last one, which may lack it. -/
theorem getElem?_linesWithEnds {t l : Text} {k : Nat} (h : (linesWithEnds t)[k]? = some l) :
    ∃ l', (lines t)[k]? = some l' ∧
      (l = l' ++ ['\n'] ∨ l = l' ∧ (linesWithEnds t).length = k + 1) := by
  induction t generalizing l k with
  | nil => exact absurd h (by simp [linesWithEnds])
  | cons c t ih =>
    unfold lines splitOn
    unfold linesWithEnds at h ⊢
    by_cases hc : c = '\n'
    · rw [if_pos hc] at h ⊢
      rw [if_pos hc]
      cases k with
      | zero =>
        refine ⟨[], rfl, Or.inl ?_⟩
        rw [← Option.some.inj h, hc]
        rfl
      | succ k =>
        obtain ⟨l', hl', hends⟩ := ih h
        refine ⟨l', hl', ?_⟩
        rcases hends with hends | ⟨hl, hlen⟩
        · exact Or.inl hends
        · exact Or.inr ⟨hl, congrArg (· + 1) hlen⟩
    · rw [if_neg hc] at h ⊢
      rw [if_neg hc]
      cases hw : linesWithEnds t with
      | nil =>
        obtain rfl := linesWithEnds_eq_nil hw
        rw [hw] at h
        simp only at h
        cases k with
        | zero => exact ⟨[c], rfl, Or.inr ⟨(Option.some.inj h).symm, rfl⟩⟩
        | succ k => exact absurd h (by simp)
      | cons p ps =>
        rw [hw] at h ih
        simp only at h ⊢
        cases hs : splitOn '\n' t with
        | nil => exact absurd hs (splitOn_ne_nil '\n' t)
        | cons q qs =>
          unfold lines at ih
          rw [hs] at ih
          cases k with
          | zero =>
            obtain ⟨l', hl', hends⟩ := ih (l := p) (k := 0) rfl
            obtain rfl : q = l' := Option.some.inj hl'
            refine ⟨c :: q, rfl, ?_⟩
            rw [← Option.some.inj h]
            rcases hends with rfl | ⟨rfl, hlen⟩
            · exact Or.inl rfl
            · exact Or.inr ⟨rfl, hlen⟩
          | succ k => exact ih (l := l) (k := k + 1) h

end Docweave.Text

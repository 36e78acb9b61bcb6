import Docweave.Proofs.SourceLines
import Mathlib.Data.List.Forall2

/-!
# Hidden text

Fences, indented code, code spans, and the script and style blocks are hidden
by different scans, and all of them do the same to a text: some characters
become spaces, every other character stays, and so does every newline. `Hides`
says so character by character. It is kept when a text is cut into lines and
put together again (`hides_lines`, `hides_join`), which is how the scans go
about it.

> `hides_hideFences`, `hides_hideCode`, `hides_hideElements`: each scan only
> hides.

> `lines_hideFences`, `lines_hideCode`: what the lines of the hidden text are.

> `lines_spread`: the lines seen from outside are the spread lines, one by one.
-/

namespace Docweave.Source

open Text

/-- What hiding may make of the character `c`: a newline stays. -/
def Hidden (c d : Char) : Prop := d = c ∨ d = ' ' ∧ c ≠ '\n'

/-- `h` is `t` with some of its characters hidden. -/
abbrev Hides (t h : Text) : Prop := List.Forall₂ Hidden t h

theorem Hidden.newline_iff {c d : Char} (h : Hidden c d) : d = '\n' ↔ c = '\n' := by
  rcases h with rfl | ⟨rfl, hc⟩
  · exact Iff.rfl
  · exact ⟨fun h => absurd h (by decide), fun h => absurd h hc⟩

theorem hides_refl (t : Text) : Hides t t := List.forall₂_same.2 fun _ _ => Or.inl rfl

/-- What is hidden in two turns is hidden. -/
theorem Hides.trans {t h g : Text} (hth : Hides t h) (hhg : Hides h g) : Hides t g := by
  induction hth generalizing g with
  | nil => exact hhg
  | cons hcd _ ih =>
    cases hhg with
    | cons hde hrest =>
      refine .cons ?_ (ih hrest)
      rcases hde with rfl | ⟨rfl, hd⟩
      · exact hcd
      · exact Or.inr ⟨rfl, fun hc => hd (hcd.newline_iff.2 hc)⟩

theorem Hides.append {t u h g : Text} (hth : Hides t h) (hug : Hides u g) :
    Hides (t ++ u) (h ++ g) := List.rel_append hth hug

theorem hides_hideAll (t : Text) : Hides t (hideAll t) := by
  refine List.forall₂_map_right_iff.2 (List.forall₂_same.2 fun c _ => ?_)
  unfold hide
  split
  next => exact Or.inl rfl
  next hc => exact Or.inr ⟨rfl, hc⟩

/-- Hiding neither makes nor removes a newline. -/
theorem Hides.newline_mem_iff {t h : Text} (hth : Hides t h) : '\n' ∈ h ↔ '\n' ∈ t := by
  induction hth with
  | nil => exact Iff.rfl
  | cons hcd _ ih =>
    rw [List.mem_cons, List.mem_cons, ih, eq_comm, hcd.newline_iff, eq_comm]

/-- What is seen of a text, apart from spaces, is there. -/
theorem Hides.seen {t h : Text} (hth : Hides t h) {i : Nat} {d : Char} (hd : h[i]? = some d)
    (hne : d ≠ ' ') : t[i]? = some d := by
  obtain ⟨hlt, rfl⟩ := List.getElem?_eq_some_iff.1 hd
  have hlt' : i < t.length := hth.length_eq ▸ hlt
  rcases hth.get hlt' hlt with heq | ⟨hspace, _⟩
  · exact (List.getElem?_eq_getElem hlt').trans (congrArg some heq.symm)
  · exact absurd hspace hne

/-! ## Lines -/

/-- Hiding keeps the lines, and hides in each of them. -/
theorem hides_lines {t h : Text} (hth : Hides t h) : List.Forall₂ Hides (lines t) (lines h) := by
  unfold lines
  induction hth with
  | nil => exact .cons .nil .nil
  | @cons c d t h hcd _ ih =>
    rw [splitOn, splitOn]
    by_cases hc : c = '\n'
    · rw [if_pos hc, if_pos (hcd.newline_iff.2 hc)]
      exact .cons .nil ih
    · rw [if_neg hc, if_neg fun hd => hc (hcd.newline_iff.1 hd)]
      revert ih
      generalize splitOn '\n' t = ls, splitOn '\n' h = hs
      rintro (_ | ⟨hl, hls⟩)
      · exact .cons (.cons hcd .nil) .nil
      · exact .cons (.cons hcd hl) hls

/-- Lines that are hidden one by one make a hidden text. -/
theorem hides_join {ls hs : List Text} (h : List.Forall₂ Hides ls hs) :
    Hides (join "\n" ls) (join "\n" hs) := by
  induction h with
  | nil => exact .nil
  | cons hl hls ih =>
    cases hls with
    | nil => exact hl
    | cons => exact (hl.append (hides_refl ['\n'])).append ih

/-- Lines hidden one by one are the lines of the text joined from them. -/
theorem lines_join_of_hides {t : Text} {hs : List Text} (h : List.Forall₂ Hides (lines t) hs) :
    lines (join "\n" hs) = hs := by
  refine lines_join ?_ fun g hg => ?_
  · rintro rfl
    exact splitOn_ne_nil '\n' t (List.forall₂_nil_right_iff.1 h)
  · obtain ⟨k, hk⟩ := List.getElem?_of_mem hg
    obtain ⟨hlt, rfl⟩ := List.getElem?_eq_some_iff.1 hk
    have hkt : k < (lines t).length := h.length_eq ▸ hlt
    exact mt (h.get hkt hlt).newline_mem_iff.1 (not_mem_of_mem_lines (List.getElem_mem hkt))

/-! ## Fences -/

theorem length_fencedLines (fence : Text) (ls : List Text) :
    (fencedLines fence ls).length = ls.length := by
  induction ls generalizing fence with
  | nil => rfl
  | cons l ls ih =>
    unfold fencedLines
    simp only
    split
    · exact congrArg (· + 1) (ih _)
    · exact congrArg (· + 1) (ih _)

/-- A line of the text with its fences hidden. -/
def fenceLine (p : Text × Bool) : Text := if p.2 then hideAll p.1 else p.1

theorem hides_fenceLine (l : Text) (b : Bool) : Hides l (fenceLine (l, b)) := by
  cases b with
  | false => exact hides_refl l
  | true => exact hides_hideAll l

theorem hides_fenceLines {ls : List Text} {bs : List Bool} (h : bs.length = ls.length) :
    List.Forall₂ Hides ls ((ls.zip bs).map fenceLine) := by
  induction ls generalizing bs with
  | nil => exact .nil
  | cons l ls ih =>
    obtain ⟨b, bs, rfl⟩ := List.exists_cons_of_length_eq_add_one h
    exact .cons (hides_fenceLine l b) (ih (Nat.succ.inj h))

theorem lines_hideFences (t : Text) :
    lines (hideFences t) = ((lines t).zip (fencedLines [] (lines t))).map fenceLine :=
  lines_join_of_hides (hides_fenceLines (length_fencedLines [] (lines t)))

theorem hides_hideFences (t : Text) : Hides t (hideFences t) := by
  have h := hides_join (hides_fenceLines (length_fencedLines [] (lines t)))
  rwa [join_lines] at h

/-! ## Code spans -/

theorem closeSpan?_append {n fuel : Nat} {t a b : Text} (h : closeSpan? n fuel t = some (a, b)) :
    t = a ++ b := by
  fun_induction closeSpan? n fuel t generalizing a b with
  | case1 => exact absurd h (by simp)
  | case2 => exact absurd h (by simp)
  | case3 =>
    obtain ⟨rfl, rfl⟩ := Prod.mk.inj (Option.some.inj h)
    exact (List.take_append_drop _ _).symm
  | case4 =>
    rename_i ih
    obtain ⟨⟨a', b'⟩, hrest, heq⟩ := Option.map_eq_some_iff.1 h
    obtain ⟨rfl, rfl⟩ := Prod.mk.inj heq
    rw [List.append_assoc, ← ih hrest]
    exact (List.take_append_drop _ _).symm
  | case5 fuel c t hc ih =>
    obtain ⟨⟨a', b'⟩, hrest, heq⟩ := Option.map_eq_some_iff.1 h
    obtain ⟨rfl, rfl⟩ := Prod.mk.inj heq
    rw [List.cons_append, ← ih hrest]

theorem hides_hideSpans (unmatched : List Nat) (fuel : Nat) (t : Text) :
    Hides t (hideSpans unmatched fuel t) := by
  fun_induction hideSpans unmatched fuel t with
  | case1 unmatched t => exact hides_refl t
  | case2 => exact .nil
  | case3 unmatched fuel => exact hides_refl _
  | case4 unmatched fuel d t ih => exact (hides_refl ['\\', d]).append ih
  | case5 unmatched fuel t hc n run rest hn ih =>
    have h := (hides_refl run).append ih
    rwa [List.take_append_drop] at h
  | case6 unmatched fuel t inner behind hc n run rest hn hclose ih =>
    have h := (hides_hideAll (run ++ inner)).append ih
    rwa [List.append_assoc, ← closeSpan?_append hclose, List.take_append_drop] at h
  | case7 unmatched fuel t hc n run rest hn hclose ih =>
    have h := (hides_refl run).append ih
    rwa [List.take_append_drop] at h
  | case8 unmatched fuel c t hslash hc ih => exact .cons (Or.inl rfl) ih

/-! ## Indented code and paragraphs -/

theorem lineRoles_lines (s : LineState) (ls : List Text) : (lineRoles s ls).map Prod.snd = ls := by
  induction ls generalizing s with
  | nil => rfl
  | cons l ls ih => exact congrArg (l :: ·) (ih _)

/-- The lines of a paragraph keep their number, its code spans hidden. -/
theorem hides_flush {para : List Text} (h : ∀ l ∈ para, '\n' ∉ l) :
    List.Forall₂ Hides para.reverse (hideLines.flush para) := by
  unfold hideLines.flush
  split
  next hnil =>
    rw [List.isEmpty_iff.1 hnil]
    exact .nil
  next hne =>
    have hlines : lines (join "\n" para.reverse) = para.reverse :=
      lines_join (by simpa using hne) fun l hl => h l (List.mem_reverse.1 hl)
    have hspans := hides_lines (hides_hideSpans []
      (join "\n" para.reverse).length (join "\n" para.reverse))
    rwa [hlines] at hspans

theorem hides_hideLines (para : List Text) (roles : List (LineRole × Text))
    (hpara : ∀ l ∈ para, '\n' ∉ l) (hroles : ∀ p ∈ roles, '\n' ∉ p.2) :
    List.Forall₂ Hides (para.reverse ++ roles.map Prod.snd) (hideLines para roles) := by
  fun_induction hideLines para roles with
  | case1 para => simpa using hides_flush hpara
  | case2 para l roles ih =>
    have h := ih (List.forall_mem_cons.2 ⟨hroles _ (List.mem_cons_self ..), hpara⟩)
      fun p hp => hroles p (List.mem_cons_of_mem _ hp)
    simpa using h
  | case3 para l roles ih =>
    have h := ih (by simp) fun p hp => hroles p (List.mem_cons_of_mem _ hp)
    exact List.rel_append (hides_flush hpara) (.cons (hides_hideAll l) h)
  | case4 para l roles ih =>
    have h := ih (by simp) fun p hp => hroles p (List.mem_cons_of_mem _ hp)
    exact List.rel_append (hides_flush hpara) (.cons (hides_refl l) h)

theorem hides_codeLines (t : Text) :
    List.Forall₂ Hides (lines t) (hideLines [] (lineRoles {} (lines t))) := by
  have h := hides_hideLines [] (lineRoles {} (lines t)) (by simp) fun p hp =>
    not_mem_of_mem_lines (t := t) (by
      rw [← lineRoles_lines {} (lines t)]
      exact List.mem_map_of_mem hp)
  rwa [lineRoles_lines] at h

theorem lines_hideCode (t : Text) :
    lines (hideCode t) = hideLines [] (lineRoles {} (lines (hideFences t))) :=
  lines_join_of_hides (hides_codeLines (hideFences t))

theorem hides_hideCode (t : Text) : Hides t (hideCode t) := by
  have h := hides_join (hides_codeLines (hideFences t))
  rw [join_lines] at h
  exact (hides_hideFences t).trans h

/-! ## Script and style blocks -/

theorem hides_hideElements (spans : List ElementSpan) (t : Text) :
    Hides t (hideElements spans t) := by
  refine List.forall₂_iff_zip.2 ⟨(length_hideElements spans t).symm, fun {c d} hcd => ?_⟩
  obtain ⟨i, hi⟩ := List.getElem?_of_mem hcd
  obtain ⟨hc, hd⟩ := List.getElem?_zip_eq_some.1 hi
  rw [hideElements, List.getElem?_map, List.getElem?_zipIdx, hc] at hd
  simp only [Option.map_some, Option.some.injEq] at hd
  split at hd
  next =>
    unfold hide at hd
    split at hd
    next => exact Or.inl hd.symm
    next hne => exact Or.inr ⟨hd.symm, hne⟩
  next => exact Or.inl hd.symm

/-! ## The text seen from outside -/

theorem spread_cons (c d : Char) (t h : Text) :
    spread (c :: t) (d :: h) = shown (c, d) ++ spread t h := rfl

theorem spread_self (t : Text) : spread t t = t := by
  induction t with
  | nil => rfl
  | cons c t ih =>
    rw [spread_cons, shown, if_pos rfl, ih]
    rfl

/-- A line that is hidden as a whole leaves as many spaces as it has bytes. -/
theorem spread_hideAll {l : Text} (h : '\n' ∉ l) : spread l (hideAll l) = spaces (byteSize l) := by
  induction l with
  | nil => rfl
  | cons c l ih =>
    obtain ⟨hc, hl⟩ := not_or.1 fun hm => h (List.mem_cons.2 hm)
    have hshown : shown (c, hide c) = spaces c.utf8Size := by
      unfold shown
      split
      next heq =>
        obtain rfl : c = ' ' := by rwa [hide, if_neg fun he => hc he.symm] at heq
        rfl
      next => rfl
    show shown (c, hide c) ++ spread l (hideAll l) = _
    rw [ih hl, hshown, byteSize_cons]
    exact List.replicate_append_replicate

/-- **The lines of a spread text** are its lines, each spread on its own. -/
theorem lines_spread {t h : Text} (hth : Hides t h) :
    lines (spread t h) = List.zipWith spread (lines t) (lines h) := by
  unfold lines
  induction hth with
  | nil => rfl
  | @cons c d t h hcd _ ih =>
    rw [spread_cons, splitOn, splitOn]
    by_cases hc : c = '\n'
    · obtain rfl := hc
      obtain rfl := hcd.newline_iff.2 rfl
      rw [if_pos rfl, if_pos rfl, List.zipWith_cons_cons, ← ih]
      rfl
    · have hnewline : '\n' ∉ shown (c, d) := by
        intro hm
        rcases shown_chars hm with he | he
        · exact absurd he (by decide)
        · exact hc he.symm
      obtain ⟨p, ps, hp⟩ := List.exists_cons_of_ne_nil (splitOn_ne_nil '\n' t)
      obtain ⟨q, qs, hq⟩ := List.exists_cons_of_ne_nil (splitOn_ne_nil '\n' h)
      rw [hp, hq, List.zipWith_cons_cons] at ih
      rw [if_neg hc, if_neg fun hd => hc (hcd.newline_iff.1 hd), hp, hq,
        splitOn_append_front hnewline ih]
      rfl

end Docweave.Source

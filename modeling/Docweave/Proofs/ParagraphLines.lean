import Docweave.Markdown.BlockPass
import Docweave.Proofs.TextLaws

/-!
# The lines of a paragraph

Where the text of a paragraph comes from. A cursor stands on a line of its
source (`Cursor.On`), and as long as it has passed blanks only (`Fresh`) what
it hands to a paragraph is that line without the blanks in front:

> `led_segment`: `s.Led src` says that `s` is a line of `src` without the
> blanks in front.

A paragraph that closes loses link definitions at its start and a table at
its end, and is trimmed. None of this cuts into the text of its first line:

> `transformParagraph_cut`, `trimParagraph_cut`: `s.Cut src` says that `s` is a
> line of `src` without blanks in front and maybe without blanks behind.
-/

namespace Docweave.Markdown

open Docweave.Text

/-! ## The cursor -/

/-- The cursor stands on one of the lines, with the lines below it behind, or
behind the last line. -/
def Cursor.On (src : Text) (c : Cursor) : Prop :=
  (linesWithEnds src).drop c.row = c.line :: c.later ∨ (c.line = [] ∧ c.later = [])

/-- Nothing but blanks of the line is taken, or nothing but blanks is left. -/
def Cursor.Fresh (c : Cursor) : Prop :=
  (∀ x ∈ c.line.take c.used, isBlankAscii x = true) ∨ ∀ x ∈ c.rest, isBlankAscii x = true

/-- Nothing of the line is taken. -/
def Cursor.AtStart (c : Cursor) : Prop := c.used = 0 ∧ c.padding = 0

theorem fresh_of_atStart {c : Cursor} (h : c.AtStart) : c.Fresh := by
  left
  rw [h.1, List.take_zero]
  simp

theorem atStart_nextLine (c : Cursor) : c.nextLine.AtStart := by
  unfold Cursor.nextLine
  split <;> exact ⟨rfl, rfl⟩

theorem row_nextLine (c : Cursor) : c.nextLine.row = c.row + 1 := by
  unfold Cursor.nextLine
  split <;> rfl

theorem atStart_ofText (src : Text) : (Cursor.ofText src).AtStart := by
  unfold Cursor.ofText
  split <;> exact ⟨rfl, rfl⟩

section Lines

variable {src : Text}

theorem on_ofText (src : Text) : (Cursor.ofText src).On src := by
  unfold Cursor.ofText
  split
  next => exact Or.inr ⟨rfl, rfl⟩
  next l ls h => exact Or.inl h

theorem on_nextLine {c : Cursor} (h : c.On src) : c.nextLine.On src := by
  unfold Cursor.nextLine
  split
  next => exact Or.inr ⟨rfl, rfl⟩
  next l ls hl =>
    rcases h with h | ⟨_, h⟩
    · left
      simp only
      rw [← List.drop_drop, h, hl]
      rfl
    · rw [hl] at h
      exact absurd h (by simp)

/-- A cursor that moves on stays on the lines and does not go up. -/
theorem advance_on (n : Nat) {c : Cursor} (h : c.On src) :
    (c.advance n).On src ∧ c.row ≤ (c.advance n).row := by
  fun_induction Cursor.advance n c with
  | case1 => exact ⟨h, Nat.le_refl _⟩
  | case2 n c _ ih => exact ih h
  | case3 n c _ _ => exact ⟨h, Nat.le_refl _⟩
  | case4 n c _ _ _ ih =>
    obtain ⟨hon, hrow⟩ := ih (on_nextLine h)
    rw [row_nextLine] at hrow
    exact ⟨hon, by omega⟩
  | case5 n c _ _ _ _ _ ih => exact ih h

theorem advancePadded_on (n padding : Nat) {c : Cursor} (h : c.On src) :
    (c.advancePadded n padding).On src ∧ c.row ≤ (c.advancePadded n padding).row :=
  advance_on n h

theorem skipBlankLines_on {c : Cursor} (h : c.On src) (hs : c.AtStart) :
    c.skipBlankLines.2.On src ∧ c.row ≤ c.skipBlankLines.2.row ∧ c.skipBlankLines.2.AtStart := by
  unfold Cursor.skipBlankLines
  generalize c.later.length + 1 = fuel
  generalize (0 : Nat) = n
  fun_induction Cursor.skipBlankLines.go n c fuel with
  | case1 => exact ⟨h, Nat.le_refl _, hs⟩
  | case2 => exact ⟨h, Nat.le_refl _, hs⟩
  | case3 n c fuel _ _ ih =>
    obtain ⟨hon, hrow, hstart⟩ := ih (on_nextLine h) (atStart_nextLine c)
    rw [row_nextLine] at hrow
    exact ⟨hon, by omega, hstart⟩
  | case4 => exact ⟨h, Nat.le_refl _, hs⟩

/-- The line under a cursor is a line of the source. -/
theorem getElem?_of_on {c : Cursor} (h : c.On src) (hne : c.line ≠ []) :
    (linesWithEnds src)[c.row]? = some c.line := by
  rcases h with h | ⟨hl, _⟩
  · rw [← List.head?_drop, h]
    rfl
  · exact absurd hl hne

/-- A newline is the last character of its line. -/
theorem newline_last {l front behind : Text} {k : Nat} (h : (linesWithEnds src)[k]? = some l)
    (hl : l = front ++ '\n' :: behind) : behind = [] := by
  obtain ⟨l', hl', hends⟩ := getElem?_linesWithEnds h
  have hn : '\n' ∉ l' := not_mem_of_mem_lines (List.mem_of_getElem? hl')
  rcases hends with rfl | ⟨rfl, _⟩
  · rcases List.append_eq_append_iff.1 hl with ⟨t, hf, ht⟩ | ⟨t, hf, ht⟩
    · -- the newline of the front stands behind `l'`
      cases t with
      | nil => simpa using ht
      | cons x t =>
        have := congrArg List.length ht
        simp only [List.length_cons, List.length_nil, List.length_append] at this
        omega
    · cases t with
      | nil => simpa using ht
      | cons x t =>
        obtain ⟨rfl, _⟩ := List.cons.inj ht
        exact absurd (hf ▸ List.mem_append_right _ (List.mem_cons_self ..)) hn
  · exact absurd (hl ▸ List.mem_append_right _ (List.mem_cons_self ..)) hn

/-- A cursor that passes all of its line but blanks is fresh again, be it at
the end of the line or at the start of the next one. -/
theorem advance_fresh {n : Nat} {c : Cursor} (hp : c.padding = 0) (hn : n ≤ c.rest.length)
    (hnl : ∀ front behind, c.rest = front ++ '\n' :: behind → behind = [])
    (hb : ∀ x ∈ c.rest.drop n, isBlankAscii x = true) : (c.advance n).Fresh := by
  fun_induction Cursor.advance n c with
  | case1 c => exact Or.inr hb
  | case2 n c hpad ih => omega
  | case3 n c _ hrest =>
    right
    rw [hrest]
    simp
  | case4 n c _ t hrest ih =>
    -- the newline is the last character, so this is the last step
    obtain rfl : t = [] := hnl [] t hrest
    rw [hrest] at hn
    obtain rfl : n = 0 := by simpa using hn
    exact fresh_of_atStart (atStart_nextLine c)
  | case5 n c _ x t _ hrest ih =>
    have htail : Cursor.rest { c with used := c.used + 1 } = t := by
      rw [Cursor.rest, ← List.drop_drop]
      exact congrArg (List.drop 1) hrest
    refine ih hp ?_ ?_ ?_
    · rw [hrest] at hn
      rw [htail]
      simpa using hn
    · intro front behind hfront
      rw [htail] at hfront
      exact hnl (x :: front) behind (by rw [hrest, hfront]; rfl)
    · rw [hrest] at hb
      rw [htail]
      exact hb

/-! ## Segments -/

/-- The piece is a line of the source without the blanks in front of it. -/
structure Segment.Led (src : Text) (s : Segment) : Prop where
  plain : s.padding = 0 ∧ s.closesLine = false
  visible : ∃ c t, s.text = c :: t ∧ isBlankAscii c = false
  line : ∃ front, (linesWithEnds src)[s.row]? = some (front ++ s.text) ∧
    ∀ x ∈ front, isBlankAscii x = true

/-- The piece is a line of the source without the blanks in front of it, and
maybe without blanks behind it. -/
structure Segment.Cut (src : Text) (s : Segment) : Prop where
  plain : s.padding = 0 ∧ s.closesLine = false
  visible : ∃ c t, s.text = c :: t ∧ isBlankAscii c = false
  line : ∃ front behind, (linesWithEnds src)[s.row]? = some (front ++ s.text ++ behind) ∧
    (∀ x ∈ front, isBlankAscii x = true) ∧ ∀ x ∈ behind, isBlankAscii x = true

theorem cut_of_led {s : Segment} (h : s.Led src) : s.Cut src := by
  obtain ⟨front, hline, hfront⟩ := h.line
  exact ⟨h.plain, h.visible, front, [], by rw [List.append_nil]; exact hline, hfront, by simp⟩

theorem trimLeft_text (s : Segment) : s.trimLeft.text = s.text.dropWhile isBlankAscii := by
  calc s.trimLeft.text
      = List.drop (s.text.takeWhile isBlankAscii).length
          (s.text.takeWhile isBlankAscii ++ s.text.dropWhile isBlankAscii) := by
        rw [List.takeWhile_append_dropWhile]
        rfl
    _ = s.text.dropWhile isBlankAscii := List.drop_left

/-- What a fresh cursor hands to a paragraph. -/
theorem led_segment {c : Cursor} (hon : c.On src) (hf : c.Fresh)
    (hne : c.segment.trimLeft.text ≠ []) : c.segment.trimLeft.Led src := by
  have htext : c.segment.trimLeft.text = c.rest.dropWhile isBlankAscii := trimLeft_text _
  have hvisible : ∃ x t, c.rest.dropWhile isBlankAscii = x :: t ∧ isBlankAscii x = false := by
    cases hd : c.rest.dropWhile isBlankAscii with
    | nil =>
      rw [htext, hd] at hne
      exact absurd rfl hne
    | cons x t =>
      have := List.head?_dropWhile_not isBlankAscii c.rest
      rw [hd] at this
      exact ⟨x, t, rfl, by simpa using this⟩
  have htaken : ∀ x ∈ c.line.take c.used, isBlankAscii x = true := by
    rcases hf with hf | hf
    · exact hf
    · -- only blanks are left: nothing would be handed over
      obtain ⟨x, t, hx, hb⟩ := hvisible
      have hmem : x ∈ c.rest := List.dropWhile_subset isBlankAscii (hx ▸ List.mem_cons_self ..)
      rw [hf x hmem] at hb
      exact absurd hb (by simp)
  have hline : c.line ≠ [] := by
    intro hnil
    rw [htext, Cursor.rest, hnil] at hne
    simp at hne
  refine ⟨⟨rfl, rfl⟩, ?_, c.line.take c.used ++ c.rest.takeWhile isBlankAscii, ?_, ?_⟩
  · rw [htext]
    exact hvisible
  · rw [htext, List.append_assoc, List.takeWhile_append_dropWhile, Cursor.rest,
      List.take_append_drop]
    exact getElem?_of_on hon hline
  · intro x hx
    rcases List.mem_append.1 hx with hx | hx
    · exact htaken x hx
    · exact List.all_eq_true.1 List.all_takeWhile x hx

/-- Every line but the last ends with a newline. -/
theorem led_newline {s : Segment} (h : s.Led src) (hrow : s.row + 1 < (linesWithEnds src).length) :
    ∃ c t, s.text = c :: t ++ ['\n'] ∧ isBlankAscii c = false := by
  obtain ⟨front, hline, hfront⟩ := h.line
  obtain ⟨c, t, htext, hc⟩ := h.visible
  obtain ⟨l', _, hends⟩ := getElem?_linesWithEnds hline
  rcases hends with hl | ⟨_, hlen⟩
  · rw [htext] at hl
    rcases List.append_eq_append_iff.1 hl with ⟨u, hu, hu'⟩ | ⟨u, hu, hu'⟩
    · cases u with
      | nil =>
        obtain ⟨rfl, _⟩ : c = '\n' ∧ t = [] := by simpa using hu'
        exact absurd hc (by decide)
      | cons x u =>
        obtain ⟨rfl, ht⟩ := List.cons.inj hu'
        exact ⟨c, u, by rw [htext, ht]; rfl, hc⟩
    · cases u with
      | nil =>
        obtain ⟨rfl, _⟩ : '\n' = c ∧ [] = t := by simpa using hu'
        exact absurd hc (by decide)
      | cons x u =>
        have := congrArg List.length hu'
        simp only [List.length_cons, List.length_nil, List.length_append] at this
        omega
  · omega

theorem cut_trimLeft {s : Segment} (h : s.Cut src) : s.trimLeft.Cut src := by
  obtain ⟨c, t, htext, hc⟩ := h.visible
  have hsame : s.trimLeft.text = s.text := by
    rw [trimLeft_text, htext, List.dropWhile_cons_of_neg (by simp [hc])]
  refine ⟨⟨rfl, rfl⟩, ⟨c, t, hsame.trans htext, hc⟩, ?_⟩
  rw [hsame]
  exact h.line

theorem cut_trimRight {s : Segment} (h : s.Cut src) : s.trimRight.Cut src := by
  obtain ⟨c, t, htext, hc⟩ := h.visible
  obtain ⟨front, behind, hline, hfront, hbehind⟩ := h.line
  have hblank : isBlank s.text = false := by
    rw [htext, isBlank, List.all_cons, hc]
    rfl
  have hsame : s.trimRight
      = { s with text := trimRight isBlankAscii s.text, closesLine := false } := by
    rw [Segment.trimRight, hblank]
    rfl
  obtain ⟨tail, htail, htailBlank⟩ := eq_trimRight_append isBlankAscii s.text
  rw [hsame]
  refine ⟨⟨h.plain.1, rfl⟩, ⟨c, trimRight isBlankAscii t, ?_, hc⟩, front, tail ++ behind, ?_,
    hfront, ?_⟩
  · rw [htext]
    exact trimRight_cons t hc
  · rw [htail] at hline
    simpa [List.append_assoc] using hline
  · intro x hx
    rcases List.mem_append.1 hx with hx | hx
    · exact htailBlank x hx
    · exact hbehind x hx

/-- The newline may go. -/
theorem cut_dropNewline {s : Segment} (h : s.Led src)
    (hrow : s.row + 1 < (linesWithEnds src).length) :
    (s.take (s.text.length - 1)).Cut src := by
  obtain ⟨c, t, htext, hc⟩ := led_newline h hrow
  obtain ⟨front, hline, hfront⟩ := h.line
  have htake : s.text.take (s.text.length - 1) = c :: t := by
    rw [htext, List.length_append]
    exact List.take_left
  refine ⟨h.plain, ⟨c, t, htake, hc⟩, front, ['\n'], ?_, hfront, by simp; decide⟩
  show (linesWithEnds src)[s.row]? = some (front ++ s.text.take (s.text.length - 1) ++ ['\n'])
  rw [htake, List.append_assoc, ← htext]
  exact hline

/-! ## Paragraphs that close -/

/-- The lines of a paragraph that is open: lines of the source, from top to
bottom. -/
structure OpenLines (src : Text) (lines : List Segment) : Prop where
  led : ∀ s ∈ lines, s.Led src
  rows : lines.Pairwise fun a b => a.row < b.row

theorem openLines_sublist {lines lines' : List Segment} (h : OpenLines src lines)
    (hs : lines'.Sublist lines) : OpenLines src lines' :=
  ⟨fun s hm => h.led s (hs.subset hm), h.rows.sublist hs⟩

theorem openLines_concat {lines : List Segment} {s : Segment} (h : OpenLines src lines)
    (hs : s.Led src) (hrows : ∀ x ∈ lines, x.row < s.row) : OpenLines src (lines ++ [s]) := by
  refine ⟨?_, List.pairwise_append.2 ⟨h.rows, List.pairwise_singleton .., ?_⟩⟩
  · intro x hx
    rcases List.mem_append.1 hx with hx | hx
    · exact h.led x hx
    · rw [List.mem_singleton.1 hx]
      exact hs
  · intro x hx y hy
    rw [List.mem_singleton.1 hy]
    exact hrows x hx

theorem removeRanges_sublist {α : Type} (offset : Nat) {ranges : List (Nat × Nat)} (l : List α)
    (h : ∀ r ∈ ranges, r.1 ≤ r.2) : (removeRanges offset ranges l).Sublist l := by
  fun_induction removeRanges offset ranges l with
  | case1 => exact List.Sublist.refl _
  | case2 => exact List.Sublist.refl _
  | case3 offset first last rs l _ ih =>
    refine (ih fun r hr => h r (List.mem_cons_of_mem _ hr)).trans ?_
    have hle : first ≤ last := h (first, last) (List.mem_cons_self ..)
    have hdrop : (l.drop (last - offset)).Sublist (l.drop (first - offset)) :=
      List.drop_sublist_drop_left l (by omega)
    calc (l.take (first - offset) ++ l.drop (last - offset)).Sublist
          (l.take (first - offset) ++ l.drop (first - offset)) := hdrop.append_left _
      _ = l := List.take_append_drop ..

/-- A reader does not go back. -/
theorem index_advance (n : Nat) (r : Reader) : r.index ≤ (r.advance n).index := by
  fun_induction Reader.advance n r with
  | case1 => exact Nat.le_refl _
  | case2 => exact Nat.le_refl _
  | case3 n r _ s ss _ _ ih =>
    have hnext : r.nextLine.index = r.index + 1 := by
      unfold Reader.nextLine
      split <;> rfl
    omega
  | case4 n r _ _ ih => exact ih

theorem index_findClosure? {opener closer : Char} {r r' : Reader} {t : Text}
    (h : r.findClosure? opener closer = some (t, r')) : r.index ≤ r'.index := by
  obtain ⟨n, _, hn⟩ := Option.map_eq_some_iff.1 h
  obtain rfl : r.advance (n + 1) = r' := congrArg Prod.snd hn
  exact index_advance _ r

theorem index_destination? {r r' : Reader} {t : Text} (h : destination? r = some (t, r')) :
    r.index ≤ r'.index := by
  have hskip : r.index ≤ r.skipSpaces.2.index := index_advance _ r
  unfold destination? at h
  simp only at h
  split at h
  next u hu =>
    obtain ⟨n, _, hn⟩ := Option.map_eq_some_iff.1 h
    obtain rfl : r.skipSpaces.2.advance (n + 2) = r' := congrArg Prod.snd hn
    exact Nat.le_trans hskip (index_advance _ _)
  next =>
    split at h
    next => exact absurd h (by simp)
    next =>
      obtain rfl : r.skipSpaces.2.advance _ = r' := congrArg Prod.snd (Option.some.inj h)
      exact Nat.le_trans hskip (index_advance _ _)

/-- The lines of a definition are a range. -/
theorem definition?_range {r r' : Reader} {first last : Nat} {d : Text × Text × Text}
    (h : definition? r = some ((first, last), d, r')) : first ≤ last := by
  unfold definition? at h
  obtain ⟨_, _, h⟩ := Option.bind_eq_some_iff.1 h
  obtain ⟨⟨label, r₁⟩, h₁, h⟩ := Option.bind_eq_some_iff.1 h
  obtain ⟨_, _, h⟩ := Option.bind_eq_some_iff.1 h
  obtain ⟨_, _, h⟩ := Option.bind_eq_some_iff.1 h
  obtain ⟨⟨dest, r₂⟩, h₂, h⟩ := Option.bind_eq_some_iff.1 h
  have hfirst : r.skipSpaces.2.index ≤ r₂.index := calc
    r.skipSpaces.2.index ≤ (r.skipSpaces.2.advance 1).index := index_advance _ _
    _ ≤ r₁.index := index_findClosure? h₁
    _ ≤ (r₁.advance 1).index := index_advance _ _
    _ ≤ (r₁.advance 1).skipSpaces.2.index := index_advance _ _
    _ ≤ r₂.index := index_destination? h₂
  dsimp only at h
  split at h
  next =>
    split at h
    next =>
      simp only [Option.some.injEq, Prod.mk.injEq] at h
      omega
    next => exact absurd h (by simp)
  next opener closer _ =>
    obtain ⟨_, _, h⟩ := Option.bind_eq_some_iff.1 h
    split at h
    next =>
      split at h
      next =>
        simp only [Option.some.injEq, Prod.mk.injEq] at h
        omega
      next => exact absurd h (by simp)
    next title r₃ h₃ =>
      have hlast : r₂.index ≤ r₃.index := calc
        r₂.index ≤ r₂.skipSpaces.2.index := index_advance _ _
        _ ≤ (r₂.skipSpaces.2.advance 1).index := index_advance _ _
        _ ≤ r₃.index := index_findClosure? h₃
      split at h
      next =>
        split at h
        next =>
          simp only [Option.some.injEq, Prod.mk.injEq] at h
          omega
        next => exact absurd h (by simp)
      next =>
        simp only [Option.some.injEq, Prod.mk.injEq] at h
        omega

theorem definitions_ranges (fuel : Nat) (r : Reader) (refs : List Reference) :
    ∀ p ∈ (definitions fuel r refs).1, p.1 ≤ p.2 := by
  fun_induction definitions fuel r refs with
  | case1 => simp
  | case2 => simp
  | case3 fuel r refs first last label dest title r' hd ranges refs' hrec ih =>
    intro p hp
    rcases List.mem_cons.1 hp with rfl | hp
    · have := definition?_range hd
      simp only
      split <;> omega
    · rw [hrec] at ih
      exact ih p hp

/-- Definitions leave some of the lines. -/
theorem takeDefinitions_sublist (lines : List Segment) (refs : List Reference) :
    (takeDefinitions lines refs).1.Sublist lines := by
  unfold takeDefinitions
  exact removeRanges_sublist 0 lines (definitions_ranges _ _ _)

/-- A table takes the lines from some line on, at least two of them. -/
theorem splitTable?_eq_some {lines above : List Segment} {table : Draft}
    (h : splitTable? lines = some (above, table)) :
    table.shape = .table ∧ ∃ header line below, lines = above ++ header :: line :: below := by
  have key : ∀ (front : List Segment) (header : Segment) (rest : List Segment),
      splitTable?.go front header rest = some (above, table) →
      table.shape = .table ∧
        ∃ header' line below, front ++ header :: rest = above ++ header' :: line :: below := by
    intro front header rest
    induction rest generalizing front header with
    | nil => intro hgo; exact absurd hgo (by simp [splitTable?.go])
    | cons line below ih =>
      intro hgo
      unfold splitTable?.go at hgo
      split at hgo
      next =>
        obtain ⟨hshape, header', line', below', heq⟩ := ih _ _ hgo
        exact ⟨hshape, header', line', below', by rw [← heq]; simp⟩
      next =>
        simp only at hgo
        split at hgo
        next =>
          simp only [Option.some.injEq, Prod.mk.injEq] at hgo
          obtain ⟨rfl, rfl⟩ := hgo
          exact ⟨rfl, header, line, below, rfl⟩
        next => exact absurd hgo (by simp)
  unfold splitTable? at h
  split at h
  next => exact absurd h (by simp)
  next first rest =>
    obtain ⟨hshape, header, line, below, heq⟩ := key [] first rest h
    exact ⟨hshape, header, line, below, heq⟩

/-- The first line that is left above a table. When it is the only one it
loses its newline, which it has because the table stands below it. -/
theorem takeTable_cut {lines rest : List Segment} {s : Segment} (h : OpenLines src lines)
    (hs : (takeTable lines).1 = s :: rest) : s.Cut src := by
  unfold takeTable at hs
  split at hs
  next =>
    obtain rfl : lines = s :: rest := hs
    exact cut_of_led (h.led s (List.mem_cons_self ..))
  next above table htable =>
    obtain ⟨_, header, line, below, rfl⟩ := splitTable?_eq_some htable
    match above with
    | [] => exact absurd hs (by simp)
    | [a] =>
      obtain ⟨rfl, _⟩ : a.take (a.text.length - 1) = s ∧ _ := List.cons.inj hs
      refine cut_dropNewline (h.led a (by simp)) ?_
      have hrows : a.row < header.row ∧ header.row < line.row := by
        have := h.rows
        simp only [List.cons_append, List.nil_append, List.pairwise_cons] at this
        exact ⟨this.1 header (by simp), this.2.1 line (by simp)⟩
      obtain ⟨front, hline, _⟩ := (h.led line (by simp)).line
      have := (List.getElem?_eq_some_iff.1 hline).1
      omega
    | a :: b :: above =>
      obtain ⟨rfl, _⟩ := List.cons.inj hs
      exact cut_of_led (h.led a (by simp))

/-- **What is left of a paragraph.** Definitions and a table leave the text
of the first line whole. -/
theorem transformParagraph_cut {blank : Bool} {lines rest : List Segment} {refs : List Reference}
    {s : Segment} (h : OpenLines src lines)
    (hs : (transformParagraph blank lines refs).1 = s :: rest) : s.Cut src := by
  have hopen := openLines_sublist h (takeDefinitions_sublist lines refs)
  unfold transformParagraph at hs
  simp only at hs
  split at hs
  next => exact absurd hs (by simp)
  next => exact takeTable_cut hopen hs

/-- What stands in place of a paragraph or behind it is no paragraph. -/
theorem transformParagraph_after (blank : Bool) (lines : List Segment) (refs : List Reference) :
    ∀ d ∈ (transformParagraph blank lines refs).2.1, d.shape ≠ .paragraph := by
  intro d hd
  unfold transformParagraph at hd
  simp only at hd
  split at hd
  next =>
    rw [List.mem_singleton.1 hd]
    simp [Draft.shape]
  next =>
    simp only [takeTable] at hd
    split at hd
    next => exact absurd hd (by simp)
    next above table htable =>
      rw [List.mem_singleton.1 hd, (splitTable?_eq_some htable).1]
      simp

/-- Trimming leaves the text of the first line whole. -/
theorem trimParagraph_cut {lines : List Segment} {s : Segment} {rest : List Segment}
    (h : lines = s :: rest) (hs : s.Cut src) :
    ∃ s' rest', trimParagraph lines = s' :: rest' ∧ s'.Cut src := by
  subst h
  cases rest with
  | nil => exact ⟨_, [], rfl, cut_trimRight (cut_trimLeft hs)⟩
  | cons b rest => exact ⟨_, _, rfl, cut_trimLeft hs⟩

end Lines

end Docweave.Markdown

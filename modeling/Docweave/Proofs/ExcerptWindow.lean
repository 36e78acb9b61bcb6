import Docweave.Proofs.ExcerptRows
import Mathlib.Data.List.Forall2
import Mathlib.Data.List.Intervals

/-!
# The window of an excerpt

The rows of an excerpt are text, and the lines that they quote may have bars,
digits and marks of their own. A reader still finds the parts of a row: the
number ends at the first character that is no digit, and the bar is the one
directly behind it.

> `readRow?_eq_some_iff`: a row is read off exactly when it is written as a
> mark, a number behind blanks, the bar and a text.

> `readRow?_excerptRow`: the rows of a window are read off with one column for
> their bars. Numbers are padded to the width of the last one, and no number in
> front of it is wider (`length_ofNat_mono`).

> `excerpt_shows_window`: the excerpt around a line has one row for each line
> from the fifth above to the fifth below, and around anything else it is
> empty.
-/

namespace Docweave.Text

/-! ## Reading a row -/

/-- The digits that a text starts with behind blanks, and what stands behind
them. -/
def readDigits (t : Text) : Text × Text :=
  ((t.dropWhile (· = ' ')).takeWhile isDigit, (t.dropWhile (· = ' ')).dropWhile isDigit)

/-- What a row tells: its mark, its number, the column of its bar and the text
behind that. -/
structure RowParts where
  mark : Char
  number : Nat
  column : Nat
  text : Text
deriving DecidableEq

/-- The parts of a row. -/
def readRow? : Text → Option RowParts
  | mark :: ' ' :: t =>
    let (digits, behind) := readDigits t
    (dropPrefix? " | " behind).map fun text =>
      ⟨mark, digitsValue digits, t.length + 2 - behind.length, text⟩
  | _ => none

/-- Digits are read off in front of a blank exactly when there are some and only
blanks stand in front of them. -/
theorem readDigits_eq_iff {t digits behind : Text} :
    readDigits t = (digits, ' ' :: behind) ↔
      ∃ pad, t = spaces pad ++ (digits ++ ' ' :: behind) ∧ digits ≠ [] ∧
        ∀ c ∈ digits, isDigit c = true := by
  unfold readDigits
  rw [Prod.mk.injEq]
  constructor
  · rintro ⟨hdigits, hbehind⟩
    have hblanks : t.takeWhile (· = ' ') = spaces (t.takeWhile (· = ' ')).length :=
      List.eq_replicate_iff.2 ⟨rfl, fun c hc => of_decide_eq_true (List.all_eq_true.1 List.all_takeWhile c hc)⟩
    have hnumbered : t.dropWhile (· = ' ') = digits ++ ' ' :: behind := by
      rw [← hdigits, ← hbehind, List.takeWhile_append_dropWhile]
    refine ⟨(t.takeWhile (· = ' ')).length, ?_, ?_, ?_⟩
    · rw [← hblanks, ← hnumbered, List.takeWhile_append_dropWhile]
    · -- without digits the blank behind them would be one of those in front
      rintro rfl
      have hhead := List.head?_dropWhile_not (fun c => decide (c = ' ')) t
      rw [hnumbered] at hhead
      exact absurd hhead (by simp)
    · rw [← hdigits]
      exact fun c hc => List.all_eq_true.1 List.all_takeWhile c hc
  · rintro ⟨pad, rfl, hne, hdigits⟩
    have hblanks : ∀ c ∈ spaces pad, decide (c = ' ') = true := fun c hc =>
      decide_eq_true (List.eq_of_mem_replicate hc)
    obtain ⟨d, ds, rfl⟩ := List.exists_cons_of_ne_nil hne
    have hd : d ≠ ' ' := by
      rintro rfl
      exact absurd (hdigits ' ' (List.mem_cons_self ..)) (by decide)
    have hnumbered : (spaces pad ++ (d :: ds ++ ' ' :: behind)).dropWhile (· = ' ')
        = d :: ds ++ ' ' :: behind := by
      rw [List.dropWhile_append_of_pos hblanks, List.cons_append,
        List.dropWhile_cons_of_neg (by simpa using hd)]
    rw [hnumbered, List.takeWhile_append_of_pos hdigits, List.dropWhile_append_of_pos hdigits,
      List.takeWhile_cons_of_neg (by decide), List.dropWhile_cons_of_neg (by decide), List.append_nil]
    exact ⟨rfl, rfl⟩

/-- **Rows are read off** exactly when they stand there in full. -/
theorem readRow?_eq_some_iff {row text : Text} {mark : Char} {number column : Nat} :
    readRow? row = some ⟨mark, number, column, text⟩ ↔
      ∃ pad digits, row = mark :: ' ' :: (spaces pad ++ (digits ++ (" | " ++ text))) ∧
        digits ≠ [] ∧ (∀ c ∈ digits, isDigit c = true) ∧ digitsValue digits = number ∧
        2 + pad + digits.length = column := by
  have hbar : (" | " ++ text : Text) = ' ' :: '|' :: ' ' :: text := rfl
  constructor
  · intro h
    unfold readRow? at h
    split at h
    next mark' t =>
      cases hread : readDigits t with
      | mk digits behind =>
        rw [hread] at h
        obtain ⟨text', hbehind, heq⟩ := Option.map_eq_some_iff.1 h
        obtain ⟨rfl, rfl, rfl, rfl⟩ := RowParts.mk.inj heq
        rw [dropPrefix?_eq_some.1 hbehind, hbar] at hread ⊢
        obtain ⟨pad, rfl, hne, hdigits⟩ := readDigits_eq_iff.1 hread
        refine ⟨pad, digits, rfl, hne, hdigits, rfl, ?_⟩
        simp only [List.length_append, List.length_cons, spaces, List.length_replicate]
        omega
    next => exact absurd h (by simp)
  · rintro ⟨pad, digits, rfl, hne, hdigits, rfl, rfl⟩
    have hread : readDigits (spaces pad ++ (digits ++ (" | " ++ text))) = (digits, " | " ++ text) :=
      readDigits_eq_iff.2 ⟨pad, rfl, hne, hdigits⟩
    have hcolumn : (spaces pad ++ (digits ++ (" | " ++ text))).length + 2 - (" | " ++ text : Text).length
        = 2 + pad + digits.length := by
      simp only [List.length_append, spaces, List.length_replicate]
      omega
    unfold readRow?
    simp only
    rw [hread]
    simp only
    rw [dropPrefix?_eq_some.2 rfl, hcolumn]
    rfl

/-- The row of a line is read off for the line, if its number fits. -/
theorem readRow?_excerptRow {width number : Nat} (marked : Nat) (line : Text)
    (h : (ofNat number).length ≤ width) :
    readRow? (excerptRow width marked number line) =
      some ⟨if number = marked then '>' else ' ', number, 2 + width, trimRight (· = '\r') line⟩ := by
  refine readRow?_eq_some_iff.2 ⟨width - (ofNat number).length, ofNat number, ?_,
    Nat.toDigits_ne_nil, fun c hc => isDigit_of_mem_ofNat hc, digitsValue_ofNat number, by omega⟩
  unfold excerptRow padLeft
  split <;> simp

/-! ## The window -/

/-- A line is what is shown of it and the carriage returns at its end. -/
theorem eq_trimRight_returns (line : Text) :
    ∃ returns, line = trimRight (· = '\r') line ++ List.replicate returns '\r' ∧
      (trimRight (· = '\r') line).getLast? ≠ some '\r' := by
  obtain ⟨tail, heq, htail⟩ := eq_trimRight_append (· = '\r') line
  have hreturns : tail = List.replicate tail.length '\r' :=
    List.eq_replicate_iff.2 ⟨rfl, fun c hc => of_decide_eq_true (htail c hc)⟩
  refine ⟨tail.length, hreturns ▸ heq, ?_⟩
  intro hlast
  have hhead := List.head?_dropWhile_not (fun c => decide (c = '\r')) line.reverse
  rw [trimRight, List.getLast?_reverse] at hlast
  rw [hlast] at hhead
  exact absurd hhead (by simp)

/-- The row shows line `i` in the window around line `n`: it carries the number
of the line, behind the bar its text without the carriage returns at the end,
and the mark if it is line `n` itself. -/
def ShowsLine (src : Text) (n column i : Nat) (row : Text) : Prop :=
  ∃ text returns, (lines src)[i - 1]? = some (text ++ List.replicate returns '\r') ∧
    text.getLast? ≠ some '\r' ∧ readRow? row = some ⟨if i = n then '>' else ' ', i, column, text⟩

section

variable (src : Text)

/-- There is a row for each line of the window. -/
theorem length_excerptRows (n : Nat) :
    (excerptRows src n).length = excerptLast src n + 1 - excerptFirst n := by
  have hlast : excerptLast src n ≤ (lines src).length := Nat.min_le_left ..
  have hfirst : 1 ≤ excerptFirst n := Nat.le_max_left ..
  unfold excerptRows
  simp only [List.length_map, List.length_zipIdx, List.length_take, List.length_drop]
  omega

/-- **The rows show the lines** of the window in their order, behind bars in one
column. -/
theorem excerptRows_showLines (n : Nat) :
    List.Forall₂ (ShowsLine src n (2 + excerptWidth src n))
      (List.Ico (excerptFirst n) (excerptLast src n + 1)) (excerptRows src n) := by
  refine List.forall₂_iff_get.2 ⟨?_, fun k hk hrow => ?_⟩
  · rw [List.Ico.length, length_excerptRows]
  · obtain ⟨line, hline, heq⟩ := getElem?_excerptRows (List.getElem?_eq_getElem hrow)
    have hnumber : (List.Ico (excerptFirst n) (excerptLast src n + 1)).get ⟨k, hk⟩ = excerptFirst n + k := by
      simp [List.Ico]
    rw [List.Ico.length] at hk
    -- no number of the window is wider than the last one, which the others are padded to
    have hfits : (ofNat (excerptFirst n + k)).length ≤ excerptWidth src n :=
      length_ofNat_mono (by omega)
    obtain ⟨returns, hreturns, hlast⟩ := eq_trimRight_returns line
    rw [hnumber, List.get_eq_getElem, heq]
    exact ⟨_, returns, hreturns ▸ hline, hlast, readRow?_excerptRow n line hfits⟩

/-- **The excerpt shows the right window.** Around a line of the text it has one
row for each line from the fifth above to the fifth below, as far as there are
such lines; around a number that is none of a line it is empty. -/
theorem excerpt_shows_window :
    (∀ n : Nat, 1 ≤ n → n ≤ (lines src).length →
      ∃ column, List.Forall₂ (ShowsLine src n column)
        (List.Ico (max 1 (n - 5)) (min (lines src).length (n + 5) + 1)) (lines (excerpt src n))) ∧
    ∀ line : Int, ¬(1 ≤ line ∧ line ≤ (lines src).length) → excerpt src line = [] := by
  refine ⟨fun n h1 hn => ⟨2 + excerptWidth src n, ?_⟩, fun line houtside => ?_⟩
  · rw [lines_excerpt h1 hn]
    exact excerptRows_showLines src n
  · unfold excerpt
    simp only
    rw [if_pos (by simp; omega)]

end

/-- Twelve lines, some of them with a bar or carriage returns of their own, and
nothing in the last ones. -/
def bottomLines : Text := "a\nb\nc\nd\ne\nf\ng | 7\nh\r\r\n9\n\r\n\n"

theorem excerpt_shows_window_bottom :
    (lines bottomLines).length = 12 ∧
    excerpt bottomLines 12 = "   7 | g | 7\n   8 | h\n   9 | 9\n  10 | \n  11 | \n> 12 | ".toList ∧
    (∃ column, List.Forall₂ (ShowsLine bottomLines 12 column) [7, 8, 9, 10, 11, 12]
      (lines (excerpt bottomLines 12))) ∧
    excerpt bottomLines 13 = [] := by
  have hlines : (lines bottomLines).length = 12 := by decide +kernel
  obtain ⟨column, hrows⟩ := (excerpt_shows_window bottomLines).1 12 (by decide) (by rw [hlines])
  rw [hlines] at hrows
  exact ⟨hlines, by decide +kernel, ⟨column, hrows⟩,
    (excerpt_shows_window bottomLines).2 13 (by rw [hlines]; decide)⟩

end Docweave.Text

import Docweave.Proofs.TextLaws
import Docweave.Text.Excerpt

/-!
# The rows of an excerpt

An excerpt is a text; what a reader sees are its rows. `excerptRows` lists
them, and the file proves that they are the lines of the text, although the
rows quote lines of a document and newlines at the end of the text are
trimmed:

> `lines_excerpt`: `lines (excerpt src n) = excerptRows src n`.

> `excerpt_marks`: the row of the line an error speaks of is marked, and no
> other row is.
-/

namespace Docweave.Text

/-- The first line shown around line `n`. -/
def excerptFirst (n : Nat) : Nat := max 1 (n - excerptRadius)

/-- The last line shown around line `n`. -/
def excerptLast (src : Text) (n : Nat) : Nat := min (lines src).length (n + excerptRadius)

/-- The width of the line numbers around line `n`. -/
def excerptWidth (src : Text) (n : Nat) : Nat := (ofNat (excerptLast src n)).length

/-- The rows around line `n`. -/
def excerptRows (src : Text) (n : Nat) : List Text :=
  let first := excerptFirst n
  let shown := ((lines src).drop (first - 1)).take (excerptLast src n + 1 - first)
  (shown.zipIdx first).map fun (l, i) => excerptRow (excerptWidth src n) n i l

/-! ## Rows are lines -/

theorem not_mem_ofNat (n : Nat) : '\n' ∉ ofNat n := by
  intro h
  exact absurd (isDigit_of_mem_ofNat h) (by decide)

/-- A row is not empty, and has no newline when the line it shows has none. -/
theorem excerptRow_line {width marked number : Nat} {line : Text} (h : '\n' ∉ line) :
    excerptRow width marked number line ≠ [] ∧ '\n' ∉ excerptRow width marked number line := by
  have hline : '\n' ∉ trimRight (· = '\r') line := by
    obtain ⟨tail, htail, _⟩ := eq_trimRight_append (· = '\r') line
    intro hm
    rw [htail] at h
    exact h (List.mem_append_left _ hm)
  have hnumber : '\n' ∉ padLeft width (ofNat number) := by
    intro hm
    rcases List.mem_append.1 hm with hs | hd
    · exact absurd (List.eq_of_mem_replicate hs) (by decide)
    · exact not_mem_ofNat number hd
  unfold excerptRow
  constructor
  · split <;> simp
  · intro hm
    simp only [List.mem_append] at hm
    rcases hm with (((hm | hm) | hm) | hm) | hm
    · split at hm <;> exact absurd hm (by decide)
    · exact absurd hm (by decide)
    · exact hnumber hm
    · exact absurd hm (by decide)
    · exact hline hm

/-- A text joined from lines that are not empty ends with a character of the
last one. -/
theorem join_eq_concat {ls : List Text} (hne : ls ≠ []) (h : ∀ l ∈ ls, l ≠ [] ∧ '\n' ∉ l) :
    ∃ t c, join "\n" ls = t ++ [c] ∧ c ≠ '\n' := by
  fun_induction join "\n".toList ls with
  | case1 => exact absurd rfl hne
  | case2 l =>
    obtain ⟨hl, hn⟩ := h l (List.mem_cons_self ..)
    refine ⟨l.dropLast, l.getLast hl, (List.dropLast_concat_getLast hl).symm, ?_⟩
    intro hc
    exact hn (hc ▸ List.getLast_mem hl)
  | case3 l l' ls ih =>
    obtain ⟨t, c, heq, hc⟩ := ih (by simp) fun m hm => h m (List.mem_cons_of_mem _ hm)
    exact ⟨l ++ "\n".toList ++ t, c, by rw [heq, List.append_assoc _ t], hc⟩

/-- The rows quote lines of the document in their order. -/
theorem getElem?_excerptRows {src row : Text} {n k : Nat}
    (h : (excerptRows src n)[k]? = some row) :
    ∃ line, (lines src)[excerptFirst n + k - 1]? = some line ∧
      row = excerptRow (excerptWidth src n) n (excerptFirst n + k) line := by
  unfold excerptRows at h
  simp only [List.getElem?_map, List.getElem?_zipIdx, List.getElem?_take, List.getElem?_drop] at h
  split at h
  next hk =>
    obtain ⟨⟨line, i⟩, hpair, rfl⟩ := Option.map_eq_some_iff.1 h
    obtain ⟨line', hline, hpair⟩ := Option.map_eq_some_iff.1 hpair
    obtain ⟨rfl, rfl⟩ := Prod.mk.inj hpair
    have hfirst : 1 ≤ excerptFirst n := Nat.le_max_left ..
    refine ⟨line', ?_, rfl⟩
    rw [← hline]
    congr 1
    omega
  next => exact absurd h (by simp)

section

variable {src : Text} {n : Nat} (h1 : 1 ≤ n) (hn : n ≤ (lines src).length)
include h1 hn

/-- The row of the line itself. -/
theorem excerptRows_marked {line : Text} (hline : (lines src)[n - 1]? = some line) :
    (excerptRows src n)[n - excerptFirst n]? = some (excerptRow (excerptWidth src n) n n line) := by
  have hfirst : 1 ≤ excerptFirst n ∧ excerptFirst n ≤ n := by
    unfold excerptFirst excerptRadius
    omega
  have hlast : n ≤ excerptLast src n := by
    unfold excerptLast
    omega
  unfold excerptRows
  simp only [List.getElem?_map, List.getElem?_zipIdx, List.getElem?_take, List.getElem?_drop]
  rw [if_pos (by omega), show excerptFirst n - 1 + (n - excerptFirst n) = n - 1 by omega, hline,
    show excerptFirst n + (n - excerptFirst n) = n by omega]
  rfl

/-- **The lines of an excerpt are its rows.** -/
theorem lines_excerpt : lines (excerpt src n) = excerptRows src n := by
  obtain ⟨line, hline⟩ : ∃ line, (lines src)[n - 1]? = some line :=
    ⟨_, List.getElem?_eq_getElem (by omega)⟩
  have hne : excerptRows src n ≠ [] := by
    intro hnil
    have hrow := excerptRows_marked h1 hn hline
    rw [hnil] at hrow
    exact absurd hrow (by simp)
  have hrows : ∀ row ∈ excerptRows src n, row ≠ [] ∧ '\n' ∉ row := by
    intro row hrow
    obtain ⟨k, hk⟩ := List.getElem?_of_mem hrow
    obtain ⟨line, hline, rfl⟩ := getElem?_excerptRows hk
    exact excerptRow_line (not_mem_of_mem_lines (List.mem_of_getElem? hline))
  have hexcerpt : excerpt src n = trimRight (· = '\n') (join "\n" (excerptRows src n)) := by
    unfold excerpt
    simp only
    rw [if_neg (by simp; omega)]
    rfl
  -- no row is empty, so there is no newline at the end for the trim to take
  obtain ⟨t, c, hjoin, hc⟩ := join_eq_concat hne hrows
  rw [hexcerpt, hjoin, trimRight_concat t (by simpa using hc), ← hjoin]
  exact lines_join hne fun row hrow => (hrows row hrow).2

/-- **The excerpt marks its line.** One row begins with the mark; it carries
the number and the text of the line. -/
theorem excerpt_marks {line : Text} (hline : (lines src)[n - 1]? = some line) :
    ∃ width k, (lines (excerpt src n))[k]? = some (excerptRow width n n line) ∧
      ∀ (j : Nat) (row : Text), (lines (excerpt src n))[j]? = some row →
        (row.head? = some '>' ↔ j = k) := by
  rw [lines_excerpt h1 hn]
  have hfirst : 1 ≤ excerptFirst n ∧ excerptFirst n ≤ n := by
    unfold excerptFirst excerptRadius
    omega
  refine ⟨excerptWidth src n, n - excerptFirst n, excerptRows_marked h1 hn hline, ?_⟩
  intro j row hrow
  obtain ⟨line', _, rfl⟩ := getElem?_excerptRows hrow
  unfold excerptRow
  by_cases hj : excerptFirst n + j = n
  · rw [if_pos hj]
    exact ⟨fun _ => by omega, fun _ => rfl⟩
  · rw [if_neg hj]
    refine ⟨fun hh => absurd hh (by simp), fun hh => absurd hh (by omega)⟩

end

end Docweave.Text

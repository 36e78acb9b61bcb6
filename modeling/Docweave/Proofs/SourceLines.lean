import Docweave.Frontmatter
import Docweave.Proofs.TextLaws
import Docweave.Source.Sections

/-!
# Lines of a document and of its Markdown

Before its Markdown is read, a document loses its metadata block, and its
script and style blocks are blanked. A line of what is left is still found in
the document:

> `lines_of_frontmatter`: line `k` of the body is line `bodyLine + k` of the
> document.

> `source_of_frontmatter`: the body ends the document, and has `bodyLine`
> newlines in front of it.

> `lines_of_sections`: blanking keeps the number of every line, and puts
> nothing but spaces in the place of what it hides.
-/

namespace Docweave

open Text

/-! ## The metadata block -/

theorem splitBlock?_eq_some {ls block rest : List Text}
    (h : Frontmatter.splitBlock? ls = some (block, rest)) :
    ∃ closing, ls = block ++ closing :: rest := by
  induction ls generalizing block with
  | nil => exact absurd h (by simp [Frontmatter.splitBlock?])
  | cons l ls ih =>
    unfold Frontmatter.splitBlock? at h
    split at h
    next =>
      simp only [Option.some.injEq, Prod.mk.injEq] at h
      obtain ⟨rfl, rfl⟩ := h
      exact ⟨l, rfl⟩
    next =>
      obtain ⟨⟨block', rest'⟩, hsplit, heq⟩ := Option.map_eq_some_iff.1 h
      simp only [Prod.mk.injEq] at heq
      obtain ⟨rfl, rfl⟩ := heq
      obtain ⟨closing, hls⟩ := ih hsplit
      exact ⟨closing, by rw [hls]; rfl⟩

/-- The block and the lines behind it, in the document. -/
theorem block?_eq_some {src : Text} {block rest : List Text}
    (h : Frontmatter.block? src = some (block, rest)) :
    ∃ opening closing, lines src = opening :: block ++ closing :: rest := by
  unfold Frontmatter.block? at h
  split at h
  next first ls hlines =>
    split at h
    next =>
      obtain ⟨closing, hls⟩ := splitBlock?_eq_some h
      exact ⟨first, closing, by rw [hlines, hls]; rfl⟩
    next => exact absurd h (by simp)
  next => exact absurd h (by simp)

/-- A block that decodes is split off. -/
theorem parse_of_block? {src : Text} {block rest : List Text}
    (hblock : Frontmatter.block? src = some (block, rest))
    (hyaml : (Yaml.decodeMapping Frontmatter.mapName (join "\n" block)).isOk = true) :
    ∃ metadata, Frontmatter.parse src = .ok ⟨metadata, join "\n" rest, block.length + 2⟩ := by
  unfold Frontmatter.parse
  rw [hblock]
  simp only
  cases hdecoded : Yaml.decodeMapping Frontmatter.mapName (join "\n" block) with
  | error e =>
    rw [hdecoded] at hyaml
    exact absurd hyaml (by simp [Except.isOk, Except.toBool])
  | ok metadata => exact ⟨metadata, rfl⟩

/-- **The body keeps its lines.** -/
theorem lines_of_frontmatter {src l : Text} {fm : Frontmatter} {k : Nat}
    (h : Frontmatter.parse src = .ok fm) (hne : fm.body ≠ [])
    (hl : (lines fm.body)[k]? = some l) : (lines src)[fm.bodyLine + k]? = some l := by
  unfold Frontmatter.parse at h
  split at h
  next =>
    obtain rfl := Except.ok.inj h
    rw [Nat.zero_add]
    exact hl
  next block rest hblock =>
    simp only at h
    split at h
    next => exact absurd h (by simp)
    next metadata _ =>
      obtain rfl := Except.ok.inj h
      obtain ⟨opening, closing, hlines⟩ := block?_eq_some hblock
      have hrest : rest ≠ [] := by
        rintro rfl
        exact hne rfl
      have hnewline : ∀ m ∈ rest, '\n' ∉ m := by
        intro m hm
        refine not_mem_of_mem_lines (t := src) ?_
        rw [hlines]
        simp [hm]
      simp only [lines_join hrest hnewline] at hl
      rw [hlines, ← hl]
      show (opening :: block ++ closing :: rest)[block.length + 2 + k]? = rest[k]?
      rw [List.getElem?_append_right (by simp; omega)]
      have hindex : block.length + 2 + k - (opening :: block).length = k + 1 := by
        rw [List.length_cons]
        omega
      rw [hindex]
      rfl

/-- What stands in front of the body are the lines that are counted there. -/
theorem source_of_frontmatter {src : Text} {fm : Frontmatter}
    (h : Frontmatter.parse src = .ok fm) (hne : fm.body ≠ []) :
    ∃ front, src = front ++ fm.body ∧ front.count '\n' = fm.bodyLine := by
  unfold Frontmatter.parse at h
  split at h
  next =>
    obtain rfl := Except.ok.inj h
    exact ⟨[], rfl, rfl⟩
  next block rest hblock =>
    simp only at h
    split at h
    next => exact absurd h (by simp)
    next metadata _ =>
      obtain rfl := Except.ok.inj h
      obtain ⟨opening, closing, hlines⟩ := block?_eq_some hblock
      have hrest : rest ≠ [] := by
        rintro rfl
        exact hne rfl
      have hnewline : ∀ m ∈ rest, '\n' ∉ m := by
        intro m hm
        refine not_mem_of_mem_lines (t := src) ?_
        rw [hlines]
        simp [hm]
      have hsrc : src = join "\n" (opening :: block ++ [closing]) ++ "\n" ++ join "\n" rest := by
        rw [← join_append "\n" (by simp) hrest, ← join_lines src, hlines]
        simp
      refine ⟨_, hsrc, ?_⟩
      have hcount : (lines src).length = block.length + 2 + (lines (join "\n" rest)).length := by
        rw [hlines, lines_join hrest hnewline, List.length_append, List.length_cons,
          List.length_cons]
        omega
      rw [length_lines, length_lines] at hcount
      conv at hcount => lhs; rw [hsrc, List.count_append]
      show _ = block.length + 2
      omega

/-! ## Blanked blocks -/

namespace Source

/-- A piece without the separator in front joins the first part. -/
theorem splitOn_append_front {sep : Char} {u t p : Text} {ps : List Text} (h : sep ∉ u)
    (ht : splitOn sep t = p :: ps) : splitOn sep (u ++ t) = (u ++ p) :: ps := by
  induction u with
  | nil => exact ht
  | cons c u ih =>
    obtain ⟨hc, hu⟩ := not_or.1 fun hm => h (List.mem_cons.2 hm)
    rw [List.cons_append, splitOn, if_neg fun he => hc he.symm, ih hu]
    rfl

/-- What a character leaves when it is hidden or not. -/
def shown (p : Char × Char) : Text := if p.1 = p.2 then [p.1] else spaces p.1.utf8Size

theorem shown_chars {p : Char × Char} {x : Char} (hx : x ∈ shown p) : x = ' ' ∨ x = p.1 := by
  unfold shown at hx
  split at hx
  next => exact Or.inr (List.mem_singleton.1 hx)
  next => exact Or.inl (List.eq_of_mem_replicate hx)

/-- Hiding that keeps newlines keeps the lines: each line of the result is the
line with the same number, with spaces in the place of some characters. -/
theorem lines_flatMap_shown {ps : List (Char × Char)} (h : ∀ p ∈ ps, p.1 = '\n' → p.2 = '\n')
    {k : Nat} {l : Text} (hl : (lines (ps.flatMap shown))[k]? = some l) :
    ∃ l', (lines (ps.map Prod.fst))[k]? = some l' ∧ ∀ x ∈ l, x = ' ' ∨ x ∈ l' := by
  induction ps generalizing k l with
  | nil => exact ⟨l, hl, fun x hx => Or.inr hx⟩
  | cons p ps ih =>
    have hrest : ∀ q ∈ ps, q.1 = '\n' → q.2 = '\n' := fun q hq => h q (List.mem_cons_of_mem _ hq)
    rw [List.flatMap_cons] at hl
    rw [List.map_cons]
    by_cases hp : p.1 = '\n'
    · -- a newline is kept, and ends the line on both sides
      have hshown : shown p = ['\n'] := by
        rw [shown, h p (List.mem_cons_self ..) hp, hp]
        rfl
      unfold lines at hl ⊢
      rw [hshown, List.singleton_append, splitOn, if_pos rfl] at hl
      rw [splitOn, if_pos hp]
      cases k with
      | zero =>
        obtain rfl : [] = l := Option.some.inj hl
        exact ⟨[], rfl, by simp⟩
      | succ k => exact ih hrest hl
    · have hnewline : '\n' ∉ shown p := by
        intro hm
        rcases shown_chars hm with hc | hc
        · exact absurd hc (by decide)
        · exact hp hc.symm
      obtain ⟨q, qs, hq⟩ := List.exists_cons_of_ne_nil (splitOn_ne_nil '\n' (ps.flatMap shown))
      obtain ⟨r, rs, hr⟩ := List.exists_cons_of_ne_nil (splitOn_ne_nil '\n' (ps.map Prod.fst))
      unfold lines at hl ih ⊢
      rw [splitOn_append_front hnewline hq] at hl
      rw [splitOn, if_neg hp, hr]
      rw [hq, hr] at ih
      cases k with
      | zero =>
        obtain rfl : shown p ++ q = l := Option.some.inj hl
        obtain ⟨l', hl', hchars⟩ := ih (k := 0) hrest rfl
        obtain rfl : r = l' := Option.some.inj hl'
        refine ⟨p.1 :: r, rfl, ?_⟩
        intro x hx
        rcases List.mem_append.1 hx with hx | hx
        · rcases shown_chars hx with rfl | rfl
          · exact Or.inl rfl
          · exact Or.inr (List.mem_cons_self ..)
        · rcases hchars x hx with rfl | hx'
          · exact Or.inl rfl
          · exact Or.inr (List.mem_cons_of_mem _ hx')
      | succ k => exact ih (k := k + 1) hrest hl

theorem length_hideElements (spans : List ElementSpan) (t : Text) :
    (hideElements spans t).length = t.length := by
  rw [hideElements, List.length_map, List.length_zipIdx]

/-- Hidden characters keep their newlines. -/
theorem hideElements_newline {spans : List ElementSpan} {t : Text} {p : Char × Char}
    (hp : p ∈ t.zip (hideElements spans t)) (hn : p.1 = '\n') : p.2 = '\n' := by
  obtain ⟨i, hi⟩ := List.getElem?_of_mem hp
  obtain ⟨ht, hh⟩ := List.getElem?_zip_eq_some.1 hi
  rw [hideElements, List.getElem?_map, List.getElem?_zipIdx, ht] at hh
  simp only [Option.map_some, Option.some.injEq] at hh
  rw [← hh, hn]
  split <;> rfl

/-- **Blanking keeps the lines of a body.** -/
theorem lines_of_sections {body l : Text} {k : Nat}
    (hl : (lines (sections body).body)[k]? = some l) :
    ∃ l', (lines body)[k]? = some l' ∧ ∀ x ∈ l, x = ' ' ∨ x ∈ l' := by
  obtain ⟨spans, hspans⟩ : ∃ spans,
      (sections body).body = spread body (hideElements spans body) := by
    unfold sections
    simp only
    split
    next => exact ⟨_, rfl⟩
    next => exact ⟨_, rfl⟩
  rw [hspans] at hl
  have hfst : (body.zip (hideElements spans body)).map Prod.fst = body :=
    List.map_fst_zip (Nat.le_of_eq (length_hideElements spans body).symm)
  obtain ⟨l', hl', hchars⟩ := lines_flatMap_shown (fun p hp => hideElements_newline hp) hl
  rw [hfst] at hl'
  exact ⟨l', hl', hchars⟩

/-- Of an empty body nothing is left. -/
theorem body_ne_nil {body : Text} (h : (sections body).body ≠ []) : body ≠ [] := by
  rintro rfl
  refine h ?_
  unfold sections
  simp only
  split <;> rfl

end Source

end Docweave

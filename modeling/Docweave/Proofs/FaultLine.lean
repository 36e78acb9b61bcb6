import Docweave.Compile
import Docweave.Proofs.ExcerptRows
import Docweave.Proofs.ParagraphSource
import Docweave.Proofs.SourceLines
import Docweave.Proofs.TableScan

/-!
# The line of a fault

When the markers of a document do not match, the fault names a line. The line
is put together from three counts: the row of a paragraph in the Markdown that
was read, the lines of the metadata block in front of it, and the rows of the
script and style blocks, which are blanked and not cut. The file follows it
back.

> `checkMarkers_fault`: a fault names the first line of a top-level paragraph
> that is a marker.

> `marker_mem_iff`: that line of the Markdown shows the marker, unless it is
> all white space. It may be: Markdown takes ASCII blanks for blank, and the
> text of a marker is trimmed of every white space of Unicode.

> `fault_points_at_marker`: the fault names a line of the document, quotes it
> with a mark, and the marker stands on it unless the line is all white space.
-/

namespace Docweave

open Markdown (Block Inline SourceLine Cell)
open Text

/-! ## Paragraphs in the stream -/

theorem level_wrapTokens {e : Element} {tag : Text} {line level : Nat} {attrs : List (Text × Text)}
    {content : List Token} (h : ∀ t ∈ content, level ≤ t.level) :
    ∀ t ∈ wrapTokens e tag line level attrs content, level ≤ t.level := by
  intro t ht
  simp only [wrapTokens, List.cons_append, List.mem_cons, List.mem_append, List.not_mem_nil,
    or_false] at ht
  rcases ht with rfl | ht | rfl
  · exact Nat.le_refl _
  · exact h t ht
  · exact Nat.le_refl _

theorem level_wrapInline {e : Element} {tag : Text} {line level : Nat} {attrs : List (Text × Text)}
    {lines : List SourceLine} {content : List Inline} :
    ∀ t ∈ wrapTokens e tag line level attrs [inlineToken lines content (level + 1)],
      level ≤ t.level := by
  refine level_wrapTokens ?_
  intro t ht
  rw [List.mem_singleton.1 ht]
  exact Nat.le_succ level

theorem level_flatMap {α : Type} {l : List α} {f : α → List Token} {level : Nat}
    (h : ∀ a ∈ l, ∀ t ∈ f a, level ≤ t.level) : ∀ t ∈ l.flatMap f, level ≤ t.level := by
  intro t ht
  obtain ⟨a, ha, hta⟩ := List.mem_flatMap.1 ht
  exact h a ha t hta

/-- A table is a block around tokens one level deeper. -/
theorem tableTokens_eq (level : Nat) (header : List Cell) (rows : List (List Cell)) :
    ∃ line content,
      tableTokens level header rows = wrapTokens .table "table" line level [] content ∧
      ∀ t ∈ content, level + 1 ≤ t.level := by
  have row : ∀ (e : Element) (cells : List Cell), ∀ t ∈
      wrapTokens .tr "tr" (firstCellLine cells) (level + 2) [] (cellTokens e (level + 3) cells),
      level + 2 ≤ t.level := by
    intro e cells
    exact level_wrapTokens (level_flatMap fun c _ t ht => Nat.le_of_succ_le (level_wrapInline t ht))
  have part : ∀ {e : Element} {tag : Text} {line : Nat} {content : List Token},
      (∀ t ∈ content, level + 2 ≤ t.level) →
      ∀ t ∈ wrapTokens e tag line (level + 1) [] content, level + 1 ≤ t.level := by
    intro e tag line content hc
    exact level_wrapTokens fun t ht => Nat.le_of_succ_le (hc t ht)
  refine ⟨_, _, rfl, ?_⟩
  intro t ht
  rcases List.mem_append.1 ht with ht | ht
  · exact part (row _ _) t ht
  · split at ht
    next => exact absurd ht (by simp)
    next => exact part (level_flatMap fun cells _ => row _ cells) t ht

mutual

/-- The tokens of a block have at least its level. -/
theorem level_ofBlock (level : Nat) : ∀ b : Block, ∀ t ∈ Token.ofBlock level b, level ≤ t.level
  | .heading _ _ _ => by rw [Token.ofBlock]; exact level_wrapInline
  | .paragraph _ _ => by rw [Token.ofBlock]; exact level_wrapInline
  | .textBlock _ _ => by simp [Token.ofBlock, inlineToken]
  | .quote children => by
    rw [Token.ofBlock]
    exact level_wrapTokens fun t ht => Nat.le_of_succ_le (level_ofBlocks (level + 1) children t ht)
  | .list (some first) items => by
    rw [Token.ofBlock]
    exact level_wrapTokens fun t ht => Nat.le_of_succ_le (level_ofBlocks (level + 1) items t ht)
  | .list none items => by
    rw [Token.ofBlock]
    exact level_wrapTokens fun t ht => Nat.le_of_succ_le (level_ofBlocks (level + 1) items t ht)
  | .item children => by
    rw [Token.ofBlock]
    exact level_wrapTokens fun t ht => Nat.le_of_succ_le (level_ofBlocks (level + 1) children t ht)
  | .fencedCode _ _ => by simp [Token.ofBlock]
  | .code _ => by simp [Token.ofBlock]
  | .html _ _ => by simp [Token.ofBlock]
  | .thematicBreak => by simp [Token.ofBlock]
  | .table header rows => by
    obtain ⟨line, content, heq, hcontent⟩ := tableTokens_eq level header rows
    rw [Token.ofBlock, heq]
    exact level_wrapTokens fun t ht => Nat.le_of_succ_le (hcontent t ht)

theorem level_ofBlocks (level : Nat) :
    ∀ bs : List Block, ∀ t ∈ Token.ofBlocks level bs, level ≤ t.level
  | [] => by simp [Token.ofBlocks]
  | b :: bs => by
    intro t ht
    rw [Token.ofBlocks] at ht
    rcases List.mem_append.1 ht with ht | ht
    · exact level_ofBlock level b t ht
    · exact level_ofBlocks level bs t ht

end

/-- No marker starts at the token. -/
def Token.Quiet (t : Token) : Prop := ¬(t.kind = .opens .paragraph ∧ t.level = 0)

theorem quiet_wrapTokens {e : Element} {tag : Text} {line : Nat} {attrs : List (Text × Text)}
    {content : List Token} (he : e ≠ .paragraph) (h : ∀ t ∈ content, 1 ≤ t.level) :
    ∀ t ∈ wrapTokens e tag line 0 attrs content, t.Quiet := by
  intro t ht
  simp only [wrapTokens, List.cons_append, List.mem_cons, List.mem_append, List.not_mem_nil,
    or_false] at ht
  rintro ⟨hk, hl⟩
  rcases ht with rfl | ht | rfl
  · exact he (by simpa using hk)
  · have := h t ht
    omega
  · exact absurd hk (by simp)

/-- In the tokens of a top-level block that is no paragraph no marker starts. -/
theorem quiet_ofBlock {b : Block} (h : ∀ lines content, b ≠ .paragraph lines content) :
    ∀ t ∈ Token.ofBlock 0 b, t.Quiet := by
  cases b with
  | paragraph lines content => exact absurd rfl (h lines content)
  | heading n lines content =>
    rw [Token.ofBlock]
    exact quiet_wrapTokens (by simp) (by simp [inlineToken])
  | quote children =>
    rw [Token.ofBlock]
    exact quiet_wrapTokens (by simp) (level_ofBlocks 1 children)
  | list first items =>
    cases first <;> rw [Token.ofBlock] <;>
      exact quiet_wrapTokens (by simp) (level_ofBlocks 1 items)
  | item children =>
    rw [Token.ofBlock]
    exact quiet_wrapTokens (by simp) (level_ofBlocks 1 children)
  | table header rows =>
    obtain ⟨line, content, heq, hcontent⟩ := tableTokens_eq 0 header rows
    rw [Token.ofBlock, heq]
    exact quiet_wrapTokens (by simp) hcontent
  | textBlock | fencedCode | code | html | thematicBreak =>
    simp [Token.ofBlock, Token.Quiet, inlineToken]

/-! ## Faults and paragraphs -/

/-- A top-level paragraph of the document that starts on the line and whose
text starts with the marker. -/
def MarkerAt (d : Markdown.Document) (marker : Char) (line : Nat) : Prop :=
  ∃ lines content, Block.paragraph lines content ∈ d ∧ firstLine lines = line ∧
    (inlineToken lines content 1).content.head? = some marker

theorem markerAt_cons {d : Markdown.Document} {b : Block} {marker : Char} {line : Nat}
    (h : MarkerAt d marker line) : MarkerAt (b :: d) marker line := by
  obtain ⟨lines, content, hmem, hline, hhead⟩ := h
  exact ⟨lines, content, List.mem_cons_of_mem _ hmem, hline, hhead⟩

/-- The three tokens of a top-level paragraph. -/
theorem ofBlock_paragraph (lines : List SourceLine) (content : List Inline) :
    ∃ o i c, Token.ofBlock 0 (.paragraph lines content) = [o, i, c] ∧
      (∀ rest, markerParagraph? (o :: i :: c :: rest) = some i) ∧ o.line = firstLine lines ∧
      i.kind = .inline ∧ c.kind = .closes .paragraph ∧
      i.content = (inlineToken lines content 1).content := by
  refine ⟨_, _, _, by rw [Token.ofBlock]; rfl, fun _ => rfl, rfl, rfl, rfl, rfl⟩

/-- The fault is about the marker on the line: that of a container which was
open before or opens in the document, or a closing marker of the document. -/
def FaultAt (src : Text) (offset : Int) (f : Fault) (opened : List Nat) (d : Markdown.Document)
    (line : Nat) : Prop :=
  (f = .at' .unclosedContainer (line + offset) src ∧ (line ∈ opened ∨ MarkerAt d '[' line)) ∨
  (f = .at' .unexpectedClose (line + offset) src ∧ MarkerAt d ']' line)

theorem faultAt_cons {src : Text} {offset : Int} {f : Fault} {opened opened' : List Nat}
    {d : Markdown.Document} {b : Block} {line : Nat} (h : FaultAt src offset f opened' d line)
    (hsub : line ∈ opened' → line ∈ opened ∨ MarkerAt (b :: d) '[' line) :
    FaultAt src offset f opened (b :: d) line := by
  rcases h with ⟨hf, hl | hm⟩ | ⟨hf, hm⟩
  · exact Or.inl ⟨hf, hsub hl⟩
  · exact Or.inl ⟨hf, Or.inr (markerAt_cons hm)⟩
  · exact Or.inr ⟨hf, markerAt_cons hm⟩

/-- **A fault names a marker.** -/
theorem checkMarkers_fault {src : Text} {offset : Int} {opened : List Nat} {d : Markdown.Document}
    {f : Fault} (h : checkMarkers src offset opened (Token.ofBlocks 0 d) = .error f) :
    ∃ line, FaultAt src offset f opened d line := by
  induction d generalizing opened with
  | nil =>
    rw [Token.ofBlocks, checkMarkers.eq_def] at h
    simp only at h
    split at h
    next => exact absurd h (by simp)
    next line _ =>
      exact ⟨line, Or.inl ⟨(Except.error.inj h).symm, Or.inl (List.mem_cons_self ..)⟩⟩
  | cons b d ih =>
    rw [Token.ofBlocks] at h
    cases b with
    | paragraph lines content =>
      obtain ⟨o, i, c, htokens, hwindow, hline, hi, hc, hcontent⟩ := ofBlock_paragraph lines content
      rw [htokens] at h
      simp only [List.cons_append, List.nil_append] at h
      have hhere : ∀ marker, i.content.head? = some marker →
          MarkerAt (.paragraph lines content :: d) marker o.line := fun marker hm =>
        ⟨lines, content, List.mem_cons_self .., hline.symm, hcontent ▸ hm⟩
      cases hopen : opensContainer (o :: i :: c :: Token.ofBlocks 0 d) with
      | true =>
        have hbracket : i.content = ['['] := by
          rw [opensContainer, hwindow] at hopen
          simpa using hopen
        rw [checkMarkers_of_opens hopen] at h
        obtain ⟨line, hfault⟩ := ih h
        refine ⟨line, faultAt_cons hfault fun hmem => ?_⟩
        -- a container that stays open was open before, or is the one opened here
        rcases List.mem_cons.1 hmem with rfl | hmem
        · exact Or.inr (hhere '[' (by rw [hbracket]; rfl))
        · exact Or.inl hmem
      | false =>
        cases hclose : closesContainer? (o :: i :: c :: Token.ofBlocks 0 d) with
        | none =>
          have hrest : checkMarkers src offset opened ([i, c] ++ Token.ofBlocks 0 d) = .error f :=
            (checkMarkers_of_plain hopen hclose).symm.trans h
          rw [checkMarkers_append_quiet (by simp [hi, hc])] at hrest
          obtain ⟨line, hfault⟩ := ih hrest
          exact ⟨line, faultAt_cons hfault Or.inl⟩
        | some q =>
          cases opened with
          | nil =>
            have hbracket : i.content.head? = some ']' := by
              rw [closesContainer?, hwindow, Option.bind_some] at hclose
              exact head?_of_closingQualifier? hclose
            rw [checkMarkers_unexpected hclose] at h
            exact ⟨o.line, Or.inr ⟨(Except.error.inj h).symm, hhere ']' hbracket⟩⟩
          | cons l opened =>
            rw [checkMarkers_of_closes hclose] at h
            obtain ⟨line, hfault⟩ := ih h
            exact ⟨line, faultAt_cons hfault fun hmem => Or.inl (List.mem_cons_of_mem _ hmem)⟩
    | _ =>
      -- paragraphs inside other blocks are not at level zero and mark nothing
      rw [checkMarkers_append_quiet (quiet_ofBlock (by simp))] at h
      obtain ⟨line, hline⟩ := ih h
      exact ⟨line, faultAt_cons hline Or.inl⟩

/-! ## The line of a marker -/

/-- **The marker stands on its line,** unless that line of the Markdown is all
white space: then the text of the paragraph starts on a later one. -/
theorem marker_mem_iff {body : Text} {marker : Char} {line : Nat}
    (h : MarkerAt (Markdown.parse body) marker line) (hm : isSpace marker = false)
    (hn : marker ≠ '\n') :
    body ≠ [] ∧ ∃ row seen, line = row + 1 ∧ (lines body)[row]? = some seen ∧
      (marker ∈ seen ↔ ∃ x ∈ seen, isSpace x = false) := by
  obtain ⟨sourceLines, content, hmem, hline, hhead⟩ := h
  obtain ⟨row, front, text, behind, rest, rfl, hrow, hfront, hbehind, c, t, htext, _⟩ :=
    Markdown.parse_paragraph hmem
  obtain ⟨seen, hseen, hends⟩ := getElem?_linesWithEnds hrow
  have hcontent : (inlineToken (⟨row + 1, text⟩ :: rest) content 1).content
      = trim (text ++ linesText rest) := by
    show trim (if (text ++ linesText rest).isEmpty then _ else text ++ linesText rest) = _
    rw [htext]
    rfl
  rw [hcontent] at hhead
  have hne : body ≠ [] := by
    rintro rfl
    exact absurd hrow (by simp [linesWithEnds])
  refine ⟨hne, row, seen, hline.symm, hseen, fun hmem => ⟨marker, hmem, hm⟩, ?_⟩
  -- a visible character of the line is in `text`, so the trim does not reach the next line
  rintro ⟨x, hx, hspace⟩
  have hwhole : ∀ y ∈ seen, y ∈ front ++ text ++ behind := by
    intro y hy
    rcases hends with hl | ⟨hl, _⟩
    · rw [hl]
      exact List.mem_append_left _ hy
    · rw [hl]
      exact hy
  have hblank : ∀ y, isBlankAscii y = true → y ≠ x := by
    rintro y hy rfl
    rw [isSpace_of_isBlankAscii hy] at hspace
    exact absurd hspace (by simp)
  have htext' : ∃ y ∈ text, isSpace y = false := by
    rcases List.mem_append.1 (hwhole x hx) with hx' | hx'
    · rcases List.mem_append.1 hx' with hx' | hx'
      · exact absurd rfl (hblank x (hfront x hx'))
      · exact ⟨x, hx', hspace⟩
    · exact absurd rfl (hblank x (hbehind x hx'))
  obtain ⟨y, u, htrim, hy, _⟩ := trim_append (linesText rest) htext'
  rw [htrim] at hhead
  obtain rfl : y = marker := Option.some.inj hhead
  have hy' : y ∈ front ++ text ++ behind :=
    List.mem_append_left _ (List.mem_append_right _ hy)
  rcases hends with hl | ⟨hl, _⟩
  · rw [hl] at hy'
    rcases List.mem_append.1 hy' with hy' | hy'
    · exact hy'
    · exact absurd (List.mem_singleton.1 hy') hn
  · rw [hl] at hy'
    exact hy'

/-! ## Faults of a compile -/

/-- A compile fails over its containers exactly when its check does. -/
theorem compile_containers_iff {highlighter : Highlighter} {schedule : Schedule} {options : CompileOptions}
    {src : Text} {paths : ReferencePaths} {f : Fault} :
    compile highlighter schedule options src paths = .error (.containers f) ↔
      ∃ fm, Frontmatter.parse src = .ok fm ∧
        validateContainers (tokenize (Source.sections fm.body).body) src fm.bodyLine
          = .error f := by
  unfold compile
  cases Frontmatter.parse src with
  | error e => simp
  | ok fm =>
    simp only [Except.ok.injEq, exists_eq_left']
    cases validateContainers (tokenize (Source.sections fm.body).body) src fm.bodyLine with
    | error e => simp
    | ok u =>
      refine ⟨fun h => ?_, fun h => absurd h (by simp)⟩
      simp only at h
      (repeat' split at h) <;> exact absurd h (by simp)

/-- What the check of a document reports: a line of its Markdown, and the
marker that is reported. -/
theorem validateContainers_fault {body src : Text} {offset : Nat} {f : Fault}
    (h : validateContainers (tokenize body) src offset = .error f) :
    ∃ (row : Nat) (marker : Char) (seen : Text),
      f = .at' f.kind ((offset + row + 1 : Nat) : Int) src ∧
      (f.kind = .unclosedContainer ∧ marker = '[' ∨ f.kind = .unexpectedClose ∧ marker = ']') ∧
      body ≠ [] ∧ (lines body)[row]? = some seen ∧
      (marker ∈ seen ↔ ∃ x ∈ seen, isSpace x = false) := by
  obtain ⟨line, hfault⟩ := checkMarkers_fault h
  have place : ∀ {kind : FaultKind} {row : Nat}, f = .at' kind (line + (offset : Int)) src →
      line = row + 1 → f = .at' f.kind ((offset + row + 1 : Nat) : Int) src := by
    rintro kind row hf rfl
    have hnumber : ((row + 1 : Nat) : Int) + offset = ((offset + row + 1 : Nat) : Int) := by omega
    rw [hf, hnumber]
    rfl
  rcases hfault with ⟨hf, hmem | hmark⟩ | ⟨hf, hmark⟩
  · exact absurd hmem (by simp)
  · obtain ⟨hne, row, seen, hline, hseen, hiff⟩ := marker_mem_iff hmark (by decide) (by decide)
    exact ⟨row, '[', seen, place hf hline, Or.inl ⟨by rw [hf]; rfl, rfl⟩, hne, hseen, hiff⟩
  · obtain ⟨hne, row, seen, hline, hseen, hiff⟩ := marker_mem_iff hmark (by decide) (by decide)
    exact ⟨row, ']', seen, place hf hline, Or.inr ⟨by rw [hf]; rfl, rfl⟩, hne, hseen, hiff⟩

/-- **A fault points at its marker.** For every document whose containers do
not check, with or without metadata, script and style blocks: the fault names
one of its lines, and quotes the lines around it with a mark on that one only.
The Markdown that was read has the marker on the line exactly when the line is
not all white space, and then the document has it there too. -/
theorem fault_points_at_marker {highlighter : Highlighter} {schedule : Schedule} {options : CompileOptions}
    {src : Text} {paths : ReferencePaths} {f : Fault}
    (h : compile highlighter schedule options src paths = .error (.containers f)) :
    ∃ (fm : Frontmatter) (row : Nat) (marker : Char) (line seen : Text),
      Frontmatter.parse src = .ok fm ∧
      (f.kind = .unclosedContainer ∧ marker = '[' ∨ f.kind = .unexpectedClose ∧ marker = ']') ∧
      f.line = (fm.bodyLine + row + 1 : Nat) ∧ 1 ≤ f.line ∧ f.line ≤ (lines src).length ∧
      (lines src)[fm.bodyLine + row]? = some line ∧
      (lines (Source.sections fm.body).body)[row]? = some seen ∧
      (marker ∈ seen ↔ ∃ x ∈ seen, isSpace x = false) ∧
      ((∃ x ∈ seen, isSpace x = false) → marker ∈ line) ∧
      f.context ≠ [] ∧
      ∃ width k,
        (lines f.context)[k]? =
          some (excerptRow width (fm.bodyLine + row + 1) (fm.bodyLine + row + 1) line) ∧
        ∀ (j : Nat) (shown : Text), (lines f.context)[j]? = some shown →
          (shown.head? = some '>' ↔ j = k) := by
  obtain ⟨fm, hfm, hvalid⟩ := compile_containers_iff.1 h
  obtain ⟨row, marker, seen, hf, hkind, hne, hseen, hiff⟩ := validateContainers_fault hvalid
  obtain ⟨line, hbody, hchars⟩ := Source.lines_of_sections hseen
  have hline := lines_of_frontmatter hfm (Source.body_ne_nil hne) hbody
  have hlt : fm.bodyLine + row < (lines src).length := (List.getElem?_eq_some_iff.1 hline).1
  have hfline : f.line = (fm.bodyLine + row + 1 : Nat) := by rw [hf]; rfl
  have hcontext : f.context = excerpt src ((fm.bodyLine + row + 1 : Nat) : Int) := by rw [hf]; rfl
  obtain ⟨width, k, hmarked, honly⟩ :=
    excerpt_marks (n := fm.bodyLine + row + 1) (by omega) (by omega) hline
  rw [← hcontext] at hmarked honly
  refine ⟨fm, row, marker, line, seen, hfm, hkind, hfline, by omega, by omega, hline, hseen, hiff,
    ?_, ?_, width, k, hmarked, honly⟩
  · intro hvisible
    rcases hchars marker (hiff.2 hvisible) with hspace | hmem
    · rcases hkind with ⟨_, rfl⟩ | ⟨_, rfl⟩ <;> exact absurd hspace (by decide)
    · exact hmem
  · intro hnil
    rw [hnil] at hmarked
    have hempty : excerptRow width (fm.bodyLine + row + 1) (fm.bodyLine + row + 1) line = [] :=
      (List.mem_singleton.1 (List.mem_of_getElem? hmarked))
    exact absurd hempty (by simp [excerptRow])

/-- The lines behind a metadata block: a script with a bracket of its own, and
a closing marker. -/
def strayBody : List Text := ["", "<script>", "x[0]", "</script>", "]", ""]

def strayClose : Text := "---\ntitle: a\n---\n" ++ join "\n" strayBody

theorem fault_points_at_stray_close :
    ∃ f line, compile (plainHighlighter .github) [] {} strayClose ⟨[], []⟩ = .error (.containers f) ∧
      f.kind = .unexpectedClose ∧ f.line = 8 ∧ (lines strayClose)[7]? = some line ∧ ']' ∈ line := by
  have hblock : Frontmatter.block? strayClose = some (lines "title: a", strayBody) := by
    decide +kernel
  have hyaml : (Yaml.decodeMapping Frontmatter.mapName "title: a").isOk = true := by decide +kernel
  cases hmetadata : Yaml.decodeMapping Frontmatter.mapName "title: a" with
  | error e =>
    rw [hmetadata] at hyaml
    exact absurd hyaml (by simp [Except.isOk, Except.toBool])
  | ok metadata =>
    have hfm : Frontmatter.parse strayClose = .ok ⟨metadata, join "\n" strayBody, 3⟩ := by
      unfold Frontmatter.parse
      rw [hblock]
      simp only
      rw [show join "\n" (lines "title: a") = "title: a".toList by decide, hmetadata]
      rfl
    have hcheck : validateContainers (tokenize (Source.sections (join "\n" strayBody)).body)
        strayClose 3 = .error (.at' .unexpectedClose 8 strayClose) := by decide +kernel
    have hfault : compile (plainHighlighter .github) [] {} strayClose ⟨[], []⟩
        = .error (.containers (.at' .unexpectedClose 8 strayClose)) :=
      compile_containers_iff.2 ⟨_, hfm, hcheck⟩
    obtain ⟨fm, row, marker, line, seen, hfm', hkind, hline, _, _, hsource, hseen, _, hmarker, _⟩ :=
      fault_points_at_marker hfault
    obtain rfl := Except.ok.inj (hfm.symm.trans hfm')
    obtain rfl : row = 4 := by
      simp only [Fault.at'] at hline
      omega
    obtain rfl : seen = [']'] := by
      have hrow : (lines (Source.sections (join "\n" strayBody)).body)[4]? = some [']'] := by
        decide +kernel
      exact Option.some.inj (hseen.symm.trans hrow)
    rcases hkind with ⟨hk, _⟩ | ⟨_, rfl⟩
    · exact absurd hk (by simp [Fault.at'])
    · exact ⟨_, line, hfault, rfl, rfl, hsource, hmarker ⟨']', by decide⟩⟩

/-- A line of white space that is not blank to Markdown starts the paragraph
of the marker below it. -/
def shadedOpen : Text := "\u00a0\n[\n"

/-- The fault names the line of white space, which has no marker. -/
theorem fault_off_marker :
    compile (plainHighlighter .github) [] {} shadedOpen ⟨[], []⟩
      = .error (.containers (.at' .unclosedContainer 1 shadedOpen)) ∧
    (lines shadedOpen)[0]? = some ['\u00a0'] ∧ '[' ∉ ['\u00a0'] ∧
    (lines shadedOpen)[1]? = some ['['] := by
  refine ⟨compile_containers_iff.2 ⟨{ body := shadedOpen }, ?_, by decide +kernel⟩,
    by decide +kernel⟩
  unfold Frontmatter.parse
  rw [show Frontmatter.block? shadedOpen = none by decide +kernel]

end Docweave

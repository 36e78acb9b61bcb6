import Docweave.Proofs.TableLookahead

/-!
# Static tables

A table without a source is built like any other block: a frame for each element
in it, a fragment for each text, and each frame closed into a fragment of the frame
around it. A `Layout` is what a part of the stream leaves in the innermost frame,
and layouts are put together as the tokens are.

> `lays_wrapTokens`: an element around a part that is laid out.

> `run_static`: the run goes on behind the table, with the whole table as one
> fragment.
-/

namespace Docweave

open Markdown (Cell SourceLine Inline)

/-! ## Layouts -/

/-- The nodes that a part of the stream leaves, and the log behind them. -/
abbrev Layout := BuildLog → List Node × BuildLog

/-- An element around what is inside it. -/
def closeAround (ctx : BuildContext) (tag : Text) (inside : Layout) (log : BuildLog) : Node × BuildLog :=
  Frame.close ctx ⟨tag, [], (inside log).1⟩ (inside log).2

/-- A part that is one element. -/
def Layout.block (ctx : BuildContext) (tag : Text) (inside : Layout) : Layout := fun log =>
  ([(closeAround ctx tag inside log).1], (closeAround ctx tag inside log).2)

/-- One part behind the other. -/
def Layout.both (first second : Layout) : Layout := fun log =>
  ((first log).1 ++ (second (first log).2).1, (second (first log).2).2)

/-- Nothing. -/
def Layout.empty : Layout := fun log => ([], log)

/-- One part after the other. -/
def Layout.all (parts : List Layout) : Layout := parts.foldr Layout.both Layout.empty

/-- A cell with its text. -/
def cellLayout (ctx : BuildContext) (element : Element) (c : Cell) : Layout :=
  .block ctx element.name fun log => ([.html (renderInline (Token.ofInlines c.content))], log)

/-- A row with its cells. -/
def rowLayout (ctx : BuildContext) (element : Element) (cells : List Cell) : Layout :=
  .block ctx "tr" (.all (cells.map (cellLayout ctx element)))

/-- The rows below the header. -/
def bodyLayout (ctx : BuildContext) : List (List Cell) → Layout
  | [] => .empty
  | first :: rows => .block ctx "tbody" (.all ((first :: rows).map (rowLayout ctx .td)))

/-- A static table: elements for the table, its header and body, their rows and the
cells, around the texts of the cells. -/
def staticTable (ctx : BuildContext) (header : List Cell) (rows : List (List Cell)) (log : BuildLog) :
    Node × BuildLog :=
  closeAround ctx "table" (.both (.block ctx "thead" (rowLayout ctx .th header)) (bodyLayout ctx rows)) log

/-! ## Running through a part -/

/-- The scaffold with nodes in its innermost frame. -/
def Scaffold.pushAll (s : Scaffold) (ns : List Node) : Scaffold := ns.foldl Scaffold.push s

/-- The run through these tokens leaves what the layout says, and nothing else,
whatever is around them. -/
def Lays (ctx : BuildContext) (ts : List Token) (layout : Layout) : Prop :=
  ∀ s log more, (⟨s, log, ts ++ more⟩ : BuildState).run ctx =
    (⟨s.pushAll (layout log).1, (layout log).2, more⟩ : BuildState).run ctx

section

variable {ctx : BuildContext} {f g : Layout} {ts us : List Token}

theorem pushAll_append (s : Scaffold) (ns ms : List Node) : s.pushAll (ns ++ ms) = (s.pushAll ns).pushAll ms :=
  List.foldl_append

/-- Nodes in an open frame stay in it until it closes. -/
theorem pushAll_frame (s : Scaffold) (f : Frame) (ns : List Node) :
    Scaffold.pushAll { s with frames := f :: s.frames } ns =
      { s with frames := { f with children := f.children ++ ns } :: s.frames } := by
  induction ns generalizing f with
  | nil => rw [List.append_nil]; rfl
  | cons n ns ih =>
    show Scaffold.pushAll { s with frames := { f with children := f.children ++ [n] } :: s.frames } ns = _
    rw [ih, List.append_assoc]
    rfl

theorem lays_nil : Lays ctx [] .empty := fun _ _ _ => rfl

theorem lays_append (hf : Lays ctx ts f) (hg : Lays ctx us g) : Lays ctx (ts ++ us) (.both f g) := by
  intro s log more
  rw [List.append_assoc, hf, hg, Layout.both, pushAll_append]

theorem lays_flatMap {α : Type} {tokens : α → List Token} {layout : α → Layout} {xs : List α}
    (h : ∀ x ∈ xs, Lays ctx (tokens x) (layout x)) : Lays ctx (xs.flatMap tokens) (.all (xs.map layout)) := by
  induction xs with
  | nil => exact lays_nil
  | cons x xs ih =>
    obtain ⟨hx, hxs⟩ := List.forall_mem_cons.1 h
    rw [List.flatMap_cons]
    exact lays_append hx (ih hxs)

theorem lays_inlineToken (lines : List SourceLine) (content : List Inline) (level : Nat) :
    Lays ctx [inlineToken lines content level] fun log =>
      ([.html (renderInline (Token.ofInlines content))], log) :=
  fun _ _ _ => buildStep_run (.leaf rfl)

/-- The run through an element, from in front of it to behind it. -/
theorem run_wrapTokens {element : Element} (helement : element ≠ .paragraph) (tag : Text) (line level : Nat)
    (hf : Lays ctx ts f) {s : Scaffold} {log : BuildLog} {more : List Token}
    (htable : element = .table → s.frames = [] →
      dynamicTable? (ts ++ [{ kind := .closes element, tag := tag, level := level }] ++ more) = none) :
    (⟨s, log, wrapTokens element tag line level [] ts ++ more⟩ : BuildState).run ctx =
      (⟨s.push (closeAround ctx tag f log).1, (closeAround ctx tag f log).2, more⟩ : BuildState).run ctx := by
  let opening : Token := { kind := .opens element, tag := tag, line := line, level := level, attrs := [] }
  let closing : Token := { kind := .closes element, tag := tag, level := level }
  have hopen : opensContainer (opening :: (ts ++ [closing] ++ more)) = false :=
    opensContainer_of_kind _ fun h => helement (TokenKind.opens.inj h)
  have hattrs : tokenAttrs opening = [] := by simp [tokenAttrs, opening, Text.join]
  have hstart : BuildStep ctx ⟨s, log, opening :: (ts ++ [closing] ++ more)⟩
      ⟨{ s with frames := ⟨tag, [], []⟩ :: s.frames }, log, ts ++ [closing] ++ more⟩ := by
    rw [← hattrs]
    exact .opening hopen rfl htable
  have hend : BuildStep ctx
      ⟨{ s with frames := ⟨tag, [], [] ++ (f log).1⟩ :: s.frames }, (f log).2, closing :: more⟩
      ⟨s.push (closeAround ctx tag f log).1, (closeAround ctx tag f log).2, more⟩ := .closing rfl rfl
  calc (⟨s, log, opening :: (ts ++ [closing]) ++ more⟩ : BuildState).run ctx
      = (⟨{ s with frames := ⟨tag, [], []⟩ :: s.frames }, log, ts ++ [closing] ++ more⟩ :
          BuildState).run ctx := buildStep_run hstart
    _ = (⟨{ s with frames := ⟨tag, [], [] ++ (f log).1⟩ :: s.frames }, (f log).2, closing :: more⟩ :
          BuildState).run ctx := by
        rw [List.append_assoc, hf, pushAll_frame]
        rfl
    _ = _ := buildStep_run hend

/-- An element around a part. -/
theorem lays_wrapTokens {element : Element} (hparagraph : element ≠ .paragraph) (htable : element ≠ .table)
    (tag : Text) (line level : Nat) (hf : Lays ctx ts f) :
    Lays ctx (wrapTokens element tag line level [] ts) (.block ctx tag f) :=
  fun _ _ _ => run_wrapTokens hparagraph tag line level hf fun he => absurd he htable

/-! ## Tables -/

theorem lays_cellTokens {element : Element} (hparagraph : element ≠ .paragraph) (htable : element ≠ .table)
    (level : Nat) (cells : List Cell) :
    Lays ctx (cellTokens element level cells) (.all (cells.map (cellLayout ctx element))) :=
  lays_flatMap fun c _ => lays_wrapTokens hparagraph htable _ _ _ (lays_inlineToken c.lines c.content (level + 1))

theorem lays_rowTokens {element : Element} (hparagraph : element ≠ .paragraph) (htable : element ≠ .table)
    (line level : Nat) (cells : List Cell) :
    Lays ctx (wrapTokens .tr "tr" line level [] (cellTokens element (level + 1) cells))
      (rowLayout ctx element cells) :=
  lays_wrapTokens (by simp) (by simp) _ _ _ (lays_cellTokens hparagraph htable _ cells)

theorem lays_head (level : Nat) (header : List Cell) :
    Lays ctx (wrapTokens .thead "thead" (firstCellLine header) (level + 1) []
        (wrapTokens .tr "tr" (firstCellLine header) (level + 2) [] (cellTokens .th (level + 3) header)))
      (.block ctx "thead" (rowLayout ctx .th header)) :=
  lays_wrapTokens (by simp) (by simp) _ _ _ (lays_rowTokens (by simp) (by simp) _ _ header)

theorem lays_body (level : Nat) (first : List Cell) (rows : List (List Cell)) :
    Lays ctx (wrapTokens .tbody "tbody" (firstCellLine first) (level + 1) []
        ((first :: rows).flatMap fun cells =>
          wrapTokens .tr "tr" (firstCellLine cells) (level + 2) [] (cellTokens .td (level + 3) cells)))
      (bodyLayout ctx (first :: rows)) :=
  lays_wrapTokens (by simp) (by simp) _ _ _
    (lays_flatMap fun cells _ => lays_rowTokens (by simp) (by simp) _ _ cells)

/-- **A static table is one fragment.** When a search for a source finds none, or is
not made, the run goes on behind the table with the whole table in the innermost
block. -/
theorem run_static (ctx : BuildContext) (level : Nat) (header : List Cell) (rows : List (List Cell)) {s : Scaffold}
    {log : BuildLog} {more : List Token}
    (hnone : s.frames = [] → dynamicTable? ((Token.ofBlock level (.table header rows)).drop 1 ++ more) = none) :
    (⟨s, log, Token.ofBlock level (.table header rows) ++ more⟩ : BuildState).run ctx =
      (⟨s.push (staticTable ctx header rows log).1, (staticTable ctx header rows log).2, more⟩ :
        BuildState).run ctx := by
  cases rows with
  | nil =>
    exact run_wrapTokens (by simp) _ _ _ (lays_append (lays_head level header) lays_nil) fun _ => hnone
  | cons first rows =>
    exact run_wrapTokens (by simp) _ _ _ (lays_append (lays_head level header) (lays_body level first rows))
      fun _ => hnone

end

end Docweave

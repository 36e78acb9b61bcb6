import Docweave.Proofs.BuildSteps

/-!
# Looking ahead in a table

The builder has to decide at the opening token of a table whether the table is
dynamic, and the line that says so may stand in its last cell or below it. So
`dynamicTable?` reads the tokens of the whole table. `scanTable_tableInside` says
what it has read when it comes to the end, for any number of columns and rows.

> `scanTable_headerCells`, `scanTable_rows`: the cells of the header are labels,
> and the last line among the other cells that names a source is kept.

> `commitsTo_cell`, `commitsTo_paragraph`, `rewinds_static`: a source in a cell, one
> below the table, and none at all.

> `table_commits_or_rewinds`: the builder takes the whole table as one node, or
> stays where it is and opens a block.
-/

namespace Docweave

open Markdown (Cell)

/-! ## What a table shows -/

/-- The text of a cell. -/
def cellText (c : Cell) : Text := (inlineToken c.lines c.content 0).content

theorem kind_inlineToken (lines : List Markdown.SourceLine) (content : List Markdown.Inline) (level : Nat) :
    (inlineToken lines content level).kind = .inline := rfl

theorem content_inlineToken (c : Cell) (level : Nat) :
    (inlineToken c.lines c.content level).content = cellText c := rfl

/-- The texts of the cells below the header, row by row. -/
def bodyTexts (rows : List (List Cell)) : List Text := rows.flatten.map cellText

/-- The first cell below the header, unless it names a data source. -/
def emptyText (rows : List (List Cell)) : Text :=
  match rows.head?.bind List.head? with
  | some c => if isDataSourceLine (cellText c) then [] else cellText c
  | none => []

/-- The last line that names a data source, or else the given one. -/
def lastSource (source : Text) (lines : List Text) : Text :=
  lines.foldl (fun source line => if isDataSourceLine line then Text.trim line else source) source

/-- The token that opens a table at the top of a document. -/
def tableOpening (header : List Cell) (rows : List (List Cell)) : Token :=
  { kind := .opens .table, tag := "table", line := firstRowLine (header :: rows) }

/-- The tokens of a row inside a table at the top of a document. -/
def rowTokens (element : Element) (cells : List Cell) : List Token :=
  wrapTokens .tr "tr" (firstCellLine cells) 2 [] (cellTokens element 3 cells)

/-- The tokens of the rows below the header. -/
def bodyTokens : List (List Cell) → List Token
  | [] => []
  | first :: rows =>
    wrapTokens .tbody "tbody" (firstCellLine first) 1 [] ((first :: rows).flatMap (rowTokens .td))

/-- The tokens of a table behind its opening token. -/
def tableInside (header : List Cell) (rows : List (List Cell)) : List Token :=
  wrapTokens .thead "thead" (firstCellLine header) 1 [] (rowTokens .th header) ++ bodyTokens rows ++
    [{ kind := .closes .table, tag := "table" }]

theorem ofBlock_table (header : List Cell) (rows : List (List Cell)) :
    Token.ofBlock 0 (.table header rows) = tableOpening header rows :: tableInside header rows := by
  cases rows with
  | nil => rfl
  | cons first rows => rfl

section

variable {s : TableScan} {t : Token} {ts rest : List Token}

/-! ## Reading the tokens -/

/-- A token that neither ends the table nor opens a cell of the header is looked
at on its own. -/
theorem scanTable_see (hend : t.kind ≠ .closes .table) (hlabel : t.kind ≠ .opens .th) :
    scanTable s (t :: ts) = scanTable (s.see (t :: ts)) ts := by
  have hnone : headerCell? (t :: ts) = none := by
    cases ts with
    | nil => rfl
    | cons i ts => simp [headerCell?, hlabel]
  rw [scanTable, if_neg hend, hnone]

theorem firstBodyCell?_of_kind (hbody : t.kind ≠ .opens .tbody) : firstBodyCell? (t :: ts) = none := by
  unfold firstBodyCell?
  split
  next b r d i more heq =>
    obtain ⟨rfl, -⟩ := List.cons.inj heq
    simp [hbody]
  next => rfl

/-- A token that neither starts a cell of the header nor the body, nor is a text
or the end, tells nothing. -/
theorem scanTable_quiet (hend : t.kind ≠ .closes .table) (hlabel : t.kind ≠ .opens .th)
    (hbody : t.kind ≠ .opens .tbody) (htext : t.kind ≠ .inline) : scanTable s (t :: ts) = scanTable s ts := by
  rw [scanTable_see hend hlabel]
  simp [TableScan.see, firstBodyCell?_of_kind hbody, htext]

/-- The cells of a header are labels, whatever they say. -/
theorem scanTable_headerCells (level : Nat) (cells : List Cell) :
    scanTable s (cellTokens .th level cells ++ rest) =
      scanTable { s with headers := s.headers ++ cells.map cellText } rest := by
  induction cells generalizing s with
  | nil =>
    rw [List.map_nil, List.append_nil]
    rfl
  | cons c cells ih =>
    have hcell : scanTable s (cellTokens .th level (c :: cells) ++ rest) =
        scanTable { s with headers := s.headers ++ [cellText c] } (cellTokens .th level cells ++ rest) := by
      unfold cellTokens wrapTokens
      simp only [List.flatMap_cons, List.cons_append, List.nil_append]
      rw [scanTable, if_neg (by simp)]
      simp only [headerCell?, kind_inlineToken, content_inlineToken, decide_true, Bool.and_self, if_true,
        List.drop_succ_cons, List.drop_zero]
      rw [scanTable_quiet (by simp) (by simp) (by simp) (by simp)]
    rw [hcell, ih, List.append_assoc]
    rfl

/-- A text that is no label is looked at for a source. -/
theorem scanTable_text (htext : t.kind = .inline) :
    scanTable s (t :: ts) = scanTable { s with source := lastSource s.source [t.content] } ts := by
  rw [scanTable_see (by simp [htext]) (by simp [htext])]
  have hbody : firstBodyCell? (t :: ts) = none := firstBodyCell?_of_kind (by simp [htext])
  simp only [TableScan.see, hbody, htext, decide_true, Bool.true_and, lastSource, List.foldl_cons,
    List.foldl_nil]
  split <;> rfl

/-- The other cells of a row are looked at for a source. -/
theorem scanTable_bodyCells (level : Nat) (cells : List Cell) :
    scanTable s (cellTokens .td level cells ++ rest) =
      scanTable { s with source := lastSource s.source (cells.map cellText) } rest := by
  induction cells generalizing s with
  | nil => rfl
  | cons c cells ih =>
    have hcell : scanTable s (cellTokens .td level (c :: cells) ++ rest) =
        scanTable { s with source := lastSource s.source [cellText c] } (cellTokens .td level cells ++ rest) := by
      unfold cellTokens wrapTokens
      simp only [List.flatMap_cons, List.cons_append, List.nil_append]
      rw [scanTable_quiet (by simp) (by simp) (by simp) (by simp), scanTable_text rfl,
        scanTable_quiet (by simp) (by simp) (by simp) (by simp)]
      rfl
    rw [hcell, ih]
    rfl

theorem lastSource_append (source : Text) (xs ys : List Text) :
    lastSource source (xs ++ ys) = lastSource (lastSource source xs) ys := List.foldl_append

theorem scanTable_row (cells : List Cell) :
    scanTable s (rowTokens .td cells ++ rest) =
      scanTable { s with source := lastSource s.source (cells.map cellText) } rest := by
  unfold rowTokens wrapTokens
  simp only [List.cons_append, List.append_assoc]
  rw [scanTable_quiet (by simp) (by simp) (by simp) (by simp), scanTable_bodyCells, List.nil_append,
    scanTable_quiet (by simp) (by simp) (by simp) (by simp)]

/-- Rows below the header are looked at for a source, from the first to the
last. -/
theorem scanTable_rows (rows : List (List Cell)) :
    scanTable s (rows.flatMap (rowTokens .td) ++ rest) =
      scanTable { s with source := lastSource s.source (bodyTexts rows) } rest := by
  induction rows generalizing s with
  | nil => rfl
  | cons cells rows ih =>
    rw [List.flatMap_cons, List.append_assoc, scanTable_row, ih]
    simp only [bodyTexts, List.flatten_cons, List.map_append, lastSource_append]

/-- The first cell below the header is seen from the opening of the body. -/
theorem firstBodyCell?_bodyTokens (cells : List Cell) (rows : List (List Cell)) (rest : List Token) :
    firstBodyCell? (bodyTokens (cells :: rows) ++ rest) =
      cells.head?.bind fun c => if isDataSourceLine (cellText c) then none else some (cellText c) := by
  unfold bodyTokens wrapTokens rowTokens wrapTokens
  simp only [List.flatMap_cons, List.cons_append, List.append_assoc, List.nil_append]
  cases cells with
  | nil =>
    -- the row closes where its first cell would open
    unfold firstBodyCell?
    split
    next b r d i more heq =>
      obtain ⟨-, heq⟩ := List.cons.inj heq
      obtain ⟨-, heq⟩ := List.cons.inj heq
      obtain ⟨rfl, -⟩ := List.cons.inj heq
      simp
    next => rfl
  | cons c cells =>
    unfold cellTokens wrapTokens
    simp only [List.flatMap_cons, List.cons_append, List.nil_append, firstBodyCell?, kind_inlineToken,
      content_inlineToken, decide_true, Bool.true_and, List.head?_cons, Option.bind_some]
    cases isDataSourceLine (cellText c) <;> rfl

theorem emptyText_cons (cells : List Cell) (rows : List (List Cell)) :
    emptyText (cells :: rows) =
      (cells.head?.bind fun c => if isDataSourceLine (cellText c) then none else some (cellText c)).getD [] := by
  unfold emptyText
  rw [List.head?_cons, Option.bind_some]
  cases cells.head? with
  | none => rfl
  | some c =>
    rw [Option.bind_some]
    cases hline : isDataSourceLine (cellText c) with
    | true => simp [hline]
    | false => simp [hline]

/-- At a token that opens something only the first cell of a body is seen. -/
theorem see_of_opens {e : Element} (h : t.kind = .opens e) :
    s.see (t :: ts) = { s with placeholder := (firstBodyCell? (t :: ts)).getD s.placeholder } := by
  unfold TableScan.see
  cases firstBodyCell? (t :: ts) <;> simp [h]

/-- The body tells what an empty source shows, and then its lines. -/
theorem scanTable_body (rows : List (List Cell)) (hempty : s.placeholder = []) :
    scanTable s (bodyTokens rows ++ rest) =
      scanTable { s with source := lastSource s.source (bodyTexts rows), placeholder := emptyText rows } rest := by
  cases rows with
  | nil =>
    show scanTable s rest = scanTable { s with source := s.source, placeholder := [] } rest
    rw [← hempty]
  | cons cells rows =>
    have hopen : bodyTokens (cells :: rows) ++ rest =
        { kind := .opens .tbody, tag := "tbody", line := firstCellLine cells, level := 1 } ::
          ((cells :: rows).flatMap (rowTokens .td) ++
            ({ kind := .closes .tbody, tag := "tbody", level := 1 } :: rest)) := by
      unfold bodyTokens wrapTokens
      simp only [List.cons_append, List.append_assoc, List.nil_append]
    have hcell := firstBodyCell?_bodyTokens cells rows rest
    rw [hopen] at hcell ⊢
    rw [scanTable_see (by simp) (by simp), see_of_opens rfl, hcell, hempty, ← emptyText_cons, scanTable_rows,
      scanTable_quiet (by simp) (by simp) (by simp) (by simp)]

/-- **The whole table is read**, and nothing behind it. -/
theorem scanTable_tableInside (header : List Cell) (rows : List (List Cell)) (more : List Token) :
    scanTable {} (tableInside header rows ++ more) =
      (⟨header.map cellText, lastSource [] (bodyTexts rows), emptyText rows⟩,
        { kind := .closes .table, tag := "table" } :: more) := by
  unfold tableInside rowTokens wrapTokens
  simp only [List.cons_append, List.append_assoc, List.nil_append]
  rw [scanTable_quiet (by simp) (by simp) (by simp) (by simp),
    scanTable_quiet (by simp) (by simp) (by simp) (by simp), scanTable_headerCells, List.nil_append,
    scanTable_quiet (by simp) (by simp) (by simp) (by simp),
    scanTable_quiet (by simp) (by simp) (by simp) (by simp), scanTable_body _ rfl, scanTable, if_pos rfl]

/-! ## What is found -/

theorem lastSource_of_none {source : Text} {lines : List Text}
    (h : ∀ l ∈ lines, isDataSourceLine l = false) : lastSource source lines = source := by
  induction lines with
  | nil => rfl
  | cons l lines ih =>
    obtain ⟨hl, hlines⟩ := List.forall_mem_cons.1 h
    rw [lastSource, List.foldl_cons, hl]
    exact ih hlines

theorem lastSource_of_last {source line : Text} {front behind : List Text} (hline : isDataSourceLine line = true)
    (hbehind : ∀ l ∈ behind, isDataSourceLine l = false) :
    lastSource source (front ++ line :: behind) = Text.trim line := by
  have hone : ∀ s, lastSource s (line :: behind) = lastSource (Text.trim line) behind := by
    intro s
    rw [lastSource, List.foldl_cons, hline]
    rfl
  rw [lastSource_append, hone, lastSource_of_none hbehind]

/-- A line that names a data source is not empty. -/
theorem trim_ne_nil {line : Text} (h : isDataSourceLine line = true) : Text.trim line ≠ [] := by
  intro hnil
  unfold isDataSourceLine at h
  rw [hnil] at h
  exact absurd h (by decide)

end

/-! ## The decision -/

/-- The builder, with no block open, takes the table as one node with this line,
and goes on with this stream. -/
structure CommitsTo (ctx : BuildContext) (header : List Cell) (rows : List (List Cell)) (more : List Token)
    (line : Text) (rest : List Token) : Prop where
  found : dynamicTable? (tableInside header rows ++ more) =
    some (.table (header.map cellText) (Text.trim line) (emptyText rows) [], rest)
  step : ∀ nodes log, BuildStep ctx ⟨⟨nodes, []⟩, log, Token.ofBlock 0 (.table header rows) ++ more⟩
    ⟨⟨nodes ++ [.table (header.map cellText) (Text.trim line) (emptyText rows) []], []⟩, log, rest⟩

/-- The builder, with no block open, finds no source. It has taken nothing and opens
a block for the table. -/
structure Rewinds (ctx : BuildContext) (header : List Cell) (rows : List (List Cell)) (more : List Token) :
    Prop where
  found : dynamicTable? (tableInside header rows ++ more) = none
  step : ∀ nodes log, BuildStep ctx ⟨⟨nodes, []⟩, log, Token.ofBlock 0 (.table header rows) ++ more⟩
    ⟨⟨nodes, [⟨"table", [], []⟩]⟩, log, tableInside header rows ++ more⟩

section

variable {ctx : BuildContext} {header : List Cell} {rows : List (List Cell)} {more rest : List Token} {line : Text}

theorem commitsTo_of_found (h : dynamicTable? (tableInside header rows ++ more) =
    some (.table (header.map cellText) (Text.trim line) (emptyText rows) [], rest)) :
    CommitsTo ctx header rows more line rest := by
  refine ⟨h, fun nodes log => ?_⟩
  rw [ofBlock_table, List.cons_append]
  exact .table rfl rfl h

theorem rewinds_of_none (h : dynamicTable? (tableInside header rows ++ more) = none) :
    Rewinds ctx header rows more := by
  have hkind : (tableOpening header rows).kind ≠ .opens .paragraph := by simp [tableOpening]
  have hattrs : tokenAttrs (tableOpening header rows) = [] := by simp [tokenAttrs, tableOpening, Text.join]
  refine ⟨h, fun nodes log => ?_⟩
  rw [ofBlock_table, List.cons_append, ← hattrs]
  exact .opening (opensContainer_of_kind _ hkind) rfl fun _ _ => h

/-- A cell that names a source is taken, the last one if there are several. -/
theorem commitsTo_cell {front behind : List Text} (htexts : bodyTexts rows = front ++ line :: behind)
    (hline : isDataSourceLine line = true) (hbehind : ∀ l ∈ behind, isDataSourceLine l = false) :
    CommitsTo ctx header rows more line more := by
  have hsource : (Text.trim line).isEmpty = false := by simpa using trim_ne_nil hline
  apply commitsTo_of_found
  unfold dynamicTable?
  rw [scanTable_tableInside, htexts, lastSource_of_last hline hbehind]
  simp only [hsource, Bool.not_false, if_true, List.drop_succ_cons, List.drop_zero]

/-- When no cell names a source, the paragraph right below may. -/
theorem commitsTo_paragraph {i : Token} (hcells : ∀ l ∈ bodyTexts rows, isDataSourceLine l = false)
    (hparagraph : markerParagraph? more = some i) (hline : isDataSourceLine i.content = true) :
    CommitsTo ctx header rows more i.content (more.drop 3) := by
  apply commitsTo_of_found
  unfold dynamicTable?
  rw [scanTable_tableInside, lastSource_of_none hcells]
  simp only [List.isEmpty_nil, Bool.not_true, Bool.false_eq_true, if_false, List.drop_succ_cons, List.drop_zero,
    hparagraph, hline, if_true]

/-- Otherwise nothing is found. -/
theorem rewinds_static (hcells : ∀ l ∈ bodyTexts rows, isDataSourceLine l = false)
    (hparagraph : ∀ i, markerParagraph? more = some i → isDataSourceLine i.content = false) :
    Rewinds ctx header rows more := by
  apply rewinds_of_none
  unfold dynamicTable?
  rw [scanTable_tableInside, lastSource_of_none hcells]
  simp only [List.isEmpty_nil, Bool.not_true, Bool.false_eq_true, if_false, List.drop_succ_cons, List.drop_zero]
  split
  next i hi => rw [if_neg (by simp [hparagraph i hi])]
  next => rfl

end

/-- Among lines there is none that names a source, or a last one. -/
theorem lastSource_cases (lines : List Text) :
    (∀ l ∈ lines, isDataSourceLine l = false) ∨
      ∃ front line behind, lines = front ++ line :: behind ∧ isDataSourceLine line = true ∧
        ∀ l ∈ behind, isDataSourceLine l = false := by
  induction lines with
  | nil => exact Or.inl (by simp)
  | cons l lines ih =>
    rcases ih with hnone | ⟨front, line, behind, rfl, hline, hbehind⟩
    · cases hl : isDataSourceLine l with
      | true => exact Or.inr ⟨[], l, lines, rfl, hl, hnone⟩
      | false => exact Or.inl (List.forall_mem_cons.2 ⟨hl, hnone⟩)
    · exact Or.inr ⟨l :: front, line, behind, rfl, hline, hbehind⟩

/-- **A table is taken as a whole or not at all.** For any table at the top of a
document, with any tokens behind it, one of three things happens. Cells below the
header name a source: the table is one node with the last of these lines, and the
stream goes on behind the table. No such cell, but the paragraph right behind the
table names one: the table is one node with that line, and the stream goes on
behind the paragraph. Or neither: the builder has taken nothing. In a node the
labels are the texts of the header from left to right, and an empty source shows
the first cell below the header, unless that names a source. -/
theorem table_commits_or_rewinds (ctx : BuildContext) (header : List Cell) (rows : List (List Cell))
    (more : List Token) :
    (∃ front line behind, bodyTexts rows = front ++ line :: behind ∧ isDataSourceLine line = true ∧
        (∀ l ∈ behind, isDataSourceLine l = false) ∧ CommitsTo ctx header rows more line more) ∨
      (∀ l ∈ bodyTexts rows, isDataSourceLine l = false) ∧
        ((∃ i, markerParagraph? more = some i ∧ isDataSourceLine i.content = true ∧
            CommitsTo ctx header rows more i.content (more.drop 3)) ∨
          (∀ i, markerParagraph? more = some i → isDataSourceLine i.content = false) ∧
            Rewinds ctx header rows more) := by
  rcases lastSource_cases (bodyTexts rows) with hcells | ⟨front, line, behind, htexts, hline, hbehind⟩
  · refine Or.inr ⟨hcells, ?_⟩
    by_cases hparagraph : ∃ i, markerParagraph? more = some i ∧ isDataSourceLine i.content = true
    · obtain ⟨i, hi, hline⟩ := hparagraph
      exact Or.inl ⟨i, hi, hline, commitsTo_paragraph hcells hi hline⟩
    · have hnone : ∀ i, markerParagraph? more = some i → isDataSourceLine i.content = false := by
        intro i hi
        rw [← Bool.not_eq_true]
        exact fun hline => hparagraph ⟨i, hi, hline⟩
      exact Or.inr ⟨hnone, rewinds_static hcells hnone⟩
  · exact Or.inl ⟨front, line, behind, htexts, hline, hbehind, commitsTo_cell htexts hline hbehind⟩

/-- A label that reads like a source, and a source below the table. -/
def sourceLabel : Cell := ⟨[⟨1, "\x7b:data-source=\"a\"\x7d"⟩], []⟩

def sourceBelow : List Token := Token.ofBlocks 0 [.paragraph [⟨5, "\x7b:data-source=\"b\"\x7d\n"⟩] []]

/-- A cell of the header is a label, also when it reads like a source: the
paragraph below the table is taken. -/
theorem label_names_no_source :
    isDataSourceLine (cellText sourceLabel) = true ∧
      dynamicTable? (tableInside [sourceLabel] [[⟨[⟨3, "x"⟩], []⟩]] ++ sourceBelow) =
        some (.table ["\x7b:data-source=\"a\"\x7d"] "\x7b:data-source=\"b\"\x7d" "x" [], []) := by
  have hbelow : markerParagraph? sourceBelow =
      some (inlineToken [⟨5, "\x7b:data-source=\"b\"\x7d\n"⟩] [] 1) := rfl
  have hfound : CommitsTo ⟨[], 0, [], []⟩ [sourceLabel] [[⟨[⟨3, "x"⟩], []⟩]] sourceBelow _ _ :=
    commitsTo_paragraph (by decide +kernel) hbelow (by decide +kernel)
  exact ⟨by decide +kernel, hfound.found⟩

end Docweave

import Docweave.Markdown.Parse
import Docweave.Text.Space
import Docweave.Token.Basic

/-!
# The token stream of a document

`Token.ofBlocks` flattens a document tree. Blocks become pairs of tokens around their content, so the
stream nests like the tree; a table gets the head, body and row elements that the tree leaves implicit.

Where the kinds of nodes are open to extension, a walk over the tree has a default: a node that it does not
know is replaced by its children. `Token.ofBlock` and `Token.ofInline` need none. The parser is set up with
tables and strikethrough and no other extension, and each kind of block and run that it then makes is a
constructor of `Markdown.Block` or `Markdown.Inline`, so that no unknown node occurs.
-/

namespace Docweave

open Markdown (Block Inline Cell SourceLine Document LineBreak)

/-! ## Text runs -/

/-- Resolves backslash escapes of punctuation, except those in front of a bracket construct, which the
bracket rewrite still has to see. -/
def unescapeText : Text → Text
  | [] => []
  | '\\' :: next :: rest =>
    if !Text.isPunctuation next then '\\' :: unescapeText (next :: rest)
    else if next = '[' || next = ']' || (next = ':' && rest.head? = some '[') then
      '\\' :: unescapeText (next :: rest)
    else next :: unescapeText rest
  | c :: rest => c :: unescapeText rest

/-- The plain text of inline runs. -/
def inlineText (runs : List Token) : Text :=
  runs.flatMap fun r =>
    match r.kind with
    | .text => r.content
    | .codeInline => r.content
    | .softbreak => ['\n']
    | .hardbreak => ['\n']
    | _ => []

/-- The attributes of a link or image: the target under the given name, and the title if there is one. -/
def targetAttrs (target : Text × Text) (title : Text) : List (Text × Text) :=
  target :: if title.isEmpty then [] else [("title", title)]

mutual

/-- The runs of a piece of inline content. -/
def Token.ofInline : Inline → List Token
  | .text content ending =>
    { kind := .text, content := unescapeText content } ::
      match ending with
      | .none => []
      | .soft => [{ kind := .softbreak }]
      | .hard => [{ kind := .hardbreak }]
  | .code content => [{ kind := .codeInline, tag := "code", content := content }]
  | .emphasis strong children =>
    let (element, tag) : Element × Text := if strong then (.strong, "strong") else (.em, "em")
    [{ kind := .opens element, tag := tag }] ++ Token.ofInlines children ++
      [{ kind := .closes element, tag := tag }]
  | .strikethrough children =>
    [{ kind := .opens .s, tag := "s" }] ++ Token.ofInlines children ++ [{ kind := .closes .s, tag := "s" }]
  | .link destination title children =>
    [{ kind := .opens .link, tag := "a", attrs := targetAttrs ("href", destination) title }] ++
      Token.ofInlines children ++ [{ kind := .closes .link, tag := "a" }]
  | .image destination title children =>
    let alt := inlineText (Token.ofInlines children)
    [{ kind := .image, tag := "img",
       attrs := ("src", destination) :: targetAttrs ("alt", alt) title }]
  | .autolink url isEmail =>
    let href : Text := if isEmail then "mailto:" ++ url else url
    [{ kind := .opens .link, tag := "a", attrs := [("href", href)] },
     { kind := .text, content := url },
     { kind := .closes .link, tag := "a" }]
  | .html content => [{ kind := .htmlInline, content := content }]

/-- The runs of inline content. -/
def Token.ofInlines : List Inline → List Token
  | [] => []
  | i :: is => Token.ofInline i ++ Token.ofInlines is

end

/-! ## Blocks -/

/-- The number of the first line, zero without lines. -/
def firstLine (lines : List SourceLine) : Nat := (lines.head?.map (·.number)).getD 0

/-- The text of lines. -/
def linesText (lines : List SourceLine) : Text := lines.flatMap (·.text)

/-- The first line of a row of cells that has one. -/
def firstCellLine : List Cell → Nat
  | [] => 0
  | c :: cs => if firstLine c.lines > 0 then firstLine c.lines else firstCellLine cs

/-- The first line of some rows that has one. -/
def firstRowLine : List (List Cell) → Nat
  | [] => 0
  | r :: rs => if firstCellLine r > 0 then firstCellLine r else firstRowLine rs

mutual

/-- The line a block starts on: that of its first line, or of the first block inside that has one. -/
def blockLine : Block → Nat
  | .heading _ lines _ => firstLine lines
  | .paragraph lines _ => firstLine lines
  | .textBlock lines _ => firstLine lines
  | .quote children => blocksLine children
  | .list _ items => blocksLine items
  | .item children => blocksLine children
  | .fencedCode _ lines => firstLine lines
  | .code lines => firstLine lines
  | .html lines _ => firstLine lines
  | .thematicBreak => 0
  | .table header rows => firstRowLine (header :: rows)

/-- The line of the first block that has one. -/
def blocksLine : List Block → Nat
  | [] => 0
  | b :: bs => if blockLine b > 0 then blockLine b else blocksLine bs

end

/-- The `inline` token of a block's text. -/
def inlineToken (lines : List SourceLine) (content : List Inline) (level : Nat) : Token :=
  let runs := Token.ofInlines content
  let raw := linesText lines
  { kind := .inline
    content := Text.trim (if raw.isEmpty then inlineText runs else raw)
    children := runs
    line := firstLine lines
    level := level }

/-- The tokens of a block: an opening token, the content one level deeper and a closing token. -/
def wrapTokens (element : Element) (tag : Text) (line level : Nat) (attrs : List (Text × Text))
    (content : List Token) : List Token :=
  { kind := .opens element, tag := tag, line := line, level := level, attrs := attrs } :: content ++
    [{ kind := .closes element, tag := tag, level := level }]

/-- The tokens of the cells of a row. -/
def cellTokens (element : Element) (level : Nat) (cells : List Cell) : List Token :=
  cells.flatMap fun c =>
    wrapTokens element element.name (firstLine c.lines) level [] [inlineToken c.lines c.content (level + 1)]

/-- The tokens of a table. -/
def tableTokens (level : Nat) (header : List Cell) (rows : List (List Cell)) : List Token :=
  let row := fun (element : Element) (cells : List Cell) =>
    wrapTokens .tr "tr" (firstCellLine cells) (level + 2) [] (cellTokens element (level + 3) cells)
  let head := wrapTokens .thead "thead" (firstCellLine header) (level + 1) [] (row .th header)
  let body := match rows with
    | [] => []
    | first :: _ =>
      wrapTokens .tbody "tbody" (firstCellLine first) (level + 1) [] (rows.flatMap (row .td))
  wrapTokens .table "table" (firstRowLine (header :: rows)) level [] (head ++ body)

/-- The element name of a heading. -/
def headingTag (level : Nat) : Text := 'h' :: Text.ofNat level

mutual

/-- The tokens of a block that has `level` blocks around it. -/
def Token.ofBlock (level : Nat) : Block → List Token
  | .heading n lines content =>
    wrapTokens .heading (headingTag n) (firstLine lines) level [] [inlineToken lines content (level + 1)]
  | .paragraph lines content =>
    wrapTokens .paragraph "p" (firstLine lines) level [] [inlineToken lines content (level + 1)]
  | .textBlock lines content => [inlineToken lines content level]
  | .quote children =>
    wrapTokens .blockquote "blockquote" (blocksLine children) level [] (Token.ofBlocks (level + 1) children)
  | .list (some first) items =>
    wrapTokens .orderedList "ol" (blocksLine items) level
      (if first > 1 then [("start", Text.ofNat first)] else []) (Token.ofBlocks (level + 1) items)
  | .list none items =>
    wrapTokens .bulletList "ul" (blocksLine items) level [] (Token.ofBlocks (level + 1) items)
  | .item children =>
    wrapTokens .listItem "li" (blocksLine children) level [] (Token.ofBlocks (level + 1) children)
  | .fencedCode language lines =>
    [{ kind := .fence, tag := "code", info := Text.trim language, content := linesText lines,
       line := firstLine lines, level := level }]
  | .code lines =>
    [{ kind := .codeBlock, tag := "code", content := linesText lines, line := firstLine lines,
       level := level }]
  | .html lines closure =>
    [{ kind := .htmlBlock, content := linesText lines ++ closure, line := firstLine lines,
       level := level }]
  | .thematicBreak => [{ kind := .hr, tag := "hr", level := level }]
  | .table header rows => tableTokens level header rows

/-- The tokens of blocks that have `level` blocks around them. -/
def Token.ofBlocks (level : Nat) : List Block → List Token
  | [] => []
  | b :: bs => Token.ofBlock level b ++ Token.ofBlocks level bs

end

/-- The token stream of a document. -/
def Token.ofDocument (d : Document) : List Token := Token.ofBlocks 0 d

/-- The token stream of a Markdown text. -/
def tokenize (src : Text) : List Token := Token.ofDocument (Markdown.parse src)

end Docweave

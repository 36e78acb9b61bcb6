import Docweave.Text.Basic

/-!
# Documents

The tree that a Markdown text stands for. Blocks keep their source lines, each with its number, because
the stages behind report positions and compare the raw text of a block; inline content is a list of
runs.
-/

namespace Docweave.Markdown

/-- What ends a run of text inside a block. -/
inductive LineBreak
  | none | soft | hard
deriving DecidableEq, Inhabited

/-- Inline content of a block. -/
inductive Inline
  /-- Plain text with its escapes, and the break behind it. -/
  | text (content : Text) (ending : LineBreak)
  | code (content : Text)
  /-- Emphasis of level one or, stronger, two. -/
  | emphasis (strong : Bool) (children : List Inline)
  | strikethrough (children : List Inline)
  | link (destination title : Text) (children : List Inline)
  | image (destination title : Text) (children : List Inline)
  /-- An address between angle brackets. -/
  | autolink (url : Text) (isEmail : Bool)
  /-- A tag, comment or other piece of markup. -/
  | html (content : Text)
deriving Inhabited

/-- A line of a block: its one-based number in the source and its text. -/
structure SourceLine where
  number : Nat
  text : Text
deriving Inhabited, DecidableEq

/-- A cell of a table. -/
structure Cell where
  lines : List SourceLine
  content : List Inline
deriving Inhabited

/-- A block of a document. -/
inductive Block
  | heading (level : Nat) (lines : List SourceLine) (content : List Inline)
  | paragraph (lines : List SourceLine) (content : List Inline)
  /-- Text that is not a paragraph of its own, such as that of a tight list item. -/
  | textBlock (lines : List SourceLine) (content : List Inline)
  | quote (children : List Block)
  /-- A list; an ordered one has a first number. -/
  | list (first : Option Nat) (items : List Block)
  | item (children : List Block)
  | fencedCode (language : Text) (lines : List SourceLine)
  | code (lines : List SourceLine)
  | html (lines : List SourceLine) (closure : Text)
  | thematicBreak
  | table (header : List Cell) (rows : List (List Cell))
deriving Inhabited

/-- A document: its top-level blocks. -/
abbrev Document := List Block

end Docweave.Markdown

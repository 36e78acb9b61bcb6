import Docweave.Markdown.Cursor

/-!
# Draft blocks

The first pass of the Markdown reader finds the block structure and leaves the text of each block as
segments. A `Draft` is a finished block of that pass, an `OpenBlock` one that may still grow.
-/

namespace Docweave.Markdown

/-- The seven ways a block of markup begins, which decide where it ends. -/
inductive HtmlKind
  /-- `script`, `pre`, `style` or `textarea`, up to the closing tag. -/
  | verbatim
  /-- A comment. -/
  | comment
  /-- A processing instruction. -/
  | instruction
  /-- A declaration. -/
  | declaration
  /-- A character data section. -/
  | cdata
  /-- A tag of the known block elements, up to a blank line. -/
  | blockTag
  /-- Any other complete tag, up to a blank line. -/
  | anyTag
deriving DecidableEq, Inhabited

/-- The kind of a block with what its marker said. -/
inductive Shape
  | paragraph
  /-- Text of a list item whose list is tight, or the place of a paragraph that held only link
  definitions. -/
  | textBlock
  | heading (level : Nat)
  | thematicBreak
  /-- Indented code. -/
  | code
  /-- Code between fences: the fence character, the indent and length of the opening fence, its info. -/
  | fenced (mark : Char) (indent length : Nat) (info : Text)
  /-- Markup, with the line that closed it when that line is not among the block's own. -/
  | html (kind : HtmlKind) (closure : Option Segment)
  | quote
  /-- A list with its marker character and, when ordered, its first number. -/
  | list (marker : Char) (first : Nat)
  /-- A list item whose content is indented by `offset` columns. -/
  | item (offset : Nat)
  | table
  | tableHeader
  | tableRow
  /-- A table cell with the offsets of the backslashes that escape a pipe behind a back quote. -/
  | tableCell (escapes : List Nat)
deriving Inhabited

/-- A block of the first pass. -/
inductive Draft
  | mk (shape : Shape) (blankBefore : Bool) (lines : List Segment) (children : List Draft)
deriving Inhabited

namespace Draft

/-- The kind of the block. -/
def shape : Draft → Shape
  | mk s _ _ _ => s

/-- A blank line stands in front of the block. -/
def blankBefore : Draft → Bool
  | mk _ b _ _ => b

/-- The text of the block. -/
def lines : Draft → List Segment
  | mk _ _ l _ => l

/-- The blocks inside. -/
def children : Draft → List Draft
  | mk _ _ _ c => c

end Draft

/-- A block that is still open: later lines may extend it or add blocks inside. -/
structure OpenBlock where
  shape : Shape
  blankBefore : Bool
  lines : List Segment
  children : List Draft
deriving Inhabited

namespace OpenBlock

/-- The finished block. -/
def toDraft (b : OpenBlock) : Draft := .mk b.shape b.blankBefore b.lines b.children

/-- The block is a paragraph. -/
def isParagraph (b : OpenBlock) : Bool :=
  match b.shape with
  | .paragraph => true
  | _ => false

/-- The block is a list. -/
def isList (b : OpenBlock) : Bool :=
  match b.shape with
  | .list _ _ => true
  | _ => false

end OpenBlock

end Docweave.Markdown

import Docweave.Failure
import Docweave.Yaml.Decode

/-!
# Frontmatter

A document may start with a block of metadata between two lines of three dashes. `Frontmatter.parse` splits
it off and decodes it. A block that does not decode is located in the document by the line that the decoder
names.
-/

namespace Docweave

/-- The metadata of a document: values by name. -/
abbrev Metadata := List (Text × Yaml.Value)

/-- A document split into metadata and body. -/
structure Frontmatter where
  metadata : Metadata := []
  body : Text
  /-- Lines of the document in front of the body. -/
  bodyLine : Nat := 0
deriving Inhabited

namespace Frontmatter

/-- The line that encloses the block. -/
def delimiter : Text := "---"

/-- The line closes the block. -/
def isClosing (line : Text) : Bool := Text.trimRight (fun c => c = ' ' || c = '\t' || c = '\r') line = delimiter

/-- What the decoder calls the mapping it is asked for. -/
def mapName : Text := "mdv.Meta"

/-- The lines of the block and the lines behind it, from behind the opening line. None when the block is
never closed. -/
def splitBlock? : List Text → Option (List Text × List Text)
  | [] => none
  | l :: ls => if isClosing l then some ([], ls) else (splitBlock? ls).map fun (b, r) => (l :: b, r)

/-- The block and the lines behind it, when the document starts with one. -/
def block? (src : Text) : Option (List Text × List Text) :=
  match Text.lines src with
  | first :: rest =>
    if !rest.isEmpty && (first = delimiter || first = delimiter ++ ['\r']) then splitBlock? rest else none
  | [] => none

/-- The first number behind the word `line` in a message. -/
def namedLine? : Text → Option Nat
  | [] => none
  | c :: t =>
    match Text.dropPrefix? "line " (c :: t) with
    | some r =>
      let digits := r.takeWhile Text.isDigit
      if digits.isEmpty then namedLine? t else some (Text.digitsValue digits)
    | none => namedLine? t

/-- The line behind a line, in the integers of 64 bits, which come round from the largest to the least. -/
def lineBehind (n : Nat) : Int := Int.bmod (n + 1) (Nat.pow 2 64)

/-- A fault of the block of a document. The decoder counts lines from the start of the block, which the
opening line shifts by one; `last` is the line that closes the block. -/
def fault (src cause : Text) (last : Int) : MetaFault :=
  match namedLine? cause with
  | none => ⟨cause, 0, []⟩
  | some n =>
    if n < Nat.pow 2 63 then
      let line := min (lineBehind n) last
      ⟨cause, line, Text.excerpt src line⟩
    else ⟨cause, 0, []⟩

/-- Splits a document into its metadata and its body. A document without a closed block is all body. -/
def parse (src : Text) : Except MetaFault Frontmatter :=
  match block? src with
  | none => .ok { body := src }
  | some (block, rest) =>
    let bodyLine := block.length + 2
    match Yaml.decodeMapping mapName (Text.join "\n" block) with
    | .error e => .error (fault src e.message bodyLine)
    | .ok metadata => .ok { metadata := metadata, body := Text.join "\n" rest, bodyLine := bodyLine }

end Frontmatter

end Docweave

import Docweave.Text.Basic

/-!
# The intermediate tree

Between the token stream and the component stands a tree of markup fragments, dynamic tables and
containers. Tables and containers get their markup when the tree is resolved; before that it is empty.
-/

namespace Docweave

/-- A node of the tree. -/
inductive Node
  /-- A fragment of markup. -/
  | html (markup : Text)
  /-- A table that is filled from a data source: the column labels, the qualifier that names the source,
  and what an empty source shows. -/
  | table (headers : List Text) (source placeholder : Text) (markup : Text)
  /-- A container: its element, attributes and content, and the line of its opening marker. -/
  | container (tag attrs : Text) (children : List Node) (line : Nat) (markup : Text)
  /-- The top of a tree. -/
  | root (children : List Node)
deriving Inhabited

namespace Node

/-- The markup of a node; a root has none of its own. -/
def value : Node → Text
  | html m => m
  | table _ _ _ m => m
  | container _ _ _ _ m => m
  | root _ => []

/-- The element of a container that names none. -/
def defaultContainerTag : Text := "div"

/-- The element around bracketed text that names none. -/
def defaultInlineTag : Text := "span"

end Node

/-- Attributes behind an element name: nothing, or a space and the attributes. -/
def attrGap (attrs : Text) : Text := if attrs.isEmpty then [] else ' ' :: attrs

/-- An element around content. -/
def element (tag attrs content : Text) : Text :=
  "<" ++ tag ++ attrGap attrs ++ ">" ++ content ++ "</" ++ tag ++ ">"

end Docweave

import Docweave.Text.JsonString
import Docweave.Tree.Brackets

/-!
# Resolving the tree

Resolving gives every node its final markup: fragments are rewritten, tables become an iteration over
their data source, containers an element around their content. Each table refers to a variable with its
column labels. A `Resolver` numbers the tables of all trees that it resolves and keeps the declarations of
their variables; each tree brings the declarations along that there are when it is resolved.

`serialize` writes the markup of a resolved tree, one node a line.
-/

namespace Docweave

/-! ## Writing -/

mutual

/-- The markup of a node and a newline; a node without markup of its own shows what is inside it. -/
def serializeNode : Node → Text
  | .html m => if m.isEmpty then [] else m ++ ['\n']
  | .table _ _ _ m => if m.isEmpty then [] else m ++ ['\n']
  | .container _ _ children _ m => if m.isEmpty then serialize children else m ++ ['\n']
  | .root children => serialize children

/-- The markup of nodes, one a line. -/
def serialize : List Node → Text
  | [] => []
  | n :: ns => serializeNode n ++ serialize ns

end

/-! ## Tables -/

/-- The property that tells rows apart when the qualifier names none. -/
def defaultRowKey : Text := "id"

/-- The property that holds the value of a cell when the qualifier names none. -/
def defaultCellValue : Text := "value"

/-- The variable with the column labels of the table with this number. -/
def headersVariable (number : Nat) : Text := "__mdv_headers_" ++ Text.ofNat number

/-- The declaration of the variable with the column labels. -/
def headersDeclaration (number : Nat) (headers : List Text) : Text :=
  "const " ++ headersVariable number ++ " = " ++ Text.markupJsonStrings headers

/-- An attribute of a qualifier, or a default when it is missing or empty. -/
def attrOr (source name fallback : Text) : Text :=
  match Qualifier.lookup? source name with
  | some v => if v.isEmpty then fallback else v
  | none => fallback

/-- The row that an empty data source shows. -/
def placeholderRow (dataSource placeholder : Text) (columns : Nat) : Text :=
  "    <tr v-if=\"!" ++ dataSource ++ " || " ++ dataSource ++ ".length === 0\">\n" ++
    "      <td colspan=\"" ++ Text.ofNat columns ++ "\">" ++ placeholder ++ "</td>\n" ++ "    </tr>\n"

/-- The markup of a table: its header, a row for each element of the data source with a cell for each
column, and a row for an empty source. -/
def tableMarkup (number : Nat) (headers : List Text) (source placeholder : Text) : Text :=
  let dataSource := (Qualifier.lookup? source ":data-source").getD []
  let rowKey := attrOr source "row-key-prop" defaultRowKey
  let cellValue := attrOr source "cell-value-prop" defaultCellValue
  let head : Text := headers.flatMap fun h => element "th" [] h
  let empty := if placeholder.isEmpty then [] else placeholderRow dataSource placeholder headers.length
  "<table>\n  <thead>\n    <tr>" ++ head ++ "</tr>\n  </thead>\n  <tbody>\n" ++
    "    <tr v-if=\"" ++ dataSource ++ " && " ++ dataSource ++ ".length > 0\" v-for=\"item in " ++ dataSource ++
    "\" :key=\"item." ++ rowKey ++ "\">\n" ++
    "      <td v-for=\"h in " ++ headersVariable number ++ "\" :key=\"h\">\n" ++
    "        <template v-if=\"item[h]\">\n" ++
    "          <template v-if=\"typeof item[h] === 'object'\">\n" ++
    "            <component v-if=\"item[h].component\" :is=\"item[h].component\" v-bind=\"item\" />\n" ++
    "            <span v-else>\x7b\x7b item[h]." ++ cellValue ++ " \x7d\x7d</span>\n" ++
    "          </template>\n" ++
    "          <span v-else>\x7b\x7b item[h] \x7d\x7d</span>\n" ++
    "        </template>\n" ++
    "      </td>\n" ++
    "    </tr>\n" ++ empty ++ "  </tbody>\n</table>"

/-! ## Resolving -/

/-- The markup of a container around resolved content. -/
def containerMarkup (tag attrs : Text) (children : List Node) : Text :=
  "<" ++ tag ++ attrGap attrs ++ ">\n" ++ serialize children ++ "</" ++ tag ++ ">"

/-- What is kept from one tree to the next: how many tables there have been, and their declarations. -/
structure Resolver where
  tables : Nat := 0
  declarations : List Text := []
deriving Inhabited

/-- One more table, with these column labels. -/
def Resolver.declare (r : Resolver) (headers : List Text) : Resolver :=
  ⟨r.tables + 1, r.declarations ++ [headersDeclaration r.tables headers]⟩

mutual

/-- A node with its markup, and the resolver behind it. -/
def resolveNode (r : Resolver) : Node → Node × Resolver
  | .html m => (.html (rewriteBrackets m), r)
  | .table headers source placeholder _ =>
    (.table headers source placeholder (tableMarkup r.tables headers source placeholder), r.declare headers)
  | .container tag attrs children line _ =>
    let (children, r) := resolve r children
    (.container tag attrs children line (containerMarkup tag attrs children), r)
  | .root children => (.root children, r)

/-- Nodes with their markup, and the resolver behind them. -/
def resolve (r : Resolver) : List Node → List Node × Resolver
  | [] => ([], r)
  | n :: ns =>
    let (n, r) := resolveNode r n
    let (ns, r) := resolve r ns
    (n :: ns, r)

end

/-- A tree with its markup, and the declarations that its tables refer to. -/
structure ResolvedTree where
  children : List Node
  declarations : List Text
deriving Inhabited

namespace Resolver

/-- A tree resolved. It brings along the declarations of all trees so far. -/
def resolveTree (r : Resolver) (children : List Node) : ResolvedTree × Resolver :=
  let (children, r) := resolve r children
  (⟨children, r.declarations⟩, r)

/-- Trees resolved one after the other. -/
def resolveTrees (r : Resolver) : List (List Node) → List ResolvedTree
  | [] => []
  | tree :: trees =>
    let (tree, r) := r.resolveTree tree
    tree :: r.resolveTrees trees

end Resolver

end Docweave

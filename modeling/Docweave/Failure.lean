import Docweave.Text.Excerpt

/-!
# Failures of a compile

Why a document does not compile, and the words in which that is said. Structural faults know the line of
the document they are about and carry an excerpt of it.
-/

namespace Docweave

/-- A structural fault of a document. -/
inductive FaultKind
  | unclosedContainer | unexpectedClose | unbalancedBlock
  /-- A fault named by its text. -/
  | other (name : Text)
deriving DecidableEq, Inhabited

/-- The name of a fault. -/
def FaultKind.name : FaultKind → Text
  | unclosedContainer => "unclosed container"
  | unexpectedClose => "unexpected container close"
  | unbalancedBlock => "unbalanced block"
  | other n => n

/-- The fault of a name. -/
def FaultKind.ofName (t : Text) : FaultKind :=
  if t = "unclosed container" then unclosedContainer
  else if t = "unexpected container close" then unexpectedClose
  else if t = "unbalanced block" then unbalancedBlock
  else other t

/-- A structural fault with its place: the line in the document, and the lines around it. -/
structure Fault where
  kind : FaultKind
  line : Int
  context : Text
deriving DecidableEq, Inhabited

namespace Fault

/-- A fault at a line of a document, which it quotes. -/
def at' (kind : FaultKind) (line : Int) (src : Text) : Fault := ⟨kind, line, Text.excerpt src line⟩

/-- The fault in words. -/
def message (f : Fault) : Text :=
  let head : Text := match f.kind with
    | .unclosedContainer =>
      f.kind.name ++ ": container opened at line " ++ Text.ofInt f.line ++ " is never closed"
    | _ => f.kind.name ++ " at line " ++ Text.ofInt f.line
  if f.context.isEmpty then head else head ++ "\n" ++ f.context

end Fault

/-- A block of metadata that cannot be decoded: what the decoder said, the line of the document, zero when
it named none, and the lines around it. -/
structure MetaFault where
  cause : Text
  line : Int
  context : Text
deriving DecidableEq, Inhabited

/-- The fault in words. -/
def MetaFault.message (f : MetaFault) : Text :=
  let head : Text :=
    if f.line > 0 then "malformed frontmatter at line " ++ Text.ofInt f.line ++ ": " ++ f.cause
    else "malformed frontmatter: " ++ f.cause
  if f.context.isEmpty then head else head ++ "\n" ++ f.context

end Docweave

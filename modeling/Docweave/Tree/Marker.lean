import Docweave.Qualifier.Basic
import Docweave.Failure
import Docweave.Token.Basic

/-!
# Container markers

A container is written as a top-level paragraph that holds only `[`, its content, and a top-level paragraph
that holds `]`, with or without a qualifier. `validateContainers` checks that the markers of a token
stream match up.
-/

namespace Docweave

/-- The `inline` token of a top-level paragraph at the front of the stream. -/
def markerParagraph? : List Token → Option Token
  | o :: i :: c :: _ =>
    if o.kind = .opens .paragraph && o.level = 0 && i.kind = .inline && c.kind = .closes .paragraph then some i
    else none
  | _ => none

/-- A container opens at the front of the stream. -/
def opensContainer (ts : List Token) : Bool :=
  match markerParagraph? ts with
  | some i => i.content = ['[']
  | none => false

/-- The body of the qualifier of a closing marker: none without qualifier. -/
def closingQualifier? (content : Text) : Option (Option Text) :=
  match content with
  | ']' :: t =>
    let rest := Text.trim t
    if rest.isEmpty then some none
    else
      match Braces.splitTrailing? rest with
      | some (text, body) => if (Text.trim text).isEmpty then some (some body) else none
      | none => none
  | _ => none

/-- A container closes at the front of the stream; with the body of its qualifier, if it has one. -/
def closesContainer? (ts : List Token) : Option (Option Text) :=
  (markerParagraph? ts).bind fun i => closingQualifier? i.content

/-- Walks over the markers with the lines of the containers that are open, innermost first. A line is
shifted by `offset` to point into the document. -/
def checkMarkers (src : Text) (offset : Int) (opened : List Nat) : List Token → Except Fault Unit
  | [] =>
    match opened with
    | [] => .ok ()
    | line :: _ => .error (.at' .unclosedContainer (line + offset) src)
  | t :: ts =>
    if opensContainer (t :: ts) then checkMarkers src offset (t.line :: opened) (ts.drop 2)
    else if (closesContainer? (t :: ts)).isSome then
      match opened with
      | [] => .error (.at' .unexpectedClose (t.line + offset) src)
      | _ :: opened => checkMarkers src offset opened (ts.drop 2)
    else checkMarkers src offset opened ts
termination_by ts => ts.length
decreasing_by all_goals simp only [List.length_cons, List.length_drop]; omega

/-- Every opening marker has its closing marker and the other way round. `src` is the whole document and
`offset` the number of its lines in front of the tokenized part, so that the fault points into it. -/
def validateContainers (tokens : List Token) (src : Text) (offset : Int) : Except Fault Unit :=
  checkMarkers src offset [] tokens

end Docweave

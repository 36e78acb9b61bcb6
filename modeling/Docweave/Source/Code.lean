import Docweave.Source.Fence
import Docweave.Text.CaseFold

/-!
# Hiding code

Fenced blocks, indented blocks and code spans are hidden. Script and style blocks are not Markdown, so
their lines are left alone.
-/

namespace Docweave.Source

open Docweave.Text

/-! ## Code spans -/

/-- Length of the run of back quotes at the front. -/
def runLength (t : Text) : Nat := (t.takeWhile (· = backtick)).length

/-- Splits behind the next maximal run of exactly `n` back quotes; the fuel is the length of the text. -/
def closeSpan? (n : Nat) : Nat → Text → Option (Text × Text)
  | 0, _ => none
  | _, [] => none
  | fuel + 1, c :: t =>
    if c = backtick then
      let m := runLength (c :: t)
      let run := (c :: t).take m
      let rest := (c :: t).drop m
      if m = n then some (run, rest) else (closeSpan? n fuel rest).map fun (a, b) => (run ++ a, b)
    else (closeSpan? n fuel t).map fun (a, b) => (c :: a, b)

/-- Hides the code spans of a paragraph. A span opens with a run of back quotes and closes at the next run
of the same length; a backslash takes the character behind it along. Run lengths that found no partner are
remembered in `unmatched`, because no later run of the length can find one. -/
def hideSpans (unmatched : List Nat) : Nat → Text → Text
  | 0, t => t
  | _, [] => []
  | fuel + 1, c :: t =>
    if c = '\\' then
      match t with
      | [] => [c]
      | d :: t => c :: d :: hideSpans unmatched fuel t
    else if c = backtick then
      let n := runLength (c :: t)
      let run := (c :: t).take n
      let rest := (c :: t).drop n
      if unmatched.contains n then run ++ hideSpans unmatched fuel rest
      else
        match closeSpan? n rest.length rest with
        | some (inner, rest) => hideAll (run ++ inner) ++ hideSpans unmatched fuel rest
        | none => run ++ hideSpans (n :: unmatched) fuel rest
    else c :: hideSpans unmatched fuel t

/-- A paragraph with its code spans hidden. -/
def hideCodeSpans (t : Text) : Text := hideSpans [] t.length t

/-! ## Elements whose content is not Markdown -/

/-- Elements that hold the raw parts of a document. -/
inductive RawElement
  | script | style
deriving DecidableEq, Inhabited

/-- The tag name. -/
def RawElement.name : RawElement → Text
  | script => "script"
  | style => "style"

/-- The text behind `</name >` at the front, in any letter case. -/
def closingTag? (e : RawElement) (t : Text) : Option Text := do
  let t ← dropPrefix? "</" t
  let t ← dropPrefixFold? e.name t
  dropPrefix? ">" (t.dropWhile isPatternSpace)

/-- The line holds the closing tag. -/
def holdsClosingTag (e : RawElement) : Text → Bool
  | [] => false
  | c :: t => (closingTag? e (c :: t)).isSome || holdsClosingTag e t

/-- The raw element that a line opens, indented by at most three spaces. -/
def rawOpening? (line : Text) : Option RawElement :=
  let indent := (line.takeWhile (· = ' ')).length
  if indent > 3 then none
  else
    match dropPrefix? "<" (line.drop indent) with
    | none => none
    | some t => [RawElement.script, .style].find? fun e =>
      match dropPrefixFold? e.name t with
      | none => false
      | some [] => true
      | some (c :: _) => isPatternSpace c || c = '>'

/-! ## Lines -/

/-- What a line of a document is to the search for code. -/
inductive LineRole
  /-- Part of a raw element, or blank. -/
  | kept
  /-- Indented code. -/
  | code
  /-- Part of a paragraph. -/
  | prose
deriving DecidableEq, Inhabited

/-- What the lines above say about the next one. -/
structure LineState where
  /-- The raw element that is open. -/
  raw : Option RawElement := none
  blankAbove : Bool := true
  inIndented : Bool := false

/-- The role of a line and the state below it. -/
def lineRole (s : LineState) (line : Text) : LineRole × LineState :=
  let blank := (trim line).isEmpty
  let s' := { s with blankAbove := blank }
  match s.raw with
  | some e => (.kept, if holdsClosingTag e line then { s' with raw := none } else s')
  | none =>
    if blank then (.kept, s')
    else if (s.blankAbove || s.inIndented) && indentWidth line ≥ 4 then (.code, { s' with inIndented := true })
    else
      let s' := { s' with inIndented := false }
      match rawOpening? line with
      | some e => (.kept, if holdsClosingTag e line then s' else { s' with raw := some e })
      | none => (.prose, s')

/-- The lines with their roles. -/
def lineRoles (s : LineState) : List Text → List (LineRole × Text)
  | [] => []
  | l :: ls =>
    let (role, s) := lineRole s l
    (role, l) :: lineRoles s ls

/-- The lines with indented code and the code spans of each paragraph hidden. `para` are the lines of the
paragraph above, newest first. -/
def hideLines (para : List Text) : List (LineRole × Text) → List Text
  | [] => flush para
  | (.prose, l) :: ls => hideLines (l :: para) ls
  | (.code, l) :: ls => flush para ++ hideAll l :: hideLines [] ls
  | (.kept, l) :: ls => flush para ++ l :: hideLines [] ls
where
  flush (para : List Text) : List Text :=
    if para.isEmpty then [] else lines (hideCodeSpans (join "\n" para.reverse))

/-- The text with all code hidden. -/
def hideCode (t : Text) : Text := join "\n" (hideLines [] (lineRoles {} (lines (hideFences t))))

/-- The text with all code as spaces. Newlines stay, so the lines keep their numbers and the bytes their
places. -/
def stripCode (t : Text) : Text := spread t (hideCode t)

end Docweave.Source

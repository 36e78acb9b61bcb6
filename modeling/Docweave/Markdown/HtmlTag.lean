import Docweave.Text.CaseFold
import Docweave.Text.Space

/-!
# Tags of markup

Recognition of the tags, comments and declarations of HTML, as far as Markdown looks at them: at the
start of a block (`blockStart?`) and inside text (`tagLength?`). Every recogniser works from the front
of a text and gives the text behind what it took.
-/

namespace Docweave.Markdown.HtmlTag

open Docweave.Text

/-- Tag names that open a block of markup anywhere. -/
def blockNames : List Text :=
  ["address", "article", "aside", "base", "basefont", "blockquote", "body", "caption", "center", "col",
   "colgroup", "dd", "details", "dialog", "dir", "div", "dl", "dt", "fieldset", "figcaption", "figure",
   "footer", "form", "frame", "frameset", "h1", "h2", "h3", "h4", "h5", "h6", "head", "header", "hr",
   "html", "iframe", "legend", "li", "link", "main", "menu", "menuitem", "meta", "nav", "noframes", "ol",
   "optgroup", "option", "p", "param", "search", "section", "summary", "table", "tbody", "td", "tfoot",
   "th", "thead", "title", "tr", "track", "ul"].map String.toList

/-- Names of the elements whose content is not Markdown. -/
def verbatimNames : List Text := ["script", "pre", "style", "textarea"].map String.toList

/-- A tag name and the text behind it. -/
def name? : Text → Option (Text × Text)
  | c :: t =>
    if isLetter c then
      let inName := fun d => isAlphanumeric d || d = '-'
      some (c :: t.takeWhile inName, t.dropWhile inName)
    else none
  | [] => none

/-- Blanks that may stand around the parts of an attribute. -/
def isAttributeBlank (c : Char) : Bool := c = '\r' || c = '\n' || c = ' ' || c = '\t'

/-- First character of an attribute name. -/
def isAttributeStart (c : Char) : Bool := isLetter c || c = '_' || c = ':'

/-- Later characters of an attribute name. -/
def isAttributeChar (c : Char) : Bool := isAlphanumeric c || c = ':' || c = '.' || c = '_' || c = '-'

/-- Characters of a value without quotes. -/
def isBareValueChar (c : Char) : Bool :=
  c.toNat > 0x20 && c ≠ quote && c ≠ apostrophe && c ≠ '=' && c ≠ '<' && c ≠ '>' && c ≠ backtick

/-- An attribute value and the text behind it. -/
def value? (t : Text) : Option Text :=
  match t with
  | [] => none
  | c :: r =>
    if c = quote || c = apostrophe then
      match r.dropWhile (· ≠ c) with
      | [] => none
      | _ :: rest => some rest
    else if isBareValueChar c then some (r.dropWhile isBareValueChar)
    else none

/-- One attribute with the blanks in front of it. -/
def attribute? (t : Text) : Option Text :=
  match t with
  | c :: _ =>
    if isAttributeBlank c then
      match t.dropWhile isAttributeBlank with
      | d :: r =>
        if isAttributeStart d then
          let behindName := r.dropWhile isAttributeChar
          match behindName.dropWhile isAttributeBlank with
          | '=' :: v => some ((value? (v.dropWhile isAttributeBlank)).getD behindName)
          | _ => some behindName
        else none
      | [] => none
    else none
  | [] => none

/-- As many attributes as there are. -/
def attributes (t : Text) : Text :=
  go t.length t
where
  go : Nat → Text → Text
  | 0, t => t
  | fuel + 1, t =>
    match attribute? t with
    | some r => go fuel r
    | none => t

/-- Spaces, tabs and line ends in front of the end of a tag. -/
def tagBlanks : Text → Text
  | ' ' :: t => tagBlanks t
  | '\t' :: t => tagBlanks t
  | '\n' :: t => tagBlanks t
  | '\r' :: '\n' :: t => tagBlanks t
  | t => t

/-- The text behind an opening tag. -/
def openTag? (t : Text) : Option Text := do
  let t ← dropPrefix? "<" t
  let (_, t) ← name? t
  match tagBlanks (attributes t) with
  | '/' :: '>' :: r => some r
  | '>' :: r => some r
  | _ => none

/-- The text behind a closing tag. -/
def closeTag? (t : Text) : Option Text := do
  let t ← dropPrefix? "</" t
  let (_, t) ← name? t
  match tagBlanks t with
  | '>' :: r => some r
  | _ => none

/-- At most three spaces, then the text of interest. -/
def afterIndent? (line : Text) : Option Text :=
  let n := (line.takeWhile (· = ' ')).length
  if n ≤ 3 then some (line.drop n) else none

/-- The line holds nothing but its end. -/
def isLineEnd (t : Text) : Bool := t = [] || t = ['\n'] || t = ['\r', '\n']

/-- No newline stands before the end of the line. -/
def isRestOfLine (t : Text) : Bool := !(t.dropLast.contains '\n')

/-- The line starts an element whose content is verbatim. -/
def startsVerbatim (line : Text) : Bool :=
  match (afterIndent? line).bind (dropPrefix? "<") with
  | none => false
  | some t => verbatimNames.any fun n =>
    match dropPrefixFold? n t with
    | none => false
    | some r =>
      match r with
      | [] => true
      | '>' :: _ => isRestOfLine r
      | '/' :: '>' :: _ => isRestOfLine r
      | c :: _ => isPatternSpace c && isRestOfLine r

/-- The line holds the closing tag of a verbatim element. -/
def closesVerbatim : Text → Bool
  | [] => false
  | c :: t =>
    (match dropPrefix? "</" (c :: t) with
      | none => false
      | some r => verbatimNames.any fun n =>
        match dropPrefixFold? n r with
        | some ('>' :: _) => true
        | _ => false) || closesVerbatim t

/-- A whole tag that stands alone on its line: its name, whether it is a closing tag without blanks
behind the slash, and whether it has attributes. -/
def loneTag? (line : Text) : Option (Text × Bool × Bool) := do
  let t ← afterIndent? line
  let t ← dropPrefix? "<" t
  let (closing, t) := match t with
    | '/' :: r => (some (r.takeWhile (· = ' ')), r.dropWhile (· = ' '))
    | _ => (none, t)
  let (name, t) ← name? t
  let behind := attributes t
  let hasAttributes := behind.length < t.length
  let tail := behind.dropWhile (· = ' ')
  let tail ← match tail with
    | '>' :: r => some r
    | '/' :: '>' :: r => some r
    | _ => none
  if isLineEnd (tail.dropWhile (· = ' ')) then
    some (name.map lowerChar, closing = some [], hasAttributes)
  else none

/-- The name of the tag a line starts with, complete or not. -/
def leadingTag? (line : Text) : Option Text := do
  let t ← afterIndent? line
  let t ← dropPrefix? "<" t
  let t := match t with
    | '/' :: r => r.dropWhile (· = ' ')
    | _ => t
  let (name, t) ← name? t
  let ok := match t with
    | ' ' :: _ => true
    | '>' :: _ => true
    | '/' :: '>' :: _ => true
    | _ => isLineEnd t
  if ok then some (name.map lowerChar) else none

end Docweave.Markdown.HtmlTag

import Docweave.Path
import Docweave.Text.JsonString
import Docweave.Text.Quoted
import Docweave.Tree.Build

/-!
# Highlighted code

A highlighter turns the code of a block into markup; `plainHighlighter` shows code as plain text in the
colours of a theme. The markup of a document's blocks is kept in a module that exports it by key.
-/

namespace Docweave

/-- Markup of code in a language, or why there is none. -/
abbrev Highlighter := Text → Text → Except Text Text

/-- A code block that could not be highlighted. -/
structure HighlightFault where
  key : Text
  lang : Text
  cause : Text
deriving DecidableEq, Inhabited

/-- The fault in words. -/
def HighlightFault.message (f : HighlightFault) : Text :=
  "highlighting " ++ f.key ++ " (lang " ++ Text.quoted f.lang ++ "): " ++ f.cause

/-! ## Plain text -/

/-- Themes with colours of their own. -/
inductive Theme
  | githubDark | monokai | dracula | github
  /-- Any other name, which has the colours of a terminal. -/
  | unknown
deriving DecidableEq, Inhabited

/-- The theme of a name; without a name it is the dark one. -/
def Theme.ofName (t : Text) : Theme :=
  if t.isEmpty || t = "github-dark" then githubDark
  else if t = "monokai" then monokai
  else if t = "dracula" then dracula
  else if t = "github" then github
  else unknown

/-- The colours of a theme as style properties. -/
def Theme.style : Theme → Text
  | githubDark => "color:#e6edf3;background-color:#0d1117;"
  | monokai => "color:#f8f8f2;background-color:#272822;"
  | dracula => "color:#f8f8f2;background-color:#282a36;"
  | github => "background-color:#fff;"
  | unknown => "color:#e5e5e5;background-color:#000;"

/-- A character of code as markup; quotes are written as numbers. -/
def codeChar (c : Char) : Text :=
  if c = '&' then "&amp;"
  else if c = '<' then "&lt;"
  else if c = '>' then "&gt;"
  else if c = Text.quote then "&#34;"
  else if c = Text.apostrophe then "&#39;"
  else [c]

/-- A line of code as markup. -/
def codeLine (line : Text) : Text :=
  "<span style=\"display:flex;\"><span>" ++ line.flatMap codeChar ++ "</span></span>"

/-- Code as plain text in the colours of a theme. -/
def plainMarkup (theme : Theme) (code : Text) : Text :=
  let lines := Text.linesWithEnds (Text.replaceAll "\r\n" "\n" code)
  "<pre style=\"" ++ theme.style ++ "-moz-tab-size:2;-o-tab-size:2;tab-size:2;\"><code>" ++
    lines.flatMap codeLine ++ "</code></pre>"

/-- The highlighter that shows every language as plain text. -/
def plainHighlighter (theme : Theme) : Highlighter := fun code _ => .ok (plainMarkup theme code)

/-! ## The module of a document -/

/-- An entry of the module. -/
def highlightEntry (e : Text × Text) : Text := Text.jsonString e.1 ++ ":" ++ Text.jsonString e.2

/-- The module that exports highlighted code by key, in the order of the keys. -/
def highlightModule (highlights : List (Text × Text)) : Text :=
  let sorted := highlights.mergeSort fun a b => Text.le a.1 b.1
  "export default \x7b" ++ Text.join "," (sorted.map highlightEntry) ++ "\x7d"

end Docweave

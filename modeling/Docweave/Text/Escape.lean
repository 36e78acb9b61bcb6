import Docweave.Text.Basic

/-!
# Escaping for markup

Characters that would end an attribute or start a tag are written as entities. Code also hides the
characters that the bracket rewrite and template interpolation react to.
-/

namespace Docweave.Text

/-- The entity of a character that has a meaning in markup. -/
def htmlEntity? (c : Char) : Option Text :=
  if c = '&' then some "&amp;"
  else if c = '<' then some "&lt;"
  else if c = '>' then some "&gt;"
  else if c = quote then some "&quot;"
  else if c = apostrophe then some "&#39;"
  else none

/-- The entity of a character that code must not show. -/
def codeEntity? (c : Char) : Option Text :=
  if c = '[' then some "&#91;"
  else if c = ']' then some "&#93;"
  else if c = '\x7b' then some "&#123;"
  else if c = '\x7d' then some "&#125;"
  else htmlEntity? c

/-- Every character with an entity replaced by it. -/
def escapeWith (entity? : Char → Option Text) (t : Text) : Text :=
  t.flatMap fun c => (entity? c).getD [c]

/-- Text for a place in markup. -/
def escapeHtml (t : Text) : Text := escapeWith htmlEntity? t

/-- Code for a place in markup. -/
def escapeCode (t : Text) : Text := escapeWith codeEntity? t

end Docweave.Text

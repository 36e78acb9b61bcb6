import Docweave.Text.Basic

/-!
# Tokens

A document is handed to the tree builder as a flat stream of tokens. A block is a pair of tokens that
open and close it around the tokens of its content; the text of a block is one `inline` token whose
children are the inline runs.

The kind of a token has a name in the outside world, `<element>_open` and `<element>_close` for the
pairs. `Kind.ofName` reads such names and `Kind.name` writes them.
-/

namespace Docweave

/-- Elements that tokens open and close. -/
inductive Element
  | heading | paragraph | blockquote | bulletList | orderedList | listItem
  | table | thead | tbody | tr | th | td
  | strong | em | s | link
  /-- Any other name. -/
  | other (name : Text)
deriving DecidableEq, Inhabited

/-- What a token is. -/
inductive TokenKind
  | opens (element : Element)
  | closes (element : Element)
  | inline | fence | codeBlock | htmlBlock | hr
  | text | codeInline | softbreak | hardbreak | image | htmlInline
  /-- Any other name. -/
  | other (name : Text)
deriving DecidableEq, Inhabited

namespace Element

/-- The elements with a constructor of their own, by name. -/
def named : List (Text × Element) :=
  [("heading", heading), ("paragraph", paragraph), ("blockquote", blockquote),
   ("bullet_list", bulletList), ("ordered_list", orderedList), ("list_item", listItem),
   ("table", table), ("thead", thead), ("tbody", tbody), ("tr", tr), ("th", th), ("td", td),
   ("strong", strong), ("em", em), ("s", s), ("link", link)]

/-- The element of a name. -/
def ofName (t : Text) : Element :=
  match named.find? (·.1 = t) with
  | some (_, e) => e
  | none => other t

/-- The name of an element. -/
def name : Element → Text
  | heading => "heading"
  | paragraph => "paragraph"
  | blockquote => "blockquote"
  | bulletList => "bullet_list"
  | orderedList => "ordered_list"
  | listItem => "list_item"
  | table => "table"
  | thead => "thead"
  | tbody => "tbody"
  | tr => "tr"
  | th => "th"
  | td => "td"
  | strong => "strong"
  | em => "em"
  | s => "s"
  | link => "link"
  | other n => n

end Element

namespace TokenKind

/-- The kinds without a partner, by name. -/
def named : List (Text × TokenKind) :=
  [("inline", inline), ("fence", fence), ("code_block", codeBlock), ("html_block", htmlBlock), ("hr", hr),
   ("text", text), ("code_inline", codeInline), ("softbreak", softbreak), ("hardbreak", hardbreak),
   ("image", image), ("html_inline", htmlInline)]

/-- The kind of a name. -/
def ofName (t : Text) : TokenKind :=
  if Text.endsWith t "_open" then opens (Element.ofName (Text.trimSuffix "_open" t))
  else if Text.endsWith t "_close" then closes (Element.ofName (Text.trimSuffix "_close" t))
  else
    match named.find? (·.1 = t) with
    | some (_, k) => k
    | none => other t

/-- The name of a kind. -/
def name : TokenKind → Text
  | opens e => e.name ++ "_open"
  | closes e => e.name ++ "_close"
  | inline => "inline"
  | fence => "fence"
  | codeBlock => "code_block"
  | htmlBlock => "html_block"
  | hr => "hr"
  | text => "text"
  | codeInline => "code_inline"
  | softbreak => "softbreak"
  | hardbreak => "hardbreak"
  | image => "image"
  | htmlInline => "html_inline"
  | other n => n

end TokenKind

/-- One entry of the token stream. -/
structure Token where
  kind : TokenKind
  /-- The element name that the token renders as. -/
  tag : Text := []
  content : Text := []
  /-- The language of a code block. -/
  info : Text := []
  attrs : List (Text × Text) := []
  /-- The inline runs of an `inline` token. -/
  children : List Token := []
  /-- One-based line in the tokenized source, zero when unknown. -/
  line : Nat := 0
  /-- Number of blocks that are open around the token. -/
  level : Nat := 0
deriving Inhabited

namespace Token

/-- The value of an attribute, empty when it is missing. -/
def attr (t : Token) (name : Text) : Text :=
  match t.attrs.find? (·.1 = name) with
  | some (_, v) => v
  | none => []

end Token

end Docweave

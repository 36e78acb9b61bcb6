import Docweave.Yaml.Scalar

/-!
# Anchors, tags and directives

The properties that stand in front of a node, and the lines in front of a document that configure how it
is read.
-/

namespace Docweave.Yaml

/-! ## Anchors and aliases -/

/-- An indicator that may follow the name of an anchor directly. -/
def mayFollowName (c : Char) : Bool :=
  isGap c || c = '?' || c = ':' || c = ',' || c = ']' || c = '\x7d' || c = '%' || c = '@' || c = Text.backtick

/-- The name behind the indicator of an anchor or alias. -/
def readName (c : Cursor) : Except Fault (Text × Cursor) :=
  let (name, after) := (c.skip 1).takeWhile isNameChar
  if name.isEmpty || !(after.head?.map mayFollowName).getD true then
    .error (after.fault c.mark .anchorName)
  else .ok (name, after)

/-! ## Tags -/

/-- Characters of a tag besides those of names and escapes. -/
def isTagChar (c : Char) : Bool :=
  isNameChar c || c = ';' || c = '/' || c = '?' || c = ':' || c = '@' || c = '&' || c = '=' || c = '+' ||
    c = '$' || c = ',' || c = '.' || c = '!' || c = '~' || c = '*' || c = Text.apostrophe || c = '(' ||
    c = ')' || c = '[' || c = ']'

/-- The number of octets of a character whose first octet this is; zero when it is none. -/
def octetCount (octet : Nat) : Nat :=
  if octet < 0x80 then 1
  else if 0xC0 ≤ octet && octet < 0xE0 then 2
  else if 0xE0 ≤ octet && octet < 0xF0 then 3
  else if 0xF0 ≤ octet && octet < 0xF8 then 4
  else 0

/-- The bits of the code point that the first octet of several holds. -/
def leadingBits (octet count : Nat) : Nat := if count = 1 then octet else octet % Nat.pow 2 (7 - count)

/-- An octet written as a percent sign and two digits. -/
def readOctet (start : Mark) (c : Cursor) : Except Fault (Nat × Cursor) :=
  match (if c.sees '%' then hexNumber? 0 2 (c.rest.drop 1) else none) with
  | some v => .ok (v, c.skip 3)
  | none => .error (c.fault start .escapedOctet)

/-- The further octets of a character. -/
def readOctets (start : Mark) (value : Nat) : Nat → Cursor → Except Fault (Nat × Cursor)
  | 0, c => .ok (value, c)
  | n + 1, c =>
    match readOctet start c with
    | .error e => .error e
    | .ok (o, after) =>
      if o / 64 = 2 then readOctets start (value * 64 + o % 64) n after else .error (c.fault start .trailingOctet)

/-- A character written by its octets. -/
def readOctetChar (start : Mark) (c : Cursor) : Except Fault (Char × Cursor) := do
  let (o, after) ← readOctet start c
  match octetCount o with
  | 0 => .error (c.fault start .leadingOctet)
  | n + 1 =>
    let (v, after) ← readOctets start (leadingBits o (n + 1)) n after
    return (Char.ofNat v, after)

/-- Reads the characters of a tag behind `text`. -/
def readTagChars (start : Mark) (text : Text) : Nat → Cursor → Except Fault (Text × Cursor)
  | 0, c => .ok (text, c)
  | n + 1, c =>
    match c.head? with
    | none => .ok (text, c)
    | some x =>
      if x = '%' then
        match readOctetChar start c with
        | .error e => .error e
        | .ok (y, c) => readTagChars start (text ++ [y]) n c
      else if isTagChar x then readTagChars start (text ++ [x]) n (c.skip 1)
      else .ok (text, c)

/-- The rest of a tag whose first characters are `head`; the mark in front of them is left out. -/
def readTagUri (start : Mark) (head : Text) (c : Cursor) : Except Fault (Text × Cursor) := do
  let (text, after) ← readTagChars start (head.drop 1) (c.rest.length + 1) c
  if head.isEmpty && after.mark.index = c.mark.index then throw (after.fault start .tagUriMissing)
  return (text, after)

/-- A handle: a mark, a name, and a mark. Outside of directives the second mark may be missing. -/
def readHandle (start : Mark) (directive : Bool) (c : Cursor) : Except Fault (Text × Cursor) := do
  if !c.sees '!' then throw (c.fault start .tagMark)
  let (name, after) := (c.skip 1).takeWhile isNameChar
  if after.sees '!' then return ('!' :: name ++ ['!'], after.skip 1)
  if directive && !name.isEmpty then throw (after.fault start .tagMark)
  return ('!' :: name, after)

/-- A tag: its handle and suffix. A lone mark is a suffix without handle. -/
def readTag (c : Cursor) : Except Fault (Text × Text × Cursor) := do
  let start := c.mark
  let (handle, suffix, after) ←
    if (c.rest.drop 1).head? = some '<' then do
      let (uri, after) ← readTagUri start [] (c.skip 2)
      if !after.sees '>' then throw (after.fault start .tagNotClosed)
      pure (([] : Text), uri, after.skip 1)
    else do
      let (handle, after) ← readHandle start false c
      if handle.length > 1 && handle.getLast? = some '!' then
        let (uri, after) ← readTagUri start [] after
        pure (handle, uri, after)
      else
        let (uri, after) ← readTagUri start handle after
        if uri.isEmpty then pure (([] : Text), handle, after) else pure ((['!'] : Text), uri, after)
  if !atGap after.rest then throw (after.fault start .spaceOrBreakMissing)
  return (handle, suffix, after)

/-! ## Directives -/

/-- A number of a version: one or two digits. -/
def readVersionPart (start : Mark) (c : Cursor) : Except Fault (Nat × Cursor) :=
  let digits := c.rest.takeWhile Text.isDigit
  if digits.isEmpty then .error (c.fault start .versionMissing)
  else if digits.length > 2 then .error ((c.skip 2).fault start .versionLong)
  else .ok (Text.digitsValue digits, c.skip digits.length)

/-- The version that a directive names. -/
def readVersion (start : Mark) (c : Cursor) : Except Fault (TokenKind × Cursor) := do
  let (major, c) ← readVersionPart start (c.skipWhile isBlank)
  if !c.sees '.' then throw (c.fault start .versionPoint)
  let (minor, c) ← readVersionPart start (c.skip 1)
  return (.versionDirective major minor, c)

/-- The handle that a directive defines, and what it stands for. -/
def readTagDefinition (start : Mark) (c : Cursor) : Except Fault (TokenKind × Cursor) := do
  let (handle, c) ← readHandle start true (c.skipWhile isBlank)
  if !(c.head?.map isBlank).getD false then throw (c.fault start .spaceMissing)
  let (uri, c) ← readTagUri start [] (c.skipWhile isBlank)
  if !atGap c.rest then throw (c.fault start .spaceOrBreakMissing)
  return (.tagDirective handle uri, c)

/-- A directive and its line. -/
def readDirective (c : Cursor) : Except Fault (TokenKind × Cursor) := do
  let start := c.mark
  let (name, c) := (c.skip 1).takeWhile isNameChar
  if name.isEmpty then throw (c.fault start .directiveNameMissing)
  if !atGap c.rest then throw (c.fault start .directiveNameBad)
  let (kind, c) ←
    if name = "YAML" then readVersion start c
    else if name = "TAG" then readTagDefinition start c
    else throw (c.fault start .directiveUnknown)
  let c := c.skipWhile isBlank
  let c := if c.sees '#' then c.skipLineRest else c
  if !atBreak c.rest then throw (c.fault start .lineNotFinished)
  return (kind, c.skipBreak)

end Docweave.Yaml

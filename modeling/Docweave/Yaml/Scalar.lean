import Docweave.Yaml.Token

/-!
# Scalars of YAML

Plain scalars end at an indicator, quoted ones at their quote, block ones where the indentation ends. In
the first two a line break stands for a space and further breaks for themselves.
-/

namespace Docweave.Yaml

/-! ## Gaps -/

/-- Blanks and breaks between two words: the blanks in front of the first break, the break, and the breaks
behind it. -/
structure Gap where
  blanks : Text := []
  first : Text := []
  more : Text := []
  /-- A line has ended. -/
  broken : Bool := false

/-- What a gap stands for between two words. -/
def Gap.text (g : Gap) : Text :=
  if g.broken then
    if g.first.head? = some '\n' then (if g.more.isEmpty then [' '] else g.more) else g.first ++ g.more
  else g.blanks

/-- Reads blanks and breaks. `limit` is the column up to which a tab may not stand in the indentation. -/
def readGap (start : Mark) (limit : Option Int) (g : Gap) : Nat → Cursor → Except Fault (Gap × Cursor)
  | 0, c => .ok (g, c)
  | n + 1, c =>
    match c.head? with
    | none => .ok (g, c)
    | some x =>
      if isBlank x then
        let misplaced := match limit with
          | some l => g.broken && c.mark.column < l && x = '\t'
          | none => false
        if misplaced then .error (c.fault start .tabInPlain)
        else readGap start limit (if g.broken then g else { g with blanks := g.blanks ++ [x] }) n (c.skip 1)
      else if isBreak x then
        let (b, c) := c.takeBreak
        if g.broken then readGap start limit { g with more := g.more ++ b } n c
        else readGap start limit { blanks := [], first := b, more := [], broken := true } n c
      else .ok (g, c)

/-! ## Plain scalars -/

/-- Indicators that end a plain scalar inside brackets. -/
def isFlowIndicator (c : Char) : Bool :=
  c = ',' || c = '?' || c = '[' || c = ']' || c = '\x7b' || c = '\x7d'

/-- The characters of a plain scalar up to a gap or what ends it. -/
def plainWord (inFlow : Bool) : Text → Text
  | [] => []
  | c :: t =>
    if isGap c || (c = ':' && atGap t) || (inFlow && isFlowIndicator c) then []
    else c :: plainWord inFlow t

/-- Reads the words of a plain scalar behind `text` and a gap. The gap behind the last word is handed back. -/
def readPlainFrom (start : Mark) (inFlow : Bool) (indent : Int) (text : Text) (gap : Gap) :
    Nat → Cursor → Except Fault (Text × Gap × Cursor)
  | 0, c => .ok (text, gap, c)
  | n + 1, c =>
    if c.atDocumentMarker || c.sees '#' then .ok (text, gap, c)
    else
      let word := plainWord inFlow c.rest
      let (text, gap) := if word.isEmpty then (text, gap) else (text ++ gap.text ++ word, {})
      let c := c.skip word.length
      if !(c.head?.map isGap).getD false then .ok (text, gap, c)
      else
        match readGap start (some indent) gap (c.rest.length + 1) c with
        | .error e => .error e
        | .ok (gap, c) =>
          if !inFlow && c.mark.column < indent then .ok (text, gap, c)
          else readPlainFrom start inFlow indent text gap n c

/-- A plain scalar: its text, whether a line ended behind it, and the cursor behind. -/
def readPlain (inFlow : Bool) (indent : Int) (c : Cursor) : Except Fault (Text × Bool × Cursor) :=
  (readPlainFrom c.mark inFlow indent [] {} (c.rest.length + 1) c).map fun (t, g, c) => (t, g.broken, c)

/-! ## Quoted scalars -/

/-- The character of an escape by one letter. -/
def shortEscape? (c : Char) : Option Char :=
  match c with
  | '0' => some (Char.ofNat 0)
  | 'a' => some (Char.ofNat 7)
  | 'b' => some (Char.ofNat 8)
  | 't' => some '\t'
  | '\t' => some '\t'
  | 'n' => some '\n'
  | 'v' => some (Char.ofNat 11)
  | 'f' => some (Char.ofNat 12)
  | 'r' => some '\r'
  | 'e' => some (Char.ofNat 27)
  | ' ' => some ' '
  | '"' => some '"'
  | '\x27' => some '\x27'
  | '\\' => some '\\'
  | 'N' => some (Char.ofNat 0x85)
  | '_' => some (Char.ofNat 0xA0)
  | 'L' => some (Char.ofNat 0x2028)
  | 'P' => some (Char.ofNat 0x2029)
  | _ => none

/-- The number of hexadecimal digits of an escape by code point. -/
def escapeDigits (c : Char) : Nat :=
  if c = 'x' then 2 else if c = 'u' then 4 else if c = 'U' then 8 else 0

/-- The value of `n` hexadecimal digits at the front. -/
def hexNumber? (value : Nat) : Nat → Text → Option Nat
  | 0, _ => some value
  | _ + 1, [] => none
  | n + 1, c :: t => (Text.hexValue? c).bind fun d => hexNumber? (value * 16 + d) n t

/-- The character of the escape behind a backslash, and the cursor behind it. -/
def readEscape (start : Mark) (c : Cursor) : Except Fault (Char × Cursor) :=
  match c.rest.drop 1 with
  | [] => .error (c.fault start .escapeUnknown)
  | x :: t =>
    match shortEscape? x with
    | some y => .ok (y, c.skip 2)
    | none =>
      match escapeDigits x with
      | 0 => .error (c.fault start .escapeUnknown)
      | n =>
        match hexNumber? 0 n t with
        | none => .error ((c.skip 2).fault start .escapeDigits)
        | some v =>
          if (0xD800 ≤ v && v ≤ 0xDFFF) || v > 0x10FFFF then .error ((c.skip 2).fault start .escapeInvalid)
          else .ok (Char.ofNat v, c.skip (2 + n))

/-- Reads the word of a quoted scalar behind `text`. The flag tells that an escaped break ended it. -/
def readQuotedWord (single : Bool) (start : Mark) (text : Text) : Nat → Cursor → Except Fault (Text × Bool × Cursor)
  | 0, c => .ok (text, false, c)
  | n + 1, c =>
    match c.rest with
    | [] => .ok (text, false, c)
    | x :: t =>
      if isGap x then .ok (text, false, c)
      else if single && x = Text.apostrophe then
        if t.head? = some Text.apostrophe then readQuotedWord single start (text ++ [x]) n (c.skip 2)
        else .ok (text, false, c)
      else if !single && x = Text.quote then .ok (text, false, c)
      else if !single && x = '\\' then
        if (t.head?.map isBreak).getD false then .ok (text, true, (c.skip 1).skipBreak)
        else
          match readEscape start c with
          | .error e => .error e
          | .ok (y, c) => readQuotedWord single start (text ++ [y]) n c
      else readQuotedWord single start (text ++ [x]) n (c.skip 1)

/-- Reads a quoted scalar from behind its opening quote and `text`. -/
def readQuotedFrom (single : Bool) (start : Mark) (text : Text) : Nat → Cursor → Except Fault (Text × Cursor)
  | 0, c => .error (c.fault start .endInQuotes)
  | n + 1, c =>
    if c.atDocumentMarker then .error (c.fault start .documentInQuotes)
    else if c.rest.isEmpty then .error (c.fault start .endInQuotes)
    else
      match readQuotedWord single start text (c.rest.length + 1) c with
      | .error e => .error e
      | .ok (text, continued, c) =>
        if c.sees (if single then Text.apostrophe else Text.quote) then .ok (text, c.skip 1)
        else
          match readGap start none { broken := continued } (c.rest.length + 1) c with
          | .error e => .error e
          | .ok (gap, c) => readQuotedFrom single start (text ++ gap.text) n c

/-- A quoted scalar. -/
def readQuoted (single : Bool) (c : Cursor) : Except Fault (Text × Cursor) :=
  readQuotedFrom single c.mark [] (c.rest.length + 1) (c.skip 1)

/-! ## Block scalars -/

/-- What becomes of the line breaks at the end of a block scalar. -/
inductive Chomping
  | strip | clip | keep
deriving DecidableEq

/-- The chomping indicator at the cursor. -/
def readChomping (c : Cursor) : Option Chomping × Cursor :=
  if c.sees '+' then (some .keep, c.skip 1)
  else if c.sees '-' then (some .strip, c.skip 1)
  else (none, c)

/-- The indentation indicator at the cursor; zero without one. -/
def readIncrement (start : Mark) (c : Cursor) : Except Fault (Nat × Cursor) :=
  match c.head? with
  | some x =>
    if x = '0' then .error (c.fault start .zeroIndent)
    else if Text.isDigit x then .ok (x.toNat - 48, c.skip 1)
    else .ok (0, c)
  | none => .ok (0, c)

/-- The indicators of a block scalar, in either order. -/
def readBlockHeader (start : Mark) (c : Cursor) : Except Fault (Chomping × Nat × Cursor) :=
  match readChomping c with
  | (some chomping, c) => (readIncrement start c).map fun (n, c) => (chomping, n, c)
  | (none, c) =>
    (readIncrement start c).map fun (n, c) =>
      if n = 0 then (.clip, n, c)
      else
        let (chomping, c) := readChomping c
        (chomping.getD .clip, n, c)

/-- Reads the indentation of the next line of a block scalar and the empty lines in front of it. `indent` is
zero as long as it is not known; `widest` is the widest indentation seen. -/
def readIndent (start : Mark) (indent : Nat) (breaks : Text) (widest : Nat) :
    Nat → Cursor → Except Fault (Text × Nat × Cursor)
  | 0, c => .ok (breaks, widest, c)
  | n + 1, c =>
    let room := if indent = 0 then c.rest.length else indent - c.mark.column
    let c := c.skip ((c.rest.take room).takeWhile (· = ' ')).length
    let widest := max widest c.mark.column
    if (indent = 0 || c.mark.column < indent) && c.sees '\t' then .error (c.fault start .tabForIndent)
    else if (c.head?.map isBreak).getD false then
      let (b, c) := c.takeBreak
      readIndent start indent (breaks ++ b) widest n c
    else .ok (breaks, widest, c)

/-- What has been read of a block scalar: its text, the break behind its last line, the breaks behind that,
and whether its last line started with a blank. -/
structure BlockText where
  text : Text := []
  first : Text := []
  more : Text := []
  afterBlank : Bool := false

/-- Reads the lines of a block scalar. In a folded one a single break between two lines that do not start
with a blank becomes a space. -/
def readBlockLines (literal : Bool) (start : Mark) (indent : Nat) (b : BlockText) :
    Nat → Cursor → Except Fault (BlockText × Cursor)
  | 0, c => .ok (b, c)
  | n + 1, c =>
    if c.mark.column ≠ indent || c.rest.isEmpty then .ok (b, c)
    else
      let blank := (c.head?.map isBlank).getD false
      let glue : Text :=
        if !literal && !b.afterBlank && !blank && b.first.head? = some '\n' then
          (if b.more.isEmpty then [' '] else [])
        else b.first
      let (line, c) := c.takeWhile (!isBreak ·)
      let (first, c) := c.takeBreak
      match readIndent start indent [] 0 (c.rest.length + 1) c with
      | .error e => .error e
      | .ok (more, _, c) =>
        readBlockLines literal start indent ⟨b.text ++ glue ++ b.more ++ line, first, more, blank⟩ n c

/-- A block scalar. `parent` is the indentation of the block around it. -/
def readBlock (literal : Bool) (parent : Int) (c : Cursor) : Except Fault (Text × Cursor) := do
  let start := c.mark
  let (chomping, increment, c) ← readBlockHeader start (c.skip 1)
  let c := c.skipWhile isBlank
  let c := if c.sees '#' then c.skipLineRest else c
  if !atBreak c.rest then throw (c.fault start .lineNotFinished)
  let c := c.skipBreak
  let given := if increment = 0 then 0 else parent.toNat + increment
  let (breaks, widest, c) ← readIndent start given [] 0 (c.rest.length + 1) c
  let indent := if given = 0 then max (max widest (parent + 1).toNat) 1 else given
  let (b, c) ← readBlockLines literal start indent { more := breaks } (c.rest.length + 1) c
  let tail : Text := match chomping with
    | .strip => []
    | .clip => b.first
    | .keep => b.first ++ b.more
  return (b.text ++ tail, c)

end Docweave.Yaml

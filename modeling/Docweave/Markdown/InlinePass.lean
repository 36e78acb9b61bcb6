import Docweave.Markdown.HtmlTag
import Docweave.Markdown.InlineItem
import Docweave.Markdown.LinkReference

/-!
# The inline pass

Reads the text of one block into inline content. The text is scanned for the characters that may begin
something: a code span, a link, an address, a tag, a run of emphasis marks. Each has a recogniser that
either gives the item it found and the position behind it, or nothing. `inlineContent` is the whole pass.
-/

namespace Docweave.Markdown

open Docweave.Text

/-- What an attempt at one construct led to: the items, newest first, and, when it was recognised, the
position behind it. -/
structure Recognition where
  items : List Item
  behind : Option Reader

/-! ## Code spans -/

/-- The pieces of a code span up to a run of exactly `n` back quotes, and the position behind it. -/
def codePieces? (n : Nat) : Nat → Reader → Option (List Segment × Reader)
  | 0, _ => none
  | fuel + 1, r =>
    if r.atEnd then none
    else
      match closing n 0 r.text.length r.text with
      | some i =>
        let piece := r.line.take i
        some (if piece.text.isEmpty then [] else [piece], r.advance (i + n))
      | none => (codePieces? n fuel r.nextLine).map fun (ps, r') => (r.line :: ps, r')
where
  /-- Index of the first run of exactly `n` back quotes. -/
  closing (n i : Nat) : Nat → Text → Option Nat
  | 0, _ => none
  | _, [] => none
  | fuel + 1, c :: t =>
    if c = backtick then
      let k := (t.takeWhile (· = backtick)).length + 1
      if k = n then some i else closing n (i + k) fuel ((c :: t).drop k)
    else closing n (i + 1) fuel t

/-- One space or newline is taken off at both ends when both have one and the span is not blank. -/
def trimCode (pieces : List Segment) : List Segment :=
  let isEdge := fun c => c = some ' ' || c = some '\n'
  let first := pieces.head?.bind (·.text.head?)
  let last := pieces.getLast?.bind (·.text.getLast?)
  if !(pieces.all fun p => isBlank p.text) && isEdge first && isEdge last then
    let pieces := match pieces with
      | p :: ps => p.drop 1 :: ps
      | [] => []
    pieces.dropLast ++ pieces.getLast?.toList.map fun p => p.take (p.text.length - 1)
  else pieces

/-- The text of pieces without the characters at the given offsets. -/
def pieceText (escapes : List Nat) (pieces : List Segment) : Text :=
  pieces.flatMap fun p =>
    (p.text.zipIdx.filter fun (_, i) => !escapes.contains (p.start + i)).map (·.1)

/-- A code span, or the back quotes that open none. -/
def readCode (escapes : List Nat) (r : Reader) (items : List Item) : Recognition :=
  let n := (r.text.takeWhile (· = backtick)).length
  let inner := r.advance n
  match codePieces? n (inner.later.length + 2) inner with
  | some (pieces, r) => ⟨.node (.code (pieceText escapes (trimCode pieces))) :: items, some r⟩
  | none => ⟨.text r.line.start (r.text.take n) .none :: items, some inner⟩

/-! ## Links and images -/

/-- Some link stands among the content. -/
def holdsLink : List Inline → Bool
  | [] => false
  | i :: is =>
    (match i with
      | .link _ _ _ => true
      | .emphasis _ cs => holdsLink cs
      | .strikethrough cs => holdsLink cs
      | .image _ _ cs => holdsLink cs
      | _ => false) || holdsLink is

/-- The newest bracket in the items, newest first: what came after it in order, the bracket, and the
items before it. -/
def lastBracket? (after : List Item) : List Item → Option (List Item × Bracket × List Item)
  | [] => none
  | .bracket b :: items => some (after, b, items)
  | i :: items => lastBracket? (i :: after) items

/-- Offset distance from the oldest open bracket to the end of the newest. -/
def bracketSpan (items : List Item) : Nat :=
  let bs := items.filterMap fun i =>
    match i with
    | .bracket b => some b
    | _ => none
  match bs.head?, bs.getLast? with
  | some newest, some oldest => newest.stop - oldest.start
  | _, _ => 0

/-- The target of an inline link behind its opening parenthesis. -/
def inlineTarget? (r : Reader) : Option ((Text × Text) × Reader) :=
  let r := (r.advance 1).skipSpaces.2
  if r.peek = some ')' then some (([], []), r.advance 1)
  else do
    let (dest, r) ← destination? r
    let r := r.skipSpaces.2
    if r.peek = some ')' then some ((dest, []), r.advance 1)
    else
      let (title, r) ← title? r
      let r := r.skipSpaces.2
      guard (r.peek = some ')')
      some ((dest, title), r.advance 1)

/-- The target that a closing bracket leads to. `label` is the text between the brackets. The search ends
at once, without a fallback to the label, when a second pair of brackets holds an unknown label. -/
def linkTarget? (refs : List Reference) (label : Text) (r : Reader) : Option ((Text × Text) × Reader) :=
  let byLabel : Option ((Text × Text) × Reader) :=
    if byteSize label > 999 then none
    else (lookupReference refs label).map fun ref => ((ref.destination, ref.title), r)
  match r.peek with
  | some '(' => (inlineTarget? r).orElse fun _ => byLabel
  | some '[' =>
    match (r.advance 1).findClosure? '[' ']' with
    | none => byLabel
    | some (second, r) =>
      let label := if isBlank second then label else second
      if byteSize label > 999 then none
      else (lookupReference refs label).map fun ref => ((ref.destination, ref.title), r)
  | _ => byLabel

/-- A closing bracket: the link or image that it ends, or plain text again. -/
def readClosingBracket (refs : List Reference) (lines : List Segment) (r : Reader) (items : List Item) :
    Recognition :=
  match lastBracket? [] items with
  | none => ⟨items, none⟩
  | some (after, b, before) =>
    let plain : Recognition := ⟨after.reverse ++ joinText b.start b.text before, none⟩
    if bracketSpan before > 998 then plain
    else if !b.isImage && holdsLink (after.map Item.toInline) then plain
    else
      match linkTarget? refs (textBetween lines b.stop r.line.start) (r.advance 1) with
      | none => plain
      | some ((dest, title), r) =>
        let children := (resolveDelimiters after).map Item.toInline
        let node := if b.isImage then Inline.image dest title children else .link dest title children
        ⟨.node node :: before, some r⟩

/-- An opening bracket. -/
def readOpeningBracket (r : Reader) (items : List Item) : Recognition :=
  ⟨.bracket ⟨false, r.line.start⟩ :: items, some (r.advance 1)⟩

/-- An exclamation mark, which opens an image when a bracket follows. -/
def readExclamation (r : Reader) (items : List Item) : Recognition :=
  match r.text with
  | _ :: '[' :: _ => ⟨.bracket ⟨true, r.line.start⟩ :: items, some (r.advance 2)⟩
  | _ => ⟨items, none⟩

/-! ## Addresses and tags -/

/-- Characters of the part of a mail address in front of the at sign. -/
def isMailboxChar (c : Char) : Bool :=
  isAlphanumeric c || (".!#$%&*+/=?^_\x7b|\x7d~-" : Text).contains c || c = backtick || c = apostrophe

/-- Length of one label of a domain name, zero if there is none. -/
def domainLabelLength (t : Text) : Nat :=
  match t with
  | [] => 0
  | c :: _ =>
    if isAlphanumeric c then
      let run := (t.takeWhile fun c => isAlphanumeric c || c = '-').take 63
      (trimRight (· = '-') run).length
    else 0

/-- Length of a domain name behind its first label. -/
def domainTailLength : Nat → Text → Nat
  | 0, _ => 0
  | fuel + 1, t =>
    match t with
    | '.' :: r =>
      let n := domainLabelLength r
      if n = 0 then 0 else n + 1 + domainTailLength fuel (r.drop n)
    | _ => 0

/-- Length of a mail address at the front of the text. -/
def mailLength? (t : Text) : Option Nat :=
  let box := (t.takeWhile isMailboxChar).length
  match t.drop box with
  | '@' :: d =>
    let n := domainLabelLength d
    if box = 0 || n = 0 then none else some (box + 1 + n + domainTailLength d.length (d.drop n))
  | _ => none

/-- Characters of a scheme. -/
def isSchemeChar (c : Char) : Bool := isAlphanumeric c || c = '+' || c = '-' || c = '.'

/-- Characters of an address behind the scheme. -/
def isAddressChar (c : Char) : Bool := c.toNat > 0x20 && c ≠ '<' && c ≠ '>'

/-- Length of an absolute address at the front of the text. -/
def addressLength? (t : Text) : Option Nat :=
  match t with
  | [] => none
  | c :: _ =>
    let scheme := (t.takeWhile isSchemeChar).length
    if !isLetter c || scheme = 1 || scheme > 33 then none
    else
      match t.drop scheme with
      | ':' :: r => some (scheme + 1 + (r.takeWhile isAddressChar).length)
      | _ => none

/-- An address between angle brackets. -/
def autolink? (r : Reader) : Option (Inline × Reader) :=
  let t := r.text.tail
  let (found, isEmail) := match mailLength? t with
    | some n => (some n, true)
    | none => (addressLength? t, false)
  match found with
  | none => none
  | some n => if t[n]? = some '>' then some (.autolink (t.take n) isEmail, r.advance (n + 2)) else none

/-- Length of the text up to and with `closer`, searched from index `skip` on. -/
def lengthThrough? (skip : Nat) (closer t : Text) : Option Nat :=
  (cut? closer (t.drop skip)).map fun (a, _) => skip + a.length + closer.length

/-- Length of the markup at the front of a text. -/
def markupLength? (t : Text) : Option Nat :=
  match t.tail with
  | [] => none
  | c :: rest =>
    if isAlphanumeric c then (HtmlTag.openTag? t).map fun r => t.length - r.length
    else if c = '/' && (rest.head?.map isAlphanumeric).getD false then
      (HtmlTag.closeTag? t).map fun r => t.length - r.length
    else if startsWith t "<!-->" then some 5
    else if startsWith t "<!--->" then some 6
    else if startsWith t "<!--" then lengthThrough? 4 "-->" t
    else if c = '?' then lengthThrough? 0 "?>" t
    else if c = '!' && (rest.head?.map fun d => 'A' ≤ d && d ≤ 'Z').getD false then lengthThrough? 0 ">" t
    else if startsWith t "<![CDATA[" then lengthThrough? 0 "]]>" t
    else none

/-- An angle bracket: an address, or a piece of markup. -/
def readAngle (r : Reader) (items : List Item) : Recognition :=
  match autolink? r with
  | some (n, r) => ⟨.node n :: items, some r⟩
  | none =>
    match markupLength? r.wholeText with
    | some n => ⟨.node (.html (r.wholeText.take n)) :: items, some (r.advance n)⟩
    | none => ⟨items, none⟩

/-! ## Emphasis marks -/

/-- A run of emphasis marks. A run of more than two tildes, or one behind a tilde, is text. -/
def readRun (r : Reader) (items : List Item) : Recognition :=
  match scanRun r.line.before r.text r.line.start with
  | none => ⟨items, none⟩
  | some run =>
    if run.mark = '~' && (run.length > 2 || r.line.before = '~') then ⟨items, none⟩
    else ⟨.run run :: items, some (r.advance run.length)⟩

/-! ## The scan -/

/-- What a block's text is read with. -/
structure InlineContext where
  refs : List Reference
  lines : List Segment
  /-- Offsets of backslashes that escape a pipe in a table cell. -/
  escapes : List Nat

/-- Characters that may begin a construct. -/
def isTrigger (c : Char) : Bool :=
  c = backtick || c = '!' || c = '[' || c = ']' || c = '<' || c = '*' || c = '_' || c = '~'

/-- Tries the construct that the next character may begin. -/
def recognize (ctx : InlineContext) (r : Reader) (items : List Item) : Recognition :=
  match r.peek with
  | none => ⟨items, none⟩
  | some c =>
    if c = backtick then readCode ctx.escapes r items
    else if c = '!' then readExclamation r items
    else if c = '[' then readOpeningBracket r items
    else if c = ']' then readClosingBracket ctx.refs ctx.lines r items
    else if c = '<' then readAngle r items
    else readRun r items

/-- How a line ends: the length of its text and the break, and whether the break is drawn by a
backslash. -/
def lineEnding (line : Text) : Nat × LineBreak × Bool :=
  let n := line.length
  match line.reverse with
  | '\n' :: t =>
    match t with
    | '\\' :: c :: _ => if c ≠ '\\' then (n - 2, .hard, true) else (n, .soft, false)
    | ['\\'] => (n - 2, .hard, true)
    | '\r' :: '\\' :: c :: _ => if c ≠ '\\' then (n - 3, .hard, true) else (n, .soft, false)
    | ['\r', '\\'] => (n - 3, .hard, true)
    | ' ' :: ' ' :: _ => (n - 3, .hard, false)
    | '\r' :: ' ' :: ' ' :: _ => (n - 4, .hard, false)
    | _ => (n, .soft, false)
  | _ => (n, .none, false)

/-- Where the scan of a line stopped: behind a recognised construct, or at the end of its text. -/
inductive ScanResult
  | behind (r : Reader) (escaped : Bool) (items : List Item)
  | endOfLine (start stop : Nat) (escaped : Bool) (items : List Item)

/-- Scans the text of a line from index `i` on; the text from index `start` to `i` is not among the items
yet. `base` is the reader at index zero. -/
def scanLine (ctx : InlineContext) (base : Reader) (start i : Nat) (escaped : Bool) (items : List Item) :
    Text → ScanResult
  | [] => .endOfLine start i escaped items
  | c :: t =>
    if c = '\n' then .endOfLine start i escaped items
    else if isTrigger c && (!escaped || i = 0) then
      let items :=
        if i = 0 then items
        else joinText (base.line.start + start) ((base.text.take i).drop start) items
      let found := recognize ctx (base.advance i) items
      match found.behind with
      | some r => .behind r escaped found.items
      | none => scanLine ctx base i (i + 1) false found.items t
    else scanLine ctx base start (i + 1) (!escaped && c = '\\') items t

/-- Reads lines until the block ends. Every step takes at least one character. -/
def scanBlock (ctx : InlineContext) : Nat → Reader → Bool → List Item → List Item
  | 0, _, _, items => items
  | fuel + 1, r, escaped, items =>
    if r.atEnd then items
    else
      let (length, ending, drawn) := lineEnding r.text
      match scanLine ctx r 0 0 escaped items (r.text.take length) with
      | .behind r escaped items => scanBlock ctx fuel r escaped items
      | .endOfLine start stop escaped items =>
        let t := (r.text.take stop).drop start
        let t := if drawn then t else trimRight isBlankAscii t
        scanBlock ctx fuel r.nextLine escaped (.text (r.line.start + start) t ending :: items)

/-- The inline content of a block. -/
def inlineContent (refs : List Reference) (escapes : List Nat) (lines : List Segment) : List Inline :=
  let r := Reader.ofLines lines
  let items := scanBlock ⟨refs, lines, escapes⟩ (r.remaining + 1) r false []
  (resolveDelimiters items.reverse).map Item.toInline

end Docweave.Markdown

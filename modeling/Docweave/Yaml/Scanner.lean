import Docweave.Yaml.Property

/-!
# Scanning YAML

The scanner turns characters into a queue of tokens. A scalar or collection may turn out to be a key only
when the colon behind it is seen; until then it is a *candidate*, and its tokens wait in the queue so that
the key token can be put in front of them.

Tokens are handed out by `peek` and `next`. The queue is kept ahead of what is handed out by two tokens,
and further as long as the first token may still become a key; so a problem of the characters is found
before a problem of the tokens in front of it.
-/

namespace Docweave.Yaml

/-- A place at which a key without question mark may start. -/
structure Candidate where
  possible : Bool := false
  /-- The place stands at the indentation of a block mapping, where only a key can. -/
  required : Bool := false
  /-- The number of the token that starts there. -/
  number : Nat := 0
  mark : Mark := {}
deriving Inhabited

/-- A candidate ends with its line or 1024 characters behind its start. -/
def Candidate.isStale (k : Candidate) (here : Mark) : Bool :=
  k.mark.line < here.line || k.mark.index + 1024 < here.index

/-- A scanner. -/
structure Scanner where
  cursor : Cursor
  /-- The stream has started. -/
  started : Bool := false
  /-- Tokens not handed out yet, the first at the front. -/
  queue : List Token := []
  /-- The number of tokens handed out. -/
  handed : Nat := 0
  /-- The indentation of the innermost block, and of those around it. -/
  indent : Int := -1
  outer : List Int := []
  /-- The number of brackets open. -/
  depth : Nat := 0
  /-- The candidates of the brackets open around the innermost, and its own. -/
  candidates : List Candidate := []
  candidate : Candidate := {}
  /-- A key may start here. -/
  keyAllowed : Bool := true
deriving Inhabited

namespace Scanner

/-- The deepest nesting of blocks and brackets. -/
def maxDepth : Nat := 10000

/-- The scanner at the start of a text. -/
def start (t : Text) : Scanner := { cursor := Cursor.start t }

/-- The number that the next token will have. -/
def nextNumber (s : Scanner) : Nat := s.handed + s.queue.length

/-- A token at the end of the queue. -/
def push (s : Scanner) (kind : TokenKind) (mark : Mark) : Scanner := { s with queue := s.queue ++ [⟨kind, mark⟩] }

/-- A token in front of the one with a number. -/
def insert (s : Scanner) (number : Nat) (kind : TokenKind) (mark : Mark) : Scanner :=
  let i := number - s.handed
  { s with queue := s.queue.take i ++ ⟨kind, mark⟩ :: s.queue.drop i }

/-! ## Candidates -/

/-- The problem of a candidate that had to be a key. -/
def missingValue (s : Scanner) (k : Candidate) : Fault := s.cursor.fault k.mark .missingValue

/-- Gives up the candidate of the innermost brackets. -/
def dropCandidate (s : Scanner) : Except Fault Scanner :=
  if s.candidate.possible && s.candidate.required then .error (s.missingValue s.candidate)
  else .ok { s with candidate := { s.candidate with possible := false } }

/-- Makes the place of the cursor a candidate, when a key may start there. -/
def saveCandidate (s : Scanner) : Except Fault Scanner :=
  if s.keyAllowed then
    (s.dropCandidate).map fun s =>
      let required := s.depth = 0 && s.indent = s.cursor.mark.column
      { s with candidate := ⟨true, required, s.nextNumber, s.cursor.mark⟩ }
  else .ok s

/-! ## Indentation -/

/-- Ends the blocks that are indented more than `column`. -/
def unroll (s : Scanner) (column : Int) (mark : Mark) : Scanner :=
  if s.depth > 0 then s else go s s.outer
where
  go (s : Scanner) : List Int → Scanner
  | [] => s
  | i :: outer =>
    if s.indent > column then go { s.push .blockEnd mark with indent := i, outer := outer } outer else s

/-- Starts a block at `column`, when it is indented more than the innermost one. The token goes in front of
the one with the given number, if there is one. -/
def roll (s : Scanner) (column : Nat) (number : Option Nat) (kind : TokenKind) (mark : Mark) :
    Except Fault Scanner :=
  if s.depth > 0 || s.indent ≥ column then .ok s
  else
    let s := { s with outer := s.indent :: s.outer, indent := column }
    if s.outer.length > maxDepth then .error (s.cursor.fault s.candidate.mark .tooDeep)
    else
      match number with
      | some n => .ok (s.insert n kind mark)
      | none => .ok (s.push kind mark)

/-! ## Blanks and comments -/

/-- Behind the comments at the cursor: the comment of its line and those of the next lines. -/
def skipComments : Nat → Cursor → Cursor
  | 0, c => c
  | n + 1, c =>
    let c := c.skipLineRest
    let ahead := skipGap (c.rest.length + 1) c
    if ahead.sees '#' then skipComments n ahead else c
where
  skipGap : Nat → Cursor → Cursor
  | 0, c => c
  | n + 1, c =>
    match c.head? with
    | some x =>
      if isBlank x then skipGap n (c.skip 1) else if isBreak x then skipGap n c.skipBreak else c
    | none => c

/-- Goes to the next token. Tabs are no indentation. -/
def skipToToken (s : Scanner) : Nat → Scanner
  | 0 => s
  | n + 1 =>
    let tabs := s.depth > 0 || !s.keyAllowed
    let c := s.cursor.skipWhile fun x => x = ' ' || (tabs && x = '\t')
    let c := if c.sees '#' then skipComments (c.rest.length + 1) c else c
    if (c.head?.map isBreak).getD false then
      let allowed := if s.depth = 0 then true else s.keyAllowed
      skipToToken { s with cursor := c.skipBreak, keyAllowed := allowed } n
    else { s with cursor := c }

/-- Goes behind a comment on the line of the token just read. -/
def skipLineComment (s : Scanner) : Scanner :=
  if s.cursor.fresh then s
  else
    let c := s.cursor.skipWhile isBlank
    if c.sees '#' then { s with cursor := c.skipLineRest } else s

/-! ## Tokens -/

/-- A token of `n` characters at the cursor. -/
def indicator (s : Scanner) (n : Nat) (kind : TokenKind) : Scanner :=
  { s.push kind s.cursor.mark with cursor := s.cursor.skip n }

/-- The end of the stream; it starts a line of its own. -/
def streamEnd (s : Scanner) : Except Fault Scanner :=
  let m := s.cursor.mark
  let m := if m.column = 0 then m else { m with column := 0, line := m.line + 1 }
  let s := { s with cursor := { s.cursor with mark := m } }
  ((s.unroll (-1) m).dropCandidate).map fun s => { s.push .streamEnd m with keyAllowed := false }

/-- A directive. -/
def directive (s : Scanner) : Except Fault Scanner := do
  let mark := s.cursor.mark
  let s ← (s.unroll (-1) mark).dropCandidate
  let (kind, c) ← readDirective s.cursor
  return { s.push kind mark with cursor := c, keyAllowed := false }

/-- A marker that starts or ends a document. -/
def documentMarker (s : Scanner) (kind : TokenKind) : Except Fault Scanner := do
  let s ← (s.unroll (-1) s.cursor.mark).dropCandidate
  return { s with keyAllowed := false }.indicator 3 kind

/-- An opening bracket. -/
def flowStart (s : Scanner) (kind : TokenKind) : Except Fault Scanner := do
  let s ← s.saveCandidate
  let s := { s with
    candidates := s.candidate :: s.candidates
    candidate := ⟨false, false, s.nextNumber, s.cursor.mark⟩
    depth := s.depth + 1 }
  if s.depth > maxDepth then throw (s.cursor.fault s.candidate.mark .tooDeep)
  return { s with keyAllowed := true }.indicator 1 kind

/-- A closing bracket. -/
def flowEnd (s : Scanner) (kind : TokenKind) : Except Fault Scanner := do
  let s ← s.dropCandidate
  let s := match s.depth, s.candidates with
    | d + 1, k :: ks => { s with depth := d, candidate := k, candidates := ks }
    | _, _ => s
  return { s with keyAllowed := false }.indicator 1 kind

/-- A comma between brackets. -/
def flowEntry (s : Scanner) : Except Fault Scanner := do
  let s ← s.dropCandidate
  return { s with keyAllowed := true }.indicator 1 .flowEntry

/-- The dash of a block sequence. -/
def blockEntry (s : Scanner) : Except Fault Scanner := do
  let mark := s.cursor.mark
  if s.depth = 0 && !s.keyAllowed then throw (s.cursor.fault mark .entryNotAllowed)
  let s ← s.roll mark.column none .blockSequenceStart mark
  let s ← s.dropCandidate
  return { s with keyAllowed := true }.indicator 1 .blockEntry

/-- The question mark of a key. -/
def keyIndicator (s : Scanner) : Except Fault Scanner := do
  let mark := s.cursor.mark
  if s.depth = 0 && !s.keyAllowed then throw (s.cursor.fault mark .keyNotAllowed)
  let s ← s.roll mark.column none .blockMappingStart mark
  let s ← s.dropCandidate
  return { s with keyAllowed := s.depth = 0 }.indicator 1 .key

/-- The colon of a value. A candidate in front of it becomes a key. -/
def valueIndicator (s : Scanner) : Except Fault Scanner := do
  let mark := s.cursor.mark
  let k := s.candidate
  if k.possible && k.isStale mark && k.required then throw (s.missingValue k)
  let s ←
    if k.possible && !k.isStale mark then do
      let s ← (s.insert k.number .key k.mark).roll k.mark.column (some k.number) .blockMappingStart k.mark
      pure { s with candidate := { k with possible := false }, keyAllowed := false }
    else do
      let s := { s with candidate := { k with possible := false } }
      if s.depth = 0 && !s.keyAllowed then throw (s.cursor.fault mark .valueNotAllowed)
      let s ← s.roll mark.column none .blockMappingStart mark
      pure { s with keyAllowed := s.depth = 0 }
  return s.indicator 1 .value

/-- An alias or anchor. -/
def named (s : Scanner) (kind : Text → TokenKind) : Except Fault Scanner := do
  let s ← s.saveCandidate
  let (name, c) ← readName s.cursor
  return { s.push (kind name) s.cursor.mark with cursor := c, keyAllowed := false }

/-- A tag. -/
def tagged (s : Scanner) : Except Fault Scanner := do
  let s ← s.saveCandidate
  let (handle, suffix, c) ← readTag s.cursor
  return { s.push (.tag handle suffix) s.cursor.mark with cursor := c, keyAllowed := false }

/-- A block scalar. A key may follow it. -/
def blockScalar (s : Scanner) (literal : Bool) : Except Fault Scanner := do
  let s ← s.dropCandidate
  let (text, c) ← readBlock literal s.indent s.cursor
  return { s.push (.scalar text false) s.cursor.mark with cursor := c, keyAllowed := true }

/-- A quoted scalar. -/
def quotedScalar (s : Scanner) (single : Bool) : Except Fault Scanner := do
  let s ← s.saveCandidate
  let (text, c) ← readQuoted single s.cursor
  return { s.push (.scalar text false) s.cursor.mark with cursor := c, keyAllowed := false }

/-- A plain scalar. A key may follow when the line ends behind it. -/
def plainScalar (s : Scanner) : Except Fault Scanner := do
  let s ← s.saveCandidate
  let (text, broken, c) ← readPlain (s.depth > 0) (s.indent + 1) s.cursor
  return { s.push (.scalar text true) s.cursor.mark with cursor := c, keyAllowed := broken }

/-- Characters that start no plain scalar. -/
def isIndicator (c : Char) : Bool :=
  isGap c || c = '-' || c = '?' || c = ':' || c = ',' || c = '[' || c = ']' || c = '\x7b' || c = '\x7d' ||
    c = '#' || c = '&' || c = '*' || c = '!' || c = '|' || c = '>' || c = Text.apostrophe || c = Text.quote ||
    c = '%' || c = '@' || c = Text.backtick

/-- A plain scalar starts with the character `x`, in front of `rest`. -/
def startsPlain (s : Scanner) (x : Char) (rest : Text) : Bool :=
  !isIndicator x || (x = '-' && !(rest.head?.map isBlank).getD false) ||
    (s.depth = 0 && (x = '?' || x = ':') && !atGap rest)

/-- Reads the token that starts with the character `x`, in front of `rest`. -/
def token (s : Scanner) (x : Char) (rest : Text) : Except Fault Scanner :=
  if x = '[' then s.flowStart .flowSequenceStart
  else if x = '\x7b' then s.flowStart .flowMappingStart
  else if x = ']' then s.flowEnd .flowSequenceEnd
  else if x = '\x7d' then s.flowEnd .flowMappingEnd
  else if x = ',' then s.flowEntry
  else if x = '-' && atGap rest then s.blockEntry
  else if x = '?' && (s.depth > 0 || atGap rest) then s.keyIndicator
  else if x = ':' && (s.depth > 0 || atGap rest) then s.valueIndicator
  else if x = '*' then s.named .alias
  else if x = '&' then s.named .anchor
  else if x = '!' then s.tagged
  else if x = '|' && s.depth = 0 then s.blockScalar true
  else if x = '>' && s.depth = 0 then s.blockScalar false
  else if x = Text.apostrophe then s.quotedScalar true
  else if x = Text.quote then s.quotedScalar false
  else if s.startsPlain x rest then s.plainScalar
  else .error (s.cursor.fault s.cursor.mark .noToken)

/-- Reads the next token into the queue. -/
def fetch (s : Scanner) : Except Fault Scanner :=
  if !s.started then .ok { s.push .streamStart s.cursor.mark with started := true }
  else
    let before := s.cursor.mark
    let s := s.skipToToken (s.cursor.rest.length + 1)
    let s := s.unroll s.cursor.mark.column before
    match s.cursor.rest with
    | [] => s.streamEnd
    | x :: rest =>
      if s.cursor.mark.column = 0 && x = '%' then s.directive
      else if s.cursor.mark.column = 0 && startsMarker '-' s.cursor.rest then s.documentMarker .documentStart
      else if s.cursor.mark.column = 0 && startsMarker '.' s.cursor.rest then s.documentMarker .documentEnd
      else
        (s.token x rest).map fun s =>
          if (s.queue.getLast?.map (·.kind)) = some TokenKind.blockEntry then s else s.skipLineComment

/-! ## Handing out -/

/-- The first token of the queue may still become a key. Also the problem of one that had to. -/
def headMayBeKey (s : Scanner) : Except Fault Bool :=
  match (s.candidate :: s.candidates).find? fun k => k.possible && k.number = s.handed with
  | none => .ok false
  | some k =>
    if k.isStale s.cursor.mark then
      if k.required then .error (s.missingValue k) else .ok false
    else .ok true

/-- Fills the queue. -/
def fill : Nat → Scanner → Except Fault Scanner
  | 0, s => .ok s
  | n + 1, s =>
    if s.queue.length > 2 then
      match s.headMayBeKey with
      | .error e => .error e
      | .ok false => .ok s
      | .ok true =>
        match s.fetch with
        | .error e => .error e
        | .ok s => fill n s
    else
      match s.fetch with
      | .error e => .error e
      | .ok s => fill n s

/-- The next token, and the scanner with a full queue. -/
def peek (s : Scanner) : Except Fault (Token × Scanner) :=
  (fill (s.cursor.rest.length + 5) s).map fun s => (s.queue.headD ⟨.streamEnd, s.cursor.mark⟩, s)

/-- The scanner behind the next token. -/
def next (s : Scanner) : Scanner := { s with queue := s.queue.drop 1, handed := s.handed + 1 }

end Scanner

end Docweave.Yaml

import Docweave.Yaml.Resolve
import Docweave.Yaml.Scanner

/-!
# Nodes of a YAML document

`parseDocument` reads the first document of a text as a tree of scalars, sequences and mappings. Aliases
stay in the tree: they name the number of the anchor that they stand for, and the anchored nodes are kept
in a table.
-/

namespace Docweave.Yaml

/-- A node of a document. Tags are in short form, lines count from one. -/
inductive Node
  | scalar (tag text : Text) (line : Nat)
  | sequence (tag : Text) (items : List Node) (line : Nat)
  | mapping (tag : Text) (entries : List (Node × Node)) (line : Nat)
  /-- An alias: its name, the number of its anchor, and a number of its own. -/
  | alias (name : Text) (anchor serial : Nat) (line : Nat)
deriving Inhabited

/-- A document: its node, and the anchored nodes by number. -/
structure Document where
  root : Node
  anchored : List (Nat × Node)
deriving Inhabited

/-- What reading a document keeps. -/
structure Composer where
  scanner : Scanner
  /-- What tag handles stand for. -/
  handles : List (Text × Text) := []
  /-- The number of the latest anchor of each name, the latest first. -/
  anchors : List (Text × Nat) := []
  anchored : List (Nat × Node) := []
  anchorCount : Nat := 0

/-- Reading that moves a composer forward. -/
abbrev Compose := StateT Composer (Except Fault)

namespace Compose

/-- The next token. -/
def peek : Compose Token := do
  let c ← get
  match c.scanner.peek with
  | .error e => throw e
  | .ok (t, s) => do
    set { c with scanner := s }
    return t

/-- Goes behind the next token. -/
def skip : Compose Unit := modify fun c => { c with scanner := c.scanner.next }

/-- A problem with a token, in a construct that starts at `context`. -/
def fault (context place : Mark) (p : Problem) : Fault := .malformed (Cursor.reportLine context place 0) p

/-- A scalar that is not written. -/
def absent (m : Mark) : Node := .scalar Tag.null [] (m.line + 1)

/-- The tag of a scalar: its own, or the one that its form gives. -/
def scalarTag (tag text : Text) (plain : Bool) : Text :=
  if !tag.isEmpty && tag ≠ "!" then Tag.short tag
  else if !plain then Tag.text
  else if text = "<<" then Tag.merge
  else (resolvePlain text).1

/-- The tag of a collection: its own or the default. -/
def collectionTag (tag fallback : Text) : Text :=
  if !tag.isEmpty && tag ≠ "!" then Tag.short tag else fallback

/-! ## Properties -/

/-- What stands in front of a node. -/
structure Properties where
  anchor : Option Text := none
  /-- Handle, suffix and place of a tag. -/
  tag : Option (Text × Text × Mark) := none
  mark : Mark

/-- Reads the properties of a node: an anchor and a tag in either order. -/
def properties : Compose Properties := do
  let t ← peek
  match t.kind with
  | .anchor name => do
    skip
    let u ← peek
    match u.kind with
    | .tag h s => do
      skip
      return ⟨some name, some (h, s, u.mark), t.mark⟩
    | _ => return ⟨some name, none, t.mark⟩
  | .tag h s => do
    skip
    let u ← peek
    match u.kind with
    | .anchor name => do
      skip
      return ⟨some name, some (h, s, t.mark), t.mark⟩
    | _ => return ⟨none, some (h, s, t.mark), t.mark⟩
  | _ => return ⟨none, none, t.mark⟩

/-- The tag that properties give; empty without one. -/
def fullTag (p : Properties) : Compose Text := do
  match p.tag with
  | none => return []
  | some ([], suffix, _) => return suffix
  | some (handle, suffix, mark) => do
    let c ← get
    match c.handles.find? (·.1 = handle) with
    | some (_, uri) => return uri ++ suffix
    | none => throw (fault p.mark mark .handleUndefined)

/-- Gives an anchor its number. -/
def openAnchor (name : Option Text) : Compose (Option Nat) := do
  match name with
  | none => return none
  | some name => do
    let c ← get
    set { c with anchors := (name, c.anchorCount) :: c.anchors, anchorCount := c.anchorCount + 1 }
    return some c.anchorCount

/-- Keeps the node of an anchor. -/
def keep (number : Option Nat) (n : Node) : Compose Node := do
  match number with
  | none => return n
  | some i => do
    modify fun c => { c with anchored := (i, n) :: c.anchored }
    return n

/-! ## Nodes -/

mutual

/-- A node. `block` allows block collections, `indentless` a sequence at the indentation of its key. -/
def node : Nat → Bool → Bool → Compose Node
  | 0, _, _ => throw (.malformed 0 .tooDeep)
  | n + 1, block, indentless => do
    let t ← peek
    match t.kind with
    | .alias name => do
      skip
      let c ← get
      match c.anchors.find? (·.1 = name) with
      | some (_, i) => return .alias name i t.mark.index (t.mark.line + 1)
      | none => throw (.unknownAnchor name)
    | _ => do
      let p ← properties
      let u ← peek
      let tag ← fullTag p
      let line := p.mark.line + 1
      match u.kind with
      | .scalar text plain => do
        skip
        let a ← openAnchor p.anchor
        keep a (.scalar (scalarTag tag text plain) text line)
      | .flowSequenceStart => do
        skip
        let a ← openAnchor p.anchor
        let items ← flowSequence n u.mark true
        keep a (.sequence (collectionTag tag Tag.seq) items line)
      | .flowMappingStart => do
        skip
        let a ← openAnchor p.anchor
        let entries ← flowMapping n u.mark true
        keep a (.mapping (collectionTag tag Tag.map) entries line)
      | kind =>
        if indentless && kind = .blockEntry then do
          let a ← openAnchor p.anchor
          let items ← indentlessSequence n
          keep a (.sequence (collectionTag tag Tag.seq) items line)
        else if block && kind = .blockSequenceStart then do
          skip
          let a ← openAnchor p.anchor
          let items ← blockSequence n u.mark
          keep a (.sequence (collectionTag tag Tag.seq) items line)
        else if block && kind = .blockMappingStart then do
          skip
          let a ← openAnchor p.anchor
          let entries ← blockMapping n u.mark
          keep a (.mapping (collectionTag tag Tag.map) entries line)
        else if p.anchor.isSome || !tag.isEmpty then do
          let a ← openAnchor p.anchor
          keep a (.scalar (scalarTag tag [] true) [] line)
        else throw (fault p.mark u.mark .nodeMissing)

/-- The items of a block sequence that starts at a place. -/
def blockSequence : Nat → Mark → Compose (List Node)
  | 0, _ => throw (.malformed 0 .tooDeep)
  | n + 1, start => do
    let t ← peek
    match t.kind with
    | .blockEntry => do
      skip
      let u ← peek
      let item ← if u.kind = .blockEntry || u.kind = .blockEnd then pure (absent t.mark) else node n true false
      let rest ← blockSequence n start
      return item :: rest
    | .blockEnd => do
      skip
      return []
    | _ => throw (fault start t.mark .dashMissing)

/-- The items of a block sequence at the indentation of its key. -/
def indentlessSequence : Nat → Compose (List Node)
  | 0 => throw (.malformed 0 .tooDeep)
  | n + 1 => do
    let t ← peek
    if t.kind ≠ .blockEntry then return []
    skip
    let u ← peek
    let item ←
      if u.kind = .blockEntry || u.kind = .key || u.kind = .value || u.kind = .blockEnd then pure (absent t.mark)
      else node n true false
    let rest ← indentlessSequence n
    return item :: rest

/-- The entries of a block mapping that starts at a place. -/
def blockMapping : Nat → Mark → Compose (List (Node × Node))
  | 0, _ => throw (.malformed 0 .tooDeep)
  | n + 1, start => do
    let t ← peek
    match t.kind with
    | .key => do
      skip
      let k ← blockPart n t.mark
      let v ← blockValue n
      let rest ← blockMapping n start
      return (k, v) :: rest
    | .blockEnd => do
      skip
      return []
    | _ => throw (fault start t.mark .keyMissing)

/-- A key or value of a block mapping, behind its indicator. -/
def blockPart : Nat → Mark → Compose Node
  | 0, _ => throw (.malformed 0 .tooDeep)
  | n + 1, m => do
    let u ← peek
    if u.kind = .key || u.kind = .value || u.kind = .blockEnd then return absent m
    node n true true

/-- The value of a block mapping, when there is one. -/
def blockValue : Nat → Compose Node
  | 0 => throw (.malformed 0 .tooDeep)
  | n + 1 => do
    let t ← peek
    if t.kind ≠ .value then return absent t.mark
    skip
    blockPart n t.mark

/-- The items of a flow sequence that starts at a place. -/
def flowSequence : Nat → Mark → Bool → Compose (List Node)
  | 0, _, _ => throw (.malformed 0 .tooDeep)
  | n + 1, start, first => do
    let t ← peek
    if t.kind = .flowSequenceEnd then do
      skip
      return []
    if !first then do
      if t.kind ≠ .flowEntry then throw (fault start t.mark .sequenceNotClosed)
      skip
    let u ← peek
    match u.kind with
    | .flowSequenceEnd => do
      skip
      return []
    | .key => do
      skip
      let pair ← flowPair n
      let rest ← flowSequence n start false
      return .mapping Tag.map [pair] (u.mark.line + 1) :: rest
    | _ => do
      let item ← node n false false
      let rest ← flowSequence n start false
      return item :: rest

/-- The single entry of a mapping that stands in a flow sequence without brackets. -/
def flowPair : Nat → Compose (Node × Node)
  | 0 => throw (.malformed 0 .tooDeep)
  | n + 1 => do
    let t ← peek
    let k ←
      if t.kind = .value || t.kind = .flowEntry || t.kind = .flowSequenceEnd then do
        skip
        pure (absent t.mark)
      else node n false false
    let v ← flowValue n .flowSequenceEnd
    return (k, v)

/-- The value of an entry between brackets, when there is one. -/
def flowValue : Nat → TokenKind → Compose Node
  | 0, _ => throw (.malformed 0 .tooDeep)
  | n + 1, closing => do
    let t ← peek
    if t.kind ≠ .value then return absent t.mark
    skip
    let u ← peek
    if u.kind = .flowEntry || u.kind = closing then return absent u.mark
    node n false false

/-- The entries of a flow mapping that starts at a place. -/
def flowMapping : Nat → Mark → Bool → Compose (List (Node × Node))
  | 0, _, _ => throw (.malformed 0 .tooDeep)
  | n + 1, start, first => do
    let t ← peek
    if t.kind = .flowMappingEnd then do
      skip
      return []
    if !first then do
      if t.kind ≠ .flowEntry then throw (fault start t.mark .mappingNotClosed)
      skip
    let u ← peek
    match u.kind with
    | .flowMappingEnd => do
      skip
      return []
    | .key => do
      skip
      let w ← peek
      let k ←
        if w.kind = .value || w.kind = .flowEntry || w.kind = .flowMappingEnd then pure (absent w.mark)
        else node n false false
      let v ← flowValue n .flowMappingEnd
      let rest ← flowMapping n start false
      return (k, v) :: rest
    | _ => do
      let k ← node n false false
      let w ← peek
      let rest ← flowMapping n start false
      return (k, absent w.mark) :: rest

end

/-! ## Documents -/

/-- Reads the directives in front of a document. `version` tells that a version has been named. -/
def directives : Nat → Bool → Compose Unit
  | 0, _ => throw (.malformed 0 .tooDeep)
  | n + 1, version => do
    let t ← peek
    match t.kind with
    | .versionDirective major minor => do
      if version then throw (fault {} t.mark .versionTwice)
      if major ≠ 1 || minor ≠ 1 then throw (fault {} t.mark .versionUnsupported)
      skip
      directives n true
    | .tagDirective handle uri => do
      let c ← get
      if (c.handles.find? (·.1 = handle)).isSome then throw (fault {} t.mark .tagTwice)
      set { c with handles := c.handles ++ [(handle, uri)] }
      skip
      directives n version
    | _ => return

/-- The handles that every document knows. -/
def standardHandles : List (Text × Text) := [(['!'], ['!']), ("!!", Tag.standard)]

/-- A token that stands in front of a document. -/
def startsDocument : TokenKind → Bool
  | .versionDirective _ _ | .tagDirective _ _ | .documentStart => true
  | _ => false

/-- The first document of a stream; none when the stream is empty. -/
def document (fuel : Nat) : Compose (Option Node) := do
  let _ ← peek
  skip
  let t ← peek
  if t.kind = .streamEnd then return none
  if startsDocument t.kind then do
    directives fuel false
    modify fun c => { c with handles := c.handles ++ standardHandles }
    let u ← peek
    if u.kind ≠ .documentStart then throw (fault {} u.mark .documentStartMissing)
    skip
    let w ← peek
    let root ←
      if startsDocument w.kind || w.kind = .documentEnd || w.kind = .streamEnd then pure (absent w.mark)
      else node fuel true false
    let _ ← peek
    return some root
  else do
    modify fun c => { c with handles := standardHandles }
    let root ← node fuel true false
    let _ ← peek
    return some root

end Compose

/-- The first document of a text; none when it holds none. -/
def parseDocument (t : Text) : Except Fault (Option Document) :=
  let body := (Cursor.start t).rest
  if !body.all isAllowed then .error (.malformed 0 .controlCharacter)
  else
    match (Compose.document (20 * (t.length + 10))).run { scanner := Scanner.start t } with
    | .error e => .error e
    | .ok (none, _) => .ok none
    | .ok (some root, c) => .ok (some ⟨root, c.anchored⟩)

end Docweave.Yaml

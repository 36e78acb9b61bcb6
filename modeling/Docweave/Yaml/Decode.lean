import Docweave.Yaml.Base64
import Docweave.Yaml.Node

/-!
# Decoding a document

`decodeMapping` reads a text whose document is a mapping with texts for keys. Aliases are replaced by what
they stand for, and mappings under a merge key are merged. Mismatches of shape are collected over the
whole document; other faults end the decoding.
-/

namespace Docweave.Yaml

/-- What decoding keeps: how many nodes have been decoded, how many of them through aliases, and the
mismatches found. -/
structure Progress where
  decoded : Nat := 0
  aliased : Nat := 0
  mismatches : List Mismatch := []

/-- Decoding that keeps count. -/
abbrev Decode := StateT Progress (Except Fault)

/-- What decoding a node knows. -/
structure Scope where
  document : Document
  /-- The name of the type of mappings with texts for keys. -/
  mapName : Text
  /-- The aliases that are being replaced. -/
  active : List Nat := []

/-- A mapping being filled: its entries, and the keys that a merge must leave alone. -/
structure Filling where
  entries : List (Value × Value) := []
  settled : Option (List Value) := none

namespace Decode

/-- Aliases may make up most of a small document, and less of a large one. -/
def tooManyAliases (p : Progress) : Bool :=
  p.aliased > 100 && p.decoded > 1000 &&
    (if p.decoded ≤ 400000 then p.aliased * 100 > p.decoded * 99
     else if p.decoded ≥ 4000000 then p.aliased * 10 > p.decoded
     else p.aliased * 360000000 > p.decoded * (99 * 3600000 - 89 * (p.decoded - 400000)))

/-- Counts a node. -/
def count (s : Scope) : Decode Unit := do
  let p ← get
  let p := { p with
    decoded := p.decoded + 1
    aliased := if s.active.isEmpty then p.aliased else p.aliased + 1 }
  if tooManyAliases p then throw .excessiveAliasing
  set p

/-- Notes a mismatch. -/
def note (m : Mismatch) : Decode Unit := modify fun p => { p with mismatches := p.mismatches ++ [m] }

/-- A value as a mismatch describes it: its tag, and the start of its text unless it is a collection. -/
def description (tag text : Text) : Text :=
  if tag = Tag.seq || tag = Tag.map then tag
  else
    let shown := if Text.byteSize text > 10 then text.take 7 ++ "..." else text
    tag ++ " " ++ [Text.backtick] ++ shown ++ [Text.backtick]

/-- The line of a node. -/
def lineOf : Node → Nat
  | .scalar _ _ l | .sequence _ _ l | .mapping _ _ l | .alias _ _ _ l => l

/-- What makes two keys the same: the kind of their nodes and their texts. -/
def keyIdentity : Node → Nat × Text
  | .scalar _ t _ => (0, t)
  | .sequence _ _ _ => (1, [])
  | .mapping _ _ _ => (2, [])
  | .alias name _ _ _ => (3, name)

/-- The keys that are given twice: every later one with every earlier one. -/
def duplicates : List (Node × Node) → List Mismatch
  | [] => []
  | (k, _) :: es =>
    (es.filter fun e => keyIdentity e.1 = keyIdentity k).map
      (fun e => Mismatch.duplicateKey (lineOf e.1) (keyIdentity e.1).2 (lineOf k)) ++ duplicates es

/-- The node behind aliases; `n` bounds how many there are. -/
def behindAliases (d : Document) : Nat → Node → Node
  | 0, k => k
  | n + 1, .alias name i s l =>
    match d.anchored.find? (·.1 = i) with
    | some (_, k) => behindAliases d n k
    | none => .alias name i s l
  | _ + 1, k => k

/-- The tag of a node. -/
def tagOf : Node → Text
  | .scalar t _ _ | .sequence t _ _ | .mapping t _ _ => t
  | .alias _ _ _ _ => []

/-- The key merges its value into the mapping. -/
def isMergeKey : Node → Bool
  | .scalar tag text _ => tag = Tag.merge && text = "<<"
  | _ => false

/-- All keys of a mapping are texts. -/
def hasTextKeys (d : Document) (es : List (Node × Node)) : Bool :=
  es.all fun (k, _) =>
    let tag := tagOf (behindAliases d (d.anchored.length + 1) k)
    tag = Tag.text || tag = Tag.merge

/-- The value of a scalar. -/
def scalar (tag text : Text) : Decode Value := do
  match resolveTagged tag text with
  | .error e => throw e
  | .ok (found, v) =>
    if found = Tag.binary then
      match decodeBase64? text with
      | some t => return .text t
      | none => throw .invalidBase64
    else return v

/-! ## Showing values -/

mutual

/-- A value as a message shows it. -/
def shown (mapName : Text) : Value → Text
  | .null => "interface \x7b\x7d(nil)"
  | .bool b => Json.boolText b
  | .int i => Text.ofInt i
  | .float f => DecimalFormat.general.write f
  | .time t => t.text
  | .text t => Text.quoted t
  | .seq items => "[]interface \x7b\x7d\x7b" ++ Text.join ", " (shownItems mapName items) ++ "\x7d"
  | .map textKeys es =>
    (if textKeys then mapName else ("map[interface \x7b\x7d]interface \x7b\x7d" : Text)) ++ "\x7b" ++
      Text.join ", " (Text.sort (shownEntries mapName es)) ++ "\x7d"

/-- The items of a sequence as a message shows them. -/
def shownItems (mapName : Text) : List Value → List Text
  | [] => []
  | v :: vs => shown mapName v :: shownItems mapName vs

/-- The entries of a mapping as a message shows them. -/
def shownEntries (mapName : Text) : List (Value × Value) → List Text
  | [] => []
  | (k, v) :: es => (shown mapName k ++ ":" ++ shown mapName v) :: shownEntries mapName es

end

/-! ## Values -/

/-- A collection, which is no key. -/
def isCollection : Value → Bool
  | .seq _ | .map _ _ => true
  | _ => false

/-- The scope inside an alias and the node it stands for. -/
def enter (s : Scope) (name : Text) (anchor serial : Nat) : Decode (Scope × Node) := do
  if s.active.contains serial then throw (.selfReference name)
  match s.document.anchored.find? (·.1 = anchor) with
  | some (_, n) => return ({ s with active := serial :: s.active }, n)
  | none => throw (.unknownAnchor name)

mutual

/-- The value of a node; none when a mismatch leaves it without one. -/
def value : Nat → Scope → Node → Decode (Option Value)
  | 0, _, _ => throw .excessiveAliasing
  | n + 1, s, node => do
    count s
    match node with
    | .alias name anchor serial _ => do
      let (s, target) ← enter s name anchor serial
      value n s target
    | .scalar tag text _ => do
      let v ← scalar tag text
      return some v
    | .sequence _ items _ => do
      let vs ← values n s items
      return some (.seq vs)
    | .mapping _ es _ => do
      match duplicates es with
      | [] => do
        let textKeys := hasTextKeys s.document es
        let f ← fill n s textKeys es es {}
        return some (.map textKeys f.entries)
      | found => do
        modify fun p => { p with mismatches := p.mismatches ++ found }
        return none

/-- The values of the items of a sequence. -/
def values : Nat → Scope → List Node → Decode (List Value)
  | 0, _, _ => throw .excessiveAliasing
  | _ + 1, _, [] => return []
  | n + 1, s, x :: xs => do
    let v ← value n s x
    let vs ← values n s xs
    return v.toList ++ vs

/-- The text of a key of a mapping with texts for keys. A null is no key. -/
def keyText : Nat → Scope → Node → Decode (Option Value)
  | 0, _, _ => throw .excessiveAliasing
  | n + 1, s, node => do
    count s
    match node with
    | .alias name anchor serial _ => do
      let (s, target) ← enter s name anchor serial
      keyText n s target
    | .scalar tag text _ => do
      match ← scalar tag text with
      | .null => return none
      | .text t => return some (.text t)
      | _ => return some (.text text)
    | .sequence tag _ line => do
      note (.type line (description tag []) "string")
      return none
    | .mapping tag es line => do
      match duplicates es with
      | [] => note (.type line (description tag []) "string")
      | found => modify fun p => { p with mismatches := p.mismatches ++ found }
      return none

/-- Fills a mapping from entries: first those of its own, then those of the merge key among `all`. -/
def fill : Nat → Scope → Bool → List (Node × Node) → List (Node × Node) → Filling → Decode Filling
  | 0, _, _, _, _, _ => throw .excessiveAliasing
  | n + 1, s, textKeys, all, es, f => do
    match es with
    | [] =>
      match (all.reverse.find? fun e => isMergeKey e.1) with
      | some (_, source) => merge n s textKeys all source f
      | none => return f
    | (k, v) :: es => do
      if isMergeKey k then fill n s textKeys all es f
      else
        match ← (if textKeys then keyText n s k else value n s k) with
        | none => fill n s textKeys all es f
        | some key => do
          if (f.settled.getD []).any (Value.sameKey · key) then fill n s textKeys all es f
          else do
            let f := { f with settled := f.settled.map (key :: ·) }
            if isCollection key then throw (.invalidKey (shown s.mapName key))
            match ← value n s v with
            | some x => fill n s textKeys all es { f with entries := Value.setEntry key x f.entries }
            | none => fill n s textKeys all es f

/-- Merges what stands under a merge key: a mapping, or a sequence of mappings. Keys of the mapping itself
stay. -/
def merge : Nat → Scope → Bool → List (Node × Node) → Node → Filling → Decode Filling
  | 0, _, _, _, _, _ => throw .excessiveAliasing
  | n + 1, s, textKeys, all, source, f => do
    let outer := f.settled
    let settled ← match outer with
      | some ks => pure ks
      | none => values n s (all.map (·.1))
    let f := { f with settled := some settled }
    let f ← match source with
      | .sequence _ items _ => mergeAll n s textKeys items f
      | x => mergeAll n s textKeys [x] f
    return { f with settled := outer.bind fun _ => f.settled }

/-- Merges mappings one after the other. -/
def mergeAll : Nat → Scope → Bool → List Node → Filling → Decode Filling
  | 0, _, _, _, _ => throw .excessiveAliasing
  | _ + 1, _, _, [], f => return f
  | n + 1, s, textKeys, x :: xs, f => do
    match behindAliases s.document 1 x with
    | .mapping _ _ _ => do
      let f ← mergeOne n s textKeys x f
      mergeAll n s textKeys xs f
    | _ => throw .mergeOfNoMapping

/-- Merges a mapping. -/
def mergeOne : Nat → Scope → Bool → Node → Filling → Decode Filling
  | 0, _, _, _, _ => throw .excessiveAliasing
  | n + 1, s, textKeys, x, f => do
    count s
    match x with
    | .alias name anchor serial _ => do
      let (s, target) ← enter s name anchor serial
      mergeOne n s textKeys target f
    | .mapping _ es _ => do
      match duplicates es with
      | [] => fill n s textKeys es es f
      | found => do
        modify fun p => { p with mismatches := p.mismatches ++ found }
        return f
    | _ => return f

end

/-- The entries of a document whose root is asked to be a mapping. A null is an empty one. -/
def root (fuel : Nat) (s : Scope) : Decode (List (Value × Value)) := do
  count s
  match s.document.root with
  | .scalar tag text line => do
    match ← scalar tag text with
    | .null => return []
    | _ => do
      note (.type line (description tag text) s.mapName)
      return []
  | .sequence tag _ line => do
    note (.type line (description tag []) s.mapName)
    return []
  | .mapping _ es _ =>
    match duplicates es with
    | [] => do
      let f ← fill fuel s true es es {}
      return f.entries
    | found => do
      modify fun p => { p with mismatches := p.mismatches ++ found }
      return []
  | .alias _ _ _ _ => return []

end Decode

/-- The entries of the mapping that a text holds. `mapName` is what messages call the mapping asked for. -/
def decodeMapping (mapName : Text) (t : Text) : Except Fault (List (Text × Value)) :=
  match parseDocument t with
  | .error e => .error e
  | .ok none => .ok []
  | .ok (some d) =>
    match (Decode.root (8 * (t.length + 10) * (t.length + 10)) ⟨d, mapName, []⟩).run {} with
    | .error e => .error e
    | .ok (entries, p) =>
      if p.mismatches.isEmpty then .ok (Value.textEntries entries) else .error (.mismatches p.mismatches)

end Docweave.Yaml

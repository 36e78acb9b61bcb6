import Docweave.Markdown.Document
import Docweave.Markdown.Segment
import Docweave.Text.Symbol

/-!
# Inline items and emphasis

While the text of a block is read, runs of `*`, `_` and `~` and opening brackets wait in the list of
items until their partner comes. `resolveDelimiters` pairs the runs: each closing run looks back for the
nearest opening run of its kind, and what stands between the two becomes emphasis.
-/

namespace Docweave.Markdown

open Docweave.Text

/-- A run of emphasis marks. -/
structure DelimiterRun where
  mark : Char
  /-- Offset of the run in the source. -/
  start : Nat
  /-- Marks not used up yet. -/
  length : Nat
  /-- Marks the run had at first. -/
  original : Nat
  canOpen : Bool
  canClose : Bool
deriving Inhabited

/-- An opening bracket that may start a link or an image. -/
structure Bracket where
  isImage : Bool
  /-- Offset of the bracket, or of the exclamation mark in front of it. -/
  start : Nat
deriving Inhabited

/-- The text of a bracket that did not start a link. -/
def Bracket.text (b : Bracket) : Text := if b.isImage then "![" else "["

/-- Offset behind the bracket. -/
def Bracket.stop (b : Bracket) : Nat := b.start + b.text.length

/-- An element of a block's content while it is being read. -/
inductive Item
  | text (start : Nat) (content : Text) (ending : LineBreak)
  | run (run : DelimiterRun)
  | bracket (bracket : Bracket)
  | node (node : Inline)
deriving Inhabited

namespace Item

/-- The finished element; runs and brackets that found no partner are text. -/
def toInline : Item → Inline
  | text _ t e => .text t e
  | run r => .text (List.replicate r.length r.mark) .none
  | bracket b => .text b.text .none
  | node n => n

end Item

/-- Puts a piece of text behind the items, newest first. It joins the text in front of it when nothing
stands between them. -/
def joinText (start : Nat) (t : Text) : List Item → List Item
  | .text s u e :: items =>
    if s + u.length = start && e ≠ .soft then .text s (u ++ t) e :: items
    else .text start t .none :: .text s u e :: items
  | items => .text start t .none :: items

/-- Turns the runs among the items to text, from left to right; each may join what is in front. -/
def runsToText (items : List Item) : List Item :=
  (items.foldl (fun acc i =>
    match i with
    | .run r => joinText r.start (List.replicate r.length r.mark) acc
    | i => i :: acc) []).reverse

/-- Turns the runs among the items to text at once: a run joins the text in front of it, but not another
run that became text with it. -/
def clearRuns (items : List Item) : List Item :=
  go none items
where
  go (prev : Option Item) : List Item → List Item
  | [] => prev.toList
  | .run r :: items =>
    let t := List.replicate r.length r.mark
    match prev with
    | some (.text s u e) =>
      if s + u.length = r.start && e ≠ .soft then .text s (u ++ t) e :: go none items
      else .text s u e :: .text r.start t .none :: go none items
    | some p => p :: .text r.start t .none :: go none items
    | none => .text r.start t .none :: go none items
  | i :: items => prev.toList ++ go (some i) items

/-- How many marks an opening and a closing run use up together: zero when the rule of three forbids the
pair, two when both have them. -/
def pairedMarks (opener closer : DelimiterRun) : Nat :=
  if (opener.canClose || closer.canOpen) && (opener.original + closer.original) % 3 = 0 &&
      closer.original % 3 ≠ 0 then 0
  else if opener.length ≥ 2 && closer.length ≥ 2 then 2
  else 1

/-- The nearest run in the items, newest first, that `closer` can pair with: what stands between in
order, the run and the items before it. Also whether some run of the kind could have opened. -/
def findOpener (closer : DelimiterRun) (between : List Item) :
    List Item → Option (List Item × DelimiterRun × List Item) × Bool
  | [] => (none, false)
  | i :: items =>
    match i with
    | .run r =>
      if r.canOpen && r.mark = closer.mark then
        if pairedMarks r closer > 0 then (some (between, r, items), true)
        else
          let (found, _) := findOpener closer (i :: between) items
          (found, true)
      else findOpener closer (i :: between) items
    | _ => findOpener closer (i :: between) items

/-- The emphasis that a pair of runs makes of what stands between them. -/
def emphasize (mark : Char) (marks : Nat) (between : List Item) : Inline :=
  let children := (runsToText between).map Item.toInline
  if mark = '~' then .strikethrough children else .emphasis (marks ≥ 2) children

/-- Pairs the runs of the items. `left` are those already passed, newest first. Every step takes an item
from the right or uses up marks of the closing run. -/
def pairRuns : Nat → List Item → List Item → List Item
  | 0, left, right => left.reverse ++ right
  | fuel + 1, left, right =>
    match right with
    | [] => left.reverse
    | .run closer :: right =>
      if !closer.canClose then pairRuns fuel (.run closer :: left) right
      else
        match findOpener closer [] left with
        | (some (between, opener, before), _) =>
          let marks := pairedMarks opener closer
          let node := Item.node (emphasize closer.mark marks between)
          let opener := { opener with length := opener.length - marks }
          let closer := { closer with length := closer.length - marks }
          let left := if opener.length = 0 then node :: before else node :: .run opener :: before
          if closer.length = 0 then pairRuns fuel left right
          else pairRuns fuel left (.run closer :: right)
        | (none, possible) =>
          if !possible && !closer.canOpen then
            pairRuns fuel (joinText closer.start (List.replicate closer.length closer.mark) left) right
          else pairRuns fuel (.run closer :: left) right
    | i :: right => pairRuns fuel (i :: left) right

/-- Marks of all runs, and one for each item. -/
def itemWeight (items : List Item) : Nat :=
  items.foldr (fun i n =>
    match i with
    | .run r => r.length + 1 + n
    | _ => 1 + n) 0

/-- Items in order without any runs: pairs become emphasis, the rest text. -/
def resolveDelimiters (items : List Item) : List Item :=
  clearRuns (pairRuns (itemWeight items) [] items)

/-- A run of marks with the character in front of it and those behind it. -/
def scanRun (before : Char) (line : Text) (start : Nat) : Option DelimiterRun :=
  match line with
  | [] => none
  | mark :: _ =>
    let length := (line.takeWhile (· = mark)).length
    let after := (line.drop length).head?.getD ' '
    let spaceBefore := isSpace before
    let spaceAfter := isSpace after
    let symbolBefore := isSymbol before
    let symbolAfter := isSymbol after
    let left := !spaceAfter && (!symbolAfter || spaceBefore || symbolBefore)
    let right := !spaceBefore && (!symbolBefore || spaceAfter || symbolAfter)
    let (canOpen, canClose) :=
      if mark = '_' then (left && (!right || symbolBefore), right && (!left || symbolAfter))
      else (left, right)
    some ⟨mark, start, length, length, canOpen, canClose⟩

end Docweave.Markdown

import Docweave.Source.Code

/-!
# Sections of a document

A document body may hold one script block and any number of style blocks. They are looked for in the text
with its code hidden, cut out of the text itself, and blanked in what remains as the Markdown body.
-/

namespace Docweave.Source

open Docweave.Text

/-- The raw parts of a document body and what is left of it. -/
structure Sections where
  /-- Inner text of the script block. -/
  script : Text := []
  /-- Attributes of the script block without the `setup` marker. -/
  scriptAttrs : Text := []
  /-- One-based line of the body on which the script text starts, zero without a script. -/
  scriptLine : Nat := 0
  /-- Style blocks with their tags, in order. -/
  styles : List Text := []
  /-- The body with the blocks above blanked out. -/
  body : Text
deriving Inhabited

/-- The places of an element in a text, as character indices: where its opening tag starts, its attributes
start and stop, its content starts and stops, and the closing tag ends. -/
structure ElementSpan where
  start : Nat
  attrsStart : Nat
  attrsStop : Nat
  innerStart : Nat
  innerStop : Nat
  stop : Nat
deriving DecidableEq, Inhabited

/-- Word characters of patterns. -/
def isWordChar (c : Char) : Bool := isAlphanumeric c || c = '_'

/-- The content up to the first closing tag: its length and that of the tag. -/
def contentLength? (e : RawElement) : Text → Option (Nat × Nat)
  | [] => none
  | c :: t =>
    match closingTag? e (c :: t) with
    | some r => some (0, (c :: t).length - r.length)
    | none => (contentLength? e t).map fun (n, m) => (n + 1, m)

/-- The element that begins at the front of the text, at index `i`. -/
def elementAt? (e : RawElement) (i : Nat) (t : Text) : Option ElementSpan := do
  let rest ← (dropPrefix? "<" t).bind (dropPrefixFold? e.name)
  guard !((rest.head?.map isWordChar).getD false)
  let attrs := rest.takeWhile (· ≠ '>')
  let inner ← dropPrefix? ">" (rest.dropWhile (· ≠ '>'))
  let (n, m) ← contentLength? e inner
  let attrsStart := i + 1 + e.name.length
  let attrsStop := attrsStart + attrs.length
  some ⟨i, attrsStart, attrsStop, attrsStop + 1, attrsStop + 1 + n, attrsStop + 1 + n + m⟩

/-- The first element in the text, which starts at index `i`. -/
def findElement? (e : RawElement) (i : Nat) : Text → Option ElementSpan
  | [] => none
  | c :: t => (elementAt? e i (c :: t)).orElse fun _ => findElement? e (i + 1) t

/-- All elements in the text, which starts at index `i`, from left to right; `skip` characters belong to
the element before. -/
def findElements (e : RawElement) (i skip : Nat) : Text → List ElementSpan
  | [] => []
  | c :: t =>
    match skip with
    | s + 1 => findElements e (i + 1) s t
    | 0 =>
      match elementAt? e i (c :: t) with
      | some span => span :: findElements e (i + 1) (span.stop - i - 1) t
      | none => findElements e (i + 1) 0 t

/-- The characters from one index to another. -/
def slice (start stop : Nat) (t : Text) : Text := (t.take stop).drop start

/-- Length of the `setup` marker at the front of a text, the blank behind it included. -/
def setupLength? (t : Text) : Option Nat := do
  let rest ← dropPrefixFold? "setup" t
  match rest with
  | [] => some 5
  | c :: _ => if isPatternSpace c then some 6 else none

/-- Attributes with each `setup` marker, together with one blank on either side, as a single space. -/
def dropSetup (attrs : Text) : Text :=
  match setupLength? attrs with
  | some n => ' ' :: go 0 (attrs.drop n)
  | none => go 0 attrs
where
  go (skip : Nat) : Text → Text
  | [] => []
  | c :: t =>
    match skip with
    | s + 1 => go s t
    | 0 =>
      if isPatternSpace c then
        match setupLength? t with
        | some n => ' ' :: go n t
        | none => c :: go 0 t
      else c :: go 0 t

/-- The index lies in one of the spans. -/
def inSpans (spans : List ElementSpan) (i : Nat) : Bool := spans.any fun s => s.start ≤ i && i < s.stop

/-- The text with the characters of the spans hidden. -/
def hideElements (spans : List ElementSpan) (t : Text) : Text :=
  t.zipIdx.map fun (c, i) => if inSpans spans i then hide c else c

/-- Finds the script block and the style blocks of a document body. Only the first script block counts. -/
def sections (body : Text) : Sections :=
  let visible := hideCode body
  let script := findElement? .script 0 visible
  let styles := findElements .style 0 0 visible
  let rest := spread body (hideElements (script.toList ++ styles) body)
  let found := styles.map fun s => slice s.start s.stop body
  match script with
  | none => { styles := found, body := rest }
  | some s =>
    { script := slice s.innerStart s.innerStop body
      scriptAttrs := join " " (words (dropSetup (slice s.attrsStart s.attrsStop body)))
      scriptLine := ((body.take s.innerStart).filter (· = '\n')).length + 1
      styles := found
      body := rest }

end Docweave.Source

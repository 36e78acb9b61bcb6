import Docweave.Text.Space

/-!
# Balanced braces

Two ways to find the partner of a brace. `braceEnds` pairs all braces of a text in one sweep from the
left; `splitTrailing?` walks back from the end of a line to the brace that opens its last group. Indices
are byte offsets.
-/

namespace Docweave.Braces

/-- Pairs each opening brace from offset `i` on with its closing brace: the offset of the brace and the
offset just behind its partner. `stack` holds the offsets of the open braces, innermost first. -/
def pairs (i : Nat) (stack : List Nat) : Text → List (Nat × Nat)
  | [] => []
  | c :: t =>
    let next := i + c.utf8Size
    if c = '\x7b' then pairs next (i :: stack) t
    else if c = '\x7d' then
      match stack with
      | [] => pairs next [] t
      | o :: stack => (o, next) :: pairs next stack t
    else pairs next stack t

/-- The offset behind the partner of the brace at offset `i`, if that is an opening brace with a
partner. -/
def endOf? (t : Text) (i : Nat) : Option Nat := ((pairs 0 [] t).find? (·.1 = i)).map (·.2)

/-- For each byte of the text, the offset behind the partner of the opening brace there; none for all
other bytes. There is no table at all for a text without an opening brace. -/
def ends? (t : Text) : Option (List (Option Nat)) :=
  if t.contains '\x7b' then some ((List.range (Text.byteSize t)).map (endOf? t)) else none

/-- Walks back over a text that is given in reverse, with `depth` closing braces open: the text in front
of the brace that opens the outermost of them, and the body up to that brace, both in reverse. -/
def openerBack? (depth : Nat) (body : Text) : Text → Option (Text × Text)
  | [] => none
  | c :: t =>
    if c = '\x7d' then openerBack? (depth + 1) (c :: body) t
    else if c = '\x7b' then
      match depth with
      | 0 => none
      | 1 => some (t, body)
      | d + 2 => openerBack? (d + 1) (c :: body) t
    else openerBack? depth (c :: body) t

/-- Splits a line that ends with a balanced group in braces, blanks aside: the text in front and the body
of the group. -/
def splitTrailing? (line : Text) : Option (Text × Text) :=
  match line.reverse.dropWhile Text.isGap with
  | '\x7d' :: t => (openerBack? 1 [] t).map fun (front, body) => (front.reverse, body)
  | _ => none

end Docweave.Braces

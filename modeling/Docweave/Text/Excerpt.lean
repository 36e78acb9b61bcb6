import Docweave.Text.Basic

/-!
# Source excerpts

Errors show the lines around the place they speak of. `excerpt` draws the window: each row has a marker,
the line number padded to the widest one, a bar and the line.
-/

namespace Docweave.Text

/-- Lines shown on each side of the marked one. -/
def excerptRadius : Nat := 5

/-- A text with spaces in front, up to a width. -/
def padLeft (width : Nat) (t : Text) : Text := spaces (width - t.length) ++ t

/-- One row of an excerpt. -/
def excerptRow (width marked number : Nat) (line : Text) : Text :=
  (if number = marked then ['>'] else [' ']) ++ " " ++ padLeft width (ofNat number) ++ " | " ++
    trimRight (· = '\r') line

/-- The lines around line `line` of `src`, which is marked. Lines count from one; a number that is none of
theirs gives nothing. -/
def excerpt (src : Text) (line : Int) : Text :=
  let all := lines src
  if line < 1 || line > all.length then []
  else
    let marked := line.toNat
    let first := max 1 (marked - excerptRadius)
    let last := min all.length (marked + excerptRadius)
    let width := (ofNat last).length
    let shown := (all.drop (first - 1)).take (last + 1 - first)
    let rows := shown.zipIdx first |>.map fun (l, i) => excerptRow width marked i l
    trimRight (· = '\n') (join "\n" rows)

end Docweave.Text

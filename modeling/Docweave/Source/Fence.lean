import Docweave.Text.Space

/-!
# Code fences and blanking

Code is hidden from the search for script and style blocks by blanking it. Blanking works on characters:
the blanked text has a space for each character that is hidden, so it is as long as the text. `spread`
turns the two into the text that is seen from outside, where each hidden character leaves as many spaces
as it had bytes.
-/

namespace Docweave.Source

open Docweave.Text

/-- A hidden character: newlines stay. -/
def hide (c : Char) : Char := if c = '\n' then c else ' '

/-- A text with every character hidden. -/
def hideAll (t : Text) : Text := t.map hide

/-- The text with the hidden characters as runs of spaces of their byte length. -/
def spread (t hidden : Text) : Text :=
  (t.zip hidden).flatMap fun (c, h) => if c = h then [c] else spaces c.utf8Size

/-- The run of back quotes or tildes that opens a fence, empty if the line opens none. Info behind back
quotes may not hold back quotes. -/
def fenceMarker (line : Text) : Text :=
  match line with
  | [] => []
  | c :: _ =>
    let run := line.takeWhile (· = c)
    if (c = backtick || c = '~') && run.length ≥ 3 && !(c = backtick && (line.dropWhile (· = c)).contains c)
    then run else []

/-- The line is a run of the fence's character that is at least as long as the fence. -/
def closesFence (line fence : Text) : Bool :=
  let line := trimRight (fun c => c = ' ' || c = '\t' || c = '\r') line
  match fence with
  | [] => false
  | c :: _ => byteSize line ≥ byteSize fence && line.all (fun d => d = c && d.toNat < 128)

/-- For each line whether it belongs to a fenced block, from the opening fence to the closing one or the
end of the text. `fence` is the fence that is open, empty if there is none. -/
def fencedLines (fence : Text) : List Text → List Bool
  | [] => []
  | l :: ls =>
    let line := l.dropWhile (· = ' ')
    if fence.isEmpty then
      let f := fenceMarker line
      (!f.isEmpty) :: fencedLines f ls
    else true :: fencedLines (if closesFence line fence then [] else fence) ls

/-- The text with fenced code hidden. -/
def hideFences (t : Text) : Text :=
  let ls := lines t
  join "\n" ((ls.zip (fencedLines [] ls)).map fun (l, inFence) => if inFence then hideAll l else l)

/-- The text with fenced code as spaces, fences included. Newlines stay, so the lines keep their numbers
and the bytes their places. -/
def stripFences (t : Text) : Text := spread t (hideFences t)

/-- Width of the leading blanks in columns; a tab leads to the next multiple of four. -/
def indentWidth (line : Text) : Nat :=
  go 0 line
where
  go (w : Nat) : Text → Nat
  | ' ' :: t => go (w + 1) t
  | '\t' :: t => go (w + (4 - w % 4)) t
  | _ => w

end Docweave.Source

import Docweave.Number.Duration
import Docweave.Path

/-!
# Reports

What a build tells the user, a line for each document and one for the totals. Documents are named relative
to the source root.
-/

namespace Docweave

/-- The totals of a build. -/
structure BuildTotals where
  compiled : Nat := 0
  skipped : Nat := 0
  removed : Nat := 0
  failed : Nat := 0
deriving DecidableEq, Inhabited

namespace Report

/-- A path relative to a root, or as it is when no relative path leads there. Without a root it is as it
is. -/
def relative (root path : Text) : Text :=
  if root.isEmpty then path else (Path.relative? root path).getD path

/-- A document was compiled; a second line tells the time it took, if it took any. -/
def compiled (root src out : Text) (took : Duration) : Text :=
  "compiled " ++ relative root src ++ " -> " ++ out ++ "\n" ++
    (if took.nanos > 0 then "  " ++ (took.round Duration.microsecond).text ++ "\n" else [])

/-- A document had not changed. -/
def skipped (root src : Text) : Text := "unchanged " ++ relative root src ++ "\n"

/-- A file was removed. -/
def removed (path : Text) : Text := "removed " ++ path ++ "\n"

/-- A document failed. -/
def failed (root src message : Text) : Text := "error " ++ relative root src ++ "\n" ++ message ++ "\n"

/-- The totals. The time is told only when nothing failed. -/
def summary (t : BuildTotals) (took : Duration) : Text :=
  let line := Text.ofNat t.compiled ++ " compiled, " ++ Text.ofNat t.skipped ++ " unchanged, " ++
    Text.ofNat t.removed ++ " removed"
  if t.failed > 0 then Text.ofNat t.failed ++ " failed, " ++ line ++ "\n"
  else "done " ++ line ++ " in " ++ (took.round Duration.millisecond).text ++ "\n"

end Report

end Docweave

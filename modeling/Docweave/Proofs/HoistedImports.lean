import Docweave.Proofs.ScriptStatements

/-!
# What is moved to the front of a script

The scan knows the end of an import by its text alone, so it may take the lines behind
an import for a part of it, up to another one. Here a script is read as statements by somebody who
knows where they end, and what the scan moves to the front is compared with the imports
among them.

> `importLines_import`: the text of an import has one import line, and those among its
> further lines.

> `endsOnce_of_imports`: texts of imports tell where the imports end.

> `only_imports_hoisted_iff`: the imports are moved to the front, and nothing else,
> exactly when each of them ends like one on its last line and not before.
-/

namespace Docweave.Script

open Docweave.Text

/-- How many lines of a text start an import. -/
def importLines (t : Text) : Nat := (lines t).countP fun l => startsImport (trim l)

/-- No other import starts on the further lines of an import. -/
def Statement.Single : Statement → Prop
  | .code _ => True
  | .imported _ more => ∀ l ∈ more, startsImport (trim l) = false

/-- The script is written as these statements, and each line that starts an import is
the first line of one. -/
structure ReadAs (script : Text) (ss : List Statement) : Prop where
  lines : lines script = ss.flatMap Statement.lines
  starts : ∀ s ∈ ss, s.Starts
  single : ∀ s ∈ ss, s.Single

instance : DecidablePred Statement.Starts
  | .code _ => instDecidableEqBool _ _
  | .imported _ _ => instDecidableEqBool _ _

instance : DecidablePred Statement.Single
  | .code _ => isTrue trivial
  | .imported _ more => inferInstanceAs (Decidable (∀ l ∈ more, startsImport (trim l) = false))

section

variable {script first l t : Text} {ls more rest : List Text} {ss parts : List Statement} {s : Statement}

theorem trim_trim (t : Text) : trim (trim t) = trim t := by
  by_cases hnil : trim t = []
  · rw [hnil]
    rfl
  · exact trim_of_edged (edged_trim hnil)

theorem trim_sublist (t : Text) : (trim t).Sublist t := by
  have hright : (trimRight isSpace (trimLeft isSpace t)).Sublist (trimLeft isSpace t) := by
    rw [trimRight, ← List.reverse_sublist, List.reverse_reverse]
    exact List.dropWhile_sublist _
  exact hright.trans (List.dropWhile_sublist _)

/-- The lines of an import are those of its text. -/
theorem lines_import (hfirst : '\n' ∉ first) (hmore : ∀ l ∈ more, '\n' ∉ l) :
    lines (join "\n" (trim first :: more)) = trim first :: more :=
  lines_join (List.cons_ne_nil _ _) (List.forall_mem_cons.2 ⟨fun h => hfirst ((trim_sublist first).subset h), hmore⟩)

/-- **The import lines of an import** are its first line and those among the others. -/
theorem importLines_import (hfirst : '\n' ∉ first) (hmore : ∀ l ∈ more, '\n' ∉ l)
    (hstarts : startsImport (trim first) = true) :
    importLines (join "\n" (trim first :: more)) = 1 ↔ ∀ l ∈ more, startsImport (trim l) = false := by
  unfold importLines
  rw [lines_import hfirst hmore, List.countP_cons_of_pos (by rw [trim_trim]; exact hstarts), Nat.add_eq_right,
    List.countP_eq_zero]
  simp

/-- The imports of statements have one import line each exactly when no other import
starts in one of them. -/
theorem importLines_imports (hlines : ∀ l ∈ ss.flatMap Statement.lines, '\n' ∉ l) (hstarts : ∀ s ∈ ss, s.Starts) :
    (∀ t ∈ ss.filterMap Statement.import?, importLines t = 1) ↔ ∀ s ∈ ss, s.Single := by
  rw [List.forall_mem_filterMap]
  refine forall₂_congr fun s hs => ?_
  have hline : ∀ l ∈ s.lines, '\n' ∉ l := fun l hl => hlines l (List.mem_flatMap.2 ⟨s, hs, hl⟩)
  cases s with
  | code l => simp [Statement.import?, Statement.Single]
  | imported first more =>
    obtain ⟨hfirst, hmore⟩ := List.forall_mem_cons.1 hline
    simp only [Statement.import?, Option.some.injEq, forall_eq']
    exact importLines_import hfirst hmore (hstarts _ hs)

/-- **Where imports end** is seen in their texts: when the parts of some lines have the
imports of the statements, the statements end where the parts do. -/
theorem endsOnce_of_imports (hlines : ls = ss.flatMap Statement.lines) (hstarts : ∀ s ∈ ss, s.Starts)
    (hline : ∀ l ∈ ls, '\n' ∉ l) (hparted : Parted ls parts rest)
    (h : parts.filterMap Statement.import? = ss.filterMap Statement.import?) : ∀ s ∈ ss, s.EndsOnce := by
  induction ss generalizing ls parts with
  | nil => simp
  | cons s ss ih =>
    obtain ⟨hs, hss⟩ := List.forall_mem_cons.1 hstarts
    subst hlines
    have hbehind : ∀ l ∈ ss.flatMap Statement.lines, '\n' ∉ l := fun l hl => hline l (List.mem_append_right _ hl)
    cases s with
    | code l =>
      obtain ⟨parts, rfl, htail⟩ := parted_code hparted hs
      exact List.forall_mem_cons.2 ⟨trivial, ih rfl hss hbehind htail h⟩
    | imported first more =>
      rcases parted_import hparted hs with ⟨more', ls', parts, hmore, rfl, htail⟩ | ⟨rfl, -⟩
      · obtain ⟨htext, himports⟩ := List.cons.inj h
        have hfirst : '\n' ∉ first := hline first (List.mem_cons_self ..)
        have hmore' : ∀ l ∈ more', '\n' ∉ l := fun l hl =>
          hline l (List.mem_cons_of_mem _ (hmore ▸ List.mem_append_left _ hl))
        -- the texts are the same, and so are the lines that are joined in them
        obtain rfl : more' = more := by
          have hsame := congrArg lines htext
          rw [lines_import hfirst hmore', lines_import hfirst fun l hl =>
            hline l (List.mem_cons_of_mem _ (List.mem_append_left _ hl))] at hsame
          exact (List.cons.inj hsame).2
        obtain rfl := List.append_cancel_left hmore
        exact List.forall_mem_cons.2 ⟨hparted.ends _ (List.mem_cons_self ..), ih rfl hss hbehind htail himports⟩
      · exact absurd h (by simp [Statement.import?])

/-- **Only imports are moved to the front** exactly when each import of the script
ends like one on its last line and on no line before. Then each of the texts
in front has one import line, and the code is the other lines in their order. In general
a text in front has one import line exactly when no other import starts on the lines that
the scan takes for its further ones. -/
theorem only_imports_hoisted_iff (h : ReadAs script ss) :
    ((splitImports script).1 = ss.filterMap Statement.import? ↔ ∀ s ∈ ss, s.EndsOnce) ∧
    ((∀ s ∈ ss, s.EndsOnce) →
      (∀ t ∈ (splitImports script).1, importLines t = 1) ∧
      (splitImports script).2 = trimBoth (· = '\n') (join "\n" (ss.filterMap Statement.code?))) ∧
    ∀ parts rest, Parted (lines script) parts rest →
      ((∀ t ∈ (splitImports script).1, importLines t = 1) ↔ ∀ s ∈ parts, s.Single) := by
  have hline : ∀ l ∈ lines script, '\n' ∉ l := fun l => not_mem_of_mem_lines
  have hends : (∀ s ∈ ss, s.EndsOnce) → Parted (lines script) ss [] := fun hends =>
    ⟨by rw [h.lines, List.append_nil], h.starts, hends, trivial⟩
  refine ⟨⟨fun himports => ?_, fun hends' => ?_⟩, fun hends' => ⟨?_, ?_⟩, fun parts rest hparted => ?_⟩
  · obtain ⟨parts, rest, hparted, -⟩ := exists_parted (lines script)
    rw [splitImports_parted hparted] at himports
    exact endsOnce_of_imports h.lines h.starts hline hparted himports
  · rw [splitImports_parted (hends hends')]
  · rw [splitImports_parted (hends hends')]
    exact (importLines_imports (h.lines ▸ hline) h.starts).2 h.single
  · rw [splitImports_parted (hends hends'), trimFirst, List.append_nil]
  · rw [splitImports_parted hparted]
    refine importLines_imports (fun l hl => hline l ?_) hparted.starts
    rw [hparted.lines]
    exact List.mem_append_left _ hl

end

/-! ## Two scripts -/

/-- A script with an import on three lines, one for its effects, and code between them. -/
def noteScript : Text := "import \x7b\n  a,\n\x7d from './x'\nconst c = a\n  import 'y' ;\n"

def noteStatements : List Statement :=
  [.imported "import \x7b" ["  a,", "\x7d from './x'"], .code "const c = a", .imported "  import 'y' ;" [], .code []]

theorem only_imports_hoisted_note :
    ReadAs noteScript noteStatements ∧ (∀ s ∈ noteStatements, s.EndsOnce) ∧
      (splitImports noteScript).1 = [("import \x7b\n  a,\n\x7d from './x'" : Text), "import 'y' ;"] ∧
      (splitImports noteScript).2 = "const c = a" := by
  have hread : ReadAs noteScript noteStatements := ⟨by decide +kernel, by decide +kernel, by decide +kernel⟩
  have hends : ∀ s ∈ noteStatements, s.EndsOnce := by decide +kernel
  obtain ⟨himports, hcode, -⟩ := only_imports_hoisted_iff hread
  exact ⟨hread, hends, (himports.2 hends).trans (by decide +kernel), (hcode hends).2.trans (by decide +kernel)⟩

/-- A script with a comment behind an import. -/
def commentScript : Text := "const k = 1\nimport a from 'x' // c\nfoo(k)\nimport b from 'y'\n"

def commentStatements : List Statement :=
  [.code "const k = 1", .imported "import a from 'x' // c" [], .code "foo(k)", .imported "import b from 'y'" [],
    .code []]

/-- **A call is moved** in front of the constant that it uses: the scan does not know the
end of an import with a comment behind it, and takes what follows for its further lines. -/
theorem call_hoisted_behind_comment :
    ReadAs commentScript commentStatements ∧ (splitImports commentScript).2 = "const k = 1" ∧
      ∃ t ∈ (splitImports commentScript).1, t = "import a from 'x' // c\nfoo(k)\nimport b from 'y'" ∧
        importLines t = 2 := by
  have hread : ReadAs commentScript commentStatements := ⟨by decide +kernel, by decide +kernel, by decide +kernel⟩
  exact ⟨hread, by decide +kernel⟩

end Docweave.Script

import Docweave.Proofs.TextLaws
import Docweave.Script.Imports
import Mathlib.Data.List.Induction
import Mathlib.Data.List.Infix

/-!
# The statements of a script

The scan for imports keeps three lists, and a line goes to one of them when it is read
or when the import it belongs to ends. `Parted` says what has become of the lines read
so far without the scan: they are statements one behind the other, lines of code and
imports, and behind them the lines of an import that has not ended.

> `parted_see`: one more line keeps the lines parted, and the lists of the scan are those
> of the statements.

> `parted_unique`: lines are parted in one way only.

> `imports_partition`: so each line of a script comes out once, in an import or in the
> code.
-/

namespace Docweave.Script

open Docweave.Text

/-- A statement of a script: a line of code, or the lines of an import, the first one
apart. -/
inductive Statement
  | code (line : Text)
  | imported (first : Text) (more : List Text)

namespace Statement

/-- The lines of a statement. -/
def lines : Statement → List Text
  | code l => [l]
  | imported first more => first :: more

/-- The text of an import: its lines, the first one trimmed. -/
def import? : Statement → Option Text
  | code _ => none
  | imported first more => some (join "\n" (trim first :: more))

/-- The line of code that a statement is. -/
def code? : Statement → Option Text
  | code l => some l
  | imported _ _ => none

/-- The statement starts as what it is. -/
def Starts : Statement → Prop
  | code l => startsImport (trim l) = false
  | imported first _ => startsImport (trim first) = true

end Statement

/-- An import that starts on a line ends like one with these further lines. -/
def EndsWith (first : Text) (more : List Text) : Prop := endsImport (join " " (trim first :: more)) = true

/-- The statement ends on its last line like an import, and on no line before. -/
def Statement.EndsOnce : Statement → Prop
  | .code _ => True
  | .imported first more => EndsWith first more ∧ ∀ q, q <+: more → EndsWith first q → q = more

instance (first : Text) (more : List Text) : Decidable (EndsWith first more) := instDecidableEqBool _ _

instance : DecidablePred Statement.EndsOnce
  | .code _ => isTrue trivial
  | .imported first more =>
    decidable_of_iff (EndsWith first more ∧ ∀ q ∈ more.inits, EndsWith first q → q = more)
      (by simp only [List.mem_inits, Statement.EndsOnce])

/-- The lines of an import that does not end among them, or none. -/
def Unfinished : List Text → Prop
  | [] => True
  | first :: more => startsImport (trim first) = true ∧ ∀ q, q <+: more → ¬ EndsWith first q

/-- Lines with the first one trimmed. -/
def trimFirst : List Text → List Text
  | [] => []
  | l :: ls => trim l :: ls

/-- The lines are those of the statements, and behind them those of an import that has
not ended. -/
structure Parted (ls : List Text) (ss : List Statement) (rest : List Text) : Prop where
  lines : ls = ss.flatMap Statement.lines ++ rest
  starts : ∀ s ∈ ss, s.Starts
  ends : ∀ s ∈ ss, s.EndsOnce
  unfinished : Unfinished rest

/-- What the scan holds behind the statements. -/
def scanOf (ss : List Statement) (rest : List Text) : ImportScan :=
  ⟨ss.filterMap Statement.import?, ss.filterMap Statement.code?, trimFirst rest⟩

section

variable {ls rest rest' more : List Text} {ss ss' : List Statement} {first l : Text}

theorem parted_nil : Parted [] [] [] := ⟨rfl, by simp, by simp, trivial⟩

/-- One more statement ends where the lines do. -/
theorem Parted.add {s : Statement} (h : Parted ls ss rest) (hlines : rest ++ [l] = s.lines) (hstarts : s.Starts)
    (hends : s.EndsOnce) : Parted (ls ++ [l]) (ss ++ [s]) [] where
  lines := by
    rw [h.lines, List.append_assoc, hlines, List.flatMap_append, List.flatMap_singleton, List.append_nil]
  starts := List.forall_mem_append.2 ⟨h.starts, List.forall_mem_singleton.2 hstarts⟩
  ends := List.forall_mem_append.2 ⟨h.ends, List.forall_mem_singleton.2 hends⟩
  unfinished := trivial

/-- One more line of an import that goes on. -/
theorem Parted.await (h : Parted ls ss rest) (hrest : Unfinished (rest ++ [l])) :
    Parted (ls ++ [l]) ss (rest ++ [l]) :=
  ⟨by rw [h.lines, List.append_assoc], h.starts, h.ends, hrest⟩

/-- What begins some lines and one more is those lines, or begins them already. -/
theorem prefix_concat_cases {q : List Text} (h : q <+: more ++ [l]) : q = more ++ [l] ∨ q <+: more := by
  rwa [List.prefix_concat_iff] at h

theorem scanOf_concat (ss : List Statement) (s : Statement) (rest : List Text) : scanOf (ss ++ [s]) rest =
    ⟨ss.filterMap Statement.import? ++ s.import?.toList, ss.filterMap Statement.code? ++ s.code?.toList,
      trimFirst rest⟩ := by
  unfold scanOf
  rw [List.filterMap_append, List.filterMap_append]
  cases s <;> rfl

theorem see_pending (ss : List Statement) (l : Text) : (scanOf ss (first :: more)).see l =
    if endsImport (join " " (trim first :: (more ++ [l]))) then scanOf (ss ++ [.imported first (more ++ [l])]) []
    else scanOf ss (first :: (more ++ [l])) := by
  rw [scanOf_concat]
  unfold ImportScan.see scanOf Statement.import? Statement.code?
  simp only [List.append_nil, Option.toList]
  rfl

theorem see_fresh (ss : List Statement) (l : Text) : (scanOf ss []).see l =
    if startsImport (trim l) then
      if endsImport (trim l) then scanOf (ss ++ [.imported l []]) [] else scanOf ss [l]
    else scanOf (ss ++ [.code l]) [] := by
  rw [scanOf_concat, scanOf_concat]
  unfold ImportScan.see scanOf Statement.import? Statement.code?
  simp only [List.append_nil, Option.toList]
  rfl

/-- **One more line** goes to one of the statements. -/
theorem parted_see (h : Parted ls ss rest) (l : Text) :
    ∃ ss' rest', Parted (ls ++ [l]) ss' rest' ∧ (scanOf ss rest).see l = scanOf ss' rest' := by
  cases rest with
  | nil =>
    rw [see_fresh]
    by_cases hstarts : startsImport (trim l) = true
    · rw [if_pos hstarts]
      by_cases hends : endsImport (trim l) = true
      · rw [if_pos hends]
        have honce : ∀ q, q <+: ([] : List Text) → EndsWith l q → q = [] := fun q hq _ => List.prefix_nil.1 hq
        exact ⟨_, _, h.add (s := .imported l []) rfl hstarts ⟨hends, honce⟩, rfl⟩
      · rw [if_neg hends]
        refine ⟨_, _, h.await ⟨hstarts, fun q hq hqends => hends ?_⟩, rfl⟩
        rwa [List.prefix_nil.1 hq] at hqends
    · rw [if_neg hstarts]
      exact ⟨_, _, h.add (s := .code l) rfl (Bool.eq_false_iff.2 hstarts) trivial, rfl⟩
  | cons first more =>
    obtain ⟨hstarts, hopen⟩ := h.unfinished
    rw [see_pending]
    split
    next hends =>
      refine ⟨_, _, h.add (s := .imported first (more ++ [l])) rfl hstarts ⟨hends, fun q hq hqends => ?_⟩, rfl⟩
      exact (prefix_concat_cases hq).resolve_right fun hq => hopen q hq hqends
    next hends =>
      refine ⟨_, _, h.await ⟨hstarts, fun q hq hqends => ?_⟩, rfl⟩
      rcases prefix_concat_cases hq with rfl | hq
      · exact hends hqends
      · exact hopen q hq hqends

/-- **The scan** has parted the lines that it has read. -/
theorem exists_parted (ls : List Text) : ∃ ss rest, Parted ls ss rest ∧ ls.foldl ImportScan.see {} = scanOf ss rest := by
  induction ls using List.reverseRecOn with
  | nil => exact ⟨[], [], parted_nil, rfl⟩
  | append_singleton ls l ih =>
    obtain ⟨ss, rest, hparted, hscan⟩ := ih
    rw [List.foldl_append, hscan]
    exact parted_see hparted l

/-- What is behind the first statement is parted too. -/
theorem Parted.tail {s : Statement} (h : Parted (s.lines ++ ls) (s :: ss) rest) : Parted ls ss rest where
  lines := List.append_cancel_left (by rw [h.lines, List.flatMap_cons, List.append_assoc])
  starts := (List.forall_mem_cons.1 h.starts).2
  ends := (List.forall_mem_cons.1 h.ends).2
  unfinished := h.unfinished

/-- Lines of code stay for themselves. -/
theorem parted_code (h : Parted (l :: ls) ss rest) (hl : startsImport (trim l) = false) :
    ∃ ss', ss = .code l :: ss' ∧ Parted ls ss' rest := by
  have hlines := h.lines
  have hno : startsImport (trim l) ≠ true := by simp [hl]
  cases ss with
  | nil =>
    cases rest with
    | nil => exact absurd hlines (by simp)
    | cons first more =>
      obtain ⟨rfl, -⟩ := List.cons.inj hlines
      exact absurd h.unfinished.1 hno
  | cons s ss =>
    have hstarts := h.starts s (List.mem_cons_self ..)
    cases s with
    | code l' =>
      obtain ⟨rfl, -⟩ := List.cons.inj hlines
      exact ⟨ss, rfl, Parted.tail (s := .code l) h⟩
    | imported first more =>
      obtain ⟨rfl, -⟩ := List.cons.inj hlines
      exact absurd hstarts hno

/-- Lines that start an import are the lines of one, if it ends among them. -/
theorem parted_import (h : Parted (first :: ls) ss rest) (hfirst : startsImport (trim first) = true) :
    (∃ more ls' ss', ls = more ++ ls' ∧ ss = .imported first more :: ss' ∧ Parted ls' ss' rest) ∨
      ss = [] ∧ rest = first :: ls := by
  have hlines := h.lines
  cases ss with
  | nil => exact Or.inr ⟨rfl, hlines.symm⟩
  | cons s ss =>
    left
    have hstarts := h.starts s (List.mem_cons_self ..)
    cases s with
    | code l =>
      obtain ⟨rfl, -⟩ := List.cons.inj hlines
      exact absurd (hfirst.symm.trans hstarts) (by simp)
    | imported first' more =>
      rw [List.flatMap_cons, List.append_assoc] at hlines
      obtain ⟨rfl, rfl⟩ := List.cons.inj hlines
      exact ⟨more, _, ss, rfl, rfl, Parted.tail (s := .imported first more) h⟩

/-- **Lines are parted in one way:** an import ends at the first place where it can. -/
theorem parted_unique (h : Parted ls ss rest) (h' : Parted ls ss' rest') : ss' = ss ∧ rest' = rest := by
  induction ss generalizing ls ss' with
  | nil =>
    obtain rfl : ls = rest := h.lines
    cases ls with
    | nil =>
      obtain ⟨hnil, hrest⟩ := List.append_eq_nil_iff.1 h'.lines.symm
      cases ss' with
      | nil => exact ⟨rfl, hrest⟩
      | cons s ss' => cases s <;> exact absurd hnil (by simp [Statement.lines])
    | cons first ls =>
      obtain ⟨hfirst, hopen⟩ := h.unfinished
      rcases parted_import h' hfirst with ⟨more, ls', ss', rfl, rfl, -⟩ | hsame
      · exact absurd (h'.ends _ (List.mem_cons_self ..)).1 (hopen more (List.prefix_append ..))
      · exact hsame
  | cons s ss ih =>
    obtain ⟨ls, rfl⟩ : ∃ ls', ls = s.lines ++ ls' := ⟨_, by rw [h.lines, List.flatMap_cons, List.append_assoc]⟩
    have hstarts := h.starts s (List.mem_cons_self ..)
    have hends := h.ends s (List.mem_cons_self ..)
    cases s with
    | code l =>
      obtain ⟨ss', rfl, htail⟩ := parted_code h' hstarts
      obtain ⟨rfl, hrest⟩ := ih h.tail htail
      exact ⟨rfl, hrest⟩
    | imported first more =>
      rcases parted_import h' hstarts with ⟨more', ls', ss', hmore, rfl, htail⟩ | ⟨rfl, rfl⟩
      · have hends' := h'.ends _ (List.mem_cons_self ..)
        -- of two places where it ends one comes first, so both are the first
        obtain rfl : more' = more := by
          rcases List.prefix_or_prefix_of_prefix (List.prefix_append more ls) (hmore ▸ List.prefix_append more' ls') with
            hle | hle
          · exact (hends'.2 more hle hends.1).symm
          · exact hends.2 more' hle hends'.1
        obtain rfl := List.append_cancel_left hmore
        obtain ⟨rfl, hrest⟩ := ih h.tail htail
        exact ⟨rfl, hrest⟩
      · exact absurd hends.1 (h'.unfinished.2 more (List.prefix_append ..))

/-- What the scan finds in a script is what its lines are parted into. -/
theorem splitImports_parted {script : Text} (h : Parted (lines script) ss rest) :
    splitImports script = (ss.filterMap Statement.import?,
      trimBoth (· = '\n') (join "\n" (ss.filterMap Statement.code? ++ trimFirst rest))) := by
  obtain ⟨ss', rest', hparted, hscan⟩ := exists_parted (lines script)
  obtain ⟨rfl, rfl⟩ := parted_unique h hparted
  unfold splitImports
  rw [hscan]
  rfl

/-- **Each line comes out once.** The lines of a script are parted in exactly one way
into statements and an import that never ends. The imports that are found are the
texts of those among the statements, and the code is the lines of code with the import
that never ends behind them. -/
theorem imports_partition (script : Text) :
    ∃ ss rest, (∀ ss' rest', Parted (lines script) ss' rest' ↔ ss' = ss ∧ rest' = rest) ∧
      splitImports script = (ss.filterMap Statement.import?,
        trimBoth (· = '\n') (join "\n" (ss.filterMap Statement.code? ++ trimFirst rest))) := by
  obtain ⟨ss, rest, hparted, -⟩ := exists_parted (lines script)
  refine ⟨ss, rest, fun ss' rest' => ⟨parted_unique hparted, ?_⟩, splitImports_parted hparted⟩
  rintro ⟨rfl, rfl⟩
  exact hparted

end

end Docweave.Script

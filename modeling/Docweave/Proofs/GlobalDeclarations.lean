import Docweave.Proofs.ComponentNames
import Docweave.Proofs.Literals
import Mathlib.Data.List.Nodup

/-!
# The declaration module

`globalComponentsModule` declares the documents of a project as components that every
file may use: one line brings a document's component in under a name, and one entry of
the interface lists that name. `readDeclarations?` reads such a module back, line by
line, and `Declarations.WellFormed` says what makes it one. The printer takes each name
from the base name of its document, whatever the other documents are called, and writes
each path as it is.

> `readDeclarations?_module`: the module is read back as it was printed, if no path has
> an apostrophe.

> `no_apostrophe_of_wellDeclared`: with an apostrophe in a path, something else is read.

> `wellDeclared_iff`: the module is well-formed exactly when the names differ, each starts
> with a letter, and no path has an apostrophe.
-/

namespace Docweave

/-! ## Reading a module -/

/-- Reads items off the front of a text, as long as one is there. -/
def readAll {α : Type} (read? : Text → Option (α × Text)) (t : Text) : List α × Text :=
  match read? t with
  | none => ([], t)
  | some (a, rest) =>
    if rest.length < t.length then (a :: (readAll read? rest).1, (readAll read? rest).2) else ([a], rest)
termination_by t.length

/-- The name and the file of the import line at the front of a text. -/
def readImport? (t : Text) : Option ((Text × Text) × Text) := do
  let named ← Text.dropPrefix? "import " t
  let (name, source) ← Text.cut? [' '] named
  let quoted ← Text.dropPrefix? "from " source
  let (file, behind) ← readLiteral? Text.apostrophe quoted
  let rest ← Text.dropPrefix? ['\n'] behind
  some ((name, file), rest)

/-- The name that the interface lists at the front of a text, and the name of which it
takes the type. -/
def readEntry? (t : Text) : Option ((Text × Text) × Text) := do
  let named ← Text.dropPrefix? "    " t
  let (name, typed) ← Text.cut? [':'] named
  let value ← Text.dropPrefix? " typeof " typed
  let (type, rest) ← Text.cut? ['\n'] value
  some ((name, type), rest)

/-- What a declaration module says. -/
structure Declarations where
  /-- Names and the files that they are imported from. -/
  imports : List (Text × Text)
  /-- Names that the interface lists, and the names of which they have the type. -/
  entries : List (Text × Text)

/-- The first line of a declaration module. -/
def moduleHead : Text := "import type \x7b DefineComponent \x7d from 'vue'\n"

/-- The lines that open the interface. -/
def interfaceHead : Text := "\ndeclare module '@vue/runtime-core' \x7b\n  interface GlobalComponents \x7b\n"

/-- The lines that close the interface. -/
def interfaceEnd : Text := "  \x7d\n\x7d\n"

/-- The declarations of a module; none if the text is no such module. -/
def readDeclarations? (t : Text) : Option Declarations := do
  let body ← Text.dropPrefix? moduleHead t
  let (imports, behind) := readAll readImport? body
  let inner ← Text.dropPrefix? interfaceHead behind
  let (entries, rest) := readAll readEntry? inner
  if rest = interfaceEnd then some ⟨imports, entries⟩ else none

/-- The declarations bring each of the documents in once, under names that differ and
are words, and the interface lists these names. -/
structure Declarations.WellFormed (paths : List Text) (d : Declarations) : Prop where
  files : d.imports.map Prod.snd = paths.map componentTarget
  once : (d.imports.map Prod.snd).Nodup
  distinct : (d.imports.map Prod.fst).Nodup
  named : ∀ name ∈ d.imports.map Prod.fst, Alphanumeric name ∧ StartsWithLetter name
  listed : d.entries = d.imports.map fun i => (i.1, i.1)

/-- A text is a well-formed module that declares the documents. -/
def WellDeclared (paths : List Text) (t : Text) : Prop :=
  ∃ d, readDeclarations? t = some d ∧ d.WellFormed paths

section

variable {α : Type} {read? : Text → Option (α × Text)} {a : α} {print : Text → Text} {item : Text → α}
  {s t rest name file type path path' : Text} {paths : List Text}

theorem readAll_none (h : read? t = none) : readAll read? t = ([], t) := by
  unfold readAll
  rw [h]

/-- An item that is read off leaves the others to read. -/
theorem readAll_append (hne : s ≠ []) (h : read? (s ++ rest) = some (a, rest)) :
    readAll read? (s ++ rest) = (a :: (readAll read? rest).1, (readAll read? rest).2) := by
  have hshort : rest.length < (s ++ rest).length := by
    rw [List.length_append]
    exact Nat.lt_add_of_pos_left (List.length_pos_of_ne_nil hne)
  rw [readAll, h]
  exact if_pos hshort

/-- The first item is the one that is read first. -/
theorem head?_readAll : (readAll read? t).1.head? = (read? t).map Prod.fst := by
  unfold readAll
  split
  next h => rw [h]; rfl
  next h => rw [h]; split <;> rfl

/-- Items that are printed one behind the other are read back. -/
theorem readAll_flatMap (hne : ∀ p ∈ paths, print p ≠ [])
    (hread : ∀ p ∈ paths, ∀ rest, read? (print p ++ rest) = some (item p, rest)) (hend : read? rest = none) :
    readAll read? (paths.flatMap print ++ rest) = (paths.map item, rest) := by
  induction paths with
  | nil => exact readAll_none hend
  | cons p paths ih =>
    obtain ⟨hprint, hprints⟩ := List.forall_mem_cons.1 hne
    obtain ⟨hfirst, hothers⟩ := List.forall_mem_cons.1 hread
    rw [List.flatMap_cons, List.append_assoc, readAll_append hprint (hfirst _), ih hprints hothers]
    rfl

/-- **Imports** are read off exactly when they stand there in full, with nothing of the
file behind its quotes. -/
theorem readImport?_eq_some :
    readImport? t = some ((name, file), rest) ↔
      ' ' ∉ name ∧ Text.apostrophe ∉ file ∧ t = importLine name file ++ '\n' :: rest := by
  unfold readImport? importLine
  simp only [Option.bind_eq_bind, Option.bind_eq_some_iff, Text.dropPrefix?_eq_some, Prod.exists,
    Text.cut?_singleton_eq_some, readLiteral?_eq_some, Option.some.injEq, Prod.mk.injEq]
  constructor
  · rintro ⟨_, rfl, _, _, ⟨hname, rfl⟩, _, rfl, _, _, ⟨hfile, rfl⟩, _, rfl, ⟨rfl, rfl⟩, rfl⟩
    exact ⟨hname, hfile, by simp [Text.apostrophe]⟩
  · rintro ⟨hname, hfile, rfl⟩
    let quoted : Text := Text.apostrophe :: (file ++ Text.apostrophe :: (['\n'] ++ rest))
    exact ⟨name ++ ' ' :: ("from ".toList ++ quoted), by simp [quoted, Text.apostrophe], name, _, ⟨hname, rfl⟩,
      quoted, rfl, file, _, ⟨hfile, rfl⟩, rest, rfl, ⟨rfl, rfl⟩, rfl⟩

/-- **Entries** are read off exactly when they stand there in full. -/
theorem readEntry?_eq_some :
    readEntry? t = some ((name, type), rest) ↔
      ':' ∉ name ∧ '\n' ∉ type ∧ t = "    ".toList ++ name ++ ": typeof " ++ type ++ '\n' :: rest := by
  unfold readEntry?
  simp only [Option.bind_eq_bind, Option.bind_eq_some_iff, Text.dropPrefix?_eq_some, Prod.exists,
    Text.cut?_singleton_eq_some, Option.some.injEq, Prod.mk.injEq]
  constructor
  · rintro ⟨_, rfl, _, _, ⟨hname, rfl⟩, _, rfl, _, _, ⟨htype, rfl⟩, ⟨rfl, rfl⟩, rfl⟩
    exact ⟨hname, htype, by simp⟩
  · rintro ⟨hname, htype, rfl⟩
    let value : Text := type ++ '\n' :: rest
    exact ⟨name ++ ':' :: (" typeof ".toList ++ value), by simp [value], name, _, ⟨hname, rfl⟩, value, rfl,
      type, rest, ⟨htype, rfl⟩, ⟨rfl, rfl⟩, rfl⟩

/-! ## The printed module -/

/-- A document's path is written between quotes as the path of its component. -/
theorem apostrophe_mem_componentTarget : Text.apostrophe ∈ componentTarget path ↔ Text.apostrophe ∈ path := by
  unfold componentTarget
  split
  next hdoc =>
    obtain ⟨front, rfl⟩ := Text.endsWith_iff.1 hdoc
    rw [Text.trimSuffix_append, List.mem_append, List.mem_append, or_iff_left (by decide), or_iff_left (by decide)]
  next => rfl

/-- Documents that differ compile to components that differ. -/
theorem componentTarget_inj (h : Text.endsWith path documentExt = true) (h' : Text.endsWith path' documentExt = true)
    (heq : componentTarget path = componentTarget path') : path = path' := by
  obtain ⟨front, rfl⟩ := Text.endsWith_iff.1 h
  obtain ⟨front', rfl⟩ := Text.endsWith_iff.1 h'
  unfold componentTarget at heq
  rw [if_pos h, if_pos h', Text.trimSuffix_append, Text.trimSuffix_append] at heq
  rw [List.append_cancel_right heq]

theorem readImport?_document (h : Text.apostrophe ∉ path) (rest : Text) :
    readImport? (importLine (componentName path) (componentTarget path) ++ ['\n'] ++ rest) =
      some ((componentName path, componentTarget path), rest) := by
  rw [List.append_assoc]
  exact readImport?_eq_some.2 ⟨not_mem_of_alphanumeric (alphanumeric_componentName path) (by decide),
    fun hmem => h (apostrophe_mem_componentTarget.1 hmem), rfl⟩

theorem readEntry?_name (path rest : Text) :
    readEntry? (declarationLine (componentName path) ++ rest) =
      some ((componentName path, componentName path), rest) := by
  have hname := alphanumeric_componentName path
  refine readEntry?_eq_some.2 ⟨not_mem_of_alphanumeric hname (by decide), not_mem_of_alphanumeric hname (by decide), ?_⟩
  unfold declarationLine
  exact List.append_assoc _ _ rest

theorem declarationLine_ne_nil (name : Text) : declarationLine name ≠ [] :=
  List.append_ne_nil_of_right_ne_nil _ (List.cons_ne_nil _ _)

/-- The lines of the imports. -/
def documentImports (paths : List Text) : Text :=
  paths.flatMap fun p => importLine (componentName p) (componentTarget p) ++ ['\n']

/-- The module behind the imports. -/
def interfaceOf (paths : List Text) : Text :=
  interfaceHead ++ (paths.flatMap (fun p => declarationLine (componentName p)) ++ interfaceEnd)

theorem globalComponentsModule_eq (paths : List Text) :
    globalComponentsModule paths = moduleHead ++ (documentImports paths ++ interfaceOf paths) := by
  unfold globalComponentsModule documentImports interfaceOf moduleHead interfaceHead interfaceEnd
  simp

theorem readDeclarations?_eq (paths : List Text) :
    readDeclarations? (globalComponentsModule paths) =
      let (imports, behind) := readAll readImport? (documentImports paths ++ interfaceOf paths)
      (Text.dropPrefix? interfaceHead behind).bind fun inner =>
        let (entries, rest) := readAll readEntry? inner
        if rest = interfaceEnd then some ⟨imports, entries⟩ else none := by
  rw [readDeclarations?, globalComponentsModule_eq, Text.dropPrefix?_eq_some.2 rfl]
  rfl

/-- **The module is read back** as it was printed, if no path has an apostrophe. -/
theorem readDeclarations?_module (h : ∀ p ∈ paths, Text.apostrophe ∉ p) :
    readDeclarations? (globalComponentsModule paths) =
      some ⟨paths.map fun p => (componentName p, componentTarget p),
        paths.map fun p => (componentName p, componentName p)⟩ := by
  have himports : readAll readImport? (documentImports paths ++ interfaceOf paths) =
      (paths.map fun p => (componentName p, componentTarget p), interfaceOf paths) :=
    readAll_flatMap (fun _ _ => List.concat_ne_nil _ _) (fun p hp rest => readImport?_document (h p hp) rest) rfl
  have hhead : Text.dropPrefix? interfaceHead (interfaceOf paths) =
      some (paths.flatMap (fun p => declarationLine (componentName p)) ++ interfaceEnd) :=
    Text.dropPrefix?_eq_some.2 rfl
  have hentries : readAll readEntry? (paths.flatMap (fun p => declarationLine (componentName p)) ++ interfaceEnd) =
      (paths.map fun p => (componentName p, componentName p), interfaceEnd) :=
    readAll_flatMap (fun p _ => declarationLine_ne_nil (componentName p)) (fun p _ rest => readEntry?_name p rest) rfl
  rw [readDeclarations?_eq, himports]
  simp only [hhead, Option.bind_some, hentries, if_true]

/-- Imports that are read off are those of the documents only if no path has an
apostrophe: the first path that has one is not read to its end. -/
theorem no_apostrophe_of_imports
    (h : (readAll readImport? (documentImports paths ++ rest)).1.map Prod.snd = paths.map componentTarget) :
    ∀ p ∈ paths, Text.apostrophe ∉ p := by
  induction paths with
  | nil => exact fun _ hp => absurd hp (by simp)
  | cons p paths ih =>
    have hhead := congrArg List.head? h
    rw [List.head?_map, head?_readAll, List.map_cons, List.head?_cons, Option.map_map] at hhead
    obtain ⟨⟨⟨name, file⟩, behind⟩, hread, hfile⟩ := Option.map_eq_some_iff.1 hhead
    have hpath : Text.apostrophe ∉ p := by
      obtain ⟨_, hquote, _⟩ := readImport?_eq_some.1 hread
      rw [show file = componentTarget p from hfile] at hquote
      exact fun hmem => hquote (apostrophe_mem_componentTarget.2 hmem)
    refine List.forall_mem_cons.2 ⟨hpath, ih ?_⟩
    have hfirst := readImport?_document hpath (documentImports paths ++ rest)
    have htext : documentImports (p :: paths) ++ rest =
        importLine (componentName p) (componentTarget p) ++ ['\n'] ++ (documentImports paths ++ rest) :=
      List.append_assoc ..
    rw [htext, readAll_append (List.concat_ne_nil _ _) hfirst] at h
    exact (List.cons.inj h).2

theorem no_apostrophe_of_wellDeclared (h : WellDeclared paths (globalComponentsModule paths)) :
    ∀ p ∈ paths, Text.apostrophe ∉ p := by
  obtain ⟨d, hread, hwell⟩ := h
  rw [readDeclarations?_eq] at hread
  obtain ⟨inner, _, hread⟩ := Option.bind_eq_some_iff.1 hread
  obtain ⟨_, hd⟩ := Option.ite_none_right_eq_some.1 hread
  have hfiles := hwell.files
  rw [← Option.some.inj hd] at hfiles
  exact no_apostrophe_of_imports hfiles

/-- **The declaration module of distinct documents** is well-formed exactly when their
components have names that differ, the first letter or digit of each file's name is a
letter, and no path has an apostrophe. -/
theorem wellDeclared_iff (hdistinct : paths.Nodup) (hdoc : ∀ p ∈ paths, Text.endsWith p documentExt = true) :
    WellDeclared paths (globalComponentsModule paths) ↔
      (paths.map componentName).Nodup ∧
        (∀ p ∈ paths, ((componentStem p).find? Text.isAlphanumeric).any Text.isLetter = true) ∧
          ∀ p ∈ paths, Text.apostrophe ∉ p := by
  have hnames : (paths.map fun p => (componentName p, componentTarget p)).map Prod.fst = paths.map componentName := by
    rw [List.map_map]
    rfl
  have hfiles : (paths.map fun p => (componentName p, componentTarget p)).map Prod.snd = paths.map componentTarget := by
    rw [List.map_map]
    rfl
  constructor
  · intro h
    have hpaths := no_apostrophe_of_wellDeclared h
    obtain ⟨d, hread, hwell⟩ := h
    obtain rfl := Option.some.inj ((readDeclarations?_module hpaths).symm.trans hread)
    have hdiffer := hwell.distinct
    have hnamed := hwell.named
    rw [hnames] at hdiffer hnamed
    exact ⟨hdiffer, fun p hp => startsWithLetter_componentName.1 (hnamed _ (List.mem_map_of_mem hp)).2, hpaths⟩
  · rintro ⟨hdiffer, hletters, hpaths⟩
    refine ⟨_, readDeclarations?_module hpaths, ?files, ?once, ?distinct, ?named, ?listed⟩
    case files => exact hfiles
    case once =>
      rw [hfiles]
      exact hdistinct.map_on fun p hp q hq => componentTarget_inj (hdoc p hp) (hdoc q hq)
    case distinct => exact hnames ▸ hdiffer
    case named =>
      intro name hname
      rw [hnames] at hname
      obtain ⟨p, hp, rfl⟩ := List.mem_map.1 hname
      exact ⟨alphanumeric_componentName p, startsWithLetter_componentName.2 (hletters p hp)⟩
    case listed =>
      rw [List.map_map]
      rfl

theorem wellDeclared_guide :
    WellDeclared ["./a/guide.v.md", "./b/get-started.v.md"]
      (globalComponentsModule ["./a/guide.v.md", "./b/get-started.v.md"]) :=
  (wellDeclared_iff (by decide) (by decide)).2 ⟨by decide +kernel, by decide +kernel, by decide⟩

/-- Two documents with the same name in different folders are declared under one name. -/
theorem not_wellDeclared_of_same_name :
    (["./a/note.v.md", "./b/note.v.md"] : List Text).Nodup ∧
      ¬WellDeclared ["./a/note.v.md", "./b/note.v.md"] (globalComponentsModule ["./a/note.v.md", "./b/note.v.md"]) := by
  refine ⟨by decide, ?_⟩
  rintro ⟨d, hread, hwell⟩
  obtain rfl := Option.some.inj ((readDeclarations?_module (by decide)).symm.trans hread)
  exact absurd hwell.distinct (by decide +kernel)

end

end Docweave

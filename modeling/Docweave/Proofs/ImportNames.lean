import Docweave.Proofs.ComponentImports
import Docweave.Proofs.TransformSteps
import Mathlib.Data.List.Nodup

/-!
# Names that the script imports

The script of a component starts with imports that no author has written: the metadata
and what hands them on, the component that shows code, and the components that the
blocks use. `boundName` reads off a line the name that it binds. The first two names
have signs that no component's name has, so what may meet is `CodeBlock` and the names
of components. These are made of the base names of files and are not told apart by
folder or punctuation, while imports are kept apart by the whole line.

> `assemble_generated`: the generated lines open the script.

> `boundName_generated`: the names that they bind.

> `generated_names_distinct_iff`: no name is bound twice exactly when the files that
> the blocks use have names of their own, and none is `CodeBlock` where code is shown.
-/

namespace Docweave

/-- The name that an import line binds: the one behind `import`, or the one that stands
behind `as` in braces. -/
def boundName (line : Text) : Text :=
  match Text.splitOn ' ' line with
  | _ :: ['\x7b'] :: _ :: _ :: name :: _ => name
  | _ :: name :: _ => name
  | _ => []

/-- The import lines that the compiler generates, with the imports of components that it
has recorded. -/
def generatedImports (options : CompileOptions) (paths : ReferencePaths) (compiled : Compiled) (imports : List Text) :
    List Text :=
  let provide : List Text :=
    if !compiled.metadata.isEmpty || !compiled.highlights.isEmpty then
      [importLine "$meta" ("./" ++ Path.base paths.metadata) ++ ";",
       "import \x7b provide as __mdvProvide \x7d from 'vue';"]
    else []
  let codeBlock := if options.codeBlock.isEmpty then defaultCodeBlock else options.codeBlock
  let show' : List Text := if compiled.highlights.isEmpty then [] else [importLine "CodeBlock" codeBlock ++ ";"]
  provide ++ show' ++ imports

/-- The script of the component starts with these lines. -/
def ScriptStarts (lines : List Text) (content : Text) : Prop :=
  ∃ front attrs behind,
    content = front ++ "<script setup" ++ attrGap attrs ++ ">\n" ++ lines.flatMap (· ++ ['\n']) ++ behind

/-- The blocks that the build of the document closes, and what it is built in. -/
def DocumentBlocks (options : CompileOptions) (src : Text) (paths : ReferencePaths) (ctx : BuildContext)
    (blocks : List ClosedBlock) : Prop :=
  ∃ fm, Frontmatter.parse src = .ok fm ∧ ctx = ⟨src, fm.bodyLine, options.components, paths.highlights⟩ ∧
    Closes ctx (BuildState.start {} (tokenize (Source.sections fm.body).body)) blocks

/-- One of the blocks uses the component file. -/
def UsedIn (ctx : BuildContext) (blocks : List ClosedBlock) (path : Text) : Prop := ∃ b ∈ blocks, b.frame.Uses ctx path

/-! ## The script -/

/-- The other lines of the script stand behind the generated ones. -/
theorem scriptLines_generated (p : ComponentParts) (options : CompileOptions) (paths : ReferencePaths)
    (content : Text) (userImports : List Text) :
    ∃ behind, p.scriptLines options paths userImports =
      generatedImports options paths ⟨content, p.metadata, p.highlights⟩ p.imports ++ behind := by
  unfold ComponentParts.scriptLines generatedImports
  simp only [List.append_assoc]
  exact ⟨_, rfl⟩

/-- A component up to the first line of its script. -/
def scriptFront (template attrs : Text) : Text :=
  "<template>\n" ++ template ++ "</template>\n\n<script setup" ++ attrGap attrs ++ ">\n"

/-- The lines of the script stand behind the template, if there are any. -/
theorem assemble_lines (p : ComponentParts) (options : CompileOptions) (paths : ReferencePaths)
    (h : p.scriptLines options paths (Script.splitImports p.sections.script).1 ≠ []) :
    ∃ attrs behind, p.assemble options paths = scriptFront p.template attrs ++
      (p.scriptLines options paths (Script.splitImports p.sections.script).1).flatMap (· ++ ['\n']) ++ behind := by
  have hsome : (p.scriptLines options paths (Script.splitImports p.sections.script).1).isEmpty = false := by
    simpa using h
  have hscript : ∃ attrs behind, p.script options paths = "<script setup" ++ attrGap attrs ++ ">\n" ++
      (p.scriptLines options paths (Script.splitImports p.sections.script).1).flatMap (· ++ ['\n']) ++ behind := by
    unfold ComponentParts.script
    simp only [hsome, Bool.false_and, Bool.false_eq_true, if_false, List.append_assoc]
    exact ⟨_, _, rfl⟩
  obtain ⟨attrs, behind, hscript⟩ := hscript
  refine ⟨attrs, behind ++ p.sections.styles.flatMap ComponentParts.styleBlock, ?_⟩
  unfold ComponentParts.assemble scriptFront
  simp [hscript]

theorem assemble_generated (p : ComponentParts) (options : CompileOptions) (paths : ReferencePaths) (content : Text)
    (h : generatedImports options paths ⟨content, p.metadata, p.highlights⟩ p.imports ≠ []) :
    ScriptStarts (generatedImports options paths ⟨content, p.metadata, p.highlights⟩ p.imports)
      (p.assemble options paths) := by
  obtain ⟨lines, hlines⟩ := scriptLines_generated p options paths content (Script.splitImports p.sections.script).1
  obtain ⟨attrs, behind, hassemble⟩ := assemble_lines p options paths (by simp [hlines, h])
  rw [hlines, List.flatMap_append] at hassemble
  refine ⟨"<template>\n" ++ p.template ++ "</template>\n\n", attrs, lines.flatMap (· ++ ['\n']) ++ behind, ?_⟩
  rw [hassemble]
  unfold scriptFront
  simp

/-! ## The names -/

section

variable {options : CompileOptions} {paths : ReferencePaths} {compiled : Compiled} {ctx : BuildContext}
  {blocks : List ClosedBlock} {imports : List Text}

/-- The line of a name in one word binds it. -/
theorem boundName_importLine {name : Text} (path : Text) (hspace : ' ' ∉ name) (hbrace : name ≠ ['\x7b']) :
    boundName (importLine name path ++ ";") = name := by
  have hwords : Text.splitOn ' ' (importLine name path ++ ";") =
      ("import" : Text) :: name :: Text.splitOn ' ' ("from '" ++ path ++ "';") := by
    have hline : importLine name path ++ ";" = "import".toList ++ ' ' :: (name ++ ' ' :: ("from '" ++ path ++ "';")) := by
      unfold importLine
      simp
    rw [hline, Text.splitOn_append _ (by decide), Text.splitOn_append _ hspace]
  unfold boundName
  rw [hwords]
  split
  next hname =>
    simp only [List.cons.injEq] at hname
    exact absurd hname.2.1 hbrace
  next hname =>
    simp only [List.cons.injEq] at hname
    exact hname.2.1.symm
  next hnone => exact absurd rfl (hnone _ _ _)

/-- A component's name is no name with a sign in it. -/
theorem componentName_ne {name : Text} {c : Char} (path : Text) (hmem : c ∈ name) (hc : Text.isAlphanumeric c = false) :
    componentName path ≠ name :=
  fun h => not_mem_of_alphanumeric (alphanumeric_componentName path) hc (h ▸ hmem)

theorem boundName_componentImport (path : Text) : boundName (componentImport path) = componentName path :=
  boundName_importLine path (not_mem_of_alphanumeric (alphanumeric_componentName path) rfl)
    (componentName_ne path (List.mem_singleton_self '\x7b') rfl)

/-- **The names** that the generated lines bind. -/
theorem boundName_generated (options : CompileOptions) (paths : ReferencePaths) (compiled : Compiled)
    (imports : List Text) : (generatedImports options paths compiled imports).map boundName =
      (if !compiled.metadata.isEmpty || !compiled.highlights.isEmpty then [("$meta" : Text), "__mdvProvide"] else []) ++
        (if compiled.highlights.isEmpty then [] else [("CodeBlock" : Text)]) ++ imports.map boundName := by
  have hmeta : ∀ path, boundName (importLine "$meta" path ++ ";") = "$meta" :=
    fun path => boundName_importLine path (by decide) (by decide)
  have hprovide : boundName "import \x7b provide as __mdvProvide \x7d from 'vue';" = "__mdvProvide" := by decide +kernel
  have hcode : ∀ path, boundName (importLine "CodeBlock" path ++ ";") = "CodeBlock" :=
    fun path => boundName_importLine path (by decide) (by decide)
  unfold generatedImports
  simp only [List.map_append, apply_ite (List.map boundName), List.map_cons, List.map_nil, hmeta, hprovide, hcode]

/-- Two names and perhaps a third one in front of names that are not the first two. -/
theorem nodup_behind_fixed {a b c : Text} {names : List Text} {p q : Bool} (hab : a ≠ b) (hac : a ≠ c) (hbc : b ≠ c)
    (ha : a ∉ names) (hb : b ∉ names) :
    ((if p then [a, b] else []) ++ (if q then [] else [c]) ++ names).Nodup ↔
      names.Nodup ∧ (q = false → c ∉ names) := by
  cases p <;> cases q <;> simp [hab, hac, hbc, ha, hb, and_comm]

/-- Imports have names of their own exactly when the files have. -/
theorem nodup_names_iff (himports : ∀ line ∈ imports, ∃ path, line = componentImport path) (hnodup : imports.Nodup) :
    (imports.map boundName).Nodup ↔ ∀ file file', componentImport file ∈ imports → componentImport file' ∈ imports →
      componentName file = componentName file' → file = file' := by
  rw [List.nodup_map_iff_inj_on hnodup]
  constructor
  · intro h file file' hfile hfile' hname
    rw [← boundName_componentImport, ← boundName_componentImport file'] at hname
    exact componentImport_inj (h _ hfile _ hfile' hname)
  · intro h line hline line' hline' hname
    obtain ⟨file, rfl⟩ := himports line hline
    obtain ⟨file', rfl⟩ := himports line' hline'
    rw [boundName_componentImport, boundName_componentImport] at hname
    rw [h file file' hline hline' hname]

/-- Names that meet are names of components, or a component's and that of the component
that shows code. -/
theorem nodup_generated (himports : ∀ line ∈ imports, ∃ path, line = componentImport path) :
    ((generatedImports options paths compiled imports).map boundName).Nodup ↔ (imports.map boundName).Nodup ∧
      (compiled.highlights ≠ [] → ∀ path, componentImport path ∈ imports → componentName path ≠ "CodeBlock") := by
  have hname : ∀ name ∈ imports.map boundName, ∃ path, componentImport path ∈ imports ∧ componentName path = name := by
    intro name hname
    obtain ⟨line, hline, rfl⟩ := List.mem_map.1 hname
    obtain ⟨path, rfl⟩ := himports line hline
    exact ⟨path, hline, (boundName_componentImport path).symm⟩
  have hsign : ∀ (c : Char) {name : Text}, c ∈ name → Text.isAlphanumeric c = false → name ∉ imports.map boundName := by
    intro c name hmem hc h
    obtain ⟨path, -, hpath⟩ := hname name h
    exact componentName_ne path hmem hc hpath
  have hcode : ("CodeBlock" : Text) ∉ imports.map boundName ↔
      ∀ path, componentImport path ∈ imports → componentName path ≠ "CodeBlock" := by
    constructor
    · exact fun h path hpath hclash => h (List.mem_map.2 ⟨_, hpath, (boundName_componentImport path).trans hclash⟩)
    · intro h hmem
      obtain ⟨path, hpath, hclash⟩ := hname _ hmem
      exact h path hpath hclash
  have hshow : compiled.highlights.isEmpty = false ↔ compiled.highlights ≠ [] := by simp
  rw [boundName_generated, ← hcode, ← hshow]
  exact nodup_behind_fixed (by decide) (by decide) (by decide) (hsign '$' (by decide) rfl) (hsign '_' (by decide) rfl)

/-- The generated imports of a document whose build closes these blocks. -/
structure ImportsDecided (options : CompileOptions) (paths : ReferencePaths) (compiled : Compiled) (ctx : BuildContext)
    (blocks : List ClosedBlock) (imports : List Text) : Prop where
  /-- The imports of components are those that the blocks use. -/
  used : FirstUses (usedImports ctx blocks) imports
  /-- The generated lines open the script. -/
  inScript : generatedImports options paths compiled imports ≠ [] →
    ScriptStarts (generatedImports options paths compiled imports) compiled.content
  /-- No two of them bind one name exactly when the files in use have names of their own, and none is `CodeBlock`
  where code is shown. -/
  distinct : ((generatedImports options paths compiled imports).map boundName).Nodup ↔
    (∀ file file', UsedIn ctx blocks file → UsedIn ctx blocks file' →
      componentName file = componentName file' → file = file') ∧
    (compiled.highlights ≠ [] → ∀ file, UsedIn ctx blocks file → componentName file ≠ "CodeBlock")

/-- **Generated names are distinct** exactly when the component files that the blocks of
the document use have names of their own, and where code is shown none is called
`CodeBlock`. -/
theorem generated_names_distinct_iff {highlighter : Highlighter} {schedule : Schedule} {src : Text}
    (h : compile highlighter schedule options src paths = .ok compiled) :
    (∃ ctx blocks, DocumentBlocks options src paths ctx blocks) ∧
      ∀ ctx blocks, DocumentBlocks options src paths ctx blocks →
        ∃ imports, ImportsDecided options paths compiled ctx blocks imports := by
  obtain ⟨fm, nodes, log, parts, hparse, hbuild, -, -, himports, -, rfl⟩ := compile_parts h
  have hrun : (BuildState.start {} (tokenize (Source.sections fm.body).body)).run
      ⟨src, fm.bodyLine, options.components, paths.highlights⟩ = .ok (nodes, log) := hbuild
  constructor
  · obtain ⟨blocks, hblocks⟩ := closes_of_run hrun
    exact ⟨_, blocks, fm, hparse, rfl, hblocks⟩
  · rintro ctx blocks ⟨fm', hparse', rfl, hblocks⟩
    obtain rfl := Except.ok.inj (hparse'.symm.trans hparse)
    have huses := firstUses_closes hblocks hrun firstUses_nil
    have hlines : ∀ line ∈ log.imports, ∃ path, line = componentImport path := by
      intro line hline
      obtain ⟨-, -, path, -, hpath⟩ := mem_usedImports.1 ((huses.mem_iff line).1 hline)
      exact ⟨path, hpath⟩
    refine ⟨log.imports, huses, fun hsome => ?_, ?_⟩
    · rw [← himports] at hsome ⊢
      exact assemble_generated parts options paths _ hsome
    · rw [nodup_generated hlines, nodup_names_iff hlines huses.nodup]
      simp only [huses.import_mem_iff, UsedIn]

end

/-! ## Two documents -/

/-- Code is shown as it is. -/
def asItIs : Highlighter := fun code _ => .ok code

def pagePaths : ReferencePaths := ⟨"a.mdv.json", "a.shiki.js"⟩

/-- A document with code, whose heading and quote are replaced. -/
def pageOptions : CompileOptions := { components := [("h1", "ui/title.vue"), ("blockquote", "ui/note.vue")] }

def pageDocument : Text := "# A\n\n> B\n\n```\nx\n```\n"

theorem generated_names_distinct_page : ∃ compiled, compile asItIs [] pageOptions pageDocument pagePaths = .ok compiled ∧
    ∀ ctx blocks, DocumentBlocks pageOptions pageDocument pagePaths ctx blocks → ∃ imports,
      FirstUses (usedImports ctx blocks) imports ∧
      ((generatedImports pageOptions pagePaths compiled imports).map boundName).Nodup := by
  have hok : (compile asItIs [] pageOptions pageDocument pagePaths).isOk = true := by decide +kernel
  have hnames : ∀ file ∈ pageOptions.components.map (·.2), componentName file ≠ "CodeBlock" ∧
      ∀ file' ∈ pageOptions.components.map (·.2), componentName file = componentName file' → file = file' := by
    decide +kernel
  cases hcompile : compile asItIs [] pageOptions pageDocument pagePaths with
  | error e =>
    rw [hcompile] at hok
    exact absurd hok (by simp [Except.isOk, Except.toBool])
  | ok compiled =>
    refine ⟨compiled, rfl, fun ctx blocks hblocks => ?_⟩
    obtain ⟨imports, hdecided⟩ := (generated_names_distinct_iff hcompile).2 ctx blocks hblocks
    obtain ⟨fm, -, hctx, -⟩ := hblocks
    have hfile : ∀ file, UsedIn ctx blocks file → file ∈ pageOptions.components.map (·.2) := by
      rintro file ⟨b, -, huses⟩
      have hmem := huses.mem_components
      rwa [hctx] at hmem
    exact ⟨imports, hdecided.used, hdecided.distinct.2
      ⟨fun file file' hused hused' => (hnames file (hfile file hused)).2 file' (hfile file' hused'),
        fun _ file hused => (hnames file (hfile file hused)).1⟩⟩

/-- A quote is replaced by the very component that shows code. -/
def quoteOptions : CompileOptions :=
  { components := [("blockquote", "ui/code-block.vue")], codeBlock := "ui/code-block.vue" }

def quoteDocument : Text := "> a\n\n```\nx\n```\n"

/-- The lines that the script of the document with the quote starts with. -/
def quoteLines : List Text :=
  ["import $meta from './a.mdv.json';", "import \x7b provide as __mdvProvide \x7d from 'vue';",
    "import CodeBlock from 'ui/code-block.vue';", "import CodeBlock from 'ui/code-block.vue';"]

/-- **A name is bound twice**: the component that shows code is imported once for the
code and once for the quote. -/
theorem code_block_imported_twice : ∃ compiled, compile asItIs [] quoteOptions quoteDocument pagePaths = .ok compiled ∧
    ScriptStarts quoteLines compiled.content ∧ ¬ (quoteLines.map boundName).Nodup := by
  have hcontent : (compile asItIs [] quoteOptions quoteDocument pagePaths).toOption.map (·.content) =
      some ("<template>\n" ++ "<CodeBlock><p>a</p></CodeBlock>\n" ++
        "<CodeBlock name=\"shiki_0\" highlight-path=\"a.shiki.js\" " ++ "raw='x\n'></CodeBlock>\n" ++ "</template>\n\n" ++
        "<script setup" ++ attrGap [] ++ ">\n" ++ quoteLines.flatMap (· ++ ['\n']) ++
        ("__mdvProvide('meta', \x7b ...$meta, " ++ "metaPath: 'a.mdv.json' \x7d);\n" ++ "</script>\n")) := by
    decide +kernel
  cases hcompile : compile asItIs [] quoteOptions quoteDocument pagePaths with
  | error e =>
    rw [hcompile] at hcontent
    exact absurd hcontent (by simp [Except.toOption])
  | ok compiled =>
    rw [hcompile] at hcontent
    exact ⟨compiled, rfl, ⟨_, _, _, Option.some.inj hcontent⟩, by decide +kernel⟩

end Docweave

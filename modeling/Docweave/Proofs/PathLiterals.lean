import Docweave.Proofs.BlockElements
import Docweave.Proofs.GlobalDeclarations
import Docweave.Proofs.ImportNames

/-!
# Paths in literals

Generated code names files in four places: the script brings the metadata in from its
file and hands on where that is, each code block names the file of its highlighted code,
and the declaration module brings in the components. The first two and the last stand
between single quotes, the path of a code block between double quotes, and all are
printed as they are. In the template the path of a code block is markup like any other,
so that a construct in it is rewritten.

> `assemble_provides`, `metaPaths_read`: the two literals of the script.

> `readsBack_placeholder`, `blockPath_read`: the literal of a code block, as it is built
> and as it is shown.

> `readsBack_declared`: the literals of the declaration module.

> `paths_read_back_iff`: which paths are read back from a component and from the
> declaration module.
-/

namespace Docweave

open Text (apostrophe quote)

/-- The tree of a document, and what its build has recorded. -/
def Built (options : CompileOptions) (src : Text) (paths : ReferencePaths) (nodes : List Node) (log : BuildLog) : Prop :=
  ∃ fm, Frontmatter.parse src = .ok fm ∧
    buildTree ⟨src, fm.bodyLine, options.components, paths.highlights⟩ (tokenize (Source.sections fm.body).body) =
      .ok (nodes, log)

/-! ## The script -/

/-- The line that brings the metadata in, up to the literal. -/
def metaImport : Text := "import $meta from "

/-- The line that hands the metadata on, up to the literal. -/
def metaCall : Text := "__mdvProvide('meta', \x7b ...$meta, metaPath: "

/-- The script of a component names the metadata twice: by the last element of its path,
which is read back if that has no apostrophe, and by the whole path. -/
def MetaPathsRead (path template content : Text) : Prop :=
  ∃ attrs between behind : Text,
    let front := scriptFront template attrs ++ metaImport
    let entry := apostrophe :: (path ++ apostrophe :: (" \x7d);\n" ++ behind))
    let middle := ";\n" ++ between ++ metaCall
    content = front ++ apostrophe :: ("./" ++ Path.base path ++ apostrophe :: (middle ++ entry)) ∧
      (ReadsBack content front apostrophe ("./" ++ Path.base path) (middle ++ entry) ↔ apostrophe ∉ Path.base path) ∧
      (ReadsBack content (front ++ apostrophe :: ("./" ++ Path.base path ++ apostrophe :: middle)) apostrophe path
        (" \x7d);\n" ++ behind) ↔ apostrophe ∉ path)

section

variable (options : CompileOptions) (paths : ReferencePaths)

/-- The script starts and ends with the metadata, if there is something to provide. -/
theorem scriptLines_provides {p : ComponentParts} (h : p.provides = true) (imports : List Text) :
    ∃ mid, p.scriptLines options paths imports =
      (importLine "$meta" ("./" ++ Path.base paths.metadata) ++ ";") ::
        (mid ++ [metaCall ++ apostrophe :: (paths.metadata ++ apostrophe :: " \x7d);")]) := by
  have hcall : ("__mdvProvide('meta', \x7b ...$meta, metaPath: '" ++ paths.metadata ++ "' \x7d);" : Text) =
      metaCall ++ apostrophe :: (paths.metadata ++ apostrophe :: " \x7d);") := by
    unfold metaCall
    simp [apostrophe]
  unfold ComponentParts.scriptLines
  simp only [h, if_true, hcall, List.cons_append, List.nil_append]
  rw [← List.cons_append]
  exact ⟨_, rfl⟩

/-- The two literals of the script, and what stands around them. -/
theorem assemble_provides {p : ComponentParts} (h : p.provides = true) :
    ∃ attrs between behind : Text, p.assemble options paths =
      scriptFront p.template attrs ++ metaImport ++
        apostrophe :: ("./" ++ Path.base paths.metadata ++ apostrophe :: (";\n" ++ between ++ metaCall ++
          apostrophe :: (paths.metadata ++ apostrophe :: (" \x7d);\n" ++ behind)))) := by
  obtain ⟨mid, hlines⟩ := scriptLines_provides options paths h
    (Script.splitImports p.sections.script).1
  have himport : importLine "$meta" ("./" ++ Path.base paths.metadata) =
      metaImport ++ apostrophe :: ("./" ++ Path.base paths.metadata ++ [apostrophe]) := by
    unfold importLine metaImport
    simp [apostrophe]
  obtain ⟨attrs, behind, hassemble⟩ := assemble_lines p options paths (by simp [hlines])
  refine ⟨attrs, mid.flatMap (· ++ ['\n']), behind, ?_⟩
  rw [hassemble, hlines, himport]
  simp

end

/-- **The paths of the metadata** are read back from a script without apostrophes in them. -/
theorem metaPaths_read {p : ComponentParts} (h : p.provides = true) (options : CompileOptions) (paths : ReferencePaths) :
    MetaPathsRead paths.metadata p.template (p.assemble options paths) := by
  obtain ⟨attrs, between, behind, hassemble⟩ := assemble_provides options paths h
  refine ⟨attrs, between, behind, hassemble, ?_, ?_⟩
  · rw [readsBack_iff hassemble, eq_self, true_and]
    simp [apostrophe]
  · have hentry : p.assemble options paths = scriptFront p.template attrs ++ metaImport ++
        apostrophe :: ("./" ++ Path.base paths.metadata ++ apostrophe :: (";\n" ++ between ++ metaCall)) ++
          apostrophe :: (paths.metadata ++ apostrophe :: (" \x7d);\n" ++ behind)) := by
      rw [hassemble]
      simp only [List.append_assoc, List.cons_append]
    rw [readsBack_iff hentry, eq_self, true_and]

/-! ## Code blocks -/

section

variable {path front back u v : Text} {job : HighlightJob}

/-- A placeholder gives its path back, if that has no quote. -/
theorem readsBack_placeholder (u v path : Text) (job : HighlightJob) :
    ReadsBack (u ++ placeholder path job ++ v) (u ++ pathFront job) quote path (pathBehind job ++ v) ↔ quote ∉ path := by
  have hprinted : u ++ placeholder path job ++ v =
      u ++ pathFront job ++ quote :: (path ++ quote :: (pathBehind job ++ v)) := by
    rw [placeholder_eq]
    simp
  rw [readsBack_iff hprinted, eq_self, true_and]

/-- A code block in the markup between `front` and `back`: what the rewriting makes of
it is part of the template, and what is read for its path. -/
structure BlockPathRead (path template : Text) (job : HighlightJob) (front back : Text) : Prop where
  /-- The literal that is built. -/
  built : ReadsBack (front ++ placeholder path job ++ back) (front ++ pathFront job) quote path (pathBehind job ++ back) ↔
    quote ∉ path
  shown : rewriteBrackets (front ++ placeholder path job ++ back) ++ ['\n'] <:+: template
  /-- The literal that is shown between markup without brackets and braces. -/
  plain : Unbracketed front → Unbracketed back →
    (ReadsBack (rewriteBrackets (front ++ placeholder path job ++ back)) (front ++ pathFront job) quote path
      (pathBehind job ++ back) ↔ rewriteBrackets path = path ∧ quote ∉ path)
  /-- The literal that is shown outside of escaped constructs and qualifiers. -/
  nested : Unbracketed path → ¬InLiteral front (placeholder path job) back →
    (∀ body, ¬InQualifier front (placeholder path job) back body) →
      ∃ u v, rewriteBrackets (front ++ placeholder path job ++ back) = u ++ placeholder path job ++ v ∧
        (ReadsBack (rewriteBrackets (front ++ placeholder path job ++ back)) (u ++ pathFront job) quote path
          (pathBehind job ++ v) ↔ quote ∉ path)

theorem blockPath_read {nodes : List Node} (hkey : Unbracketed job.key)
    (h : front ++ placeholder path job ++ back ∈ fragments nodes) :
    BlockPathRead path (renderNodes 0 nodes) job front back where
  built := readsBack_placeholder front back path job
  shown := by
    refine fragment_shown 0 nodes h fun hnil => ?_
    have hlast := getLast?_placeholder path job
    rw [(List.append_eq_nil_iff.1 (List.append_eq_nil_iff.1 hnil).1).2] at hlast
    exact absurd hlast (by simp)
  plain hfront hback := readsBack_iff (rewriteBrackets_placeholder hkey hfront hback)
  nested hpath hliteral hqualifier := by
    obtain ⟨u, v, hshown⟩ := placeholder_shown hkey hpath hliteral hqualifier
    refine ⟨u, v, hshown.symm, ?_⟩
    rw [← hshown]
    exact readsBack_placeholder u v path job

/-- Each block that is queued has its place in a fragment. -/
theorem exists_block_place {ctx : BuildContext} {d : Markdown.Document} {nodes : List Node} {log : BuildLog}
    (h : buildTree ctx (Token.ofDocument d) = .ok (nodes, log)) (hjob : job ∈ log.jobs) :
    ∃ front back, front ++ placeholder ctx.highlightPath job ++ back ∈ fragments nodes := by
  obtain ⟨ps, hcodes, hfill⟩ := build_patterns h
  obtain ⟨nodes', hbuild, hfragments⟩ := hfill ctx.highlightPath
  obtain rfl : nodes' = nodes := congrArg Prod.fst (Except.ok.inj (hbuild.symm.trans h))
  rw [← hcodes] at hjob
  obtain ⟨p, hp, hjob⟩ := List.mem_flatMap.1 hjob
  obtain ⟨piece, hpiece, hjob⟩ := List.mem_flatMap.1 hjob
  cases piece with
  | text t => exact absurd hjob (by simp [Piece.codes])
  | code job' =>
    obtain rfl := List.mem_singleton.1 hjob
    obtain ⟨before, after, rfl⟩ := List.append_of_mem hpiece
    refine ⟨Pattern.fill ctx.highlightPath before, Pattern.fill ctx.highlightPath after, ?_⟩
    rw [hfragments]
    refine List.mem_map.2 ⟨_, hp, ?_⟩
    rw [Pattern.fill_append, List.append_assoc]
    rfl

end

/-! ## The declaration module -/

/-- The literal in the import of a document, between the imports of the others. -/
theorem readsBack_declared (before after : List Text) (p : Text) :
    ReadsBack (globalComponentsModule (before ++ p :: after))
      (moduleHead ++ documentImports before ++ "import " ++ componentName p ++ " from ") apostrophe (componentTarget p)
      ('\n' :: (documentImports after ++ interfaceOf (before ++ p :: after))) ↔ apostrophe ∉ p := by
  have hprinted : globalComponentsModule (before ++ p :: after) =
      moduleHead ++ documentImports before ++ "import " ++ componentName p ++ " from " ++
        apostrophe :: (componentTarget p ++ apostrophe :: '\n' :: (documentImports after ++ interfaceOf (before ++ p :: after))) := by
    rw [globalComponentsModule_eq]
    unfold documentImports importLine
    simp [apostrophe]
  rw [readsBack_iff hprinted, eq_self, true_and, apostrophe_mem_componentTarget]

/-! ## Components and declarations -/

/-- **Paths are read back** from a component: those of the metadata exactly if they have
no apostrophe, that of a code block as it is built exactly if it has no double quote, and
as it is shown if moreover the rewriting leaves it. The declaration module gives the path
of each document's component back exactly if the document's path has no apostrophe. -/
theorem paths_read_back_iff {highlighter : Highlighter} {schedule : Schedule} {options : CompileOptions}
    {src : Text} {paths : ReferencePaths} {compiled : Compiled}
    (h : compile highlighter schedule options src paths = .ok compiled) :
    (∃ nodes log, Built options src paths nodes log ∧
      (∃ behind, compiled.content = "<template>\n" ++ renderNodes 0 nodes ++ "</template>\n" ++ behind) ∧
      (compiled.metadata ≠ [] ∨ compiled.highlights ≠ [] →
        MetaPathsRead paths.metadata (renderNodes 0 nodes) compiled.content) ∧
      ∀ job ∈ log.jobs, ∃ front back, front ++ placeholder paths.highlights job ++ back ∈ fragments nodes ∧
        BlockPathRead paths.highlights (renderNodes 0 nodes) job front back) ∧
    ∀ (before after : List Text) (p : Text),
      ReadsBack (globalComponentsModule (before ++ p :: after))
        (moduleHead ++ documentImports before ++ "import " ++ componentName p ++ " from ") apostrophe (componentTarget p)
        ('\n' :: (documentImports after ++ interfaceOf (before ++ p :: after))) ↔ apostrophe ∉ p := by
  refine ⟨?_, readsBack_declared⟩
  obtain ⟨fm, nodes, log, parts, hparse, hbuild, -, -, -, htemplate, rfl⟩ := compile_parts h
  have hshown : parts.template = renderNodes 0 nodes :=
    htemplate.trans (serialize_resolve {} nodes (isContent_build hbuild))
  refine ⟨nodes, log, ⟨fm, hparse, hbuild⟩, ?_, ?_, ?_⟩
  · rw [← hshown]
    exact ⟨_, List.append_assoc ..⟩
  · intro hsome
    rw [← hshown]
    refine metaPaths_read ?_ options paths
    simpa [ComponentParts.provides] using hsome
  · intro job hjob
    have hkey : Unbracketed job.key := unbracketed_key (buildTree_jobs hbuild ▸ hjob)
    obtain ⟨front, back, hplace⟩ := exists_block_place hbuild hjob
    exact ⟨front, back, hplace, blockPath_read hkey hplace⟩

/-- The paths of a document with metadata and code are read back. -/
theorem paths_read_back_page : ∃ compiled, compile asItIs [] pageOptions pageDocument pagePaths = .ok compiled ∧
    (∃ front behind, ReadsBack compiled.content front apostrophe "./a.mdv.json" behind) ∧
      ∃ front behind, ReadsBack compiled.content front apostrophe "a.mdv.json" behind := by
  have hshown : (compile asItIs [] pageOptions pageDocument pagePaths).toOption.map (·.highlights.isEmpty) = some false := by
    decide +kernel
  cases hcompile : compile asItIs [] pageOptions pageDocument pagePaths with
  | error e =>
    rw [hcompile] at hshown
    exact absurd hshown (by simp [Except.toOption])
  | ok compiled =>
    rw [hcompile] at hshown
    have hsome : compiled.highlights ≠ [] := fun hnil => absurd (Option.some.inj hshown) (by simp [hnil])
    obtain ⟨⟨nodes, log, -, -, hmeta, -⟩, -⟩ := paths_read_back_iff hcompile
    obtain ⟨attrs, between, behind, -, himport, hentry⟩ := hmeta (Or.inr hsome)
    exact ⟨compiled, rfl, ⟨_, _, himport.2 (by decide +kernel)⟩, _, _, hentry.2 (by decide +kernel)⟩

/-- **A path is cut at its apostrophe**: of a document's metadata, a file is brought in
that is called by the text in front of it. -/
theorem meta_path_cut_at_apostrophe :
    (resolveArtifacts "/p/src" "/p/cache" "/p/src/it's.v.md").bind (referencePaths "/p/cache") =
        .ok ⟨"it's.mdv.json", "../it's.shiki.js"⟩ ∧
      ∃ literal behind : Text,
        (compile asItIs [] {} "---\ntitle: A\n---\n" ⟨"it's.mdv.json", "../it's.shiki.js"⟩).toOption.map (·.content) =
            some (scriptFront [] [] ++ metaImport ++ literal) ∧
          readLiteral? apostrophe literal = some ("./it".toList, "s.mdv.json'" ++ behind) := by
  refine ⟨by decide +kernel, "'./it's.mdv.json';\nimport \x7b provide as __mdvProvide \x7d from 'vue';\n" ++
    (metaCall ++ "'it's.mdv.json' \x7d);\n</script>\n"), ?_⟩
  exact ⟨_, by decide +kernel, rfl⟩

end Docweave

import Docweave.Artifact
import Docweave.Frontmatter
import Docweave.Highlight.Pool
import Docweave.Script.Imports
import Docweave.Source.Sections
import Docweave.Token.Stream
import Docweave.Tree.Resolve

/-!
# Compiling a document

A document becomes a component: a template from its Markdown, a script that brings the metadata, the
highlighted code, the columns of its tables and the script of the document, and its styles.
-/

namespace Docweave

/-- How components are put together. -/
structure CompileOptions where
  /-- Component files that replace elements, by element name. -/
  components : List (Text × Text) := []
  /-- Attributes of the generated script in place of those of the document. -/
  scriptAttrs : Text := []
  /-- The component that shows code; empty for the default. -/
  codeBlock : Text := []
  /-- How many code blocks may be highlighted at a time; zero or less for all. -/
  concurrency : Int := 0
deriving Inhabited

/-- The component that shows code when none is named. -/
def defaultCodeBlock : Text := "../../src/components/code-block.vue"

/-- A compiled document. -/
structure Compiled where
  content : Text
  metadata : Metadata
  highlights : List (Text × Text)
deriving Inhabited

/-- Why a document does not compile. -/
inductive CompileFault
  /-- The work has been called off. -/
  | cancelled
  | metadata (fault : MetaFault)
  | containers (fault : Fault)
  | tree (fault : Fault)
  | highlight (fault : HighlightFault)
deriving Inhabited

/-- The fault in words. -/
def CompileFault.message : CompileFault → Text
  | cancelled => "context canceled"
  | metadata f => "extracting frontmatter: " ++ f.message
  | containers f => "validating containers: " ++ f.message
  | tree f => "building tree: " ++ f.message
  | highlight f => f.message

/-- The parts of a component. -/
structure ComponentParts where
  template : Text
  sections : Source.Sections
  metadata : Metadata
  highlights : List (Text × Text)
  /-- Imports of replacing components. -/
  imports : List Text
  /-- Declarations of table columns. -/
  declarations : List Text

namespace ComponentParts

/-- There is something to hand to the parts of the page. -/
def provides (p : ComponentParts) : Bool := !p.metadata.isEmpty || !p.highlights.isEmpty

/-- The lines of the script in front of the code of the document. -/
def scriptLines (p : ComponentParts) (options : CompileOptions) (paths : ReferencePaths) (imports : List Text) :
    List Text :=
  let codeBlock := if options.codeBlock.isEmpty then defaultCodeBlock else options.codeBlock
  let provide : List Text :=
    if p.provides then
      [importLine "$meta" ("./" ++ Path.base paths.metadata) ++ ";",
       "import \x7b provide as __mdvProvide \x7d from 'vue';"]
    else []
  let show' : List Text := if p.highlights.isEmpty then [] else [importLine "CodeBlock" codeBlock ++ ";"]
  let call : List Text :=
    if p.provides then ["__mdvProvide('meta', \x7b ...$meta, metaPath: '" ++ paths.metadata ++ "' \x7d);"] else []
  provide ++ show' ++ p.imports ++ imports ++ p.declarations ++ call

/-- The script of the component; nothing when there is nothing to say. -/
def script (p : ComponentParts) (options : CompileOptions) (paths : ReferencePaths) : Text :=
  let (imports, code) := Script.splitImports p.sections.script
  let lines := p.scriptLines options paths imports
  if lines.isEmpty && code.isEmpty then []
  else
    let attrs := if options.scriptAttrs.isEmpty then p.sections.scriptAttrs else options.scriptAttrs
    let gap : Text := if lines.isEmpty then [] else ['\n']
    let tail : Text := if code.isEmpty then [] else gap ++ code ++ ['\n']
    "<script setup" ++ attrGap attrs ++ ">\n" ++ lines.flatMap (· ++ ['\n']) ++ tail ++ "</script>\n"

/-- A style block in the component. -/
def styleBlock (style : Text) : Text := ['\n'] ++ style ++ ['\n']

/-- The text of the component. -/
def assemble (p : ComponentParts) (options : CompileOptions) (paths : ReferencePaths) : Text :=
  let script := p.script options paths
  "<template>\n" ++ p.template ++ "</template>\n" ++ (if script.isEmpty then [] else '\n' :: script) ++
    p.sections.styles.flatMap styleBlock

end ComponentParts

/-- Compiles a document. The paths are only referred to by the component; the schedule says in what order its
blocks come to be highlighted. -/
def compile (highlighter : Highlighter) (schedule : Schedule) (options : CompileOptions) (src : Text)
    (paths : ReferencePaths) : Except CompileFault Compiled :=
  match Frontmatter.parse src with
  | .error f => .error (.metadata f)
  | .ok fm =>
    let sections := Source.sections fm.body
    let tokens := tokenize sections.body
    match validateContainers tokens src fm.bodyLine with
    | .error f => .error (.containers f)
    | .ok () =>
      match buildTree ⟨src, fm.bodyLine, options.components, paths.highlights⟩ tokens with
      | .error f => .error (.tree f)
      | .ok (nodes, log) =>
        match highlightAll highlighter options.concurrency schedule log.jobs with
        | .error f => .error (.highlight f)
        | .ok highlights =>
          let (tree, _) := Resolver.resolveTree {} nodes
          let parts : ComponentParts :=
            ⟨serialize tree.children, sections, fm.metadata, highlights, log.imports, tree.declarations⟩
          .ok ⟨parts.assemble options paths, fm.metadata, highlights⟩

/-- Compiles a document unless the work has been called off. -/
def compileUnless (cancelled : Bool) (highlighter : Highlighter) (schedule : Schedule) (options : CompileOptions)
    (src : Text) (paths : ReferencePaths) : Except CompileFault Compiled :=
  if cancelled then .error .cancelled else compile highlighter schedule options src paths

end Docweave

import Docweave.Editor.Uri
import Docweave.Project.Workspace

/-!
# Open documents

An editor keeps the text of its open documents here, by URI. They are compiled in memory, as if they had
been built into the cache, and what is wrong with one is told as diagnostics. Saving a document may write
its artifacts from what is on the disk.
-/

namespace Docweave

/-- How documents are served to an editor. -/
structure EditorSettings extends TransformSettings where
  /-- Write the artifacts of a document when it is saved. -/
  writeOnSave : Bool := false

/-- What settings cannot be without. -/
inductive SettingsFault
  | srcRoot | cacheDir
deriving DecidableEq, Inhabited

/-- The fault in words. -/
def SettingsFault.message : SettingsFault → Text
  | srcRoot => "source root directory is required"
  | cacheDir => "cache directory is required"

/-- The fault in words, where documents are served. -/
def SettingsFault.documentsMessage (f : SettingsFault) : Text := "invalid document service options: " ++ f.message

/-- The first thing that settings are without. -/
def EditorSettings.fault? (s : EditorSettings) : Option SettingsFault :=
  if s.srcRoot.isEmpty then some .srcRoot
  else if s.cacheDir.isEmpty then some .cacheDir
  else none

/-- Why an open document does not compile. -/
inductive DocumentFault
  | notOpen (uri : Text)
  | uri (fault : Uri.Fault)
  | script (fault : Script.CheckFault)
  | path (fault : PathFault)
  | compile (fault : CompileFault)
deriving Inhabited

/-- What is said of a URI that names no path. -/
def uriMessage (f : Uri.Fault) : Text := "invalid document URI: " ++ f.message

/-- The fault in words. -/
def DocumentFault.message : DocumentFault → Text
  | notOpen name => "document " ++ name ++ " is not open"
  | uri f => uriMessage f
  | script f => f.message
  | path f => f.message
  | compile f => f.message

/-! ## Diagnostics -/

/-- How bad something is. -/
inductive Severity
  | error | warning
deriving DecidableEq, Inhabited

/-- The number of a severity. -/
def Severity.code : Severity → Nat
  | error => 1
  | warning => 2

/-- Something to show at a line of a document, from a column on. Lines count from zero. -/
structure Diagnostic where
  line : Nat
  column : Nat := 0
  severity : Severity := .error
  message : Text
deriving DecidableEq, Inhabited

namespace Diagnostic

/-- Who says so. -/
def source : Text := "mdv"

/-- A diagnostic at a line that counts from one; lines in front of the first count as the first. -/
def atLine (line : Int) (message : Text) : Diagnostic := { line := (line - 1).toNat, message := message }

/-- A diagnostic of a script. -/
def ofIssue (i : Script.Issue) : Diagnostic := { line := i.line - 1, column := i.column, message := i.text }

/-- A fault of the metadata. -/
def ofMetadata (f : MetaFault) : Diagnostic := atLine f.line ("invalid frontmatter: " ++ f.cause)

/-- What a fault has to say about the lines of its document. -/
def ofFault (f : DocumentFault) : List Diagnostic :=
  match f with
  | .script (.metadata m) => [ofMetadata m]
  | .script (.issues found) => found.map ofIssue
  | .compile (.metadata m) => [ofMetadata m]
  | .compile (.containers c) => [atLine c.line c.kind.name]
  | .compile (.tree c) => [atLine c.line c.kind.name]
  | .compile (.highlight _) => [{ line := 0, severity := .warning, message := f.message }]
  | f => [{ line := 0, message := f.message }]

end Diagnostic

/-! ## Documents -/

/-- The texts of open documents by URI. -/
structure Documents where
  texts : List (Text × Text) := []
deriving Inhabited

namespace Documents

/-- The text of a document, when it is open. -/
def text? (d : Documents) (uri : Text) : Option Text := (d.texts.find? (·.1 = uri)).map (·.2)

/-- Closes a document. -/
def close (d : Documents) (uri : Text) : Documents := ⟨d.texts.filter fun x => x.1 ≠ uri⟩

/-- Sets the text of a document, which opens it. -/
def update (d : Documents) (uri text : Text) : Documents := ⟨(uri, text) :: (d.close uri).texts⟩

/-- The artifacts of a document. One outside the source root is taken to be alone in its folder. -/
def artifactsOf (s : TransformSettings) (path : Text) : Except PathFault Artifacts :=
  match resolveArtifacts s.srcRoot s.cacheDir path with
  | .ok a => .ok a
  | .error _ => resolveArtifacts (Path.dir path) s.cacheDir path

/-- Compiles the text of a document as if it stood at a path. -/
def compileAt (s : TransformSettings) (cancelled : Bool) (path text : Text) : Except DocumentFault Compiled :=
  match (if s.checkScript then Script.checkWith s.parser text else .ok ()) with
  | .error f => .error (.script f)
  | .ok () =>
    match artifactsOf s path with
    | .error f => .error (.path f)
    | .ok a =>
      match referencePaths s.cacheDir a with
      | .error f => .error (.path f)
      | .ok paths => (compileUnless cancelled s.highlighter s.schedule s.options text paths).mapError .compile

/-- Compiles an open document. -/
def compile (s : TransformSettings) (cancelled : Bool) (uri : Text) (d : Documents) :
    Except DocumentFault Compiled :=
  match d.text? uri with
  | none => .error (.notOpen uri)
  | some text =>
    match Uri.toPath uri with
    | .error f => .error (.uri f)
    | .ok path => compileAt s cancelled path text

/-- What is wrong with a document. -/
def diagnose (s : TransformSettings) (cancelled : Bool) (uri : Text) (d : Documents) : List Diagnostic :=
  match d.compile s cancelled uri with
  | .error f => Diagnostic.ofFault f
  | .ok _ => []

end Documents

/-! ## Saving -/

/-- Why a document is not saved. -/
inductive SaveFault
  | uri (fault : Uri.Fault)
  | process (fault : ProcessFault)
deriving Inhabited

/-- The fault in words. -/
def SaveFault.message : SaveFault → Text
  | uri f => uriMessage f
  | process f => f.message

/-- Writes the artifacts of a saved document, if it is one below the source root and that is asked for. -/
def Workspace.save (s : EditorSettings) (cancelled : Bool) (uri : Text) (w : Workspace) :
    Output × Option SaveFault × Workspace :=
  match Uri.toPath uri with
  | .error f => ({}, some (.uri f), w)
  | .ok path =>
    let below := (resolveArtifacts s.srcRoot s.cacheDir path).toBool
    if s.writeOnSave && Text.endsWith path documentExt && below then
      match w.transform s.toTransformSettings cancelled path with
      | (out, fault, w) => (out, fault.map .process, w)
    else ({ source := path, skipped := true }, none, w)

end Docweave

import Docweave.ComponentName
import Docweave.Path

/-!
# Artifacts

A document below the source root has three files in the cache: the component, its metadata and the module
of its highlighted code. They stand at the same place below the cache directory as the document below the
source root, so the document of a component can be found again.
-/

namespace Docweave

/-- Extension of metadata files. -/
def metaExt : Text := ".mdv.json"

/-- Extension of highlight modules. -/
def highlightExt : Text := ".shiki.js"

/-- The files that a document has in the cache. -/
structure Artifacts where
  component : Text
  metadata : Text
  highlights : Text
deriving DecidableEq, Inhabited

/-- The places that generated code refers to: the metadata file, relative to the cache directory, and the
highlight module, relative to the components directory of the cache. -/
structure ReferencePaths where
  metadata : Text := []
  highlights : Text := []
deriving DecidableEq, Inhabited

/-- Why paths do not fit together. -/
inductive PathFault
  /-- No relative path leads from one to the other. -/
  | unrelated (path root : Text)
  | outside (path root : Text)
  | metadataUnrelated (path root : Text)
  | highlightsUnrelated (path root : Text)
deriving DecidableEq, Inhabited

/-- The fault in words. -/
def PathFault.message : PathFault → Text
  | unrelated p r => "resolving " ++ p ++ " against " ++ r ++ ": " ++ Path.relativeError r p
  | outside p r => p ++ " is outside the source root " ++ r
  | metadataUnrelated p r => "resolving meta path: " ++ Path.relativeError r p
  | highlightsUnrelated p r => "resolving highlight path: " ++ Path.relativeError r p

/-- The artifacts of a document. -/
def resolveArtifacts (srcRoot cacheDir path : Text) : Except PathFault Artifacts :=
  match Path.relative? srcRoot path with
  | none => .error (.unrelated path srcRoot)
  | some rel =>
    if Path.leavesDir rel then .error (.outside path srcRoot)
    else
      let base := Path.join cacheDir (Text.trimSuffix documentExt rel)
      .ok ⟨base ++ componentExt, base ++ metaExt, base ++ highlightExt⟩

/-- The document of a cached component. -/
def documentOf (srcRoot cacheDir component : Text) : Except PathFault Text :=
  match Path.relative? cacheDir component with
  | none => .error (.unrelated component cacheDir)
  | some rel => .ok (Path.join srcRoot (Text.trimSuffix componentExt rel ++ documentExt))

/-- The paths that generated code refers to. -/
def referencePaths (cacheDir : Text) (a : Artifacts) : Except PathFault ReferencePaths :=
  let components := Path.join cacheDir "components"
  match Path.relative? cacheDir a.metadata with
  | none => .error (.metadataUnrelated a.metadata cacheDir)
  | some m =>
    match Path.relative? components a.highlights with
    | none => .error (.highlightsUnrelated a.highlights components)
    | some h => .ok ⟨m, h⟩

end Docweave

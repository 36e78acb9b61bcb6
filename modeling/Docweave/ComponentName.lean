import Docweave.Path

/-!
# Component names

A component file is imported under a name made of the words of its base name: `../ui/fancy-title.vue` is
`FancyTitle`.
-/

namespace Docweave

/-- Extension of documents. -/
def documentExt : Text := ".v.md"

/-- Extension of component files. -/
def componentExt : Text := ".vue"

/-- The words of letters and digits, each with its first letter in upper case, written together. -/
def pascalCase (t : Text) : Text :=
  (Text.fields (fun c => !Text.isAlphanumeric c) t).flatMap fun w =>
    match w with
    | c :: r => Text.upperChar c :: r
    | [] => []

/-- The name under which a component file is imported. -/
def componentName (path : Text) : Text :=
  let base := Path.base (Text.replaceChar '\\' '/' path)
  pascalCase (Text.trimSuffix documentExt (Text.trimSuffix componentExt base))

/-- An import of a name from a file. -/
def importLine (name path : Text) : Text := "import " ++ name ++ " from '" ++ path ++ "'"

/-- The component that a document compiles to; other paths are kept. -/
def componentTarget (path : Text) : Text :=
  if Text.endsWith path documentExt then Text.trimSuffix documentExt path ++ componentExt else path

/-- The line that declares a component by its name. -/
def declarationLine (name : Text) : Text := "    " ++ name ++ ": typeof " ++ name ++ "\n"

/-- The declaration module that registers compiled documents as global components. Documents are imported
from the components they compile to. -/
def globalComponentsModule (paths : List Text) : Text :=
  let imports : Text := paths.flatMap fun p => importLine (componentName p) (componentTarget p) ++ ['\n']
  let declarations : Text := paths.flatMap fun p => declarationLine (componentName p)
  "import type \x7b DefineComponent \x7d from 'vue'\n" ++ imports ++
    "\ndeclare module '@vue/runtime-core' \x7b\n" ++
    "  interface GlobalComponents \x7b\n" ++ declarations ++ "  \x7d\n\x7d\n"

end Docweave

import Docweave.Yaml.Cursor

/-!
# Tokens of YAML

The indicators, scalars and properties of a text in order. The start and end of block collections, which
the text shows by its indentation, are tokens of their own.
-/

namespace Docweave.Yaml

/-- What a token is. -/
inductive TokenKind
  | streamStart | streamEnd
  | versionDirective (major minor : Nat)
  | tagDirective (handle uri : Text)
  | documentStart | documentEnd
  | blockSequenceStart | blockMappingStart | blockEnd
  | flowSequenceStart | flowSequenceEnd | flowMappingStart | flowMappingEnd
  | blockEntry | flowEntry | key | value
  | alias (name : Text)
  | anchor (name : Text)
  | tag (handle suffix : Text)
  /-- A scalar; a plain one is written without quotes and block indicator. -/
  | scalar (text : Text) (plain : Bool)
deriving DecidableEq, Inhabited

/-- A token and where it starts. -/
structure Token where
  kind : TokenKind
  mark : Mark
deriving Inhabited

end Docweave.Yaml

import Docweave.Text.Quoted

/-!
# Faults of a YAML text

A text that is no YAML has a problem at a place. A document that is YAML may still not decode: a tag does
not fit its scalar, an alias names nothing, or the value has another shape than what is asked for.
-/

namespace Docweave.Yaml

/-- What is wrong with the characters or tokens of a text. -/
inductive Problem
  | controlCharacter | noToken | missingValue
  | entryNotAllowed | keyNotAllowed | valueNotAllowed
  | directiveUnknown | directiveNameMissing | directiveNameBad
  | versionMissing | versionLong | versionPoint
  | lineNotFinished | spaceMissing | spaceOrBreakMissing
  | anchorName | tagNotClosed | tagMark | tagUriMissing
  | escapedOctet | leadingOctet | trailingOctet
  | zeroIndent | tabForIndent | tabInPlain
  | documentInQuotes | endInQuotes | escapeUnknown | escapeDigits | escapeInvalid
  | documentStartMissing | versionTwice | versionUnsupported | tagTwice | handleUndefined
  | nodeMissing | dashMissing | keyMissing | sequenceNotClosed | mappingNotClosed | tooDeep
deriving DecidableEq, Inhabited

/-- The problem in words. -/
def Problem.text : Problem → Text
  | controlCharacter => "control characters are not allowed"
  | noToken => "found character that cannot start any token"
  | missingValue => "could not find expected ':'"
  | entryNotAllowed => "block sequence entries are not allowed in this context"
  | keyNotAllowed => "mapping keys are not allowed in this context"
  | valueNotAllowed => "mapping values are not allowed in this context"
  | directiveUnknown => "found unknown directive name"
  | directiveNameMissing => "could not find expected directive name"
  | directiveNameBad => "found unexpected non-alphabetical character"
  | versionMissing => "did not find expected version number"
  | versionLong => "found extremely long version number"
  | versionPoint => "did not find expected digit or '.' character"
  | lineNotFinished => "did not find expected comment or line break"
  | spaceMissing => "did not find expected whitespace"
  | spaceOrBreakMissing => "did not find expected whitespace or line break"
  | anchorName => "did not find expected alphabetic or numeric character"
  | tagNotClosed => "did not find the expected '>'"
  | tagMark => "did not find expected '!'"
  | tagUriMissing => "did not find expected tag URI"
  | escapedOctet => "did not find URI escaped octet"
  | leadingOctet => "found an incorrect leading UTF-8 octet"
  | trailingOctet => "found an incorrect trailing UTF-8 octet"
  | zeroIndent => "found an indentation indicator equal to 0"
  | tabForIndent => "found a tab character where an indentation space is expected"
  | tabInPlain => "found a tab character that violates indentation"
  | documentInQuotes => "found unexpected document indicator"
  | endInQuotes => "found unexpected end of stream"
  | escapeUnknown => "found unknown escape character"
  | escapeDigits => "did not find expected hexdecimal number"
  | escapeInvalid => "found invalid Unicode character escape code"
  | documentStartMissing => "did not find expected <document start>"
  | versionTwice => "found duplicate %YAML directive"
  | versionUnsupported => "found incompatible YAML document"
  | tagTwice => "found duplicate %TAG directive"
  | handleUndefined => "found undefined tag handle"
  | nodeMissing => "did not find expected node content"
  | dashMissing => "did not find expected '-' indicator"
  | keyMissing => "did not find expected key"
  | sequenceNotClosed => "did not find expected ',' or ']'"
  | mappingNotClosed => "did not find expected ',' or '\x7d'"
  | tooDeep => "exceeded max depth of 10000"

/-- Where a value does not have the shape that is asked for. Lines count from one. -/
inductive Mismatch
  /-- A value, described by its tag and text, cannot become a value of a type. -/
  | type (line : Nat) (found wanted : Text)
  /-- A key of a mapping is given twice. -/
  | duplicateKey (line : Nat) (key : Text) (first : Nat)
deriving DecidableEq, Inhabited

/-- The mismatch in words. -/
def Mismatch.text : Mismatch → Text
  | type line found wanted =>
    "line " ++ Text.ofNat line ++ ": cannot unmarshal " ++ found ++ " into " ++ wanted
  | duplicateKey line key first =>
    "line " ++ Text.ofNat line ++ ": mapping key " ++ Text.quoted key ++ " already defined at line " ++
      Text.ofNat first

/-- Why a text gives no value. -/
inductive Fault
  /-- The text is no YAML; the line is zero when it is not known. -/
  | malformed (line : Nat) (problem : Problem)
  | unknownAnchor (name : Text)
  | selfReference (name : Text)
  /-- A scalar that resolves to one tag has another. -/
  | wrongTag (found text wanted : Text)
  | invalidBase64
  | mergeOfNoMapping
  /-- A collection stands as key of a nested mapping. -/
  | invalidKey (shown : Text)
  | excessiveAliasing
  | mismatches (found : List Mismatch)
deriving Inhabited

/-- A line in front of a message, when it is known. -/
def lineLabel (line : Nat) : Text := if line = 0 then [] else "line " ++ Text.ofNat line ++ ": "

/-- The fault in words. -/
def Fault.message : Fault → Text
  | malformed line p => "yaml: " ++ lineLabel line ++ p.text
  | unknownAnchor name => "yaml: unknown anchor '" ++ name ++ "' referenced"
  | selfReference name => "yaml: anchor '" ++ name ++ "' value contains itself"
  | wrongTag found text wanted =>
    "yaml: cannot decode " ++ found ++ " " ++ [Text.backtick] ++ text ++ [Text.backtick] ++ " as a " ++ wanted
  | invalidBase64 => "yaml: !!binary value contains invalid base64 data"
  | mergeOfNoMapping => "yaml: map merge requires map or sequence of maps as the value"
  | invalidKey shown => "yaml: invalid map key: " ++ shown
  | excessiveAliasing => "yaml: document contains excessive aliasing"
  | mismatches found => "yaml: unmarshal errors:\n  " ++ Text.join "\n  " (found.map Mismatch.text)

end Docweave.Yaml

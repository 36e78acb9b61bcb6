import Docweave.Text.Quoted
import Docweave.Text.Utf8

/-!
# URIs of documents

An editor names documents by URI: `file:///docs/a.v.md`. `Uri.toPath` reads the path of one, with its
escapes decoded; the host, the query and the fragment are read and dropped. `Uri.ofPath` names a path.
-/

namespace Docweave.Uri

open Docweave.Text

/-- Why a text is no URI. -/
inductive Cause
  | controlCharacter | missingScheme | colonInFirstSegment
  /-- A percent sign that no two hexadecimal digits follow, or an escape that may not stand here. -/
  | escape (text : Text)
  | hostCharacter (c : Char)
  | unclosedHost | port (text : Text) | userInfo
deriving DecidableEq, Inhabited

/-- The first bytes of a text between quotes. A character that is cut shows its bytes. -/
def quotedStart (n : Nat) (t : Text) : Text :=
  let byte : Nat → Text := fun b => ['\\', 'x', hexDigit (b / 16), hexDigit (b % 16)]
  let rec go : Nat → Text → Text
    | _, [] => []
    | n, c :: t =>
      if c.utf8Size ≤ n then quotedChar c ++ go (n - c.utf8Size) t
      else ((charBytes c).take n).flatMap byte
  quote :: go n t ++ [quote]

/-- The cause in words. -/
def Cause.text : Cause → Text
  | controlCharacter => "net/url: invalid control character in URL"
  | missingScheme => "missing protocol scheme"
  | colonInFirstSegment => "first path segment in URL cannot contain colon"
  | escape t => "invalid URL escape " ++ quotedStart 3 t
  | hostCharacter c => "invalid character " ++ quoted [c] ++ " in host name"
  | unclosedHost => "missing ']' in host"
  | port t => "invalid port " ++ quoted t ++ " after host"
  | userInfo => "net/url: invalid userinfo"

/-- Why a URI names no path. -/
inductive Fault
  /-- It cannot be read, for a cause; `uri` is the part of it that was being read. -/
  | unreadable (uri : Text) (cause : Cause)
  | scheme (name : Text)
deriving DecidableEq, Inhabited

/-- The fault in words. -/
def Fault.message : Fault → Text
  | unreadable uri cause => "parse " ++ quoted uri ++ ": " ++ cause.text
  | scheme name => "unsupported URI scheme " ++ quoted name

/-! ## Escapes -/

/-- The byte of the two digits behind a percent sign. -/
def escapedByte? : Text → Option Nat
  | a :: b :: _ => do return (← hexValue? a) * 16 + (← hexValue? b)
  | _ => none

/-- Takes the escapes out of a text. Bytes of escapes that follow each other make up characters. `pending`
holds such bytes, newest first. -/
def unescapeFrom (pending : List Nat) : Text → Except Cause Text
  | [] => .ok (ofBytes pending.reverse)
  | c :: t =>
    if c = '%' then
      match t with
      | a :: b :: r =>
        match escapedByte? [a, b] with
        | some byte => unescapeFrom (byte :: pending) r
        | none => .error (.escape (c :: t))
      | _ => .error (.escape (c :: t))
    else
      match unescapeFrom [] t with
      | .error e => .error e
      | .ok rest => .ok (ofBytes pending.reverse ++ c :: rest)

/-- A text without its escapes. -/
def unescape (t : Text) : Except Cause Text := unescapeFrom [] t

/-! ## The parts in front of the path -/

/-- ASCII characters that a host can have. -/
def isHostChar (c : Char) : Bool :=
  c.toNat ≥ 0x80 || isAlphanumeric c || "!$&'()*+,;=:[]<>\"-_.~".toList.contains c

/-- A host has no characters that would need an escape, and escapes only what is not ASCII; in the zone of
an address also what a host can have and the blank. -/
def checkHost (zone : Bool) : Text → Except Cause Unit
  | [] => .ok ()
  | c :: t =>
    if c = '%' then
      match t with
      | a :: b :: r =>
        match escapedByte? [a, b] with
        | none => .error (.escape (c :: t))
        | some byte =>
          let allowed := byte = 0x25 ||
            (if zone then byte = 0x20 || (byte < 0x80 && isHostChar (Char.ofNat byte)) else byte ≥ 0x80)
          if allowed then checkHost zone r else .error (.escape [c, a, b])
      | _ => .error (.escape (c :: t))
    else if isHostChar c then checkHost zone t
    else .error (.hostCharacter c)

/-- The text is empty, or a colon and digits. -/
def isOptionalPort (t : Text) : Bool :=
  match t with
  | [] => true
  | ':' :: r => r.all isDigit
  | _ => false

/-- What stands in front of the last `c` and from it on. -/
def cutLast? (c : Char) (t : Text) : Option (Text × Text) :=
  let behind := (t.reverse.takeWhile (· ≠ c)).reverse
  if behind.length = t.length then none
  else some (t.take (t.length - behind.length - 1), t.drop (t.length - behind.length - 1))

/-- Checks a host with its port. -/
def checkHostPort (t : Text) : Except Cause Unit :=
  match t with
  | '[' :: _ =>
    match cutLast? ']' t with
    | none => .error .unclosedHost
    | some (inside, tail) =>
      if !isOptionalPort (tail.drop 1) then .error (.port (tail.drop 1))
      else
        match cut? "%25" inside with
        | none => checkHost false t
        | some (address, zone) => do
          checkHost false address
          checkHost true ("%25" ++ zone)
          checkHost false tail
  | t =>
    match cutLast? ':' t with
    | none => checkHost false t
    | some (_, port) => if isOptionalPort port then checkHost false t else .error (.port port)

/-- Characters of the part of a user. -/
def isUserChar (c : Char) : Bool := isAlphanumeric c || "-._:~!$&'()*+,;=%@".toList.contains c

/-- Checks what stands between the two slashes and the path: a host, with a user in front of it. -/
def checkAuthority (t : Text) : Except Cause Unit :=
  match cutLast? '@' t with
  | none => checkHostPort t
  | some (user, host) => do
    checkHostPort (host.drop 1)
    if !user.all isUserChar then .error .userInfo
    let (name, password) := (cut? ":" user).getD (user, [])
    let _ ← unescape name
    let _ ← unescape password

/-- The scheme and what follows its colon; an empty scheme when there is none. -/
def splitScheme (t : Text) : Except Cause (Text × Text) :=
  let name := t.takeWhile fun c => isAlphanumeric c || c = '+' || c = '-' || c = '.'
  match t.drop name.length with
  | ':' :: rest =>
    match name with
    | [] => .error .missingScheme
    | c :: _ => if isLetter c then .ok (name.map lowerChar, rest) else .ok ([], t)
  | _ => .ok ([], t)

/-- A URI that has been read. -/
structure Parsed where
  scheme : Text
  path : Text
deriving DecidableEq, Inhabited

/-- Reads a URI without fragment. -/
def parseBare (t : Text) : Except Cause Parsed :=
  if t.any fun c => c.toNat < 0x20 || c.toNat = 0x7F then .error .controlCharacter
  else if t = ['*'] then .ok ⟨[], t⟩
  else do
    let (scheme, rest) ← splitScheme t
    let rest := rest.takeWhile (· ≠ '?')
    if rest.head? ≠ some '/' then
      if !scheme.isEmpty then return ⟨scheme, []⟩
      if (rest.takeWhile (· ≠ '/')).contains ':' then .error .colonInFirstSegment
    if startsWith rest "//" && (!scheme.isEmpty || !startsWith rest "///") then
      let behind := rest.drop 2
      checkAuthority (behind.takeWhile (· ≠ '/'))
      return ⟨scheme, ← unescape (behind.dropWhile (· ≠ '/'))⟩
    return ⟨scheme, ← unescape rest⟩

/-- Reads a URI. -/
def parse (t : Text) : Except Fault Parsed :=
  let bare := t.takeWhile (· ≠ '#')
  match parseBare bare with
  | .error c => .error (.unreadable bare c)
  | .ok u =>
    match unescape (t.drop (bare.length + 1)) with
    | .error c => .error (.unreadable t c)
    | .ok _ => .ok u

/-- The path that a URI names. -/
def toPath (t : Text) : Except Fault Text :=
  match parse t with
  | .error f => .error f
  | .ok u => if u.scheme.isEmpty || u.scheme = "file" then .ok u.path else .error (.scheme u.scheme)

/-- The URI of a path. -/
def ofPath (path : Text) : Text := "file://" ++ path

end Docweave.Uri

import Docweave.Qualifier.Braces

/-!
# Qualifiers

The text between the braces of `[x]{#intro .lead ::Card title="x"}`: an id, classes, a component or a slot,
and any other words, which pass through as attributes. `Qualifier.parse` reads the words from left to
right; quoted parts of a word are opaque.
-/

namespace Docweave

/-- A parsed qualifier. -/
structure Qualifier where
  id : Text := []
  classes : List Text := []
  component : Text := []
  slot : Text := []
  slotBinding : Text := []
  /-- The words that are none of the above. -/
  passthrough : Text := []
deriving DecidableEq, Inhabited

/-- What a qualifier turns its element into. -/
inductive QualifierKind
  | none | component | slot
deriving DecidableEq, Inhabited

namespace Qualifier

/-- Characters of an identifier. -/
def isIdent (c : Char) : Bool := c = '-' || c = '_' || Text.isAlphanumeric c

/-- The identifier at the front of a text. -/
def ident (t : Text) : Text := t.takeWhile isIdent

/-- The text behind the identifier at its front. -/
def afterIdent (t : Text) : Text := t.dropWhile isIdent

/-- Splits off the word at the front of a text. A word ends at a gap outside quotes; `inside` is the quote
that is open. -/
def splitWord (inside : Option Char) : Text → Text × Text
  | [] => ([], [])
  | c :: t =>
    match inside with
    | some q =>
      let (w, r) := splitWord (if c = q then none else some q) t
      (c :: w, r)
    | none =>
      if Text.isGap c then ([], c :: t)
      else
        let (w, r) := splitWord (if c = Text.quote || c = Text.apostrophe then some c else none) t
        (c :: w, r)

/-- The word at the front of a text. -/
def word (t : Text) : Text := (splitWord none t).1

/-- The text behind the word at its front. -/
def afterWord (t : Text) : Text := (splitWord none t).2

/-- The name and binding of a slot and the text behind, from behind the name's closing colons. Without
closing colons of its own the binding takes the rest. -/
def splitBinding (t : Text) : Text × Text :=
  match Text.cut? "::" t with
  | some (b, r) => (Text.trim b, r)
  | none => (Text.trim t, [])

/-! ### Lengths -/

theorem splitWord_append (q : Option Char) (t : Text) :
    (splitWord q t).1 ++ (splitWord q t).2 = t := by
  induction t generalizing q with
  | nil => rfl
  | cons c t ih =>
    unfold splitWord
    cases q with
    | some q => simp [ih]
    | none =>
      by_cases hc : Text.isGap c
      · simp [hc]
      · simp [hc, ih]

theorem length_afterWord_le {c : Char} {t : Text} (h : Text.isGap c = false) :
    (afterWord (c :: t)).length ≤ t.length := by
  have key := congrArg List.length
    (splitWord_append (if c = Text.quote || c = Text.apostrophe then some c else none) t)
  simp only [List.length_append] at key
  simp only [afterWord, splitWord, h, Bool.false_eq_true, if_false]
  omega

theorem length_afterIdent_le (t : Text) : (afterIdent t).length ≤ t.length := by
  unfold afterIdent
  induction t with
  | nil => simp
  | cons c t ih =>
    rw [List.dropWhile_cons]
    split
    · simp only [List.length_cons]; omega
    · simp

theorem length_of_dropPrefix? {p t r : Text} (h : Text.dropPrefix? p t = some r) :
    r.length + p.length = t.length := by
  induction p generalizing t with
  | nil => simp only [Text.dropPrefix?, Option.some.injEq] at h; simp [h]
  | cons a p ih =>
    cases t with
    | nil => simp [Text.dropPrefix?] at h
    | cons c t =>
      unfold Text.dropPrefix? at h
      split at h
      · have := ih h; simp only [List.length_cons]; omega
      · simp at h

theorem length_cut?_le {p t a r : Text} (h : Text.cut? p t = some (a, r)) : r.length ≤ t.length := by
  induction t generalizing a with
  | nil =>
    unfold Text.cut? at h
    split at h
    · simp only [Option.some.injEq, Prod.mk.injEq] at h; simp [← h.2]
    · simp at h
  | cons c t ih =>
    unfold Text.cut? at h
    split at h
    · next rest hd =>
      have := length_of_dropPrefix? hd
      simp only [Option.some.injEq, Prod.mk.injEq] at h
      rw [← h.2]; omega
    · cases hc : Text.cut? p t with
      | none => rw [hc] at h; simp at h
      | some ab =>
        rw [hc] at h
        simp only [Option.map_some, Option.some.injEq, Prod.mk.injEq] at h
        have : Text.cut? p t = some (ab.1, r) := by rw [hc, ← h.2]
        have := ih this
        simp only [List.length_cons]; omega

theorem length_splitBinding_le (t : Text) : (splitBinding t).2.length ≤ t.length := by
  unfold splitBinding
  split
  · next h => exact length_cut?_le h
  · simp

/-! ### Reading -/

/-- The reader: `boundary` holds at the start, after a gap and right behind a recognised word; only there
an id, class, component or slot may begin. `words` are the passing words, newest first. -/
def scan (boundary : Bool) (a : Qualifier) (words : List Text) : Text → Qualifier × List Text
  | [] => (a, words.reverse)
  | c :: t =>
    if _gap : Text.isGap c then scan true a words t
    else if boundary && c = ':' && t.head? = some ':' && !(ident t.tail).isEmpty then
      let name := ident t.tail
      match _binds : Text.dropPrefix? "::" (afterIdent t.tail) with
      | some b =>
        scan true { a with slot := name, slotBinding := (splitBinding b).1 } words (splitBinding b).2
      | none => scan true { a with component := name } words (afterIdent t.tail)
    else if boundary && c = '#' && !(ident t).isEmpty then
      scan true { a with id := ident t } words (afterIdent t)
    else if boundary && c = '.' && !(ident t).isEmpty then
      scan true { a with classes := a.classes ++ [ident t] } words (afterIdent t)
    else scan false a (word (c :: t) :: words) (afterWord (c :: t))
termination_by s => s.length
decreasing_by
  · simp
  · have h1 := length_of_dropPrefix? _binds
    have h2 := length_afterIdent_le t.tail
    have h3 := length_splitBinding_le b
    have h4 : t.tail.length ≤ t.length := by simp
    simp only [List.length_cons]; omega
  · have h2 := length_afterIdent_le t.tail
    have h4 : t.tail.length ≤ t.length := by simp
    simp only [List.length_cons]; omega
  · have := length_afterIdent_le t
    simp only [List.length_cons]; omega
  · have := length_afterIdent_le t
    simp only [List.length_cons]; omega
  · have := length_afterWord_le (c := c) (t := t) (by simpa using _gap)
    simp only [List.length_cons]; omega

/-- Reads a qualifier body. Of several ids, components or slots the last one counts. -/
def parse (body : Text) : Qualifier :=
  let (a, words) := scan true {} [] body
  { a with passthrough := Text.trim (Text.join " " words) }

/-- A component wins over a slot. -/
def kind (a : Qualifier) : QualifierKind :=
  if !a.component.isEmpty then .component
  else if !a.slot.isEmpty then .slot
  else .none

/-- The element name that the qualifier asks for, or else `fallback`. -/
def tag (a : Qualifier) (fallback : Text) : Text :=
  match a.kind with
  | .component => a.component
  | .slot => "template"
  | .none => fallback

/-- An attribute with a value in double quotes. -/
def quoted (name value : Text) : Text := name ++ ['=', Text.quote] ++ value ++ [Text.quote]

/-- The attribute that names the slot and what it binds. -/
def slotAttr (a : Qualifier) : Text :=
  if a.slotBinding.isEmpty then '#' :: a.slot else quoted ('#' :: a.slot) a.slotBinding

/-- The attributes as text: the slot, the id, the classes and the passing words, in that order. -/
def attrText (a : Qualifier) : Text :=
  Text.join " " (
    (if a.kind = .slot then [a.slotAttr] else []) ++
    (if a.id.isEmpty then [] else [quoted "id" a.id]) ++
    (if a.classes.isEmpty then [] else [quoted "class" (Text.join " " a.classes)]) ++
    (if a.passthrough.isEmpty then [] else [a.passthrough]))

/-- The qualifier renders an id, a class or a passing word. -/
def hasAttrs (a : Qualifier) : Bool := !a.id.isEmpty || !a.classes.isEmpty || !a.passthrough.isEmpty

/-! ### Looking up an attribute -/

/-- A value without the quotes around it. -/
def unquote (v : Text) : Text :=
  match v with
  | q :: r =>
    if (q = Text.quote || q = Text.apostrophe) && !r.isEmpty && r.getLast? = some q then r.dropLast else v
  | [] => []

/-- The words of a qualifier body. -/
def words : Text → List Text
  | [] => []
  | c :: t =>
    if _gap : Text.isGap c then words t else word (c :: t) :: words (afterWord (c :: t))
termination_by s => s.length
decreasing_by
  · simp
  · have := length_afterWord_le (c := c) (t := t) (by simpa using _gap)
    simp only [List.length_cons]; omega

/-- The name and value of a word with an equals sign. -/
def nameValue? (w : Text) : Option (Text × Text) := Text.cut? "=" w

/-- The value of the first word `name=value` in a qualifier, outer braces or not. -/
def lookup? (body name : Text) : Option Text :=
  let inner := Text.trimSuffix "\x7d" (Text.trimPrefix "\x7b" (Text.trim body))
  ((words inner).filterMap nameValue?).find? (·.1 = name) |>.map fun (_, v) => unquote v

end Qualifier

end Docweave

import Docweave.Qualifier.Basic
import Docweave.Text.Escape
import Docweave.Tree.Node

/-!
# Bracket constructs

Inside markup `[text]{.note}` becomes an element around the text, `:[expr]` an interpolation, and both
together an element around an interpolation. Brackets without qualifier stay as they are, and a backslash
in front makes a construct literal.
-/

namespace Docweave

/-- A bracket construct: `[content]` or, with the sigil, `:[content]`, and its qualifier if it has one. -/
structure BracketSpan where
  sigil : Bool
  content : Text
  qualifier : Option Text
deriving DecidableEq, Inhabited

namespace BracketSpan

/-- A construct may start here. -/
def starts : Text → Bool
  | '[' :: _ => true
  | ':' :: '[' :: _ => true
  | _ => false

/-- The body of a group of braces and the text behind it, from behind the opening brace; `depth` more
groups are open inside. -/
def group? (depth : Nat) : Text → Option (Text × Text)
  | [] => none
  | c :: t =>
    if c = '\x7d' then
      match depth with
      | 0 => some ([], t)
      | d + 1 => (group? d t).map fun (b, r) => (c :: b, r)
    else if c = '\x7b' then (group? (depth + 1) t).map fun (b, r) => (c :: b, r)
    else (group? depth t).map fun (b, r) => (c :: b, r)

/-- The content up to the first closing bracket; it may hold neither an opening bracket nor a newline. -/
def content? : Text → Option (Text × Text)
  | [] => none
  | c :: t =>
    if c = ']' then some ([], t)
    else if c = '[' || c = '\n' then none
    else (content? t).map fun (a, r) => (c :: a, r)

/-- The opening bracket at the front of a text: whether it has the sigil, and the text behind it. -/
def opening? : Text → Option (Bool × Text)
  | ':' :: '[' :: r => some (true, r)
  | '[' :: r => some (false, r)
  | _ => none

/-- The construct with this content, of which `rest` is the text behind the closing bracket. Braces that do
not balance are no qualifier. -/
def withQualifier (sigil : Bool) (content rest : Text) : BracketSpan × Text :=
  match rest with
  | '\x7b' :: r =>
    match group? 0 r with
    | some (body, behind) => (⟨sigil, content, some body⟩, behind)
    | none => (⟨sigil, content, none⟩, rest)
  | _ => (⟨sigil, content, none⟩, rest)

/-- The construct at the front of a text and the text behind it. Its content may not be empty. -/
def match? (t : Text) : Option (BracketSpan × Text) :=
  match opening? t with
  | none => none
  | some (sigil, inner) =>
    match content? inner with
    | none => none
    | some (content, rest) => if content.isEmpty then none else some (withQualifier sigil content rest)

/-- The markup of a construct that was written as `literal`. -/
def render (b : BracketSpan) (literal : Text) : Text :=
  let inner := if b.sigil then "\x7b\x7b " ++ Text.trim b.content ++ " \x7d\x7d" else b.content
  match b.qualifier with
  | none => if b.sigil then inner else literal
  | some body =>
    let a := Qualifier.parse body
    match a.kind with
    | .slot => "<template " ++ a.attrText ++ ">" ++ inner ++ "</template>"
    | _ => element (a.tag Node.defaultInlineTag) a.attrText inner

theorem length_content? {t a r : Text} (h : content? t = some (a, r)) : r.length < t.length := by
  induction t generalizing a with
  | nil => simp [content?] at h
  | cons c t ih =>
    unfold content? at h
    split at h
    · simp only [Option.some.injEq, Prod.mk.injEq] at h; simp [← h.2]
    · split at h
      · simp at h
      · cases hc : content? t with
        | none => rw [hc] at h; simp at h
        | some p =>
          rw [hc] at h
          simp only [Option.map_some, Option.some.injEq, Prod.mk.injEq] at h
          have := ih (a := p.1) (by rw [hc, ← h.2])
          simp only [List.length_cons]; omega

theorem length_group? {d : Nat} {t b r : Text} (h : group? d t = some (b, r)) : r.length < t.length := by
  induction t generalizing b d with
  | nil => simp [group?] at h
  | cons c t ih =>
    have step : ∀ {d' : Nat} {b : Text},
        (group? d' t).map (fun (x : Text × Text) => (c :: x.1, x.2)) = some (b, r) → r.length < t.length + 1 := by
      intro d' b h
      cases hg : group? d' t with
      | none => rw [hg] at h; simp at h
      | some p =>
        rw [hg] at h
        simp only [Option.map_some, Option.some.injEq, Prod.mk.injEq] at h
        have := ih (b := p.1) (d := d') (by rw [hg, ← h.2])
        omega
    unfold group? at h
    simp only [List.length_cons]
    split at h
    · cases d with
      | zero => simp only [Option.some.injEq, Prod.mk.injEq] at h; rw [← h.2]; omega
      | succ d => exact step h
    · split at h <;> exact step h

theorem length_opening? {t r : Text} {s : Bool} (h : opening? t = some (s, r)) : r.length < t.length := by
  unfold opening? at h
  split at h
  · simp only [Option.some.injEq, Prod.mk.injEq] at h; simp only [← h.2, List.length_cons]; omega
  · simp only [Option.some.injEq, Prod.mk.injEq] at h; simp [← h.2]
  · simp at h

theorem length_withQualifier_le (s : Bool) (c r : Text) : (withQualifier s c r).2.length ≤ r.length := by
  unfold withQualifier
  split
  · split
    · next h => have := length_group? h; simp only [List.length_cons]; omega
    · simp
  · simp

theorem length_match? {t r : Text} {b : BracketSpan} (h : match? t = some (b, r)) : r.length < t.length := by
  unfold match? at h
  split at h
  · simp at h
  · next s inner ho =>
    have h1 := length_opening? ho
    split at h
    · simp at h
    · next content rest hc =>
      have h2 := length_content? hc
      split at h
      · simp at h
      · have h3 := length_withQualifier_le s content rest
        simp only [Option.some.injEq] at h
        rw [h] at h3
        simp only at h3
        omega

end BracketSpan

/-- Rewrites the bracket constructs of a piece of markup, from left to right. -/
def rewriteBrackets : Text → Text
  | [] => []
  | c :: t =>
    if c = '\\' && BracketSpan.starts t then
      match _found : BracketSpan.match? t with
      | some (_, rest) => Text.escapeHtml (t.take (t.length - rest.length)) ++ rewriteBrackets rest
      | none =>
        -- a bracket that is escaped on its own
        t.head?.toList ++ rewriteBrackets t.tail
    else
      match _found : BracketSpan.match? (c :: t) with
      | some (b, rest) => b.render ((c :: t).take (t.length + 1 - rest.length)) ++ rewriteBrackets rest
      | none => c :: rewriteBrackets t
termination_by s => s.length
decreasing_by
  · have := BracketSpan.length_match? _found
    simp only [List.length_cons]; omega
  · simp only [List.length_cons, List.length_tail]; omega
  · have := BracketSpan.length_match? _found
    simpa using this
  · simp

end Docweave

import Docweave.Proofs.BracketPieces
import Docweave.Tree.Build

/-!
# Whose qualifier it is

A group of braces at the end of a block may be the qualifier of the block or that of
a bracket construct in front of it. The first is decided while the tree is built, by
the last character in front of the group that is no blank (`takeQualifier?`), the second
while brackets are rewritten, by reading the constructs of the text from the left up to
the brace. They agree where the text in front of the group ends in a construct and where,
blanks aside, it does not end in a bracket: then the group has one owner. Behind a
construct that is escaped, behind a bracket that closes none, and behind blanks that
follow a bracket, it has none and is written out.

> `takeQualifier?_eq`: when the block takes the group.

> `covering_piece`: one piece covers a place of a text, so that the group cannot
> belong to two.

> `bracketPieces_qualified`: a group behind a construct becomes its qualifier, and
> nothing else changes.

> `bracketPieces_unowned`: a group behind any other bracket is read as text.

> `trailing_qualifier_owner`: who owns the group, and what becomes of one that nobody
> owns.
-/

namespace Docweave

open BracketSpan (group? match? withQualifier IsContent)

/-- What `takeQualifier?` trims from the text in front of a group. -/
def isIndent (c : Char) : Bool := c = ' ' || c = '\t'

/-- The text `m` is `t` with a balanced group of braces behind it, and gaps behind that. -/
structure EndsInGroup (m t body gaps : Text) : Prop where
  eq : m = t ++ '\x7b' :: (body ++ '\x7d' :: gaps)
  gaps : ∀ c ∈ gaps, Text.isGap c = true
  balanced : Balanced body

/-- The block takes the group at the end of its last text. -/
def BlockOwns (children : List Node) (t body : Text) : Prop :=
  takeQualifier? children = some (children.dropLast ++ [.html (Text.trimRight isIndent t)], body)

/-- The rewriting takes the group behind `t` as the qualifier of a construct. -/
def ConstructOwns (m t body : Text) : Prop :=
  ∃ ps b qs, bracketPieces m = ps ++ .construct b :: qs ∧ writtenPieces ps ++ b.brackets = t ∧
    b.qualifier = some body

/-- The text ends in a construct that has no qualifier. -/
def EndsInConstruct (t : Text) : Prop := ∃ ps b, bracketPieces t = ps ++ [.construct b] ∧ b.qualifier = none

/-- The text ends in a construct that has no qualifier and is escaped. -/
def EndsInLiteral (t : Text) : Prop := ∃ ps b, bracketPieces t = ps ++ [.literal b] ∧ b.qualifier = none

/-- The construct with this qualifier. -/
def BracketSpan.qualified (b : BracketSpan) (body : Text) : BracketSpan := { b with qualifier := some body }

section

variable {children : List Node} {t m body r gaps : Text} {b : BracketSpan} {p q last : BracketPiece}
  {ps qs us vs : List BracketPiece} {n : Nat}

/-! ## The block -/

/-- A block takes the group at its end unless a bracket stands in front. -/
theorem takeQualifier?_eq (hlast : children.getLast? = some (.html m))
    (hsplit : Braces.splitTrailing? m = some (t, body)) (hbody : Text.startsWith body "\x7b" = false)
    (htext : ∃ c ∈ t, isIndent c = false) :
    takeQualifier? children =
      if Text.endsWith (Text.trimRight isIndent t) "]" then none
      else some (children.dropLast ++ [.html (Text.trimRight isIndent t)], body) := by
  have hne : (Text.trimRight isIndent t).isEmpty = false := by
    obtain ⟨c, hc, hin⟩ := htext
    obtain ⟨tail, ht, htail⟩ := Text.eq_trimRight_append isIndent t
    rw [List.isEmpty_eq_false_iff]
    intro hnil
    rw [hnil, List.nil_append] at ht
    exact absurd (htail c (ht ▸ hc)) (by simp [hin])
  unfold takeQualifier?
  simp only [hlast, hsplit, hbody, Bool.false_or]
  rw [show (Text.trimRight (fun c => c = ' ' || c = '\t') t).isEmpty = false from hne, Bool.false_or]
  rfl

theorem brackets_concat (b : BracketSpan) : ∃ s, b.brackets = s ++ [']'] :=
  ⟨(if b.sigil then [':'] else []) ++ '[' :: b.content, by
    rw [BracketSpan.brackets, List.append_assoc, List.cons_append]⟩

/-- A text that ends in a bracket keeps it. -/
theorem endsWith_trimRight (r : Text) : Text.endsWith (Text.trimRight isIndent (r ++ [']'])) "]" = true := by
  rw [Text.trimRight_concat r rfl]
  exact Text.endsWith_iff.2 ⟨r, rfl⟩

theorem endsWith_of_owns (h : ConstructOwns m t body) :
    Text.endsWith (Text.trimRight isIndent t) "]" = true := by
  obtain ⟨ps, b, qs, -, rfl, -⟩ := h
  obtain ⟨s, hs⟩ := brackets_concat b
  rw [hs, ← List.append_assoc]
  exact endsWith_trimRight _

/-! ## The construct -/

/-- The pieces of one text are not cut in two ways: one piece covers a place. -/
theorem covering_piece (h : ps ++ p :: qs = us ++ q :: vs)
    (hps : (writtenPieces ps).length ≤ n) (hp : n < (writtenPieces (ps ++ [p])).length)
    (hus : (writtenPieces us).length ≤ n) (hq : n < (writtenPieces (us ++ [q])).length) : p = q := by
  have behind : ∀ {ps qs us vs : List BracketPiece} {p q : BracketPiece} {w : List BracketPiece},
      us = ps ++ w → p :: qs = w ++ q :: vs → (writtenPieces us).length ≤ n →
      n < (writtenPieces (ps ++ [p])).length → p = q := by
    intro ps qs us vs p q w hw htail hus hp
    cases w with
    | nil => exact (List.cons.inj htail).1
    | cons x w =>
      obtain ⟨rfl, -⟩ := List.cons.inj htail
      rw [hw, ← List.singleton_append, ← List.append_assoc, writtenPieces_append, List.length_append] at hus
      omega
  rcases List.append_eq_append_iff.1 h with ⟨w, hw, htail⟩ | ⟨w, hw, htail⟩
  · exact behind hw htail hus hp
  · exact (behind hw htail hps hq).symm

/-- The group behind `t` starts in the piece of its owner. -/
theorem not_owns_of_covering (hread : bracketPieces m = ps ++ p :: qs) (hp : ∀ b, p ≠ .construct b)
    (hps : (writtenPieces ps).length ≤ t.length) (hcover : t.length < (writtenPieces (ps ++ [p])).length) :
    ¬ ConstructOwns m t body := by
  rintro ⟨us, b, vs, hread', rfl, hqualifier⟩
  refine hp b (covering_piece (hread.symm.trans hread') hps hcover ?_ ?_)
  · rw [List.length_append]
    omega
  · have hwritten : BracketPiece.written (.construct b) = b.brackets ++ BracketSpan.braces (some body) := by
      rw [← hqualifier]
      rfl
    rw [writtenPieces_concat, hwritten, List.length_append, List.length_append, List.length_append,
      BracketSpan.braces, List.length_cons]
    omega

theorem close_not_mem (h : EndsInGroup m t body gaps) : '\x7d' ∉ gaps := fun hmem =>
  absurd (h.gaps _ hmem) (by decide)

theorem bracket_not_mem (h : EndsInGroup m t body gaps) : '[' ∉ gaps := fun hmem =>
  absurd (h.gaps _ hmem) (by decide)

/-- The group closes no brace in front of it. -/
theorem staysOpen_group (h : EndsInGroup m t body gaps) : StaysOpen t ('\x7b' :: (body ++ '\x7d' :: gaps)) := by
  rintro u r - hnone
  exact group?_eq_none_iff.2 (within_append_group (group?_eq_none_iff.1 hnone) h.balanced (close_not_mem h))

theorem text_of_open (h : b.qualifier = none) : b.text = b.brackets := by
  rw [BracketSpan.text, h, BracketSpan.braces, List.append_nil]

/-- A group right behind a construct becomes its qualifier. -/
theorem match?_qualified (hfound : match? b.text = some (b, [])) (hq : b.qualifier = none)
    (hbody : Balanced body) (r : Text) :
    match? (b.text ++ '\x7b' :: (body ++ '\x7d' :: r)) = some (b.qualified body, r) := by
  obtain ⟨rest, -, hcontent, -⟩ := match?_eq_some_iff.1 hfound
  refine match?_eq_some_iff.2 ⟨'\x7b' :: (body ++ '\x7d' :: r), ?_, hcontent, ?_⟩
  · rw [text_of_open hq]
    rfl
  · rw [withQualifier, group?_zero_iff.2 ⟨rfl, hbody⟩]
    rfl

/-- The piece of a construct, as it is or escaped, with this qualifier. -/
def BracketPiece.qualified (body : Text) : BracketPiece → BracketPiece
  | .literal b => .literal (b.qualified body)
  | .construct b => .construct (b.qualified body)
  | p => p

/-- A piece that is a construct without qualifier, as it is or escaped. -/
inductive BracketPiece.IsOpen : BracketPiece → Prop
  | literal {b : BracketSpan} (h : b.qualifier = none) : IsOpen (.literal b)
  | construct {b : BracketSpan} (h : b.qualifier = none) : IsOpen (.construct b)

/-- What is written in front of the group ends in the bracket of its construct. -/
theorem written_concat (h : p.IsOpen) : ∃ s, p.written = s ++ [']'] := by
  cases h with
  | @literal b h =>
    obtain ⟨s, hs⟩ := brackets_concat b
    exact ⟨'\\' :: s, by rw [BracketPiece.written, text_of_open h, hs, List.cons_append]⟩
  | @construct b h =>
    obtain ⟨s, hs⟩ := brackets_concat b
    exact ⟨s, by rw [BracketPiece.written, text_of_open h, hs]⟩

theorem written_qualified (h : p.IsOpen) (body : Text) :
    (p.qualified body).written = p.written ++ '\x7b' :: (body ++ ['\x7d']) := by
  cases h with
  | @literal b h =>
    show '\\' :: (b.brackets ++ _) = '\\' :: b.text ++ _
    rw [text_of_open h]
    rfl
  | @construct b h =>
    show b.brackets ++ _ = b.text ++ _
    rw [text_of_open h]
    rfl

/-- **A group behind a construct** becomes its qualifier, whether it is escaped or not,
and all other pieces of the text stay. -/
theorem bracketPieces_qualified (h : EndsInGroup m t body gaps) (hread : bracketPieces t = ps ++ [last])
    (hopen : last.IsOpen) : bracketPieces m = ps ++ last.qualified body :: gaps.map BracketPiece.char := by
  have hstop : HasStop last.written := by
    obtain ⟨s, hs⟩ := written_concat hopen
    exact ⟨']', hs ▸ List.mem_concat_self, Or.inl rfl⟩
  have hfront : FrontPiece (last.written ++ '\x7b' :: (body ++ '\x7d' :: gaps)) (last.qualified body) gaps := by
    have hlast := frontPiece_last hread
    cases hopen with
    | literal hq => exact .literal (match?_qualified (frontPiece_literal_iff.1 hlast) hq h.balanced gaps)
    | construct hq => exact .construct (match?_qualified (frontPiece_construct_iff.1 hlast) hq h.balanced gaps)
  rw [h.eq, bracketPieces_append_last hread hstop (staysOpen_group h), bracketPieces_front hfront,
    bracketPieces_of_not_mem (bracket_not_mem h)]

/-! ## Other brackets -/

/-- A construct that ends in a bracket has no qualifier. -/
theorem qualifier_of_bracket {u : Text} (h : u ++ b.text = r ++ [']']) : b.qualifier = none := by
  cases hq : b.qualifier with
  | none => rfl
  | some body =>
    have hlast := congrArg List.getLast? h
    rw [BracketSpan.text, hq, BracketSpan.braces, ← List.cons_append, ← List.append_assoc, ← List.append_assoc,
      List.getLast?_concat, List.getLast?_concat] at hlast
    exact absurd hlast (by decide)

/-- **The last bracket of a text** is copied, or it closes a construct without
qualifier. -/
theorem last_of_bracket (ht : t = r ++ [']']) :
    ∃ ps last, bracketPieces t = ps ++ [last] ∧ (last = .char ']' ∨ last.IsOpen) := by
  have hwritten := written_bracketPieces t
  rcases List.eq_nil_or_concat' (bracketPieces t) with hnil | ⟨ps, last, hread⟩
  · rw [hnil, ht] at hwritten
    exact absurd hwritten.symm (by simp [writtenPieces])
  refine ⟨ps, last, hread, ?_⟩
  rw [hread, writtenPieces_concat, ht] at hwritten
  have hfront := frontPiece_last hread
  cases last with
  | char c =>
    have hlast := congrArg List.getLast? hwritten
    obtain rfl : c = ']' := by simpa [BracketPiece.written] using hlast
    exact Or.inl rfl
  | bare c =>
    have hlast := congrArg List.getLast? hwritten
    obtain rfl : c = ']' := by simpa [BracketPiece.written] using hlast
    cases hfront with
    | bare hstarts _ => exact absurd hstarts (by decide)
  | literal b =>
    have hsame : (writtenPieces ps ++ ['\\']) ++ b.text = r ++ [']'] := by
      rw [List.append_assoc]
      exact hwritten
    exact Or.inr (.literal (qualifier_of_bracket hsame))
  | construct b => exact Or.inr (.construct (qualifier_of_bracket hwritten))

theorem not_starts_of_indent {c : Char} (hc : isIndent c = true) (s : Text) : BracketSpan.starts (c :: s) = false := by
  rw [← Bool.not_eq_true]
  intro hs
  obtain ⟨r, hr | hr⟩ := eq_of_starts hs
  · rw [(List.cons.inj hr).1] at hc
    exact absurd hc (by decide)
  · rw [(List.cons.inj hr).1] at hc
    exact absurd hc (by decide)

/-- Blanks in front of a text are copied. -/
theorem bracketPieces_indents {w : Text} (hw : ∀ c ∈ w, isIndent c = true) (s : Text) :
    bracketPieces (w ++ s) = w.map BracketPiece.char ++ bracketPieces s := by
  induction w with
  | nil => rfl
  | cons c w ih =>
    have hc : isIndent c = true := hw c (List.mem_cons_self ..)
    have hfront : FrontPiece (c :: (w ++ s)) (.char c) (w ++ s) := by
      refine .char (match?_of_not_starts (not_starts_of_indent hc _)) ?_
      rintro rfl
      exact absurd hc (by decide)
    rw [List.cons_append, bracketPieces_front hfront, ih fun d hd => hw d (List.mem_cons_of_mem _ hd)]
    rfl

/-- A construct is left alone by what is no brace right behind it. -/
theorem match?_apart {c : Char} (hfound : match? b.text = some (b, [])) (hq : b.qualifier = none)
    (hc : c ≠ '\x7b') (s : Text) : match? (b.text ++ c :: s) = some (b, c :: s) := by
  obtain ⟨-, -, hcontent, -⟩ := match?_eq_some_iff.1 hfound
  refine match?_eq_some_iff.2 ⟨c :: s, by rw [text_of_open hq], hcontent, ?_⟩
  unfold withQualifier
  split
  next r hr => exact absurd (List.cons.inj hr).1 hc
  next => rw [← hq]

/-- A bracket that is copied, or behind which blanks stand, is read as it is in front
of a brace. -/
theorem frontPiece_apart {w : Text} (hw : ∀ c ∈ w, isIndent c = true) (hlast : FrontPiece last.written last [])
    (hcases : last = .char ']' ∨ last.IsOpen ∧ w ≠ []) (s : Text) :
    FrontPiece (last.written ++ (w ++ s)) last (w ++ s) := by
  rcases hcases with rfl | ⟨hopen, hne⟩
  · exact .char (match?_of_not_starts rfl) fun h => absurd h (by decide)
  · cases w with
    | nil => exact absurd rfl hne
    | cons c w =>
      have hc : c ≠ '\x7b' := by
        rintro rfl
        exact absurd (hw _ (List.mem_cons_self ..)) (by decide)
      cases hopen with
      | literal hq => exact .literal (match?_apart (frontPiece_literal_iff.1 hlast) hq hc (w ++ s))
      | construct hq => exact .construct (match?_apart (frontPiece_construct_iff.1 hlast) hq hc (w ++ s))

theorem unbracketed_of_indents {w : Text} (hw : ∀ c ∈ w, isIndent c = true) : Unbracketed w := by
  intro c hc
  refine ⟨?_, ?_, ?_, ?_⟩ <;> rintro rfl <;> exact absurd (hw _ hc) (by decide)

/-- **A group behind any other bracket,** or behind blanks that follow a bracket, is
read as text. -/
theorem bracketPieces_unowned (h : EndsInGroup m t body gaps)
    (hbracket : Text.endsWith (Text.trimRight isIndent t) "]" = true) (hconstruct : ¬ EndsInConstruct t)
    (hliteral : ¬ EndsInLiteral t) :
    bracketPieces m = bracketPieces t ++ .char '\x7b' :: bracketPieces (body ++ '\x7d' :: gaps) := by
  obtain ⟨w, ht, hw⟩ := Text.eq_trimRight_append isIndent t
  generalize Text.trimRight isIndent t = u at ht hbracket
  obtain ⟨r, hr⟩ := Text.endsWith_iff.1 hbracket
  have hu : u = r ++ [']'] := hr
  obtain ⟨ps, last, hread, hlast⟩ := last_of_bracket hu
  have hcases : last = .char ']' ∨ last.IsOpen ∧ w ≠ [] := by
    refine hlast.imp_right fun hopen => ⟨hopen, ?_⟩
    rintro rfl
    rw [List.append_nil] at ht
    subst ht
    cases hopen with
    | literal hq => exact hliteral ⟨ps, _, hread, hq⟩
    | construct hq => exact hconstruct ⟨ps, _, hread, hq⟩
  have hstop : HasStop last.written := by
    rcases hlast with rfl | hopen
    · exact ⟨']', List.mem_singleton.2 rfl, Or.inl rfl⟩
    · obtain ⟨v, hv⟩ := written_concat hopen
      exact ⟨']', hv ▸ List.mem_concat_self, Or.inl rfl⟩
  have hstays : StaysOpen u (w ++ '\x7b' :: (body ++ '\x7d' :: gaps)) := by
    intro v x hu hnone
    have hopen := staysOpen_of_unbracketed (unbracketed_of_indents hw) u v x hu hnone
    rw [← List.append_assoc]
    exact staysOpen_group h v (x ++ w) (by rw [ht, hu, List.append_assoc, List.cons_append]) hopen
  have hbrace : FrontPiece ('\x7b' :: (body ++ '\x7d' :: gaps)) (.char '\x7b') (body ++ '\x7d' :: gaps) :=
    .char (match?_of_not_starts rfl) fun h => absurd h (by decide)
  calc bracketPieces m
    _ = bracketPieces (u ++ (w ++ '\x7b' :: (body ++ '\x7d' :: gaps))) := by rw [h.eq, ht, List.append_assoc]
    _ = ps ++ bracketPieces (last.written ++ (w ++ '\x7b' :: (body ++ '\x7d' :: gaps))) :=
      bracketPieces_append_last hread hstop hstays
    _ = ps ++ last :: (w.map BracketPiece.char ++ bracketPieces ('\x7b' :: (body ++ '\x7d' :: gaps))) := by
      rw [bracketPieces_front (frontPiece_apart hw (frontPiece_last hread) hcases _), bracketPieces_indents hw]
    _ = bracketPieces t ++ bracketPieces ('\x7b' :: (body ++ '\x7d' :: gaps)) := by
      rw [ht, bracketPieces_append_unbracketed (unbracketed_of_indents hw), hread]
      simp only [List.append_assoc, List.cons_append, List.nil_append]
    _ = bracketPieces t ++ .char '\x7b' :: bracketPieces (body ++ '\x7d' :: gaps) := by
      rw [bracketPieces_front hbrace]

/-! ## The owner -/

theorem eq_of_read (hread : bracketPieces t = ps ++ [last]) : t = writtenPieces ps ++ last.written := by
  rw [← writtenPieces_concat, ← hread, written_bracketPieces]

/-- A block leaves the group behind a construct alone, escaped or not. -/
theorem endsWith_of_open (hread : bracketPieces t = ps ++ [last]) (hopen : last.IsOpen) :
    Text.endsWith (Text.trimRight isIndent t) "]" = true := by
  obtain ⟨s, hs⟩ := written_concat hopen
  rw [eq_of_read hread, hs, ← List.append_assoc]
  exact endsWith_trimRight _

/-- What becomes of a text with a group behind a construct, escaped or not. -/
theorem rewriteBrackets_qualified (h : EndsInGroup m t body gaps) (hread : bracketPieces t = ps ++ [last])
    (hopen : last.IsOpen) :
    rewriteBrackets m = ps.flatMap BracketPiece.shown ++ ((last.qualified body).shown ++ gaps) := by
  rw [rewriteBrackets_eq_shown, bracketPieces_qualified h hread hopen, List.flatMap_append, List.flatMap_cons,
    shown_chars]

theorem owns_of_construct (h : EndsInGroup m t body gaps) (hread : bracketPieces t = ps ++ [.construct b])
    (hq : b.qualifier = none) : ConstructOwns m t body := by
  have hpieces := bracketPieces_qualified h hread (.construct hq)
  refine ⟨ps, b.qualified body, gaps.map BracketPiece.char, hpieces, ?_, rfl⟩
  rw [eq_of_read hread, BracketPiece.written, text_of_open hq]
  rfl

theorem not_owns_of_literal (h : EndsInGroup m t body gaps) (hread : bracketPieces t = ps ++ [.literal b])
    (hq : b.qualifier = none) : ¬ ConstructOwns m t body := by
  have hopen : BracketPiece.IsOpen (.literal b) := .literal hq
  refine not_owns_of_covering (bracketPieces_qualified h hread hopen) (fun _ => BracketPiece.noConfusion) ?_ ?_
  · rw [eq_of_read hread, List.length_append]
    omega
  · rw [writtenPieces_concat, written_qualified hopen, ← List.append_assoc, ← eq_of_read hread, List.length_append,
      List.length_cons]
    omega

theorem not_owns_of_text
    (hread : bracketPieces m = bracketPieces t ++ .char '\x7b' :: bracketPieces (body ++ '\x7d' :: gaps)) :
    ¬ ConstructOwns m t body := by
  refine not_owns_of_covering hread (fun _ => BracketPiece.noConfusion) ?_ ?_
  · exact Nat.le_of_eq (congrArg List.length (written_bracketPieces t))
  · rw [writtenPieces_concat, written_bracketPieces, List.length_append]
    exact Nat.lt_succ_self _

/-- What becomes of a text with a group that is read as text. -/
theorem rewriteBrackets_unowned
    (hread : bracketPieces m = bracketPieces t ++ .char '\x7b' :: bracketPieces (body ++ '\x7d' :: gaps)) :
    rewriteBrackets m = rewriteBrackets t ++ '\x7b' :: rewriteBrackets (body ++ '\x7d' :: gaps) := by
  rw [rewriteBrackets_eq_shown, rewriteBrackets_eq_shown, rewriteBrackets_eq_shown, hread, List.flatMap_append,
    List.flatMap_cons]
  rfl

/-- A construct owns the group exactly when it ends right in front of it. -/
theorem constructOwns_iff (h : EndsInGroup m t body gaps) : ConstructOwns m t body ↔ EndsInConstruct t := by
  constructor
  · intro howns
    by_contra hconstruct
    by_cases hliteral : EndsInLiteral t
    · obtain ⟨ps, b, hread, hq⟩ := hliteral
      exact not_owns_of_literal h hread hq howns
    · exact not_owns_of_text (bracketPieces_unowned h (endsWith_of_owns howns) hconstruct hliteral) howns
  · rintro ⟨ps, b, hread, hq⟩
    exact owns_of_construct h hread hq

/-- **The owner of a qualifier** at the end of a block. The block takes it exactly when
no bracket stands in front of it, blanks aside, and a construct takes it exactly when it
ends right in front and is not escaped. It never has two owners. A construct that is
escaped is written out with it. Behind any other bracket, and behind a bracket and
blanks, nobody owns it, and its braces are written out as text. -/
theorem trailing_qualifier_owner (hlast : children.getLast? = some (.html m))
    (hsplit : Braces.splitTrailing? m = some (t, body)) (hbody : Text.startsWith body "\x7b" = false)
    (htext : ∃ c ∈ t, isIndent c = false) :
    ∃ gaps, EndsInGroup m t body gaps ∧
      (BlockOwns children t body ↔ Text.endsWith (Text.trimRight isIndent t) "]" = false) ∧
      (ConstructOwns m t body ↔ EndsInConstruct t) ∧
      ¬ (BlockOwns children t body ∧ ConstructOwns m t body) ∧
      (∀ ps b, bracketPieces t = ps ++ [.construct b] → b.qualifier = none →
        takeQualifier? children = none ∧
          rewriteBrackets m = ps.flatMap BracketPiece.shown ++
            ((b.qualified body).render (b.qualified body).text ++ gaps)) ∧
      (∀ ps b, bracketPieces t = ps ++ [.literal b] → b.qualifier = none →
        takeQualifier? children = none ∧ ¬ ConstructOwns m t body ∧
          rewriteBrackets m = ps.flatMap BracketPiece.shown ++ (Text.escapeHtml (b.qualified body).text ++ gaps)) ∧
      (¬ BlockOwns children t body → ¬ EndsInConstruct t → ¬ EndsInLiteral t →
        takeQualifier? children = none ∧ ¬ ConstructOwns m t body ∧
          rewriteBrackets m = rewriteBrackets t ++ '\x7b' :: rewriteBrackets (body ++ '\x7d' :: gaps)) := by
  obtain ⟨gaps, hm, hgaps, hbalanced⟩ := Braces.splitTrailing?_eq_some hsplit
  have hgroup : EndsInGroup m t body gaps := ⟨hm, hgaps, hbalanced⟩
  have htake := takeQualifier?_eq hlast hsplit hbody htext
  have hleft : Text.endsWith (Text.trimRight isIndent t) "]" = true → takeQualifier? children = none := by
    intro hbracket
    rw [htake, if_pos hbracket]
  have hblock : BlockOwns children t body ↔ Text.endsWith (Text.trimRight isIndent t) "]" = false := by
    constructor
    · intro howns
      rw [← Bool.not_eq_true]
      intro hbracket
      exact absurd ((hleft hbracket).symm.trans howns) (by simp)
    · intro hbracket
      rw [BlockOwns, htake, hbracket]
      rfl
  refine ⟨gaps, hgroup, hblock, constructOwns_iff hgroup, ?once, ?construct, ?literal, ?other⟩
  case once =>
    rintro ⟨hown, howns⟩
    exact absurd (endsWith_of_owns howns) (by rw [hblock.1 hown]; decide)
  case construct =>
    intro ps b hread hq
    exact ⟨hleft (endsWith_of_open hread (.construct hq)), rewriteBrackets_qualified hgroup hread (.construct hq)⟩
  case literal =>
    intro ps b hread hq
    exact ⟨hleft (endsWith_of_open hread (.literal hq)), not_owns_of_literal hgroup hread hq,
      rewriteBrackets_qualified hgroup hread (.literal hq)⟩
  case other =>
    intro hown hconstruct hliteral
    have hbracket : Text.endsWith (Text.trimRight isIndent t) "]" = true := by
      rw [← Bool.not_eq_false]
      exact fun hno => hown (hblock.2 hno)
    have hread := bracketPieces_unowned hgroup hbracket hconstruct hliteral
    exact ⟨hleft hbracket, not_owns_of_text hread, rewriteBrackets_unowned hread⟩

end

/-- A qualifier behind text goes to the block, one behind a construct to the construct,
and one behind a construct and a blank is written out. -/
theorem trailing_qualifier_owner_cases :
    (Braces.splitTrailing? "a [x] b \x7b.c\x7d " = some (("a [x] b " : Text), (".c" : Text)) ∧
        takeQualifier? [Node.html "a [x] b \x7b.c\x7d "] = some ([Node.html "a [x] b"], (".c" : Text))) ∧
      (Braces.splitTrailing? "a [x]\x7b.c\x7d\n" = some (("a [x]" : Text), (".c" : Text)) ∧
        takeQualifier? [Node.html "a [x]\x7b.c\x7d\n"] = none ∧
        rewriteBrackets "a [x]\x7b.c\x7d\n" = "a <span class=\"c\">x</span>\n") ∧
      (Braces.splitTrailing? "a [x] \x7b.c\x7d" = some (("a [x] " : Text), (".c" : Text)) ∧
        takeQualifier? [Node.html "a [x] \x7b.c\x7d"] = none ∧
        ¬ ConstructOwns "a [x] \x7b.c\x7d" "a [x] " ".c") := by
  have hblock : Braces.splitTrailing? "a [x] b \x7b.c\x7d " = some (("a [x] b " : Text), (".c" : Text)) := by
    decide +kernel
  have hconstruct : Braces.splitTrailing? "a [x]\x7b.c\x7d\n" = some (("a [x]" : Text), (".c" : Text)) := by
    decide +kernel
  have hapart : Braces.splitTrailing? "a [x] \x7b.c\x7d" = some (("a [x] " : Text), (".c" : Text)) := by
    decide +kernel
  have hread : bracketPieces "a [x]" = [.char 'a', .char ' '] ++ [.construct ⟨false, "x", none⟩] := by
    decide +kernel
  have hblank : bracketPieces "a [x] " = [.char 'a', .char ' ', .construct ⟨false, "x", none⟩] ++ [.char ' '] := by
    decide +kernel
  obtain ⟨-, -, htaken, -⟩ := trailing_qualifier_owner (List.getLast?_singleton) hblock (by decide +kernel)
    ⟨'a', by decide +kernel, rfl⟩
  obtain ⟨gaps, hgroup, -, -, -, howned, -⟩ := trailing_qualifier_owner (List.getLast?_singleton) hconstruct
    (by decide +kernel) ⟨'a', by decide +kernel, rfl⟩
  obtain ⟨hleft, hrewritten⟩ := howned _ _ hread rfl
  obtain ⟨_, -, htaken', -, -, -, -, hother⟩ := trailing_qualifier_owner (List.getLast?_singleton) hapart
    (by decide +kernel) ⟨'a', by decide +kernel, rfl⟩
  have hgaps : "\n".toList = gaps := List.append_cancel_left
    (show "a [x]\x7b.c\x7d".toList ++ "\n".toList = "a [x]\x7b.c\x7d".toList ++ gaps from hgroup.eq)
  refine ⟨⟨hblock, htaken.2 (by decide +kernel)⟩, ⟨hconstruct, hleft, hrewritten.trans ?_⟩, hapart, ?_⟩
  · rw [← hgaps]
    decide +kernel
  · obtain ⟨hnone, hnot, -⟩ := hother (fun hown => absurd (htaken'.1 hown) (by decide +kernel))
      (fun ⟨ps, b, hps, _⟩ => by
        rw [hblank] at hps
        exact absurd (List.append_inj' hps rfl).2 (by simp))
      (fun ⟨ps, b, hps, _⟩ => by
        rw [hblank] at hps
        exact absurd (List.append_inj' hps rfl).2 (by simp))
    exact ⟨hnone, hnot⟩

/-- **A qualifier without owner**: behind a construct and a blank, behind empty
brackets, and behind a bracket in brackets it is written out. -/
theorem trailing_qualifier_unowned :
    (Braces.splitTrailing? "a [x] \x7b.b\x7d" = some (("a [x] " : Text), (".b" : Text)) ∧
        takeQualifier? [Node.html "a [x] \x7b.b\x7d"] = none ∧
        ¬ ConstructOwns "a [x] \x7b.b\x7d" "a [x] " ".b" ∧
        rewriteBrackets "a [x] \x7b.b\x7d" = "a [x] \x7b.b\x7d") ∧
      (Braces.splitTrailing? "[]\x7b.b\x7d" = some (("[]" : Text), (".b" : Text)) ∧
        takeQualifier? [Node.html "[]\x7b.b\x7d"] = none ∧
        ¬ ConstructOwns "[]\x7b.b\x7d" "[]" ".b" ∧
        rewriteBrackets "[]\x7b.b\x7d" = "[]\x7b.b\x7d") ∧
      (Braces.splitTrailing? "[a[b]]\x7b.b\x7d" = some (("[a[b]]" : Text), (".b" : Text)) ∧
        takeQualifier? [Node.html "[a[b]]\x7b.b\x7d"] = none ∧
        ¬ ConstructOwns "[a[b]]\x7b.b\x7d" "[a[b]]" ".b" ∧
        rewriteBrackets "[a[b]]\x7b.b\x7d" = "[a[b]]\x7b.b\x7d") := by
  have unowned : ∀ {m t body : Text}, (∀ b, .construct b ∈ bracketPieces m → b.qualifier = none) →
      ¬ ConstructOwns m t body := by
    rintro m t body hnone ⟨ps, b, qs, hread, -, hq⟩
    have hmem : .construct b ∈ bracketPieces m := hread ▸ List.mem_append_right ps (List.mem_cons_self ..)
    exact absurd ((hnone b hmem).symm.trans hq) (by simp)
  have hapart : bracketPieces "a [x] \x7b.b\x7d" = [.char 'a', .char ' ', .construct ⟨false, "x", none⟩,
      .char ' ', .char '\x7b', .char '.', .char 'b', .char '\x7d'] := by
    decide +kernel
  have hempty : bracketPieces "[]\x7b.b\x7d" =
      [.char '[', .char ']', .char '\x7b', .char '.', .char 'b', .char '\x7d'] := by
    decide +kernel
  have hinner : bracketPieces "[a[b]]\x7b.b\x7d" = [.char '[', .char 'a', .construct ⟨false, "b", none⟩,
      .char ']', .char '\x7b', .char '.', .char 'b', .char '\x7d'] := by
    decide +kernel
  refine ⟨⟨by decide +kernel, by decide +kernel, unowned ?_, by decide +kernel⟩,
    ⟨by decide +kernel, by decide +kernel, unowned ?_, by decide +kernel⟩,
    by decide +kernel, by decide +kernel, unowned ?_, by decide +kernel⟩
  · rw [hapart]
    simp
  · rw [hempty]
    simp
  · rw [hinner]
    simp

end Docweave

import Docweave.Proofs.BraceGroups
import Docweave.Proofs.BracketEscapes
import Mathlib.Data.List.Basic

/-!
# A text as the pieces of its rewriting

`rewriteBrackets` reads a text from left to right. `bracketPieces` keeps what it
reads: characters that are copied, constructs, constructs behind a backslash, and
brackets that are escaped on their own. The pieces make up the text, and what they
show makes up the result, so that the place of a part in the result can be told
from its place in the pieces.

> `frontPiece_iff`: the first piece of a text, by what stands at its front.

> `written_bracketPieces`, `rewriteBrackets_eq_shown`: the text and the result in
> pieces.

> `bracketPieces_append_last`: more text behind a text changes its last piece only,
> when it closes none of the braces that the text leaves open.

> `bracketPieces_append_unbracketed`: text without brackets and braces changes nothing
> in front of it.
-/

namespace Docweave

open BracketSpan (starts opening? content? group? match? withQualifier)

/-! ## Constructs -/

namespace BracketSpan

/-- A construct as it is written, without its qualifier. -/
def brackets (b : BracketSpan) : Text := (if b.sigil then [':'] else []) ++ '[' :: (b.content ++ [']'])

/-- A qualifier as it is written. -/
def braces : Option Text → Text
  | none => []
  | some body => '\x7b' :: (body ++ ['\x7d'])

/-- A construct as it is written. -/
def text (b : BracketSpan) : Text := b.brackets ++ braces b.qualifier

/-- What may stand between the brackets of a construct. -/
structure IsContent (t : Text) : Prop where
  ne_nil : t ≠ []
  inside : ∀ c ∈ t, c ≠ ']' ∧ c ≠ '[' ∧ c ≠ '\n'

end BracketSpan

open BracketSpan (IsContent)

section

variable {c : Char} {t s a r rest : Text} {b : BracketSpan} {sigil : Bool}

theorem opening?_eq_some_iff :
    opening? t = some (sigil, r) ↔ t = (if sigil then [':'] else []) ++ '[' :: r := by
  unfold opening?
  split
  next r' => cases sigil <;> simp [eq_comm]
  next r' => cases sigil <;> simp [eq_comm]
  next hcolon hbracket =>
    refine ⟨fun h => absurd h (by simp), fun h => ?_⟩
    cases sigil with
    | true => exact absurd h (hcolon r)
    | false => exact absurd h (hbracket r)

/-- The content is what stands in front of the first closing bracket. -/
theorem content?_eq_some_iff :
    content? t = some (a, r) ↔ t = a ++ ']' :: r ∧ ∀ c ∈ a, c ≠ ']' ∧ c ≠ '[' ∧ c ≠ '\n' := by
  induction t generalizing a with
  | nil => simp [content?]
  | cons c t ih =>
    unfold content?
    by_cases hclose : c = ']'
    · subst hclose
      rw [if_pos rfl]
      constructor
      · intro h
        obtain ⟨rfl, rfl⟩ := Prod.mk.inj (Option.some.inj h)
        exact ⟨rfl, by simp⟩
      · rintro ⟨ht, ha⟩
        cases a with
        | nil =>
          obtain ⟨-, rfl⟩ := List.cons.inj ht
          rfl
        | cons x a =>
          obtain ⟨rfl, -⟩ := List.cons.inj ht
          exact absurd rfl (ha _ (List.mem_cons_self ..)).1
    rw [if_neg hclose]
    by_cases hstop : c = '[' ∨ c = '\n'
    · rw [if_pos (by simpa using hstop)]
      refine ⟨fun h => absurd h (by simp), fun h => ?_⟩
      obtain ⟨ht, ha⟩ := h
      cases a with
      | nil => exact absurd (List.cons.inj ht).1 hclose
      | cons x a =>
        obtain ⟨rfl, -⟩ := List.cons.inj ht
        have hc := ha _ (List.mem_cons_self ..)
        exact (hstop.elim hc.2.1 hc.2.2).elim
    · obtain ⟨hopen, hline⟩ := not_or.1 hstop
      rw [if_neg (by simpa using hstop), Option.map_eq_some_iff]
      constructor
      · rintro ⟨⟨a', r'⟩, hrest, heq⟩
        obtain ⟨rfl, rfl⟩ := Prod.mk.inj heq
        obtain ⟨rfl, ha⟩ := ih.1 hrest
        exact ⟨rfl, List.forall_mem_cons.2 ⟨⟨hclose, hopen, hline⟩, ha⟩⟩
      · rintro ⟨ht, ha⟩
        cases a with
        | nil => exact absurd (List.cons.inj ht).1 hclose
        | cons x a =>
          obtain ⟨rfl, rfl⟩ := List.cons.inj ht
          exact ⟨(a, r), ih.2 ⟨rfl, (List.forall_mem_cons.1 ha).2⟩, rfl⟩

/-- The qualifier of a construct and what stands behind it make up the text there. -/
theorem eq_of_withQualifier (h : withQualifier sigil a rest = (b, r)) :
    b.sigil = sigil ∧ b.content = a ∧ rest = BracketSpan.braces b.qualifier ++ r := by
  have plain : (⟨sigil, a, none⟩, rest) = (b, r) →
      b.sigil = sigil ∧ b.content = a ∧ rest = BracketSpan.braces b.qualifier ++ r := by
    intro heq
    obtain ⟨rfl, rfl⟩ := Prod.mk.inj heq
    exact ⟨rfl, rfl, rfl⟩
  unfold withQualifier at h
  split at h
  next inner =>
    split at h
    next body behind hgroup =>
      obtain ⟨rfl, rfl⟩ := Prod.mk.inj h
      refine ⟨rfl, rfl, ?_⟩
      rw [(group?_eq_some_iff.1 hgroup).1, BracketSpan.braces, List.cons_append, List.append_assoc,
        List.singleton_append]
    next => exact plain h
  next => exact plain h

/-- **A construct at the front of a text.** -/
theorem match?_eq_some_iff :
    match? t = some (b, r) ↔
      ∃ rest, t = b.brackets ++ rest ∧ IsContent b.content ∧ withQualifier b.sigil b.content rest = (b, r) := by
  unfold match?
  constructor
  · intro h
    split at h
    next => exact absurd h (by simp)
    next sigil inner hopening =>
      split at h
      next => exact absurd h (by simp)
      next content rest hcontent =>
        split at h
        next => exact absurd h (by simp)
        next hempty =>
          have hwith := Option.some.inj h
          obtain ⟨hsigil, rfl, -⟩ := eq_of_withQualifier hwith
          obtain ⟨rfl, hinside⟩ := content?_eq_some_iff.1 hcontent
          refine ⟨rest, ?_, ⟨fun hnil => hempty (by rw [hnil]; rfl), hinside⟩, by rw [hsigil]; exact hwith⟩
          rw [opening?_eq_some_iff.1 hopening, ← hsigil, BracketSpan.brackets, List.append_assoc,
            List.cons_append, List.append_assoc, List.singleton_append]
  · rintro ⟨rest, rfl, hcontent, hwith⟩
    have hopening : opening? (b.brackets ++ rest) = some (b.sigil, b.content ++ ']' :: rest) := by
      rw [opening?_eq_some_iff, BracketSpan.brackets, List.append_assoc, List.cons_append, List.append_assoc,
        List.singleton_append]
    have hfound : content? (b.content ++ ']' :: rest) = some (b.content, rest) :=
      content?_eq_some_iff.2 ⟨rfl, hcontent.inside⟩
    simp only [hopening, hfound, hwith]
    rw [if_neg (by simpa using hcontent.ne_nil)]

/-- A construct and what stands behind it make up the text. -/
theorem eq_of_match? (h : match? t = some (b, r)) : t = b.text ++ r := by
  obtain ⟨rest, rfl, -, hwith⟩ := match?_eq_some_iff.1 h
  rw [(eq_of_withQualifier hwith).2.2, BracketSpan.text, List.append_assoc]

theorem text_ne_nil (b : BracketSpan) : b.text ≠ [] := by
  unfold BracketSpan.text BracketSpan.brackets
  simp

end

/-! ## Pieces -/

/-- A piece of a text as the rewriting reads it. -/
inductive BracketPiece
  /-- A character that is copied. -/
  | char (c : Char)
  /-- A character behind a backslash that might start a construct, but does not. -/
  | bare (c : Char)
  /-- A construct behind a backslash. -/
  | literal (b : BracketSpan)
  /-- A construct. -/
  | construct (b : BracketSpan)
deriving DecidableEq

namespace BracketPiece

/-- A piece as it is written. -/
def written : BracketPiece → Text
  | char c => [c]
  | bare c => ['\\', c]
  | literal b => '\\' :: b.text
  | construct b => b.text

/-- What becomes of a piece. -/
def shown : BracketPiece → Text
  | char c => [c]
  | bare c => [c]
  | literal b => Text.escapeHtml b.text
  | construct b => b.render b.text

end BracketPiece

/-- The pieces of a text, from left to right. -/
def bracketPieces : Text → List BracketPiece
  | [] => []
  | c :: t =>
    if c = '\\' && starts t then
      match _found : match? t with
      | some (b, rest) => .literal b :: bracketPieces rest
      | none => (t.head?.map .bare).toList ++ bracketPieces t.tail
    else
      match _found : match? (c :: t) with
      | some (b, rest) => .construct b :: bracketPieces rest
      | none => .char c :: bracketPieces t
termination_by s => s.length
decreasing_by
  · have := BracketSpan.length_match? _found
    simp only [List.length_cons]; omega
  · simp only [List.length_cons, List.length_tail]; omega
  · have := BracketSpan.length_match? _found
    simpa using this
  · simp

/-- A text as pieces are written. -/
def writtenPieces (ps : List BracketPiece) : Text := ps.flatMap BracketPiece.written

/-- The first piece of a text, and the text behind it. -/
inductive FrontPiece : Text → BracketPiece → Text → Prop
  | char {c : Char} {t : Text} (none : match? (c :: t) = none) (guards : c = '\\' → starts t = false) :
      FrontPiece (c :: t) (.char c) t
  | bare {c : Char} {t : Text} (starts : starts (c :: t) = true) (none : match? (c :: t) = none) :
      FrontPiece ('\\' :: c :: t) (.bare c) t
  | literal {b : BracketSpan} {t r : Text} (found : match? t = some (b, r)) :
      FrontPiece ('\\' :: t) (.literal b) r
  | construct {b : BracketSpan} {t r : Text} (found : match? t = some (b, r)) : FrontPiece t (.construct b) r

section

variable {c : Char} {t s r : Text} {b : BracketSpan} {p last : BracketPiece} {ps : List BracketPiece}

theorem exists_frontPiece (c : Char) (t : Text) : ∃ p r, FrontPiece (c :: t) p r := by
  by_cases hguard : c = '\\' ∧ starts t = true
  · obtain ⟨rfl, hstarts⟩ := hguard
    cases hfound : match? t with
    | some found => exact ⟨_, _, .literal hfound⟩
    | none =>
      cases t with
      | nil => exact absurd hstarts (by simp [starts])
      | cons d t => exact ⟨_, _, .bare hstarts hfound⟩
  · cases hfound : match? (c :: t) with
    | some found => exact ⟨_, _, .construct hfound⟩
    | none => exact ⟨_, _, .char hfound fun hc => by simpa using fun hs => hguard ⟨hc, hs⟩⟩

theorem not_guards (h : c = '\\' → starts t = false) : ¬(decide (c = '\\') && starts t) = true := by
  rw [Bool.and_eq_true, decide_eq_true_eq]
  rintro ⟨hc, hs⟩
  rw [h hc] at hs
  exact absurd hs (by simp)

theorem not_guards_of_match? (h : match? (c :: t) = some (b, r)) : ¬(decide (c = '\\') && starts t) = true := by
  obtain ⟨u, hu | hu⟩ := eq_of_starts (starts_of_match? h)
  · rw [(List.cons.inj hu).1]
    simp
  · rw [(List.cons.inj hu).1]
    simp

theorem bracketPieces_front (h : FrontPiece t p r) : bracketPieces t = p :: bracketPieces r := by
  cases h with
  | char hnone hguards =>
    rw [bracketPieces, if_neg (not_guards hguards)]
    split
    next b rest hfound => exact absurd (hnone.symm.trans hfound) (by simp)
    next => rfl
  | @bare c t hstarts hnone =>
    rw [bracketPieces, if_pos (by simpa using hstarts)]
    split
    next b rest hfound => exact absurd (hnone.symm.trans hfound) (by simp)
    next => rfl
  | @literal b t r hfound =>
    rw [bracketPieces, if_pos (by simpa using starts_of_match? hfound)]
    split
    next b' rest' hfound' =>
      obtain ⟨rfl, rfl⟩ : b = b' ∧ r = rest' := by simpa using hfound.symm.trans hfound'
      rfl
    next hnone => exact absurd (hfound.symm.trans hnone) (by simp)
  | @construct b _ _ hfound =>
    cases t with
    | nil => exact absurd hfound (by simp [match?, opening?])
    | cons c t =>
      rw [bracketPieces, if_neg (not_guards_of_match? hfound)]
      split
      next b' rest' hfound' =>
        obtain ⟨rfl, rfl⟩ : b = b' ∧ r = rest' := by simpa using hfound.symm.trans hfound'
        rfl
      next hnone => exact absurd (hfound.symm.trans hnone) (by simp)

/-- **The first piece** is what stands at the front. -/
theorem frontPiece_iff : bracketPieces t = p :: ps ↔ ∃ r, FrontPiece t p r ∧ bracketPieces r = ps := by
  constructor
  · intro h
    cases t with
    | nil => exact absurd h (by simp [bracketPieces])
    | cons c t =>
      obtain ⟨p', r, hfront⟩ := exists_frontPiece c t
      rw [bracketPieces_front hfront] at h
      obtain ⟨rfl, rfl⟩ := List.cons.inj h
      exact ⟨r, hfront, rfl⟩
  · rintro ⟨r, hfront, rfl⟩
    exact bracketPieces_front hfront

theorem eq_of_frontPiece (h : FrontPiece t p r) : t = p.written ++ r := by
  cases h with
  | char => rfl
  | bare => rfl
  | literal hfound => rw [eq_of_match? hfound]; rfl
  | construct hfound => exact eq_of_match? hfound

theorem frontPiece_literal_iff : FrontPiece ('\\' :: t) (.literal b) r ↔ match? t = some (b, r) := by
  refine ⟨fun h => ?_, .literal⟩
  cases h with
  | literal hfound => exact hfound

theorem frontPiece_construct_iff : FrontPiece t (.construct b) r ↔ match? t = some (b, r) := by
  refine ⟨fun h => ?_, .construct⟩
  cases h with
  | construct hfound => exact hfound

theorem written_ne_nil (p : BracketPiece) : p.written ≠ [] := by
  cases p with
  | construct b => exact text_ne_nil b
  | _ => exact List.cons_ne_nil _ _

theorem length_frontPiece (h : FrontPiece t p r) : r.length < t.length := by
  have hpos := List.length_pos_iff.2 (written_ne_nil p)
  rw [eq_of_frontPiece h, List.length_append]
  omega

/-- What holds of the empty text, and of a text when it holds behind its first
piece, holds of all texts. -/
theorem piece_induction {P : Text → Prop} (nil : P [])
    (front : ∀ t p r, FrontPiece t p r → P r → P t) (t : Text) : P t := by
  induction hn : t.length using Nat.strongRecOn generalizing t with
  | _ n ih =>
    cases t with
    | nil => exact nil
    | cons c t =>
      obtain ⟨p, r, hfront⟩ := exists_frontPiece c t
      exact front _ p r hfront (ih _ (hn ▸ length_frontPiece hfront) r rfl)

theorem rewriteBrackets_front (h : FrontPiece t p r) : rewriteBrackets t = p.shown ++ rewriteBrackets r := by
  have htaken : ∀ b : BracketSpan, (b.text ++ r).take ((b.text ++ r).length - r.length) = b.text := by
    intro b
    rw [List.length_append, Nat.add_sub_cancel, List.take_left]
  have hwritten := eq_of_frontPiece h
  cases h with
  | char hnone hguards =>
    rw [rewriteBrackets, if_neg (not_guards hguards)]
    split
    next b rest hfound => exact absurd (hnone.symm.trans hfound) (by simp)
    next => rfl
  | @bare c t hstarts hnone =>
    rw [rewriteBrackets, if_pos (by simpa using hstarts)]
    split
    next b rest hfound => exact absurd (hnone.symm.trans hfound) (by simp)
    next => rfl
  | @literal b t r hfound =>
    rw [rewriteBrackets_escaped hfound, eq_of_match? hfound, htaken]
    rfl
  | @construct b _ _ hfound =>
    cases t with
    | nil => exact absurd hfound (by simp [match?, opening?])
    | cons c t =>
      rw [rewriteBrackets, if_neg (not_guards_of_match? hfound)]
      split
      next b' rest' hfound' =>
        obtain ⟨rfl, rfl⟩ : b = b' ∧ r = rest' := by simpa using hfound.symm.trans hfound'
        rw [← List.length_cons, hwritten]
        show b.render ((b.text ++ r).take ((b.text ++ r).length - r.length)) ++ _ = _
        rw [htaken]
        rfl
      next hnone => exact absurd (hfound.symm.trans hnone) (by simp)

/-- **The pieces make up the text.** -/
theorem written_bracketPieces (t : Text) : writtenPieces (bracketPieces t) = t := by
  induction t using piece_induction with
  | nil => rw [bracketPieces]; rfl
  | front t p r hfront ih =>
    rw [bracketPieces_front hfront, writtenPieces, List.flatMap_cons, eq_of_frontPiece hfront]
    exact congrArg _ ih

/-- **What the pieces show makes up the result.** -/
theorem rewriteBrackets_eq_shown (t : Text) : rewriteBrackets t = (bracketPieces t).flatMap BracketPiece.shown := by
  induction t using piece_induction with
  | nil => rw [bracketPieces, rewriteBrackets]; rfl
  | front t p r hfront ih =>
    rw [bracketPieces_front hfront, List.flatMap_cons, rewriteBrackets_front hfront, ih]

/-- What is copied is shown as it is. -/
theorem shown_chars (s : Text) : (s.map BracketPiece.char).flatMap BracketPiece.shown = s := by
  rw [List.flatMap_map]
  exact List.flatMap_singleton' s

theorem writtenPieces_append (ps qs : List BracketPiece) :
    writtenPieces (ps ++ qs) = writtenPieces ps ++ writtenPieces qs := List.flatMap_append

theorem writtenPieces_concat (ps : List BracketPiece) (p : BracketPiece) :
    writtenPieces (ps ++ [p]) = writtenPieces ps ++ p.written := by
  rw [writtenPieces_append, writtenPieces, writtenPieces, List.flatMap_singleton]

/-- The last piece of a text is read with nothing behind it. -/
theorem frontPiece_last (h : bracketPieces t = ps ++ [last]) : FrontPiece last.written last [] := by
  induction ps generalizing t with
  | nil =>
    obtain ⟨r, hfront, hr⟩ := frontPiece_iff.1 h
    have hnil : r = [] := by rw [← written_bracketPieces r, hr]; rfl
    subst hnil
    have hwritten := eq_of_frontPiece hfront
    rw [List.append_nil] at hwritten
    exact hwritten ▸ hfront
  | cons p ps ih =>
    obtain ⟨r, -, hr⟩ := frontPiece_iff.1 h
    exact ih hr

/-- Without an opening bracket all is copied. -/
theorem bracketPieces_of_not_mem (h : '[' ∉ t) : bracketPieces t = t.map .char := by
  induction t with
  | nil => rw [bracketPieces]; rfl
  | cons c t ih =>
    have hstarts : ∀ u : Text, '[' ∉ u → starts u = false := by
      intro u hu
      rw [← Bool.not_eq_true]
      intro hs
      obtain ⟨r, rfl | rfl⟩ := eq_of_starts hs
      · exact hu (List.mem_cons_self ..)
      · exact hu (List.mem_cons_of_mem _ (List.mem_cons_self ..))
    have ht : '[' ∉ t := fun hmem => h (List.mem_cons_of_mem _ hmem)
    rw [bracketPieces_front (.char (match?_of_not_starts (hstarts _ h)) fun _ => hstarts t ht), ih ht]
    rfl

end

/-! ## More text behind a text -/

/-- A text holds a closing bracket or a newline, so that no content goes on behind it. -/
def HasStop (t : Text) : Prop := ∃ c ∈ t, c = ']' ∨ c = '\n'

/-- The braces that a text leaves open are left open by the text behind it too. -/
def StaysOpen (t s : Text) : Prop :=
  ∀ u r, t = u ++ '\x7b' :: r → group? 0 r = none → group? 0 (r ++ s) = none

section

variable {t s r u : Text} {b : BracketSpan} {p last : BracketPiece} {ps : List BracketPiece}

theorem hasStop_append (h : HasStop r) (u : Text) : HasStop (u ++ r) := by
  obtain ⟨c, hc, hstop⟩ := h
  exact ⟨c, List.mem_append_right u hc, hstop⟩

theorem staysOpen_suffix (h : StaysOpen (u ++ t) s) : StaysOpen t s := by
  intro v r ht
  exact h (u ++ v) r (by rw [ht, List.append_assoc])

theorem starts_cons_cons (c d : Char) (t : Text) :
    starts (c :: d :: t) = (decide (c = '[') || decide (c = ':') && decide (d = '[')) := by
  unfold starts
  split <;> simp_all

theorem starts_append (h : HasStop t) (s : Text) : starts (t ++ s) = starts t := by
  obtain ⟨c, hc, hstop⟩ := h
  match t with
  | [] => exact absurd hc (by simp)
  | [d] =>
    obtain rfl := List.mem_singleton.1 hc
    rcases hstop with rfl | rfl <;> rfl
  | d :: e :: t => rw [List.cons_append, List.cons_append, starts_cons_cons, starts_cons_cons]

theorem withQualifier_append {sigil : Bool} {a rest : Text} (hne : rest ≠ []) (hopen : StaysOpen rest s) :
    withQualifier sigil a (rest ++ s) =
      ((withQualifier sigil a rest).1, (withQualifier sigil a rest).2 ++ s) := by
  cases rest with
  | nil => exact absurd rfl hne
  | cons c rest =>
    by_cases hc : c = '\x7b'
    · subst hc
      simp only [withQualifier, List.cons_append]
      cases hgroup : group? 0 rest with
      | none => simp only [hopen [] rest rfl hgroup]; rfl
      | some found => simp only [group?_append hgroup s]
    · have hplain : ∀ v : Text, withQualifier sigil a (c :: v) = (⟨sigil, a, none⟩, c :: v) := by
        intro v
        unfold withQualifier
        split
        next r hr => exact absurd (List.cons.inj hr).1 hc
        next => rfl
      rw [List.cons_append, hplain, hplain]
      rfl

/-- A construct with text behind it goes on as it is. -/
theorem match?_append (h : match? t = some (b, r)) (hne : r ≠ []) (hopen : StaysOpen t s) :
    match? (t ++ s) = some (b, r ++ s) := by
  obtain ⟨rest, rfl, hcontent, hwith⟩ := match?_eq_some_iff.1 h
  have hrest : rest ≠ [] := by
    rintro rfl
    exact hne (Prod.mk.inj hwith).2.symm
  refine match?_eq_some_iff.2 ⟨rest ++ s, List.append_assoc .., hcontent, ?_⟩
  rw [withQualifier_append hrest (staysOpen_suffix hopen), hwith]

/-- The only stop of the brackets of a construct is their end. -/
theorem not_hasStop_of_brackets (hcontent : IsContent b.content) (h : b.brackets = t ++ s) (hs : s ≠ []) :
    ¬ HasStop t := by
  rintro ⟨c, hc, hstop⟩
  have hfront : c ∈ (if b.sigil then [':'] else []) ++ '[' :: b.content := by
    obtain ⟨w, d, rfl⟩ := (List.eq_nil_or_concat' s).resolve_left hs
    have hinit : (if b.sigil then [':'] else []) ++ '[' :: b.content = t ++ w := by
      have hdrop := congrArg List.dropLast h
      rwa [BracketSpan.brackets, ← List.cons_append, ← List.append_assoc, List.dropLast_concat,
        ← List.append_assoc, List.dropLast_concat] at hdrop
    rw [hinit]
    exact List.mem_append_left w hc
  rcases List.mem_append.1 hfront with hsigil | hrest
  · cases hb : b.sigil with
    | true =>
      rw [hb, if_pos rfl, List.mem_singleton] at hsigil
      rcases hstop with rfl | rfl <;> exact absurd hsigil (by decide)
    | false => exact absurd hsigil (by simp [hb])
  · rcases List.mem_cons.1 hrest with rfl | hmem
    · exact absurd hstop (by decide)
    · have hinside := hcontent.inside c hmem
      exact hstop.elim hinside.1 hinside.2.2

/-- A bracketed content is a construct, whatever stands behind it. -/
theorem match?_brackets_ne_none (hcontent : IsContent b.content) (w : Text) : match? (b.brackets ++ w) ≠ none := by
  intro hnone
  cases hw : withQualifier b.sigil b.content w with
  | mk b' r' =>
    obtain ⟨hsigil, hsame, -⟩ := eq_of_withQualifier hw
    have hmatch : match? (b.brackets ++ w) = some (b', r') := by
      refine match?_eq_some_iff.2 ⟨w, ?_, by rw [hsame]; exact hcontent, by rw [hsigil, hsame]; exact hw⟩
      rw [BracketSpan.brackets, BracketSpan.brackets, hsigil, hsame]
    exact absurd (hnone.symm.trans hmatch) (by simp)

/-- What is no construct up to a stop becomes none. -/
theorem match?_append_none (h : match? t = none) (hstop : HasStop t) (s : Text) : match? (t ++ s) = none := by
  rw [Option.eq_none_iff_forall_not_mem]
  rintro ⟨b, r⟩ hfound
  obtain ⟨rest, hsplit, hcontent, -⟩ := match?_eq_some_iff.1 hfound
  rcases List.append_eq_append_iff.1 hsplit with ⟨w, hw, -⟩ | ⟨w, rfl, -⟩
  · by_cases hnil : w = []
    · rw [hnil, List.append_nil] at hw
      exact match?_brackets_ne_none hcontent [] (by rw [List.append_nil, hw, h])
    · exact not_hasStop_of_brackets hcontent hw hnil hstop
  · exact match?_brackets_ne_none hcontent w h

/-- A piece with a stop somewhere behind it stays as it is. -/
theorem frontPiece_append (h : FrontPiece t p r) (hstop : HasStop r) (hopen : StaysOpen t s) :
    FrontPiece (t ++ s) p (r ++ s) := by
  have hne : r ≠ [] := by
    rintro rfl
    obtain ⟨c, hc, -⟩ := hstop
    exact absurd hc (by simp)
  have hbehind := hasStop_append hstop
  cases h with
  | @char c _ hnone hguards =>
    exact .char (match?_append_none hnone (hbehind [c]) s) fun hc => (starts_append hstop s).trans (hguards hc)
  | @bare c _ hstarts hnone =>
    exact .bare ((starts_append (hbehind [c]) s).trans hstarts) (match?_append_none hnone (hbehind [c]) s)
  | literal hfound => exact .literal (match?_append hfound hne (staysOpen_suffix (u := ['\\']) hopen))
  | construct hfound => exact .construct (match?_append hfound hne hopen)

/-- **More text behind a text** changes its last piece only, if that holds a stop. -/
theorem bracketPieces_append_last (hread : bracketPieces t = ps ++ [last]) (hstop : HasStop last.written)
    (hopen : StaysOpen t s) : bracketPieces (t ++ s) = ps ++ bracketPieces (last.written ++ s) := by
  have hwritten := written_bracketPieces t
  rw [hread, writtenPieces_concat] at hwritten
  induction ps generalizing t with
  | nil =>
    rw [← hwritten]
    rfl
  | cons p ps ih =>
    obtain ⟨r, hfront, hr⟩ := frontPiece_iff.1 (hread.trans List.cons_append)
    have hwr := written_bracketPieces r
    rw [hr, writtenPieces_concat] at hwr
    have hstopr : HasStop r := hwr ▸ hasStop_append hstop _
    rw [bracketPieces_front (frontPiece_append hfront hstopr hopen), List.cons_append]
    exact congrArg _ (ih hr (staysOpen_suffix (eq_of_frontPiece hfront ▸ hopen)) hwr)

/-! ## Text without brackets behind a text -/

/-- A text has neither brackets nor braces. -/
def Unbracketed (s : Text) : Prop := ∀ c ∈ s, c ≠ '[' ∧ c ≠ ']' ∧ c ≠ '\x7b' ∧ c ≠ '\x7d'

-- by the list: the instance for all characters would go through every one of them
instance (s : Text) : Decidable (Unbracketed s) :=
  List.decidableBAll (fun c => c ≠ '[' ∧ c ≠ ']' ∧ c ≠ '\x7b' ∧ c ≠ '\x7d') s

theorem unbracketed_append {s t : Text} : Unbracketed (s ++ t) ↔ Unbracketed s ∧ Unbracketed t :=
  List.forall_mem_append

theorem staysOpen_of_unbracketed (hs : Unbracketed s) (t : Text) : StaysOpen t s := by
  intro u r _ hnone
  have hr := group?_eq_none_iff.1 hnone
  rw [group?_eq_none_iff, within_append hr]
  rintro p v rfl
  have hclose : p.count '\x7d' = 0 := List.count_eq_zero.2 fun hmem => (hs _ (List.mem_append_left v hmem)).2.2.2 rfl
  have htotal := hr r [] (List.append_nil r).symm
  rw [List.count_append, List.count_append, hclose]
  omega

theorem starts_append_unbracketed (hs : Unbracketed s) (t : Text) : starts (t ++ s) = starts t := by
  have hno : ∀ u r, s ≠ u ++ '[' :: r := fun u r h => (hs '[' (by rw [h]; simp)).1 rfl
  rw [Bool.eq_iff_iff]
  constructor
  · intro h
    obtain ⟨r, hr | hr⟩ := eq_of_starts h
    · cases t with
      | nil => exact absurd hr (hno [] r)
      | cons c t =>
        obtain ⟨rfl, -⟩ := List.cons.inj hr
        rfl
    · match t, hr with
      | [], hr => exact absurd hr (hno [':'] r)
      | [c], hr => exact absurd (List.cons.inj hr).2 (hno [] r)
      | c :: d :: t, hr =>
        obtain ⟨rfl, hd⟩ := List.cons.inj hr
        obtain ⟨rfl, -⟩ := List.cons.inj hd
        rfl
  · intro h
    obtain ⟨r, rfl | rfl⟩ := eq_of_starts h <;> rfl

/-- A construct ends in front of text without brackets, and none starts in it. -/
theorem match?_append_unbracketed (hs : Unbracketed s) (t : Text) :
    match? (t ++ s) = (match? t).map fun e => (e.1, e.2 ++ s) := by
  cases hfound : match? t with
  | some e =>
    obtain ⟨b, r⟩ := e
    obtain ⟨rest, rfl, hcontent, hwith⟩ := match?_eq_some_iff.1 hfound
    refine match?_eq_some_iff.2 ⟨rest ++ s, List.append_assoc .., hcontent, ?_⟩
    by_cases hrest : rest = []
    · -- no qualifier stands there, since the text behind does not open one
      rw [hrest] at hwith ⊢
      obtain ⟨hb, rfl⟩ := Prod.mk.inj hwith
      rw [← hb, List.nil_append]
      cases s with
      | nil => rfl
      | cons c s =>
        unfold withQualifier
        split
        next r hr => exact absurd (List.cons.inj hr).1 (hs c (List.mem_cons_self ..)).2.2.1
        next => rfl
    · rw [withQualifier_append hrest (staysOpen_of_unbracketed hs rest), hwith]
  | none =>
    rw [Option.map_none, Option.eq_none_iff_forall_not_mem]
    rintro ⟨b, r⟩ hmatch
    obtain ⟨rest, hsplit, hcontent, -⟩ := match?_eq_some_iff.1 hmatch
    rcases List.append_eq_append_iff.1 hsplit with ⟨w, hw, hbehind⟩ | ⟨w, rfl, -⟩
    · by_cases hnil : w = []
      · rw [hnil, List.append_nil] at hw
        exact match?_brackets_ne_none hcontent [] (by rw [List.append_nil, hw, hfound])
      · -- the closing bracket would stand in the text behind
        have hclose : b.brackets.getLast? = some ']' := by
          rw [BracketSpan.brackets, ← List.cons_append, ← List.append_assoc, List.getLast?_concat]
        rw [hw, List.getLast?_append_of_ne_nil _ hnil] at hclose
        exact (hs ']' (hbehind ▸ List.mem_append_left rest (List.mem_of_getLast? hclose))).2.1 rfl
    · exact match?_brackets_ne_none hcontent w hfound

theorem frontPiece_append_unbracketed (hs : Unbracketed s) (h : FrontPiece t p r) :
    FrontPiece (t ++ s) p (r ++ s) := by
  have hmatch := match?_append_unbracketed hs
  cases h with
  | @char c _ hnone hguards =>
    exact .char ((hmatch (c :: r)).trans (by rw [hnone]; rfl)) fun hc =>
      (starts_append_unbracketed hs r).trans (hguards hc)
  | @bare c _ hstarts hnone =>
    exact .bare ((starts_append_unbracketed hs (c :: r)).trans hstarts) ((hmatch (c :: r)).trans (by rw [hnone]; rfl))
  | @literal b t _ hfound => exact .literal ((hmatch t).trans (by rw [hfound]; rfl))
  | construct hfound => exact .construct ((hmatch t).trans (by rw [hfound]; rfl))

/-- **Text without brackets behind a text** is copied, and changes nothing in front of it. -/
theorem bracketPieces_append_unbracketed (hs : Unbracketed s) (t : Text) :
    bracketPieces (t ++ s) = bracketPieces t ++ s.map .char := by
  induction t using piece_induction with
  | nil =>
    rw [List.nil_append, bracketPieces_of_not_mem fun hmem => (hs _ hmem).1 rfl, bracketPieces]
    rfl
  | front t p r hfront ih =>
    rw [bracketPieces_front (frontPiece_append_unbracketed hs hfront), ih, bracketPieces_front hfront, List.cons_append]

end

end Docweave

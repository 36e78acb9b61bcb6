import Docweave.Proofs.BracketPieces
import Docweave.Proofs.MarkupEntities
import Docweave.Proofs.TextLaws
import Docweave.Tree.Build

/-!
# Code between brackets

The markup of inline code holds neither brackets nor braces, so that no construct
starts or ends in it. A construct around it is another matter: what becomes of the
code then depends on the part of the construct in which it stands.

> `place_cases`: a part without brackets and braces is copied, or stands whole in the
> content of a construct, in its qualifier, or in a construct behind a backslash.

> `render_content`, `render_attrs`: what a construct shows of its content and of its
> qualifier, which passes on words (`word_infix_attrText`).

> `code_runs_shown`: code is shown as it is, but in a qualifier, where it must be
> part of a word, and behind a backslash, where it is shown as text.
-/

namespace Docweave

open BracketSpan (starts match?)

/-! ## Parts without brackets and braces -/

/-- No construct starts, ends or is cut in a part of a text. -/
structure Inert (s : Text) : Prop where
  plain : ∀ c ∈ s, c ≠ '[' ∧ c ≠ ']' ∧ c ≠ '\x7b' ∧ c ≠ '\x7d'
  ends : ∃ w c, s = w ++ [c] ∧ c ≠ ':' ∧ c ≠ '\\'

/-- The part stands in a construct behind a backslash. -/
def InLiteral (front part back : Text) : Prop :=
  ∃ ps b qs u v, bracketPieces (front ++ part ++ back) = ps ++ .literal b :: qs ∧
    front = writtenPieces ps ++ '\\' :: u ∧ b.text = u ++ part ++ v

/-- The part stands in the content of a construct. -/
def InContent (front part back : Text) (b : BracketSpan) : Prop :=
  ∃ ps qs u v, bracketPieces (front ++ part ++ back) = ps ++ .construct b :: qs ∧
    front = writtenPieces ps ++ ((if b.sigil then [':'] else []) ++ '[' :: u) ∧ b.content = u ++ part ++ v

/-- The part stands in the qualifier of a construct, which has this body. -/
def InQualifier (front part back body : Text) : Prop :=
  ∃ ps b qs u v, bracketPieces (front ++ part ++ back) = ps ++ .construct b :: qs ∧ b.qualifier = some body ∧
    front = writtenPieces ps ++ (b.brackets ++ '\x7b' :: u) ∧ body = u ++ part ++ v

/-- The part stands between constructs. -/
def InText (front part back : Text) : Prop :=
  ∃ ps qs, bracketPieces (front ++ part ++ back) = ps ++ (part.map .char ++ qs) ∧ front = writtenPieces ps

/-- The part stands in one of these places. -/
def HasPlace (front part back : Text) : Prop :=
  InText front part back ∨ (∃ b, InContent front part back b) ∨ InLiteral front part back ∨
    ∃ body, InQualifier front part back body

section

variable {c x : Char} {s t u v f r front back : Text} {b : BracketSpan} {p : BracketPiece}

/-- A part without a character stands in front of it or behind it. -/
theorem part_split (hx : x ∉ s) (h : front ++ s ++ back = u ++ x :: v) :
    (∃ w, u = front ++ s ++ w ∧ back = w ++ x :: v) ∨ ∃ w, front = u ++ x :: w ∧ v = w ++ s ++ back := by
  rcases List.append_eq_append_iff.1 h with ⟨w, hu, hback⟩ | ⟨w, hfront, hback⟩
  · exact Or.inl ⟨w, hu, hback⟩
  cases w with
  | nil => exact Or.inl ⟨[], by rw [List.append_nil, hfront, List.append_nil], hback.symm⟩
  | cons y w =>
    obtain ⟨rfl, rfl⟩ := List.cons.inj hback
    rcases List.append_eq_append_iff.1 hfront with ⟨w', rfl, hs⟩ | ⟨w', rfl, hs⟩
    · exact absurd (by rw [hs]; simp) hx
    cases w' with
    | nil => exact absurd (by rw [← List.nil_append s, ← hs]; simp) hx
    | cons y w' =>
      obtain ⟨rfl, rfl⟩ := List.cons.inj hs
      exact Or.inr ⟨w', rfl, rfl⟩

theorem inert_ne_nil (h : Inert s) : s ≠ [] := by
  obtain ⟨w, c, rfl, -⟩ := h.ends
  simp

/-- What follows the first character of an inert part is inert, if it is not empty. -/
theorem inert_tail (h : Inert (c :: s)) (hne : s ≠ []) : Inert s where
  plain := (List.forall_mem_cons.1 h.plain).2
  ends := by
    obtain ⟨w, d, hs, hd⟩ := h.ends
    cases w with
    | nil => exact absurd (List.cons.inj hs).2 hne
    | cons y w => exact ⟨w, d, (List.cons.inj hs).2, hd⟩

theorem starts_inert (h : Inert s) (back : Text) : starts (s ++ back) = false := by
  rw [← Bool.not_eq_true]
  intro hs
  obtain ⟨r, hr | hr⟩ := eq_of_starts hs
  · cases s with
    | nil => exact inert_ne_nil h rfl
    | cons c s => exact (h.plain c (List.mem_cons_self ..)).1 (List.cons.inj hr).1
  · match s, h, hr with
    | [], h, _ => exact inert_ne_nil h rfl
    | [c], h, hr =>
      obtain ⟨w, d, hs, hcolon, -⟩ := h.ends
      obtain ⟨rfl, rfl⟩ : w = [] ∧ c = d := by
        cases w with
        | nil => exact ⟨rfl, (List.cons.inj hs).1⟩
        | cons y w => exact absurd (List.cons.inj hs).2 (by simp)
      exact hcolon (List.cons.inj hr).1
    | c :: d :: s, h, hr =>
      exact (h.plain d (by simp)).1 (List.cons.inj (List.cons.inj hr).2).1

/-- An inert part at the front is copied. -/
theorem bracketPieces_inert (h : Inert s) (back : Text) :
    bracketPieces (s ++ back) = s.map .char ++ bracketPieces back := by
  induction s with
  | nil => exact absurd rfl (inert_ne_nil h)
  | cons c s ih =>
    have hnone : match? (c :: (s ++ back)) = none := match?_of_not_starts (starts_inert h back)
    by_cases hs : s = []
    · subst hs
      have hc : c ≠ '\\' := by
        obtain ⟨w, d, hw, -, hback⟩ := h.ends
        cases w with
        | nil => exact (List.cons.inj hw).1 ▸ hback
        | cons y w => exact absurd (List.cons.inj hw).2 (by simp)
      exact bracketPieces_front (.char hnone fun hback => absurd hback hc)
    · have htail := inert_tail h hs
      rw [List.cons_append, bracketPieces_front (.char hnone fun _ => starts_inert htail back), ih htail]
      rfl

/-- An inert part that starts in front of the end of a construct stands in its
content or in its qualifier. -/
theorem part_in_construct (hs : Inert s) (h : f ++ s ++ back = b.text ++ r) :
    (∃ u v, b.content = u ++ s ++ v ∧ f = (if b.sigil then [':'] else []) ++ '[' :: u) ∨
    (∃ u v, b.qualifier = some (u ++ s ++ v) ∧ f = b.brackets ++ '\x7b' :: u) ∨
    ∃ w, f = b.text ++ w ∧ r = w ++ s ++ back := by
  have hwritten : b.text ++ r = (if b.sigil then [':'] else []) ++
      '[' :: (b.content ++ ']' :: (BracketSpan.braces b.qualifier ++ r)) := by
    simp [BracketSpan.text, BracketSpan.brackets]
  have hno : ∀ y, y = '[' ∨ y = ']' ∨ y = '\x7b' ∨ y = '\x7d' → y ∉ s := by
    rintro y hy hmem
    obtain ⟨h1, h2, h3, h4⟩ := hs.plain y hmem
    exact hy.elim h1 fun hy => hy.elim h2 fun hy => hy.elim h3 h4
  rcases part_split (hno '[' (by simp)) (h.trans hwritten) with ⟨w, hsigil, -⟩ | ⟨w, rfl, hcontent⟩
  · -- the sigil is too short for a part that ends otherwise
    obtain ⟨x, d, rfl, hcolon, -⟩ := hs.ends
    have hd : d ∈ (if b.sigil then [':'] else []) := by rw [hsigil]; simp
    cases hb : b.sigil with
    | true => exact absurd (by simpa [hb] using hd) hcolon
    | false => exact absurd hd (by simp [hb])
  rcases part_split (hno ']' (by simp)) hcontent.symm with ⟨w', hinside, -⟩ | ⟨w', rfl, hqualifier⟩
  · exact Or.inl ⟨w, w', hinside, rfl⟩
  right
  cases hq : b.qualifier with
  | none =>
    rw [hq] at hqualifier
    exact Or.inr ⟨w', by simp [BracketSpan.text, BracketSpan.brackets, hq, BracketSpan.braces], hqualifier⟩
  | some body =>
    have hbraced : w' ++ s ++ back = [] ++ '\x7b' :: (body ++ '\x7d' :: r) := by
      rw [← hqualifier, hq]
      simp [BracketSpan.braces]
    rcases part_split (hno '\x7b' (by simp)) hbraced with ⟨z, hz, -⟩ | ⟨z, rfl, hbody⟩
    · exact absurd (List.append_eq_nil_iff.1 (List.append_eq_nil_iff.1 hz.symm).1).2 (inert_ne_nil hs)
    rcases part_split (hno '\x7d' (by simp)) hbody.symm with ⟨z', rfl, -⟩ | ⟨z', rfl, hr⟩
    · exact Or.inl ⟨z, z', rfl, by simp [BracketSpan.brackets]⟩
    · exact Or.inr ⟨z', by simp [BracketSpan.text, BracketSpan.brackets, hq, BracketSpan.braces], hr⟩

/-- A piece in front moves a part, and no more. -/
theorem hasPlace_front (hfront : FrontPiece (p.written ++ front ++ s ++ back) p (front ++ s ++ back))
    (h : HasPlace front s back) : HasPlace (p.written ++ front) s back := by
  have hread : ∀ {ps}, bracketPieces (front ++ s ++ back) = ps →
      bracketPieces (p.written ++ front ++ s ++ back) = p :: ps := by
    rintro ps rfl
    exact bracketPieces_front hfront
  have hwritten : ∀ ps x, p.written ++ (writtenPieces ps ++ x) = writtenPieces (p :: ps) ++ x :=
    fun ps x => (List.append_assoc ..).symm
  rcases h with ⟨ps, qs, hps, rfl⟩ | ⟨b, ps, qs, u, v, hps, rfl, hin⟩ |
    ⟨ps, b, qs, u, v, hps, rfl, hin⟩ | ⟨body, ps, b, qs, u, v, hps, hq, rfl, hin⟩
  · exact Or.inl ⟨p :: ps, qs, hread hps, rfl⟩
  · exact Or.inr (Or.inl ⟨b, p :: ps, qs, u, v, hread hps, hwritten .., hin⟩)
  · exact Or.inr (Or.inr (Or.inl ⟨p :: ps, b, qs, u, v, hread hps, hwritten .., hin⟩))
  · exact Or.inr (Or.inr (Or.inr ⟨body, p :: ps, b, qs, u, v, hread hps, hq, hwritten .., hin⟩))

/-- A part in a construct at the front. -/
theorem hasPlace_construct (hs : Inert s) (hfound : match? (front ++ s ++ back) = some (b, r)) :
    HasPlace front s back ∨ ∃ w, front = b.text ++ w ∧ r = w ++ s ++ back := by
  have hread : bracketPieces (front ++ s ++ back) = [] ++ .construct b :: bracketPieces r :=
    bracketPieces_front (.construct hfound)
  rcases part_in_construct hs (eq_of_match? hfound) with ⟨u, v, hin, hu⟩ | ⟨u, v, hin, hu⟩ | hbehind
  · exact Or.inl (Or.inr (Or.inl ⟨b, [], _, u, v, hread, hu, hin⟩))
  · exact Or.inl (Or.inr (Or.inr (Or.inr ⟨_, [], b, _, u, v, hread, hin, hu, rfl⟩)))
  · exact Or.inr hbehind

/-- A part in a construct behind a backslash at the front. -/
theorem hasPlace_literal (hs : Inert s) (hfound : match? (front ++ s ++ back) = some (b, r)) :
    HasPlace ('\\' :: front) s back ∨ ∃ w, front = b.text ++ w ∧ r = w ++ s ++ back := by
  have hread : bracketPieces ('\\' :: front ++ s ++ back) = [] ++ .literal b :: bracketPieces r :=
    bracketPieces_front (.literal hfound)
  have inside : (∃ v, b.text = front ++ s ++ v) → HasPlace ('\\' :: front) s back :=
    fun ⟨v, hv⟩ => Or.inr (Or.inr (Or.inl ⟨[], b, _, front, v, hread, rfl, hv⟩))
  rcases part_in_construct hs (eq_of_match? hfound) with ⟨u, v, hin, rfl⟩ | ⟨u, v, hin, rfl⟩ | hbehind
  · exact Or.inl (inside ⟨v ++ ']' :: BracketSpan.braces b.qualifier, by
      simp [BracketSpan.text, BracketSpan.brackets, hin]⟩)
  · exact Or.inl (inside ⟨v ++ ['\x7d'], by simp [BracketSpan.text, BracketSpan.braces, hin]⟩)
  · exact Or.inr hbehind

/-- **The places of an inert part.** -/
theorem place_cases (hs : Inert s) (front back : Text) : HasPlace front s back := by
  induction hn : front.length using Nat.strongRecOn generalizing front with
  | _ n ih =>
  subst hn
  cases front with
  | nil => exact Or.inl ⟨[], bracketPieces back, bracketPieces_inert hs back, rfl⟩
  | cons c front =>
    obtain ⟨t, ht⟩ : ∃ t, front ++ s ++ back = t := ⟨_, rfl⟩
    obtain ⟨p, r, hfront⟩ := exists_frontPiece c t
    -- the piece may end in front of the part
    have onward : ∀ w, c :: front = p.written ++ w → w ++ s ++ back = r → HasPlace (c :: front) s back := by
      rintro w hw rfl
      have hlen := congrArg List.length hw
      have hpos := List.length_pos_iff.2 (written_ne_nil p)
      rw [List.length_append] at hlen
      have hplace := ih w.length (by omega) w rfl
      rw [hw]
      refine hasPlace_front ?_ hplace
      rw [← hw, List.cons_append, List.cons_append, ht]
      exact hfront
    cases hfront with
    | char => exact onward front rfl ht
    | @bare d _ hstarts hnone =>
      cases front with
      | nil =>
        have hinert := starts_inert hs back
        rw [← List.nil_append s, ht, hstarts] at hinert
        exact absurd hinert (by simp)
      | cons y front =>
        obtain ⟨rfl, hr⟩ := List.cons.inj ht
        exact onward front rfl hr
    | literal hfound =>
      rcases hasPlace_literal hs (ht ▸ hfound) with hplace | ⟨w, rfl, hr⟩
      · exact hplace
      · exact onward w rfl hr.symm
    | @construct b _ _ hfound =>
      have hwhole : match? (c :: front ++ s ++ back) = some (b, r) := by
        rw [List.cons_append, List.cons_append, ht]
        exact hfound
      rcases hasPlace_construct hs hwhole with hplace | ⟨w, hw, hr⟩
      · exact hplace
      · exact onward w hw hr.symm

end

/-! ## What is shown -/

/-- The words that a qualifier passes on as they are. -/
def Qualifier.passingWords (body : Text) : List Text := (Qualifier.scan true {} [] body).2

section

variable {s t w body front back : Text} {b : BracketSpan}

theorem content_infix_element (tag attrs content : Text) : content <:+: element tag attrs content := by
  unfold element
  exact ((List.infix_append _ content _).trans (List.prefix_append _ tag).isInfix).trans
    (List.prefix_append _ _).isInfix

theorem attrs_infix_element (tag attrs content : Text) : attrs <:+: element tag attrs content := by
  unfold element attrGap
  split
  next hempty =>
    rw [List.isEmpty_iff.1 hempty]
    exact List.nil_infix
  next => exact ⟨"<" ++ tag ++ [' '], ">" ++ content ++ "</" ++ tag ++ ">", by
    simp only [List.append_assoc, List.cons_append, List.nil_append]⟩

/-- **A construct shows its content**, trimmed at most. -/
theorem render_content (hs : Text.Edged s) (h : s <:+: b.content) : s <:+: b.render b.text := by
  have hinner : s <:+: (if b.sigil then "\x7b\x7b " ++ Text.trim b.content ++ " \x7d\x7d" else b.content) := by
    split
    next => exact (Text.infix_trim hs h).trans ⟨_, _, rfl⟩
    next => exact h
  unfold BracketSpan.render
  simp only
  split
  next =>
    split
    next hsigil => rwa [if_pos hsigil] at hinner
    next =>
      refine h.trans ⟨(if b.sigil then [':'] else []) ++ ['['], ']' :: BracketSpan.braces b.qualifier, ?_⟩
      simp [BracketSpan.text, BracketSpan.brackets]
  next =>
    split
    next => exact hinner.trans ⟨_, _, rfl⟩
    next => exact hinner.trans (content_infix_element _ _ _)

/-- A part of one of the parts that are joined is a part of the whole. -/
theorem infix_join {sep : Text} {ps : List Text} (hw : w ∈ ps) (h : s <:+: w) : s <:+: Text.join sep ps := by
  obtain ⟨qs, rs, rfl⟩ := List.append_of_mem hw
  refine List.IsInfix.trans ?_ (Text.join_suffix sep qs (w :: rs)).isInfix
  cases rs with
  | nil => exact h
  | cons r rs => exact h.trans ⟨[], sep ++ Text.join sep (r :: rs), by simp [Text.join]⟩

/-- **A qualifier keeps the words that it passes on.** -/
theorem word_infix_attrText (hs : Text.Edged s) (hw : w ∈ Qualifier.passingWords body) (h : s <:+: w) :
    s <:+: (Qualifier.parse body).attrText := by
  have hpass : s <:+: (Qualifier.parse body).passthrough :=
    Text.infix_trim hs (infix_join hw h)
  have hne : ¬ (Qualifier.parse body).passthrough.isEmpty = true := by
    rw [List.isEmpty_iff]
    intro hnil
    obtain ⟨c, w', hfirst, -⟩ := hs.first
    rw [hnil, hfirst] at hpass
    exact absurd (List.infix_nil.1 hpass) (by simp)
  unfold Qualifier.attrText
  rw [if_neg hne]
  exact infix_join (List.mem_append_right _ (List.mem_singleton.2 rfl)) hpass

/-- A construct shows the attributes of its qualifier. -/
theorem render_attrs (hq : b.qualifier = some body) (h : s <:+: (Qualifier.parse body).attrText) :
    s <:+: b.render t := by
  unfold BracketSpan.render
  simp only [hq]
  split
  next =>
    rw [List.append_assoc, List.append_assoc]
    exact h.trans ⟨"<template ", _, rfl⟩
  next => exact h.trans (attrs_infix_element _ _ _)

end

/-! ## Code -/

/-- The markup of inline code. -/
def codeMarkup (content : Text) : Text := "<code>" ++ Text.escapeCode content ++ "</code>"

/-- Code shows neither brackets nor braces. -/
theorem unbracketed_escapeCode (code : Text) : Unbracketed (Text.escapeCode code) := by
  have hgone : ∀ c ∈ Text.codeDelimiters, c ∉ Text.escapeCode code := fun c hc => Text.not_mem_escapeCode hc code
  intro d hd
  refine ⟨?_, ?_, ?_, ?_⟩ <;> rintro rfl <;> exact hgone _ (by decide) hd

theorem codeMarkup_concat (content : Text) :
    codeMarkup content = "<code>" ++ Text.escapeCode content ++ "</code" ++ ['>'] := by
  rw [List.append_assoc _ _ ['>']]
  rfl

theorem inert_codeMarkup (content : Text) : Inert (codeMarkup content) where
  plain := unbracketed_append.2 ⟨unbracketed_append.2 ⟨by decide, unbracketed_escapeCode content⟩, by decide⟩
  ends := ⟨_, '>', codeMarkup_concat content, by decide, by decide⟩

theorem edged_codeMarkup (content : Text) : Text.Edged (codeMarkup content) where
  first := ⟨'<', "code>" ++ Text.escapeCode content ++ "</code>", rfl, by decide⟩
  last := ⟨_, '>', codeMarkup_concat content, by decide⟩

/-- What one piece shows is part of the result. -/
theorem infix_of_piece {t : Text} {ps qs : List BracketPiece} {p : BracketPiece}
    (h : bracketPieces t = ps ++ p :: qs) : p.shown <:+: rewriteBrackets t := by
  rw [rewriteBrackets_eq_shown, h, List.flatMap_append, List.flatMap_cons, ← List.append_assoc]
  exact List.infix_append _ _ _

theorem escapeHtml_append (s t : Text) : Text.escapeHtml (s ++ t) = Text.escapeHtml s ++ Text.escapeHtml t :=
  List.flatMap_append

section

variable {s front back body : Text} {b : BracketSpan}

theorem shown_of_inText (h : InText front s back) : s <:+: rewriteBrackets (front ++ s ++ back) := by
  obtain ⟨ps, qs, hread, -⟩ := h
  rw [rewriteBrackets_eq_shown, hread, List.flatMap_append, List.flatMap_append, shown_chars, ← List.append_assoc]
  exact List.infix_append _ _ _

theorem shown_of_inContent (hs : Text.Edged s) (h : InContent front s back b) :
    s <:+: rewriteBrackets (front ++ s ++ back) := by
  obtain ⟨ps, qs, u, v, hread, -, hin⟩ := h
  exact (render_content hs ⟨u, v, hin.symm⟩).trans (infix_of_piece hread)

theorem shown_of_inLiteral (h : InLiteral front s back) :
    Text.escapeHtml s <:+: rewriteBrackets (front ++ s ++ back) := by
  obtain ⟨ps, b, qs, u, v, hread, -, hin⟩ := h
  refine List.IsInfix.trans ?_ (infix_of_piece hread)
  rw [BracketPiece.shown, hin, escapeHtml_append, escapeHtml_append]
  exact List.infix_append _ _ _

theorem shown_of_inQualifier (h : InQualifier front s back body) (hattrs : s <:+: (Qualifier.parse body).attrText) :
    s <:+: rewriteBrackets (front ++ s ++ back) := by
  obtain ⟨ps, b, qs, u, v, hread, hq, -, -⟩ := h
  exact (render_attrs hq hattrs).trans (infix_of_piece hread)

end

/-- **Code is opaque to the rewriting**, wherever it stands but in two places. In a
qualifier it is shown as part of the attributes, which have all that stands in one of
the words that are passed on. A construct behind a backslash is shown as text, with
the code in it. -/
theorem code_runs_shown (before after : List Token) {r : Token} (hcode : r.kind = .codeInline) :
    (¬ InLiteral (renderInline before) (codeMarkup r.content) (renderInline after) →
      (∀ body, InQualifier (renderInline before) (codeMarkup r.content) (renderInline after) body →
        codeMarkup r.content <:+: (Qualifier.parse body).attrText) →
      codeMarkup r.content <:+: rewriteBrackets (renderInline (before ++ r :: after))) ∧
    (∀ body w, w ∈ Qualifier.passingWords body → codeMarkup r.content <:+: w →
      codeMarkup r.content <:+: (Qualifier.parse body).attrText) ∧
    (InLiteral (renderInline before) (codeMarkup r.content) (renderInline after) →
      Text.escapeHtml (codeMarkup r.content) <:+: rewriteBrackets (renderInline (before ++ r :: after))) := by
  have hrun : renderRun r = codeMarkup r.content := by
    unfold renderRun
    rw [hcode]
    rfl
  have hruns : renderInline (before ++ r :: after) =
      renderInline before ++ codeMarkup r.content ++ renderInline after := by
    rw [renderInline, List.flatMap_append, List.flatMap_cons, hrun, ← List.append_assoc]
    rfl
  have hedged := edged_codeMarkup r.content
  rw [hruns]
  refine ⟨fun hliteral hqualifier => ?_, fun body w => word_infix_attrText hedged, shown_of_inLiteral⟩
  rcases place_cases (inert_codeMarkup r.content) (renderInline before) (renderInline after) with
    htext | ⟨b, hcontent⟩ | hlit | ⟨body, hq⟩
  · exact shown_of_inText htext
  · exact shown_of_inContent hedged hcontent
  · exact absurd hlit hliteral
  · exact shown_of_inQualifier hq (hqualifier body hq)

/-- A run of text. -/
def textRun (content : Text) : Token := { kind := .text, content := content }

/-- A run of code. -/
def codeRun (content : Text) : Token := { kind := .codeInline, content := content }

/-- Code with brackets of its own in the content of a construct, behind an escaped
bracket. -/
theorem code_runs_shown_content :
    ¬ InLiteral (renderInline [textRun "\\[ :[a "]) (codeMarkup "x\\[]") (renderInline [textRun " b]\x7b.c\x7d"]) ∧
      (∀ body, ¬ InQualifier (renderInline [textRun "\\[ :[a "]) (codeMarkup "x\\[]")
        (renderInline [textRun " b]\x7b.c\x7d"]) body) ∧
      codeMarkup "x\\[]" <:+:
        rewriteBrackets (renderInline ([textRun "\\[ :[a "] ++ codeRun "x\\[]" :: [textRun " b]\x7b.c\x7d"])) := by
  have hread : bracketPieces (renderInline [textRun "\\[ :[a "] ++ codeMarkup "x\\[]" ++
      renderInline [textRun " b]\x7b.c\x7d"]) =
        [.bare '[', .char ' ', .construct ⟨true, "a <code>x\\&#91;&#93;</code> b", some ".c"⟩] := by decide +kernel
  have hliteral : ¬ InLiteral (renderInline [textRun "\\[ :[a "]) (codeMarkup "x\\[]")
      (renderInline [textRun " b]\x7b.c\x7d"]) := by
    rintro ⟨ps, b, qs, u, v, hps, -⟩
    have hmem : .literal b ∈ ps ++ .literal b :: qs := by simp
    rw [← hps, hread] at hmem
    simp at hmem
  have hqualifier : ∀ body, ¬ InQualifier (renderInline [textRun "\\[ :[a "]) (codeMarkup "x\\[]")
      (renderInline [textRun " b]\x7b.c\x7d"]) body := by
    rintro body ⟨ps, b, qs, u, v, hps, hq, -, hin⟩
    have hmem : .construct b ∈ ps ++ .construct b :: qs := by simp
    rw [← hps, hread] at hmem
    obtain rfl : b = ⟨true, "a <code>x\\&#91;&#93;</code> b", some ".c"⟩ := by simpa using hmem
    have hlen := congrArg List.length ((Option.some.inj hq).trans hin)
    rw [List.length_append, List.length_append] at hlen
    have hlong : (codeMarkup "x\\[]").length = 25 := by decide +kernel
    have hshort : (".c" : Text).length = 2 := by decide
    omega
  have hshown := code_runs_shown [textRun "\\[ :[a "] [textRun " b]\x7b.c\x7d"] (r := codeRun "x\\[]") rfl
  exact ⟨hliteral, hqualifier, hshown.1 hliteral fun body hin => absurd hin (hqualifier body)⟩

/-- Behind a backslash the tags of code are shown as text, and in a qualifier code is
read as words. -/
theorem code_not_shown :
    rewriteBrackets (renderInline [textRun "\\[", codeRun "a", textRun "]"]) = "[&lt;code&gt;a&lt;/code&gt;]" ∧
      ¬ codeMarkup "a" <:+: rewriteBrackets (renderInline [textRun "\\[", codeRun "a", textRun "]"]) ∧
      rewriteBrackets (renderInline [textRun "[x]\x7b.a ", codeRun "b  c", textRun "\x7d"]) =
        "<span class=\"a\" <code>b c</code>>x</span>" ∧
      ¬ codeMarkup "b  c" <:+:
        rewriteBrackets (renderInline [textRun "[x]\x7b.a ", codeRun "b  c", textRun "\x7d"]) := by
  decide +kernel

end Docweave

import Docweave.Proofs.BracketEscapes
import Mathlib.Data.List.Forall2
import Mathlib.Data.List.Induction

/-!
# Texts with escaped brackets

In a text whose brackets are all escaped nothing should be a construct, and all
that two turns have to do is to take the backslashes off. A text is read as
`EscapePiece`s, from left to right: the pairs of a backslash and punctuation, and
the other characters. `halfText` is what the first turn leaves of pieces. The
second turn takes that apart between pieces again, also where it takes an escaped
construct as a whole.

> `bracketsEscaped_iff`: every bracket has an odd number of backslashes in front
> of it exactly when no piece is a bare bracket.

> `unescapeText_eq_halfText`, `match?_halfText`, `rewriteBrackets_halfText`: what
> the turns make of pieces.

> `escapes_resolved_iff`: all escapes are resolved exactly when the text has no
> closing bracket; the backslash of a closing bracket is taken off by neither turn.
-/

namespace Docweave

open BracketSpan (starts opening? content? group? match? withQualifier)

/-! ## Texts as pieces -/

/-- A piece of a text that is read for escapes: a backslash with the punctuation
behind it, or a character of its own. -/
inductive EscapePiece
  | pair (c : Char)
  | plain (c : Char)
deriving DecidableEq

namespace EscapePiece

/-- The character that a piece stands for. -/
def char : EscapePiece → Char
  | pair c => c
  | plain c => c

/-- The text of a piece. -/
def written : EscapePiece → Text
  | pair c => ['\\', c]
  | plain c => [c]

/-- What the first turn leaves of a piece whose bracket, if it is one, is escaped. -/
def half : EscapePiece → Text
  | pair c => if c = '[' ∨ c = ']' then ['\\', c] else [c]
  | plain c => [c]

/-- What a piece may be left as: the backslash of a pair goes, except in front
of a closing bracket, where it stays, and of an opening one, where it may. -/
inductive LeftAs : EscapePiece → Text → Prop
  | plain (c : Char) : LeftAs (plain c) [c]
  | resolved {c : Char} (h : c ≠ ']') : LeftAs (pair c) [c]
  | opening : LeftAs (pair '[') ['\\', '[']
  | closing : LeftAs (pair ']') ['\\', ']']

/-- The piece is no bracket without a backslash. -/
def Guarded (p : EscapePiece) : Prop := p ≠ plain '[' ∧ p ≠ plain ']'

instance (p : EscapePiece) : Decidable p.Guarded := inferInstanceAs (Decidable (_ ∧ _))

end EscapePiece

/-- The pieces of a text, from left to right. -/
def escapePieces : Text → List EscapePiece
  | [] => []
  | '\\' :: c :: t =>
    if Text.isPunctuation c then .pair c :: escapePieces t else .plain '\\' :: escapePieces (c :: t)
  | c :: t => .plain c :: escapePieces t

/-- The text with the backslash taken off every pair. -/
def resolveEscapes (t : Text) : Text := (escapePieces t).map EscapePiece.char

/-- What the first turn leaves of pieces. -/
def halfText (ps : List EscapePiece) : Text := ps.flatMap EscapePiece.half

/-- How many backslashes stand at the end of a text. -/
def backslashesAtEnd (t : Text) : Nat := (t.reverse.takeWhile (· = '\\')).length

/-- Every bracket has an odd number of backslashes in front of it. -/
def BracketsEscaped (t : Text) : Prop :=
  ∀ front c behind, t = front ++ c :: behind → c = '[' ∨ c = ']' → backslashesAtEnd front % 2 = 1

/-! ### Reading pieces -/

/-- Whether an odd number of backslashes stands at the end, read from the left. -/
def oddBackslashes (odd : Bool) (t : Text) : Bool := t.foldl (fun odd c => c = '\\' && !odd) odd

theorem oddBackslashes_iff (t : Text) : oddBackslashes false t = true ↔ backslashesAtEnd t % 2 = 1 := by
  induction t using List.reverseRecOn with
  | nil => simp [oddBackslashes, backslashesAtEnd]
  | append_singleton t c ih =>
    have hstep : oddBackslashes false (t ++ [c]) = (decide (c = '\\') && !oddBackslashes false t) := by
      rw [oddBackslashes, List.foldl_append]
      rfl
    rw [hstep, backslashesAtEnd, List.reverse_append, List.reverse_singleton, List.singleton_append]
    by_cases hc : c = '\\'
    · rw [List.takeWhile_cons_of_pos (by simpa using hc), List.length_cons]
      cases hodd : oddBackslashes false t with
      | true =>
        have hcount := ih.1 hodd
        unfold backslashesAtEnd at hcount
        simp only [hc, decide_true, Bool.not_true, Bool.and_false, Bool.false_eq_true, false_iff]
        omega
      | false =>
        have hcount : ¬ backslashesAtEnd t % 2 = 1 := fun h => absurd (hodd ▸ ih.2 h) (by simp)
        unfold backslashesAtEnd at hcount
        simp only [hc, decide_true, Bool.not_false, Bool.and_self, true_iff]
        omega
    · rw [List.takeWhile_cons_of_neg (by simpa using hc)]
      simp [hc]

/-- The brackets of a text are escaped where it is read with a backslash open in
front of it or none. -/
def EscapedFrom (odd : Bool) (t : Text) : Prop :=
  ∀ front c behind, t = front ++ c :: behind → c = '[' ∨ c = ']' → oddBackslashes odd front = true

theorem escapedFrom_cons {odd : Bool} {c : Char} {t : Text} :
    EscapedFrom odd (c :: t) ↔
      (c = '[' ∨ c = ']' → odd = true) ∧ EscapedFrom (c = '\\' && !odd) t := by
  constructor
  · intro h
    refine ⟨h [] c t rfl, fun front d behind ht hd => ?_⟩
    exact h (c :: front) d behind (by rw [ht]; rfl) hd
  · rintro ⟨hfirst, hrest⟩ front d behind ht hd
    cases front with
    | nil =>
      obtain ⟨rfl, -⟩ := List.cons.inj ht
      exact hfirst hd
    | cons x front =>
      obtain ⟨rfl, htail⟩ := List.cons.inj ht
      exact hrest front d behind htail hd

theorem escapedFrom_iff (t : Text) : EscapedFrom false t ↔ ∀ p ∈ escapePieces t, p.Guarded := by
  fun_induction escapePieces t with
  | case1 => simp [EscapedFrom]
  | case2 c t hpunct ih =>
    rw [List.forall_mem_cons, ← ih, escapedFrom_cons, escapedFrom_cons]
    simp [EscapePiece.Guarded]
  | case3 c t hpunct ih =>
    -- a character that is no punctuation is neither a bracket nor a backslash
    have hne : c ≠ '[' ∧ c ≠ ']' ∧ c ≠ '\\' := by
      refine ⟨?_, ?_, ?_⟩ <;> rintro rfl <;> exact hpunct (by decide)
    rw [List.forall_mem_cons, ← ih, escapedFrom_cons, escapedFrom_cons, escapedFrom_cons]
    simp [EscapePiece.Guarded, hne]
  | case4 c t hne ih =>
    rw [List.forall_mem_cons, ← ih, escapedFrom_cons]
    by_cases hc : c = '\\'
    · cases t with
      | nil => simp [EscapedFrom, EscapePiece.Guarded, hc]
      | cons d t => exact absurd rfl (hne d t hc)
    · simp [EscapePiece.Guarded, hc]

/-- **Brackets and pieces.** Every bracket has an odd number of backslashes in
front of it exactly when no piece is a bracket without a backslash. -/
theorem bracketsEscaped_iff (t : Text) : BracketsEscaped t ↔ ∀ p ∈ escapePieces t, p.Guarded := by
  have hread : BracketsEscaped t ↔ EscapedFrom false t := by
    simp only [BracketsEscaped, EscapedFrom, oddBackslashes_iff]
  exact hread.trans (escapedFrom_iff t)

/-- The pieces make up the text. -/
theorem written_escapePieces (t : Text) : (escapePieces t).flatMap EscapePiece.written = t := by
  fun_induction escapePieces t with
  | case1 => rfl
  | case2 c t _ ih => rw [List.flatMap_cons, ih]; rfl
  | case3 c t _ ih => rw [List.flatMap_cons, ih]; rfl
  | case4 c t _ ih => rw [List.flatMap_cons, ih]; rfl

theorem char_mem {t : Text} {p : EscapePiece} (h : p ∈ escapePieces t) : p.char ∈ t := by
  rw [← written_escapePieces t]
  refine List.mem_flatMap.2 ⟨p, h, ?_⟩
  cases p <;> simp [EscapePiece.char, EscapePiece.written]

/-- Where brackets are escaped, a closing one is a piece with its backslash. -/
theorem closing_mem_iff {t : Text} (h : ∀ p ∈ escapePieces t, p.Guarded) :
    ']' ∈ t ↔ .pair ']' ∈ escapePieces t := by
  refine ⟨fun hmem => ?_, fun hmem => char_mem hmem⟩
  rw [← written_escapePieces t] at hmem
  obtain ⟨p, hp, hc⟩ := List.mem_flatMap.1 hmem
  cases p with
  | pair c =>
    obtain rfl : c = ']' := by simpa [EscapePiece.written, eq_comm] using hc
    exact hp
  | plain c =>
    obtain rfl : c = ']' := by simpa [EscapePiece.written, eq_comm] using hc
    exact absurd rfl (h _ hp).2

/-! ### The first turn -/

section

variable {p : EscapePiece} {ps : List EscapePiece}

/-- A guarded piece is an escaped bracket, or leaves its character. -/
theorem half_cases (h : p.Guarded) :
    p = .pair '[' ∨ p = .pair ']' ∨ p.half = [p.char] ∧ p.char ≠ '[' ∧ p.char ≠ ']' := by
  cases p with
  | pair c =>
    by_cases hopen : c = '['
    · exact Or.inl (congrArg _ hopen)
    by_cases hclose : c = ']'
    · exact Or.inr (Or.inl (congrArg _ hclose))
    exact Or.inr (Or.inr ⟨if_neg (by simp [hopen, hclose]), hopen, hclose⟩)
  | plain c =>
    exact Or.inr (Or.inr ⟨rfl, fun hc => h.1 (congrArg _ hc), fun hc => h.2 (congrArg _ hc)⟩)

theorem halfText_cons (p : EscapePiece) (ps : List EscapePiece) : halfText (p :: ps) = p.half ++ halfText ps := by
  rw [halfText, List.flatMap_cons]
  rfl

/-- No opening bracket stands in front of what is left. -/
theorem halfText_ne_bracket (h : ∀ p ∈ ps, p.Guarded) (t : Text) : halfText ps ≠ '[' :: t := by
  cases ps with
  | nil => exact (List.cons_ne_nil _ _).symm
  | cons p ps =>
    rw [halfText_cons]
    intro heq
    rcases half_cases (h p (List.mem_cons_self ..)) with rfl | rfl | ⟨hhalf, hopen, -⟩
    · exact absurd (List.cons.inj heq).1 (by decide)
    · exact absurd (List.cons.inj heq).1 (by decide)
    · rw [hhalf] at heq
      exact hopen (List.cons.inj heq).1

/-- A character that is no opening bracket does not start a construct there. -/
theorem starts_cons_halfText (h : ∀ p ∈ ps, p.Guarded) {c : Char} (hc : c ≠ '[') :
    starts (c :: halfText ps) = false := by
  rw [← Bool.not_eq_true]
  intro hs
  obtain ⟨t, heq | heq⟩ := eq_of_starts hs
  · exact hc (List.cons.inj heq).1
  · exact halfText_ne_bracket h t (List.cons.inj heq).2

/-- What is left does not start with a construct. -/
theorem starts_halfText (h : ∀ p ∈ ps, p.Guarded) : starts (halfText ps) = false := by
  cases ps with
  | nil => rfl
  | cons p ps =>
    obtain ⟨hp, hps⟩ := List.forall_mem_cons.1 h
    rw [halfText_cons]
    rcases half_cases hp with rfl | rfl | ⟨hhalf, hopen, -⟩
    · rfl
    · rfl
    · rw [hhalf]
      exact starts_cons_halfText hps hopen

end

/-- A colon in front of an opening bracket is not read as a piece of its own
where brackets are escaped. -/
theorem head?_ne_bracket {t : Text} (h : ∀ p ∈ escapePieces t, p.Guarded) : t.head? ≠ some '[' := by
  intro hhead
  obtain ⟨t, rfl⟩ := List.head?_eq_some_iff.1 hhead
  have hplain : escapePieces ('[' :: t) = .plain '[' :: escapePieces t := by
    rw [escapePieces]
    intro c rest hback
    exact absurd hback (by decide)
  rw [hplain] at h
  exact (h _ (List.mem_cons_self ..)).1 rfl

/-- **The first turn** resolves all pairs but those in front of brackets. -/
theorem unescapeText_eq_halfText {t : Text} (h : ∀ p ∈ escapePieces t, p.Guarded) :
    unescapeText t = halfText (escapePieces t) := by
  fun_induction escapePieces t with
  | case1 => rfl
  | case2 c t hpunct ih =>
    obtain ⟨hp, hps⟩ := List.forall_mem_cons.1 h
    have hrest := ih hps
    rw [halfText_cons, ← hrest, unescapeText, if_neg (by simp [hpunct])]
    rcases half_cases hp with hopen | hclose | ⟨hhalf, hopen, hclose⟩
    · obtain rfl := EscapePiece.pair.inj hopen
      rfl
    · obtain rfl := EscapePiece.pair.inj hclose
      rfl
    · rw [hhalf, if_neg]
      · rfl
      · simpa [head?_ne_bracket hps] using ⟨hopen, hclose⟩
  | case3 c t hpunct ih =>
    obtain ⟨hp, hps⟩ := List.forall_mem_cons.1 h
    rw [halfText_cons, ← ih hps, unescapeText, if_pos (by simp [hpunct])]
    rfl
  | case4 c t hne ih =>
    obtain ⟨hp, hps⟩ := List.forall_mem_cons.1 h
    rw [halfText_cons, ← ih hps, unescapeText]
    · rfl
    · exact hne

/-! ### The second turn -/

section

variable {t a r : Text} {c : Char} {d : Nat} {b : BracketSpan} {ps : List EscapePiece}

/-- Content that goes on behind a character. -/
theorem content?_cons (hc : c ≠ ']') (h : content? (c :: t) = some (a, r)) :
    c ≠ '[' ∧ ∃ a', content? t = some (a', r) := by
  rw [content?, if_neg hc] at h
  split at h
  next => exact absurd h (by simp)
  next hstop =>
    obtain ⟨⟨a', r'⟩, hrest, heq⟩ := Option.map_eq_some_iff.1 h
    obtain ⟨-, rfl⟩ := Prod.mk.inj heq
    exact ⟨fun hopen => hstop (by simp [hopen]), a', hrest⟩

theorem content?_of_not_mem (h : ']' ∉ t) : content? t = none := by
  induction t with
  | nil => rfl
  | cons c t ih =>
    obtain ⟨hc, ht⟩ := not_or.1 fun hmem => h (List.mem_cons.2 hmem)
    rw [content?, if_neg fun heq => hc heq.symm, ih ht]
    split <;> rfl

theorem match?_of_not_mem (h : ']' ∉ t) : match? ('[' :: t) = none := by
  rw [match?]
  simp only [opening?, content?_of_not_mem h]

/-- A group ends at a closing brace or goes on behind the character. -/
theorem group?_cons (h : group? d (c :: t) = some (a, r)) :
    c = '\x7d' ∧ r = t ∨ ∃ d' a', group? d' t = some (a', r) := by
  have behind : ∀ {d' : Nat}, (group? d' t).map (fun (x : Text × Text) => (c :: x.1, x.2)) = some (a, r) →
      ∃ d' a', group? d' t = some (a', r) := by
    intro d' hmap
    obtain ⟨⟨a', r'⟩, hrest, heq⟩ := Option.map_eq_some_iff.1 hmap
    obtain ⟨-, rfl⟩ := Prod.mk.inj heq
    exact ⟨d', a', hrest⟩
  unfold group? at h
  split at h
  next hc =>
    cases d with
    | zero =>
      obtain ⟨-, rfl⟩ := Prod.mk.inj (Option.some.inj h)
      exact Or.inl ⟨hc, rfl⟩
    | succ d => exact Or.inr (behind h)
  next => split at h <;> exact Or.inr (behind h)

/-- The content of a construct ends between pieces. -/
theorem content?_halfText (hps : ∀ p ∈ ps, p.Guarded) (h : content? (halfText ps) = some (a, r)) :
    ∃ qs rs, ps = qs ++ rs ∧ r = halfText rs := by
  induction ps generalizing a with
  | nil => exact absurd h (by simp [halfText, content?])
  | cons p ps ih =>
    obtain ⟨hp, hrest⟩ := List.forall_mem_cons.1 hps
    rw [halfText_cons] at h
    rcases half_cases hp with rfl | rfl | ⟨hhalf, -, hclose⟩
    · obtain ⟨-, a', h'⟩ := content?_cons (by decide) h
      exact absurd rfl (content?_cons (by decide) h').1
    · obtain ⟨-, a', h'⟩ := content?_cons (by decide) h
      have hend : content? (']' :: halfText ps) = some ([], halfText ps) := by rw [content?, if_pos rfl]
      obtain ⟨-, rfl⟩ := Prod.mk.inj (Option.some.inj (h'.symm.trans hend))
      exact ⟨[.pair ']'], ps, rfl, rfl⟩
    · rw [hhalf] at h
      obtain ⟨-, a', h'⟩ := content?_cons hclose h
      obtain ⟨qs, rs, rfl, hr⟩ := ih hrest h'
      exact ⟨p :: qs, rs, rfl, hr⟩

/-- A group of braces ends between pieces. -/
theorem group?_halfText (hps : ∀ p ∈ ps, p.Guarded) (h : group? d (halfText ps) = some (a, r)) :
    ∃ qs rs, ps = qs ++ rs ∧ r = halfText rs := by
  induction ps generalizing a d with
  | nil => exact absurd h (by simp [halfText, group?])
  | cons p ps ih =>
    obtain ⟨hp, hrest⟩ := List.forall_mem_cons.1 hps
    -- the brackets of a pair are no braces, so the group goes on behind both characters
    have behind : ∀ {x : Char}, x ≠ '\x7d' → group? d ('\\' :: x :: halfText ps) = some (a, r) →
        ∃ qs rs, p :: ps = qs ++ rs ∧ r = halfText rs := by
      intro x hx h
      rcases group?_cons h with ⟨hc, -⟩ | ⟨d', a', h'⟩
      · exact absurd hc (by decide)
      rcases group?_cons h' with ⟨hc, -⟩ | ⟨d'', a'', h''⟩
      · exact absurd hc hx
      obtain ⟨qs, rs, rfl, hr⟩ := ih hrest h''
      exact ⟨p :: qs, rs, rfl, hr⟩
    rw [halfText_cons] at h
    rcases half_cases hp with rfl | rfl | ⟨hhalf, -, -⟩
    · exact behind (by decide) h
    · exact behind (by decide) h
    · rw [hhalf] at h
      rcases group?_cons h with ⟨-, rfl⟩ | ⟨d', a', h'⟩
      · exact ⟨[p], ps, rfl, rfl⟩
      obtain ⟨qs, rs, rfl, hr⟩ := ih hrest h'
      exact ⟨p :: qs, rs, rfl, hr⟩

theorem halfText_append (qs rs : List EscapePiece) : halfText (qs ++ rs) = halfText qs ++ halfText rs :=
  List.flatMap_append

/-- With its qualifier, if it has one, a construct ends between pieces. -/
theorem withQualifier_halfText {sigil : Bool} {content : Text} (hps : ∀ p ∈ ps, p.Guarded)
    (h : withQualifier sigil content (halfText ps) = (b, r)) : ∃ qs rs, ps = qs ++ rs ∧ r = halfText rs := by
  have whole : ∀ {b' : BracketSpan}, (b', halfText ps) = (b, r) →
      ∃ qs rs, ps = qs ++ rs ∧ r = halfText rs :=
    fun heq => ⟨[], ps, rfl, (Prod.mk.inj heq).2.symm⟩
  unfold withQualifier at h
  split at h
  next inner hbrace =>
    split at h
    next body behind hgroup =>
      obtain ⟨-, rfl⟩ := Prod.mk.inj h
      cases ps with
      | nil => exact absurd hbrace (List.cons_ne_nil _ _).symm
      | cons p ps =>
        obtain ⟨hp, hrest⟩ := List.forall_mem_cons.1 hps
        rw [halfText_cons] at hbrace
        rcases half_cases hp with rfl | rfl | ⟨hhalf, -, -⟩
        · exact absurd (List.cons.inj hbrace).1 (by decide)
        · exact absurd (List.cons.inj hbrace).1 (by decide)
        · rw [hhalf] at hbrace
          obtain ⟨-, rfl⟩ := List.cons.inj hbrace
          obtain ⟨qs, rs, rfl, hr⟩ := group?_halfText hrest hgroup
          exact ⟨p :: qs, rs, rfl, hr⟩
    next => exact whole h
  next => exact whole h

/-- A construct ends between pieces. -/
theorem match?_halfText (hps : ∀ p ∈ ps, p.Guarded) (h : match? ('[' :: halfText ps) = some (b, r)) :
    ∃ qs rs, ps = qs ++ rs ∧ r = halfText rs := by
  unfold match? at h
  simp only [opening?] at h
  split at h
  next => exact absurd h (by simp)
  next content rest hcontent =>
    split at h
    next => exact absurd h (by simp)
    next =>
      obtain ⟨qs, rs, rfl, rfl⟩ := content?_halfText hps hcontent
      obtain ⟨qs', rs', rfl, hr⟩ :=
        withQualifier_halfText (fun p hp => hps p (List.mem_append_right qs hp)) (Option.some.inj h)
      exact ⟨qs ++ qs', rs', (List.append_assoc ..).symm, hr⟩

end

/-- A text without characters of markup is written out as it is. -/
theorem escapeHtml_eq_self {t : Text} (h : ∀ c ∈ t, Text.htmlEntity? c = none) : Text.escapeHtml t = t := by
  induction t with
  | nil => rfl
  | cons c t ih =>
    obtain ⟨hc, ht⟩ := List.forall_mem_cons.1 h
    rw [Text.escapeHtml, Text.escapeWith, List.flatMap_cons, hc]
    exact congrArg (c :: ·) (ih ht)

theorem htmlEntity?_half {p : EscapePiece} (h : Text.htmlEntity? p.char = none) :
    ∀ c ∈ p.half, Text.htmlEntity? c = none := by
  intro c hc
  cases p with
  | pair d =>
    unfold EscapePiece.half at hc
    simp only at hc
    split at hc
    next =>
      rcases List.mem_cons.1 hc with rfl | hc
      · decide
      · rw [List.mem_singleton.1 hc]
        exact h
    next =>
      rw [List.mem_singleton.1 hc]
      exact h
  | plain d =>
    rw [List.mem_singleton.1 hc]
    exact h

/-- What the first turn leaves is one of the things a piece may be left as. -/
theorem leftAs_half {p : EscapePiece} (h : p.Guarded) : p.LeftAs p.half := by
  rcases half_cases h with rfl | rfl | ⟨hhalf, -, hclose⟩
  · exact .opening
  · exact .closing
  · rw [hhalf]
    cases p with
    | pair c => exact .resolved hclose
    | plain c => exact .plain c

/-- A construct behind a backslash is copied, with the pairs in it as the first
turn has left them. -/
theorem rewriteBrackets_construct {ps : List EscapePiece} {b : BracketSpan} {r : Text}
    (hps : ∀ p ∈ ps, p.Guarded) (hmarkup : ∀ p ∈ ps, Text.htmlEntity? p.char = none)
    (h : match? ('[' :: halfText ps) = some (b, r)) :
    ∃ qs rs, ps = qs ++ rs ∧
      rewriteBrackets ('\\' :: '[' :: halfText ps) = '[' :: halfText qs ++ rewriteBrackets (halfText rs) := by
  obtain ⟨qs, rs, rfl, rfl⟩ := match?_halfText hps h
  refine ⟨qs, rs, rfl, ?_⟩
  have htaken : ('[' :: halfText (qs ++ rs)).take
      (('[' :: halfText (qs ++ rs)).length - (halfText rs).length) = '[' :: halfText qs := by
    rw [halfText_append, ← List.cons_append, List.length_append, Nat.add_sub_cancel, List.take_left]
  have hliteral : Text.escapeHtml ('[' :: halfText qs) = '[' :: halfText qs := by
    refine escapeHtml_eq_self (List.forall_mem_cons.2 ⟨by decide, fun c hc => ?_⟩)
    obtain ⟨q, hq, hcq⟩ := List.mem_flatMap.1 hc
    exact htmlEntity?_half (hmarkup q (List.mem_append_left _ hq)) c hcq
  rw [rewriteBrackets_escaped h, htaken, hliteral]

/-- **What is left of escapes.** In a text whose brackets are escaped and that
holds no characters of markup, the rewriting takes pieces apart as they are:
a pair loses its backslash, but a closing bracket never does. -/
theorem rewriteBrackets_halfText (ps : List EscapePiece) (hps : ∀ p ∈ ps, p.Guarded)
    (hmarkup : ∀ p ∈ ps, Text.htmlEntity? p.char = none) :
    ∃ outs, List.Forall₂ EscapePiece.LeftAs ps outs ∧ rewriteBrackets (halfText ps) = outs.flatten := by
  -- on the number of pieces: a construct that is copied takes several of them
  induction hn : ps.length using Nat.strongRecOn generalizing ps with
  | _ n ih =>
  subst hn
  cases ps with
  | nil => exact ⟨[], .nil, by rw [halfText, List.flatMap_nil, rewriteBrackets]; rfl⟩
  | cons p ps =>
    obtain ⟨hp, hrest⟩ := List.forall_mem_cons.1 hps
    obtain ⟨-, hmarkup'⟩ := List.forall_mem_cons.1 hmarkup
    obtain ⟨outs, houts, hout⟩ := ih ps.length (Nat.lt_succ_self _) ps hrest hmarkup' rfl
    rw [halfText_cons]
    rcases half_cases hp with rfl | rfl | ⟨hhalf, hopen, hclose⟩
    · cases hfound : match? ('[' :: halfText ps) with
      | none =>
        refine ⟨['['] :: outs, .cons (.resolved (by decide)) houts, ?_⟩
        rw [List.flatten_cons, ← hout]
        exact rewriteBrackets_lone hfound
      | some found =>
        obtain ⟨qs, rs, rfl, hwritten⟩ := rewriteBrackets_construct hrest hmarkup' hfound
        have hlt : rs.length < (EscapePiece.pair '[' :: (qs ++ rs)).length := by
          rw [List.length_cons, List.length_append]
          omega
        obtain ⟨outs', houts', hout'⟩ := ih rs.length hlt rs (fun p hp => hrest p (List.mem_append_right _ hp))
          (fun p hp => hmarkup' p (List.mem_append_right _ hp)) rfl
        have hkept : List.Forall₂ EscapePiece.LeftAs qs (qs.map EscapePiece.half) :=
          List.forall₂_map_right_iff.2
            (List.forall₂_same.2 fun q hq => leftAs_half (hrest q (List.mem_append_left _ hq)))
        refine ⟨['['] :: (qs.map EscapePiece.half ++ outs'),
          .cons (.resolved (by decide)) (List.rel_append hkept houts'), ?_⟩
        rw [List.flatten_cons, List.flatten_append, ← hout']
        exact hwritten
    · refine ⟨['\\', ']'] :: outs, .cons .closing houts, ?_⟩
      rw [List.flatten_cons, ← hout]
      show rewriteBrackets ('\\' :: ']' :: halfText ps) = _
      rw [rewriteBrackets_copy rfl fun _ => rfl,
        rewriteBrackets_copy (starts_cons_halfText hrest (by decide)) fun h => absurd h (by decide)]
      rfl
    · refine ⟨p.half :: outs, .cons (leftAs_half hp) houts, ?_⟩
      rw [List.flatten_cons, ← hout, hhalf]
      exact rewriteBrackets_copy (starts_cons_halfText hrest hopen) fun _ => starts_halfText hrest

/-- Without a closing bracket there is no construct, and all pairs are resolved. -/
theorem rewriteBrackets_halfText_of_not_mem {ps : List EscapePiece} (hps : ∀ p ∈ ps, p.Guarded)
    (hnone : .pair ']' ∉ ps) : rewriteBrackets (halfText ps) = ps.map EscapePiece.char := by
  induction ps with
  | nil => rw [halfText, List.flatMap_nil, rewriteBrackets]; rfl
  | cons p ps ih =>
    obtain ⟨hp, hrest⟩ := List.forall_mem_cons.1 hps
    obtain ⟨hpne, hnone'⟩ := not_or.1 fun hmem => hnone (List.mem_cons.2 hmem)
    have hih := ih hrest hnone'
    rw [halfText_cons, List.map_cons, ← hih]
    rcases half_cases hp with rfl | rfl | ⟨hhalf, hopen, -⟩
    · have hclosing : ']' ∉ halfText ps := by
        intro hmem
        obtain ⟨q, hq, hc⟩ := List.mem_flatMap.1 hmem
        rcases half_cases (hrest q hq) with rfl | rfl | ⟨hhalf, -, hclose⟩
        · exact absurd hc (by decide)
        · exact hnone' hq
        · rw [hhalf, List.mem_singleton] at hc
          exact hclose hc.symm
      exact rewriteBrackets_lone (match?_of_not_mem hclosing)
    · exact absurd rfl hpne
    · rw [hhalf]
      exact rewriteBrackets_copy (starts_cons_halfText hrest hopen) fun _ => starts_halfText hrest

/-- Each closing bracket brings a backslash along. -/
theorem count_backslash_le {ps : List EscapePiece} {outs : List Text}
    (h : List.Forall₂ EscapePiece.LeftAs ps outs) :
    (ps.map EscapePiece.char).count '\\' + ps.count (.pair ']') ≤ outs.flatten.count '\\' := by
  induction h with
  | nil => simp
  | @cons p out ps outs hout _ ih =>
    have hhead : ([p.char] : Text).count '\\' + ([p] : List EscapePiece).count (.pair ']') ≤ out.count '\\' := by
      cases hout with
      | plain c => simp [EscapePiece.char]
      | @resolved c hc => simp [EscapePiece.char, hc]
      | opening => decide
      | closing => decide
    rw [← List.singleton_append (l := ps), List.map_append, List.count_append, List.count_append,
      List.flatten_cons, List.count_append]
    simp only [List.map_cons, List.map_nil]
    omega

/-- No character of a text has a meaning in markup. -/
def HasNoMarkup (t : Text) : Prop := ∀ c ∈ t, c ∉ ['&', '<', '>', Text.quote, Text.apostrophe]

instance (t : Text) : Decidable (HasNoMarkup t) := List.decidableBAll _ t

theorem htmlEntity?_of_hasNoMarkup {t : Text} (h : HasNoMarkup t) {c : Char} (hc : c ∈ t) :
    Text.htmlEntity? c = none := by
  have hne := h c hc
  simp only [List.mem_cons, List.not_mem_nil, or_false, not_or] at hne
  simp [Text.htmlEntity?, hne]

/-- **Escapes of brackets.** In a text whose brackets are all escaped, pairs
are resolved but for closing brackets, which all keep their backslash, and some
opening brackets; so the escapes are all resolved exactly when the text has no
closing bracket. -/
theorem escapes_resolved_iff {t : Text} (hescaped : BracketsEscaped t) (hmarkup : HasNoMarkup t) :
    (∃ outs, List.Forall₂ EscapePiece.LeftAs (escapePieces t) outs ∧
        rewriteBrackets (unescapeText t) = outs.flatten) ∧
      (rewriteBrackets (unescapeText t) = resolveEscapes t ↔ ']' ∉ t) := by
  have hps := (bracketsEscaped_iff t).1 hescaped
  rw [unescapeText_eq_halfText hps, closing_mem_iff hps]
  obtain ⟨outs, houts, hout⟩ := rewriteBrackets_halfText (escapePieces t) hps fun p hp =>
    htmlEntity?_of_hasNoMarkup hmarkup (char_mem hp)
  refine ⟨⟨outs, houts, hout⟩, fun heq hmem => ?_, rewriteBrackets_halfText_of_not_mem hps⟩
  have hcount := count_backslash_le houts
  have hclosing : 0 < (escapePieces t).count (.pair ']') := List.count_pos_iff.2 hmem
  rw [← hout, heq, resolveEscapes] at hcount
  omega

/-- A lone opening bracket, and other pairs. -/
theorem escapes_resolved_iff_lone :
    BracketsEscaped "\\*a\\* \\\\\\[b c\\d" ∧ HasNoMarkup "\\*a\\* \\\\\\[b c\\d" ∧
      rewriteBrackets (unescapeText "\\*a\\* \\\\\\[b c\\d") = "*a* \\[b c\\d" := by
  have hescaped : BracketsEscaped "\\*a\\* \\\\\\[b c\\d" := (bracketsEscaped_iff _).2 (by decide +kernel)
  have hmarkup : HasNoMarkup "\\*a\\* \\\\\\[b c\\d" := by decide +kernel
  have hresolved := (escapes_resolved_iff hescaped hmarkup).2.2 (by decide +kernel)
  exact ⟨hescaped, hmarkup, hresolved.trans (by decide +kernel)⟩

/-- Neither turn takes off the backslash of a closing bracket. -/
theorem closing_bracket_keeps_backslash :
    BracketsEscaped "\\[x\\]" ∧ HasNoMarkup "\\[x\\]" ∧
      rewriteBrackets (unescapeText "\\[x\\]") = "[x\\]" ∧ resolveEscapes "\\[x\\]" = "[x]" :=
  ⟨(bracketsEscaped_iff _).2 (by decide +kernel), by decide +kernel, by decide +kernel, by decide +kernel⟩

end Docweave

import Mathlib.Data.List.Basic
import Docweave.Proofs.TextLaws
import Docweave.Qualifier.Basic

/-!
# Places of words

The words of a qualifier are cut off one after the other, and a quote in a word
hides the gaps behind it up to the next such quote. Here a word is a place of the
text instead: the text in front of it ends in a gap outside quotes, the word has no
gap outside quotes, and behind it comes such a gap again, or the end.

> `words_append_gap`: words split at a gap outside quotes. What is said of words at
> places follows from this one equation and `words_append`.

> `words_of_place`, `place_of_words`: a place is found as a word, with the words in
> front of it and behind it, and every word has its place.

> `lookup?_eq_some_iff`: what is looked up is the value of the first word that
> assigns one to the name.
-/

namespace Docweave.Qualifier

open Text (isGap quote apostrophe cut? dropPrefix?)

/-! ## Quotes -/

/-- The quote that is open behind a character. -/
def quoteBehind (q : Option Char) (c : Char) : Option Char :=
  match q with
  | some q => if c = q then none else some q
  | none => if c = quote || c = apostrophe then some c else none

/-- The quote that is open at the end of a text, when one may be open in front of it. -/
def openQuoteFrom (q : Option Char) (t : Text) : Option Char := t.foldl quoteBehind q

/-- The quote that is open at the end of a text. -/
def openQuote (t : Text) : Option Char := openQuoteFrom none t

/-- Every gap of a text stands in quotes. -/
def UnbrokenFrom (q : Option Char) (w : Text) : Prop :=
  ∀ a c b, w = a ++ c :: b → isGap c = true → openQuoteFrom q a ≠ none

/-- A text starts with a gap outside quotes, or is empty. -/
def StartsGap (q : Option Char) (t : Text) : Prop := ∀ c rest, t = c :: rest → q = none ∧ isGap c = true

/-- A word of a text, with what stands in front of it and behind it. -/
structure WordAt (front w behind : Text) : Prop where
  outside : openQuote front = none
  gap : ∀ c, front.getLast? = some c → isGap c = true
  ne_nil : w ≠ []
  unbroken : UnbrokenFrom none w
  ends : StartsGap (openQuote w) behind

section

variable {q : Option Char} {c : Char} {w r t front behind : Text}

theorem openQuoteFrom_append (q : Option Char) (s t : Text) :
    openQuoteFrom q (s ++ t) = openQuoteFrom (openQuoteFrom q s) t := List.foldl_append

/-- Behind a text that closes its quotes a text starts afresh. -/
theorem openQuote_append {s : Text} (h : openQuote s = none) (t : Text) : openQuote (s ++ t) = openQuote t := by
  show openQuoteFrom none (s ++ t) = openQuoteFrom none t
  rw [openQuoteFrom_append]
  exact congrArg (openQuoteFrom · t) h

/-- A gap opens no quote. -/
theorem quoteBehind_none_gap (hc : isGap c = true) : quoteBehind none c = none := by
  have hne : ¬(c = quote ∨ c = apostrophe) := by
    rintro (rfl | rfl) <;> exact absurd hc (by decide)
  rw [quoteBehind, if_neg (by simpa using hne)]

theorem openQuote_cons_gap (hc : isGap c = true) (t : Text) : openQuote (c :: t) = openQuote t :=
  openQuote_append (s := [c]) (quoteBehind_none_gap hc) t

/-- What is open is a quote, and no gap. -/
theorem isGap_of_openQuoteFrom (hq : ∀ d, q = some d → isGap d = false) (t : Text) :
    ∀ d, openQuoteFrom q t = some d → isGap d = false := by
  induction t generalizing q with
  | nil => exact hq
  | cons x t ih =>
    refine ih fun d hd => ?_
    unfold quoteBehind at hd
    split at hd
    next e =>
      split at hd
      next => exact absurd hd (by simp)
      next => exact hq d hd
    next =>
      split at hd
      next =>
        obtain rfl := Option.some.inj hd
        rw [← Bool.not_eq_true]
        intro hx
        have hopen := quoteBehind_none_gap hx
        rw [quoteBehind, if_pos ‹_›] at hopen
        exact absurd hopen (by simp)
      next => exact absurd hd (by simp)

/-- A gap neither opens nor closes a quote. -/
theorem openQuote_concat_gap (hc : isGap c = true) (t : Text) : openQuote (t ++ [c]) = openQuote t := by
  show openQuoteFrom none (t ++ [c]) = openQuote t
  rw [openQuoteFrom_append]
  show quoteBehind (openQuote t) c = openQuote t
  cases hq : openQuote t with
  | none => exact quoteBehind_none_gap hc
  | some q =>
    have hne : c ≠ q := by
      rintro rfl
      have hgap := isGap_of_openQuoteFrom (fun d hd => absurd hd (by simp)) t c hq
      exact absurd hc (by simp [hgap])
    rw [quoteBehind, if_neg hne]

/-! ## Cutting off one word -/

theorem splitWord_cons (h : isGap c = true → q ≠ none) (t : Text) :
    splitWord q (c :: t) = (c :: (splitWord (quoteBehind q c) t).1, (splitWord (quoteBehind q c) t).2) := by
  cases q with
  | some q => rfl
  | none =>
    conv_lhs => unfold splitWord
    exact if_neg fun hc => h hc rfl

theorem splitWord_gap (hc : isGap c = true) (t : Text) : splitWord none (c :: t) = ([], c :: t) := by
  rw [splitWord]
  simp only
  rw [if_pos hc]

theorem unbrokenFrom_cons :
    UnbrokenFrom q (c :: w) ↔ (isGap c = true → q ≠ none) ∧ UnbrokenFrom (quoteBehind q c) w := by
  constructor
  · intro h
    exact ⟨h [] c w rfl, fun a d b hw hd => h (c :: a) d b (by rw [hw]; rfl) hd⟩
  · rintro ⟨hfirst, hrest⟩ a d b hw hd
    cases a with
    | nil =>
      obtain ⟨rfl, -⟩ := List.cons.inj hw
      exact hfirst hd
    | cons x a =>
      obtain ⟨rfl, htail⟩ := List.cons.inj hw
      exact hrest a d b htail hd

/-- A word is cut off whole. -/
theorem splitWord_append_of_unbroken (hw : UnbrokenFrom q w) (hr : StartsGap (openQuoteFrom q w) r) :
    splitWord q (w ++ r) = (w, r) := by
  induction w generalizing q with
  | nil =>
    cases r with
    | nil => rfl
    | cons c r =>
      obtain ⟨rfl, hc⟩ := hr c r rfl
      exact splitWord_gap hc r
  | cons c w ih =>
    obtain ⟨hc, hrest⟩ := unbrokenFrom_cons.1 hw
    rw [List.cons_append, splitWord_cons hc, ih hrest hr]

/-- What is cut off is a word. -/
theorem unbroken_of_splitWord (h : splitWord q t = (w, r)) :
    t = w ++ r ∧ UnbrokenFrom q w ∧ StartsGap (openQuoteFrom q w) r := by
  induction t generalizing q w with
  | nil =>
    obtain ⟨rfl, rfl⟩ := Prod.mk.inj h
    exact ⟨rfl, fun a c b hw => absurd hw (by simp), fun c rest hr => absurd hr (by simp)⟩
  | cons c t ih =>
    by_cases hstop : isGap c = true ∧ q = none
    · obtain ⟨hc, rfl⟩ := hstop
      obtain ⟨rfl, rfl⟩ := Prod.mk.inj ((splitWord_gap hc t).symm.trans h)
      refine ⟨rfl, fun a c b hw => absurd hw (by simp), fun d rest hr => ?_⟩
      obtain ⟨rfl, -⟩ := List.cons.inj hr
      exact ⟨rfl, hc⟩
    · have hgo : isGap c = true → q ≠ none := fun hc hq => hstop ⟨hc, hq⟩
      obtain ⟨rfl, rfl⟩ := Prod.mk.inj ((splitWord_cons hgo t).symm.trans h)
      obtain ⟨ht, hw, hr⟩ := ih (q := quoteBehind q c) (w := (splitWord (quoteBehind q c) t).1) rfl
      exact ⟨by rw [List.cons_append, ← ht], unbrokenFrom_cons.2 ⟨hgo, hw⟩, hr⟩

/-! ## All words -/

theorem words_cons_gap (hc : isGap c = true) (t : Text) : words (c :: t) = words t := by
  rw [words, dif_pos hc]

/-- The first word of a text that does not start with a gap. -/
theorem words_append (hne : w ≠ []) (hw : UnbrokenFrom none w) (hr : StartsGap (openQuote w) r) :
    words (w ++ r) = w :: words r := by
  have hsplit := splitWord_append_of_unbroken hw hr
  cases w with
  | nil => exact absurd rfl hne
  | cons c w =>
    have hc : ¬ isGap c = true := fun hc => (unbrokenFrom_cons.1 hw).1 hc rfl
    rw [List.cons_append] at hsplit ⊢
    rw [words, dif_neg hc, word, afterWord, hsplit]

/-- The word at the front of a text that does not start with a gap. -/
theorem wordAt_front (hc : ¬ isGap c = true) (t : Text) :
    c :: t = word (c :: t) ++ afterWord (c :: t) ∧ WordAt [] (word (c :: t)) (afterWord (c :: t)) := by
  obtain ⟨hsplit, hunbroken, hends⟩ := unbroken_of_splitWord (q := none) (t := c :: t) (w := word (c :: t))
    (r := afterWord (c :: t)) rfl
  have hne : word (c :: t) ≠ [] := by
    rw [word, splitWord_cons fun h => absurd h hc]
    exact List.cons_ne_nil _ _
  exact ⟨hsplit, rfl, by simp, hne, hunbroken, hends⟩

/-- **Words split at a gap outside quotes.** -/
theorem words_append_gap (hfront : openQuote front = none) (hc : isGap c = true) (t : Text) :
    words (front ++ c :: t) = words front ++ words t := by
  induction front using words.induct with
  | case1 => rw [List.nil_append, words_cons_gap hc, words]; rfl
  | case2 d front hd ih =>
    rw [List.cons_append, words_cons_gap hd, words_cons_gap hd]
    exact ih ((openQuote_cons_gap hd front).symm.trans hfront)
  | case3 d front hd ih =>
    obtain ⟨hsplit, hword⟩ := wordAt_front hd front
    rw [hsplit] at hfront
    -- the word ends in front of a gap of its own or in front of the gap that is split at
    have hquote : openQuote (word (d :: front)) = none := by
      cases hrest : afterWord (d :: front) with
      | nil =>
        rwa [hrest, List.append_nil] at hfront
      | cons x rest => exact (hword.ends x rest hrest).1
    have hends : StartsGap (openQuote (word (d :: front))) (afterWord (d :: front) ++ c :: t) := by
      intro x rest hx
      refine ⟨hquote, ?_⟩
      cases hrest : afterWord (d :: front) with
      | nil =>
        rw [hrest] at hx
        obtain ⟨rfl, -⟩ := List.cons.inj hx
        exact hc
      | cons y ys =>
        rw [hrest] at hx
        obtain ⟨rfl, -⟩ := List.cons.inj hx
        exact (hword.ends _ _ hrest).2
    have hrest : openQuote (afterWord (d :: front)) = none := by rwa [openQuote_append hquote] at hfront
    calc words (d :: front ++ c :: t)
        = words (word (d :: front) ++ (afterWord (d :: front) ++ c :: t)) := by
          rw [← List.append_assoc, ← hsplit]
      _ = word (d :: front) :: words (afterWord (d :: front) ++ c :: t) :=
          words_append hword.ne_nil hword.unbroken hends
      _ = word (d :: front) :: (words (afterWord (d :: front)) ++ words t) := by rw [ih hrest]
      _ = words (d :: front) ++ words t := by
          rw [← List.cons_append, ← words_append hword.ne_nil hword.unbroken hword.ends, ← hsplit]

/-! ## Places -/

/-- **A place is found as a word**, between the words in front of it and behind it. -/
theorem words_of_place (h : WordAt front w behind) :
    words (front ++ w ++ behind) = words front ++ w :: words behind := by
  have hword := words_append h.ne_nil h.unbroken h.ends
  rcases List.eq_nil_or_concat' front with rfl | ⟨x, c, rfl⟩
  · rw [List.nil_append, hword, words]
    rfl
  · have hc : isGap c = true := h.gap c (List.getLast?_concat ..)
    have houtside : openQuote x = none := (openQuote_concat_gap hc x).symm.trans h.outside
    have hsplit : ∀ t, words (x ++ [c] ++ t) = words x ++ words t := by
      intro t
      rw [List.append_assoc]
      exact words_append_gap houtside hc t
    have hfront : words (x ++ [c]) = words x := by
      rw [words_append_gap houtside hc, words, List.append_nil]
    rw [List.append_assoc, hsplit, hword, hfront]

/-- One more gap at the front of the text moves a place, and no more. -/
theorem wordAt_cons_gap (hc : isGap c = true) (h : WordAt front w behind) : WordAt (c :: front) w behind where
  outside := (openQuote_cons_gap hc front).trans h.outside
  gap := by
    intro d hd
    cases front with
    | nil =>
      obtain rfl : c = d := by simpa using hd
      exact hc
    | cons x front => exact h.gap d (by rwa [List.getLast?_cons_cons] at hd)
  ne_nil := h.ne_nil
  unbroken := h.unbroken
  ends := h.ends

/-- **Every word has its place.** -/
theorem place_of_words {ws ws' : List Text} (h : words t = ws ++ w :: ws') :
    ∃ front behind, t = front ++ w ++ behind ∧ WordAt front w behind ∧ words front = ws ∧
      words behind = ws' := by
  induction t using words.induct generalizing ws with
  | case1 =>
    rw [words] at h
    exact absurd h (by simp)
  | case2 c t hc ih =>
    rw [words_cons_gap hc] at h
    obtain ⟨front, behind, rfl, hplace, hfront, hbehind⟩ := ih h
    exact ⟨c :: front, behind, rfl, wordAt_cons_gap hc hplace, by rw [words_cons_gap hc, hfront], hbehind⟩
  | case3 c t hc ih =>
    obtain ⟨hsplit, hword⟩ := wordAt_front hc t
    rw [words, dif_neg hc] at h
    cases ws with
    | nil =>
      obtain ⟨rfl, rfl⟩ := List.cons.inj h
      exact ⟨[], afterWord (c :: t), hsplit, hword, by rw [words], rfl⟩
    | cons w' ws =>
      obtain ⟨rfl, hrest⟩ := List.cons.inj h
      obtain ⟨front, behind, hafter, hplace, hfront, hbehind⟩ := ih hrest
      have hends := hword.ends
      rw [hafter] at hsplit hends
      -- a gap follows the word, so what is in front of the place goes on behind the word
      cases front with
      | nil =>
        cases w with
        | nil => exact absurd rfl hplace.ne_nil
        | cons x w =>
          exact absurd rfl ((unbrokenFrom_cons.1 hplace.unbroken).1 (hends x _ rfl).2)
      | cons x front =>
        have hquote := (hends x _ rfl).1
        have hgap : StartsGap (openQuoteFrom none (word (c :: t))) (x :: front) := by
          intro y rest hy
          obtain ⟨rfl, rfl⟩ := List.cons.inj hy
          exact hends x _ rfl
        refine ⟨word (c :: t) ++ (x :: front), behind, ?_,
          ⟨?_, ?_, hplace.ne_nil, hplace.unbroken, hplace.ends⟩, ?_, hbehind⟩
        · rw [List.append_assoc, List.append_assoc, ← List.append_assoc (x :: front)]
          exact hsplit
        · rw [openQuote_append hquote]
          exact hplace.outside
        · intro y hy
          rw [List.getLast?_append_cons] at hy
          exact hplace.gap y hy
        · rw [words_append hword.ne_nil hword.unbroken hgap, hfront]

end

/-! ## Values -/

/-- A word with an equals sign has its name in front of the first one. -/
theorem nameValue?_eq_some_iff {w name value : Text} :
    nameValue? w = some (name, value) ↔ '=' ∉ name ∧ w = name ++ '=' :: value :=
  Text.cut?_singleton_eq_some

/-- Some word of a text gives the name a value. -/
def Mentions (text name : Text) : Prop :=
  ∃ front value behind, text = front ++ (name ++ '=' :: value) ++ behind ∧
    WordAt front (name ++ '=' :: value) behind

/-- The first word of a text that gives the name a value gives it this one. -/
def Assigns (text name value : Text) : Prop :=
  ∃ front behind, text = front ++ (name ++ '=' :: value) ++ behind ∧
    WordAt front (name ++ '=' :: value) behind ∧ ¬ Mentions front name

section

variable {text line inner name value v : Text}

theorem mentions_iff : Mentions text name ↔ ∃ value, name ++ '=' :: value ∈ words text := by
  constructor
  · rintro ⟨front, value, behind, rfl, hplace⟩
    refine ⟨value, ?_⟩
    rw [words_of_place hplace]
    exact List.mem_append_right _ (List.mem_cons_self ..)
  · rintro ⟨value, hmem⟩
    obtain ⟨ws, ws', hwords⟩ := List.mem_iff_append.1 hmem
    obtain ⟨front, behind, htext, hplace, -, -⟩ := place_of_words hwords
    exact ⟨front, value, behind, htext, hplace⟩

theorem assigns_iff : Assigns text name value ↔
    ∃ ws ws', words text = ws ++ (name ++ '=' :: value) :: ws' ∧ ∀ value', name ++ '=' :: value' ∉ ws := by
  constructor
  · rintro ⟨front, behind, rfl, hplace, hfirst⟩
    refine ⟨words front, words behind, words_of_place hplace, fun value' hmem => hfirst ?_⟩
    exact mentions_iff.2 ⟨value', hmem⟩
  · rintro ⟨ws, ws', hwords, hfirst⟩
    obtain ⟨front, behind, htext, hplace, rfl, -⟩ := place_of_words hwords
    refine ⟨front, behind, htext, hplace, fun hmentions => ?_⟩
    obtain ⟨value', hmem⟩ := mentions_iff.1 hmentions
    exact hfirst value' hmem

theorem any_nameValue? (hname : '=' ∉ name) (w : Text) :
    (nameValue? w).any (·.1 = name) = true ↔ ∃ value, w = name ++ '=' :: value := by
  rw [Option.any_eq_true]
  constructor
  · rintro ⟨⟨n, value⟩, hw, hn⟩
    obtain rfl : n = name := by simpa using hn
    exact ⟨value, (nameValue?_eq_some_iff.1 hw).2⟩
  · rintro ⟨value, hw⟩
    exact ⟨(name, value), nameValue?_eq_some_iff.2 ⟨hname, hw⟩, by simp⟩

/-- The first value of a name among words. -/
theorem find?_nameValue? (hname : '=' ∉ name) (ws : List Text) (p : Text × Text) :
    (ws.filterMap nameValue?).find? (·.1 = name) = some p ↔
      p.1 = name ∧ ∃ front behind, ws = front ++ (name ++ '=' :: p.2) :: behind ∧
        ∀ value, name ++ '=' :: value ∉ front := by
  rw [List.find?_filterMap, Option.bind_eq_some_iff]
  simp only [List.find?_eq_some_iff_append, any_nameValue? hname]
  constructor
  · rintro ⟨w, ⟨⟨value, rfl⟩, front, behind, hws, hfront⟩, hp⟩
    obtain rfl : p = (name, value) := by
      rw [nameValue?_eq_some_iff.2 ⟨hname, rfl⟩] at hp
      exact (Option.some.inj hp).symm
    refine ⟨rfl, front, behind, hws, fun value' hmem => ?_⟩
    have hother := hfront _ hmem
    rw [(any_nameValue? hname _).2 ⟨value', rfl⟩] at hother
    exact absurd hother (by simp)
  · obtain ⟨n, value⟩ := p
    rintro ⟨rfl, front, behind, hws, hfront⟩
    refine ⟨_, ⟨⟨value, rfl⟩, front, behind, hws, fun w hw => ?_⟩,
      nameValue?_eq_some_iff.2 ⟨hname, rfl⟩⟩
    rw [Bool.not_eq_true', ← Bool.not_eq_true, any_nameValue? hname]
    rintro ⟨value', rfl⟩
    exact hfront value' hw

/-- Braces around a text are taken off. -/
theorem inside_braces (inner : Text) :
    Text.trimSuffix "\x7d" (Text.trimPrefix "\x7b" ('\x7b' :: (inner ++ ['\x7d']))) = inner :=
  Text.trimSuffix_append "\x7d" inner

/-- **What is looked up** in braces is the value of the first word that gives one to the name. -/
theorem lookup?_eq_some_iff (hline : Text.trim line = '\x7b' :: (inner ++ ['\x7d'])) (hname : '=' ∉ name) :
    lookup? line name = some v ↔ ∃ value, Assigns inner name value ∧ v = unquote value := by
  unfold lookup?
  simp only [hline, inside_braces, Option.map_eq_some_iff, find?_nameValue? hname]
  constructor
  · rintro ⟨⟨n, value⟩, ⟨-, hfirst⟩, rfl⟩
    exact ⟨value, assigns_iff.2 hfirst, rfl⟩
  · rintro ⟨value, hassigns, rfl⟩
    exact ⟨(name, value), ⟨rfl, assigns_iff.1 hassigns⟩, rfl⟩

/-- A value is empty, or nothing stands between its quotes. -/
theorem unquote_eq_nil_iff :
    unquote value = [] ↔ value = [] ∨ value = [quote, quote] ∨ value = [apostrophe, apostrophe] := by
  constructor
  · intro h
    unfold unquote at h
    split at h
    next q r =>
      split at h
      next hquoted =>
        -- what is between the quotes is empty, so the second quote is all there is
        simp only [Bool.and_eq_true, Bool.or_eq_true, decide_eq_true_eq, Bool.not_eq_true',
          List.isEmpty_eq_false_iff] at hquoted
        obtain ⟨⟨hq, hne⟩, hlast⟩ := hquoted
        obtain rfl : r = [q] := by
          have hr := List.dropLast_append_getLast? q hlast
          rw [h] at hr
          exact hr.symm
        exact Or.inr (hq.imp (by rintro rfl; rfl) (by rintro rfl; rfl))
      next => exact absurd h (by simp)
    next => exact Or.inl rfl
  · rintro (rfl | rfl | rfl) <;> rfl

end

end Docweave.Qualifier

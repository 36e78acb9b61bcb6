import Docweave.Proofs.BraceGroups
import Docweave.Proofs.Markers
import Mathlib.Data.List.Basic

/-!
# Words of markers

The check of a stream walks over the markers with a stack of lines, and jumps over the
three tokens of each. What it decides is said here of the plain word of the markers: a
marker at each place of the stream where one starts, in order.

`Matched` are the balanced words. In any word a closing marker is `Awaited` when an
opening one is left in front of it, which is one with a balanced part between the two,
and an opening marker is `Answered` when a closing one meets it in the same way.
`Judged` is the rule: a balanced word passes; else the first closing marker that is not
awaited is a fault; else the last opening marker that is not answered is one.

> `markers_of_mark`: no marker starts inside another, so the jumps miss none.

> `checkMarkers_judged`: the check judges the word by the rule. What carries it is
> `Leaves`: the stack holds the openers of the part that has been read, with balanced
> parts between them.

> `judged_unique`: the rule leaves no choice.

> `containers_judged`: so the check answers by the rule and no other way.
-/

namespace Docweave

/-- A marker of a stream: which way it faces, and its line. -/
structure Marker where
  opens : Bool
  line : Nat

/-- The marker that starts at the front of a stream. -/
def markerAt? : List Token → Option Marker
  | [] => none
  | t :: ts =>
    if opensContainer (t :: ts) then some ⟨true, t.line⟩
    else if (closesContainer? (t :: ts)).isSome then some ⟨false, t.line⟩
    else none

/-- The markers of a stream, at whichever places they start. -/
def markers (ts : List Token) : List Marker := ts.tails.filterMap markerAt?

/-- The text of a closing marker: the bracket, and behind it nothing or one balanced
group in braces, white space aside. -/
def ClosingText (content : Text) : Prop :=
  ∃ t, content = ']' :: t ∧
    (Text.trim t = [] ∨ ∃ body, Text.trim t = '\x7b' :: (body ++ ['\x7d']) ∧ Balanced body)

/-- A stream starts with the marker: three tokens that are a top-level paragraph, with
the text of a marker and its line. -/
def StartsWithMarker (ts : List Token) (m : Marker) : Prop :=
  ∃ o i c rest, ts = o :: i :: c :: rest ∧ o.kind = .opens .paragraph ∧ o.level = 0 ∧ i.kind = .inline ∧
    c.kind = .closes .paragraph ∧ m.line = o.line ∧
    (m.opens = true ∧ i.content = ['['] ∨ m.opens = false ∧ ClosingText i.content)

/-- The balanced words of markers. -/
inductive Matched : List Marker → Prop
  | nil : Matched []
  | pair {o c : Marker} {inside behind : List Marker} (ho : o.opens = true) (hinside : Matched inside)
      (hc : c.opens = false) (hbehind : Matched behind) : Matched (o :: (inside ++ c :: behind))

/-- Behind the word an opening marker is left: all that follows it is balanced. -/
def Awaited (front : List Marker) : Prop :=
  ∃ before o inside, front = before ++ o :: inside ∧ o.opens = true ∧ Matched inside

/-- In front of the word an opening marker would be closed: by the first marker behind a
balanced part. -/
def Answered (behind : List Marker) : Prop :=
  ∃ inside c after, behind = inside ++ c :: after ∧ c.opens = false ∧ Matched inside

/-- Every closing marker of a word has an opening one left in front of it. -/
def AllAwaited (w : List Marker) : Prop := ∀ front c behind, w = front ++ c :: behind → c.opens = false → Awaited front

/-- Every opening marker of a word is closed. -/
def AllAnswered (w : List Marker) : Prop := ∀ front o behind, w = front ++ o :: behind → o.opens = true → Answered behind

/-- The rule for words of markers. `src` is the document, and `offset` the number of its
lines in front of those that the markers count. -/
inductive Judged (src : Text) (offset : Int) : List Marker → Except Fault Unit → Prop
  | balanced {w : List Marker} (h : Matched w) : Judged src offset w (.ok ())
  | stray {front behind : List Marker} {c : Marker} (hc : c.opens = false) (first : AllAwaited front)
      (hstray : ¬ Awaited front) :
      Judged src offset (front ++ c :: behind) (.error (.at' .unexpectedClose (c.line + offset) src))
  | unclosed {front behind : List Marker} {o : Marker} (none : AllAwaited (front ++ o :: behind))
      (ho : o.opens = true) (hopen : ¬ Answered behind) (last : AllAnswered behind) :
      Judged src offset (front ++ o :: behind) (.error (.at' .unclosedContainer (o.line + offset) src))

/-! ## The markers of a stream -/

section

variable {t : Token} {ts : List Token} {m : Marker}

theorem markers_cons (t : Token) (ts : List Token) :
    markers (t :: ts) = (markerAt? (t :: ts)).toList ++ markers ts := by
  show ((t :: ts) :: ts.tails).filterMap markerAt? = _
  rw [List.filterMap_cons]
  cases markerAt? (t :: ts) with
  | none => rfl
  | some m => rfl

theorem markerAt?_of_no_window (h : markerParagraph? (t :: ts) = none) : markerAt? (t :: ts) = none := by
  rw [markerAt?, opensContainer, closesContainer?, h]
  rfl

/-- A marker stands in the window of a paragraph. -/
theorem window_of_mark (h : markerAt? (t :: ts) = some m) :
    ∃ i c rest, ts = i :: c :: rest ∧ i.kind = .inline ∧ c.kind = .closes .paragraph := by
  have hwindow : markerParagraph? (t :: ts) ≠ none := by
    intro hnone
    rw [markerAt?_of_no_window hnone] at h
    exact absurd h (by simp)
  obtain ⟨i, hi⟩ := Option.ne_none_iff_exists'.1 hwindow
  obtain ⟨o, c, rest, heq, -, -, hinline, hcloses⟩ := markerParagraph?_eq_some hi
  exact ⟨i, c, rest, (List.cons.inj heq).2, hinline, hcloses⟩

/-- **No marker starts inside another.** -/
theorem markers_of_mark (h : markerAt? (t :: ts) = some m) : markers (t :: ts) = m :: markers (ts.drop 2) := by
  obtain ⟨i, c, rest, rfl, hi, hc⟩ := window_of_mark h
  have hinline : markerAt? (i :: c :: rest) = none :=
    markerAt?_of_no_window (markerParagraph?_cons_eq_none _ (by simp [hi]))
  have hcloses : markerAt? (c :: rest) = none :=
    markerAt?_of_no_window (markerParagraph?_cons_eq_none _ (by simp [hc]))
  rw [markers_cons, markers_cons, markers_cons, h, hinline, hcloses]
  rfl

theorem markers_of_none (h : markerAt? (t :: ts) = none) : markers (t :: ts) = markers ts := by
  rw [markers_cons, h]
  rfl

theorem markerAt?_of_opens (h : opensContainer (t :: ts) = true) : markerAt? (t :: ts) = some ⟨true, t.line⟩ :=
  if_pos h

theorem markerAt?_of_closes {q : Option Text} (h : closesContainer? (t :: ts) = some q) :
    markerAt? (t :: ts) = some ⟨false, t.line⟩ := by
  rw [markerAt?, if_neg (Bool.eq_false_iff.1 (opensContainer_of_closes h)), if_pos (by rw [h]; rfl)]

theorem markerAt?_of_plain (ho : opensContainer (t :: ts) = false) (hc : closesContainer? (t :: ts) = none) :
    markerAt? (t :: ts) = none := by
  rw [markerAt?, if_neg (Bool.eq_false_iff.1 ho), if_neg (by simp [hc])]

/-- A line without white space at its ends is a group in braces when nothing but white
space is split off in front of its last group. -/
theorem splitTrailing?_whole {line text body : Text} (hedged : Text.Edged line) (htext : Text.trim text = [])
    (h : Braces.splitTrailing? line = some (text, body)) : line = '\x7b' :: (body ++ ['\x7d']) ∧ Balanced body := by
  obtain ⟨gaps, hline, hgaps, hbody⟩ := Braces.splitTrailing?_eq_some h
  obtain ⟨c, w, hfirst, hc⟩ := hedged.first
  obtain ⟨w', d, hlast, hd⟩ := hedged.last
  obtain rfl : text = [] := by
    cases text with
    | nil => rfl
    | cons x text =>
      rw [hfirst] at hline
      obtain ⟨rfl, -⟩ := List.cons.inj hline
      obtain ⟨y, u, htrim, -⟩ := Text.trim_append (s := c :: text) [] ⟨c, List.mem_cons_self .., hc⟩
      rw [List.append_nil, htext] at htrim
      exact absurd htrim (by simp)
  obtain rfl : gaps = [] := by
    rcases List.eq_nil_or_concat' gaps with rfl | ⟨front, x, rfl⟩
    · rfl
    · have hend : w' ++ [d] = ('\x7b' :: (body ++ '\x7d' :: front)) ++ [x] := by
        rw [← hlast, hline]
        simp
      obtain rfl := (List.cons.inj (List.append_inj_right' hend rfl)).1
      have hgap := hgaps d (by simp)
      rw [Text.isSpace_of_isBlankAscii (Text.isBlankAscii_of_isGap hgap)] at hd
      exact absurd hd (by simp)
  exact ⟨hline, hbody⟩

theorem closingQualifier?_isSome_iff {content : Text} : (closingQualifier? content).isSome ↔ ClosingText content := by
  unfold closingQualifier? ClosingText
  split
  next t =>
    simp only [List.cons.injEq, true_and, exists_eq_left']
    by_cases hblank : Text.trim t = []
    · simp [hblank]
    · rw [if_neg (by simpa using hblank)]
      constructor
      · intro h
        split at h
        next text body hsplit =>
          split at h
          next htext => exact Or.inr ⟨body, splitTrailing?_whole (Text.edged_trim hblank) (by simpa using htext) hsplit⟩
          next => exact absurd h (by simp)
        next => exact absurd h (by simp)
      · rintro (hnil | ⟨body, hrest, hbody⟩)
        · exact absurd hnil hblank
        · have hsplit : Braces.splitTrailing? (Text.trim t) = some ([], body) :=
            Braces.splitTrailing?_eq_some_iff.2 ⟨[], hrest, by simp, hbody⟩
          rw [hsplit]
          rfl
  next hother =>
    constructor
    · intro h
      exact absurd h (by simp)
    · rintro ⟨t, rfl, -⟩
      exact absurd rfl (hother t)

/-- **What a marker is.** -/
theorem markerAt?_eq_some_iff : markerAt? ts = some m ↔ StartsWithMarker ts m := by
  constructor
  · intro h
    cases ts with
    | nil => exact absurd h (by simp [markerAt?])
    | cons t ts =>
      rw [markerAt?] at h
      split at h
      next hopen =>
        obtain rfl := Option.some.inj h
        obtain ⟨o, i, c, rest, heq, ho, hl, hi, hc, hbracket⟩ := opensContainer_cases hopen
        exact ⟨o, i, c, rest, heq, ho, hl, hi, hc, congrArg Token.line (List.cons.inj heq).1,
          Or.inl ⟨rfl, hbracket⟩⟩
      next =>
        split at h
        next hclose =>
          obtain rfl := Option.some.inj h
          obtain ⟨q, hq⟩ := Option.isSome_iff_exists.1 hclose
          obtain ⟨o, i, c, rest, heq, ho, hl, hi, hc, hbracket⟩ := closesContainer?_cases hq
          exact ⟨o, i, c, rest, heq, ho, hl, hi, hc, congrArg Token.line (List.cons.inj heq).1,
            Or.inr ⟨rfl, closingQualifier?_isSome_iff.1 (by rw [hbracket]; rfl)⟩⟩
        next => exact absurd h (by simp)
  · rintro ⟨o, i, c, rest, rfl, ho, hl, hi, hc, hline, hmark⟩
    have hwindow : markerParagraph? (o :: i :: c :: rest) = some i := by
      rw [markerParagraph?, if_pos (by simp [ho, hl, hi, hc])]
    obtain ⟨opens, line⟩ := m
    obtain rfl : line = o.line := hline
    rcases hmark with ⟨rfl, hbracket⟩ | ⟨rfl, hclosing⟩
    · exact markerAt?_of_opens (by rw [opensContainer, hwindow]; simpa using hbracket)
    · obtain ⟨q, hq⟩ := Option.isSome_iff_exists.1 (closingQualifier?_isSome_iff.2 hclosing)
      exact markerAt?_of_closes (q := q) (by rw [closesContainer?, hwindow]; exact hq)

end

/-! ## Balanced words -/

section

variable {v w front behind b : List Marker} {st : List Marker} {o c m : Marker}

theorem matched_append (hv : Matched v) (hw : Matched w) : Matched (v ++ w) := by
  induction hv with
  | nil => exact hw
  | @pair o c inside behind ho hinside hc hbehind _ ih =>
    rw [List.cons_append, List.append_assoc, List.cons_append]
    exact .pair ho hinside hc ih

theorem awaited_append (v : List Marker) (h : Awaited w) : Awaited (v ++ w) := by
  obtain ⟨before, o, inside, rfl, ho, hinside⟩ := h
  exact ⟨v ++ before, o, inside, (List.append_assoc ..).symm, ho, hinside⟩

theorem answered_append (h : Answered v) (w : List Marker) : Answered (v ++ w) := by
  obtain ⟨inside, c, after, rfl, hc, hinside⟩ := h
  exact ⟨inside, c, after ++ w, by rw [List.append_assoc, List.cons_append], hc, hinside⟩

/-- A marker of a word that is put together from two stands in one of them. -/
theorem place_in_append {front behind : List Marker} (h : v ++ w = front ++ m :: behind) :
    (∃ x, v = front ++ m :: x ∧ behind = x ++ w) ∨ ∃ x, front = v ++ x ∧ w = x ++ m :: behind := by
  rcases List.append_eq_append_iff.1 h with ⟨x, hx, hw⟩ | ⟨x, hx, hw⟩
  · exact Or.inr ⟨x, hx, hw⟩
  · cases x with
    | nil => exact Or.inr ⟨[], by rw [List.append_nil] at hx ⊢; exact hx.symm, hw.symm⟩
    | cons y x =>
      obtain ⟨rfl, rfl⟩ := List.cons.inj hw
      exact Or.inl ⟨x, hx, rfl⟩

/-- The closing markers of a second word may be awaited by openers of the first. -/
theorem allAwaited_append (hv : AllAwaited v)
    (hw : ∀ front c behind, w = front ++ c :: behind → c.opens = false → Awaited (v ++ front)) :
    AllAwaited (v ++ w) := by
  intro front c behind h hc
  rcases place_in_append h with ⟨x, hx, -⟩ | ⟨x, rfl, hx⟩
  · exact hv front c x hx hc
  · exact hw x c behind hx hc

theorem allAwaited_concat (hw : AllAwaited w) (hm : m.opens = false → Awaited w) : AllAwaited (w ++ [m]) := by
  refine allAwaited_append hw fun front c behind h hc => ?_
  cases front with
  | nil =>
    obtain ⟨rfl, -⟩ := List.cons.inj h
    rw [List.append_nil]
    exact hm hc
  | cons x front => exact absurd (List.cons.inj h).2 (by simp)

theorem allAwaited_append_all (hv : AllAwaited v) (hw : AllAwaited w) : AllAwaited (v ++ w) :=
  allAwaited_append hv fun front c behind h hc => awaited_append v (hw front c behind h hc)

theorem allAwaited_nil : AllAwaited [] := fun front c behind h => absurd h (by simp)

theorem allAwaited_of_matched (h : Matched w) : AllAwaited w := by
  induction h with
  | nil => exact allAwaited_nil
  | @pair o c inside behind ho hinside hc hbehind ihInside ihBehind =>
    have hopener : AllAwaited ([] ++ [o]) := allAwaited_concat allAwaited_nil (by simp [ho])
    have hfront : AllAwaited ([o] ++ inside) := allAwaited_append_all hopener ihInside
    have hclosed : AllAwaited ([o] ++ inside ++ [c]) :=
      allAwaited_concat hfront fun _ => ⟨[], o, inside, rfl, ho, hinside⟩
    have hwhole := allAwaited_append_all hclosed ihBehind
    rwa [List.append_assoc, List.append_assoc] at hwhole

theorem allAnswered_of_matched (h : Matched w) : AllAnswered w := by
  induction h with
  | nil => exact fun front o behind h => absurd h (by simp)
  | @pair o c inside behind ho hinside hc hbehind ihInside ihBehind =>
    intro front o' after hw ho'
    cases front with
    | nil =>
      obtain ⟨rfl, rfl⟩ := List.cons.inj hw
      exact ⟨inside, c, behind, rfl, hc, hinside⟩
    | cons x front =>
      rcases place_in_append (List.cons.inj hw).2 with ⟨y, hy, rfl⟩ | ⟨y, rfl, hy⟩
      · exact answered_append (ihInside front o' y hy ho') _
      · cases y with
        | nil =>
          obtain ⟨rfl, -⟩ := List.cons.inj hy
          exact absurd (hc.symm.trans ho') (by simp)
        | cons z y => exact ihBehind y o' after (List.cons.inj hy).2 ho'

/-! ## What a word leaves open -/

/-- The openers left behind one more marker; none when it closes nothing. -/
def markerStep (st : List Marker) (m : Marker) : Option (List Marker) :=
  if m.opens then some (m :: st)
  else match st with
    | [] => none
    | _ :: st => some st

theorem markerStep_opens (ho : o.opens = true) : markerStep st o = some (o :: st) := if_pos ho

/-- The openers left behind a word that is read with others left before. -/
def leftBehind (st : List Marker) (w : List Marker) : Option (List Marker) := w.foldlM markerStep st

theorem leftBehind_append (st v w : List Marker) :
    leftBehind st (v ++ w) = (leftBehind st v).bind fun st => leftBehind st w := List.foldlM_append

/-- A balanced word leaves what was left before. -/
theorem leftBehind_of_matched (h : Matched w) (st : List Marker) : leftBehind st w = some st := by
  induction h generalizing st with
  | nil => rfl
  | @pair o c inside behind ho hinside hc hbehind ihInside ihBehind =>
    have hopener : leftBehind st [o] = some (o :: st) := by
      rw [leftBehind, List.foldlM_cons, markerStep_opens ho]
      rfl
    have hcloser : leftBehind (o :: st) [c] = some st := by
      rw [leftBehind, List.foldlM_cons, markerStep, if_neg (by simp [hc])]
      rfl
    have hparts : o :: (inside ++ c :: behind) = [o] ++ (inside ++ ([c] ++ behind)) := rfl
    rw [hparts, leftBehind_append, hopener, Option.bind_some, leftBehind_append, ihInside, Option.bind_some,
      leftBehind_append, hcloser, Option.bind_some, ihBehind]

theorem not_awaited_of_matched (h : Matched w) : ¬ Awaited w := by
  rintro ⟨before, o, inside, rfl, ho, hinside⟩
  have hleft := leftBehind_of_matched h []
  rw [leftBehind_append, Option.bind_eq_some_iff] at hleft
  obtain ⟨st, -, hst⟩ := hleft
  rw [leftBehind, List.foldlM_cons, markerStep_opens ho] at hst
  have hopen : leftBehind (o :: st) inside = some [] := hst
  rw [leftBehind_of_matched hinside] at hopen
  exact absurd hopen (by simp)

theorem not_answered_of_matched (h : Matched w) : ¬ Answered w := by
  rintro ⟨inside, c, after, rfl, hc, hinside⟩
  have hleft := leftBehind_of_matched h []
  rw [leftBehind_append, leftBehind_of_matched hinside, Option.bind_some, leftBehind, List.foldlM_cons,
    markerStep, if_neg (by simp [hc])] at hleft
  exact absurd hleft (by simp)

/-- A word leaves openers, innermost first: between them and behind them stand balanced
words only. -/
inductive Leaves : List Marker → List Marker → Prop
  | matched {w : List Marker} (h : Matched w) : Leaves w []
  | opened {w st b : List Marker} {o : Marker} (h : Leaves w st) (ho : o.opens = true) (hb : Matched b) :
      Leaves (w ++ o :: b) (o :: st)

theorem leaves_append (h : Leaves w st) (hb : Matched b) : Leaves (w ++ b) st := by
  cases h with
  | matched hw => exact .matched (matched_append hw hb)
  | opened h ho hb' =>
    rw [List.append_assoc, List.cons_append]
    exact .opened h ho (matched_append hb' hb)

theorem leaves_open (h : Leaves w st) (ho : o.opens = true) : Leaves (w ++ [o]) (o :: st) := .opened h ho .nil

theorem leaves_close (h : Leaves w (o :: st)) (hc : c.opens = false) : Leaves (w ++ [c]) st := by
  cases h with
  | @opened w st b o h ho hb =>
    rw [List.append_assoc, List.cons_append]
    exact leaves_append h (.pair ho hb hc .nil)

theorem allAwaited_of_leaves (h : Leaves w st) : AllAwaited w := by
  induction h with
  | matched h => exact allAwaited_of_matched h
  | @opened w st b o h ho hb ih =>
    have hopener : AllAwaited (w ++ [o]) := allAwaited_concat ih (by simp [ho])
    have hwhole := allAwaited_append_all hopener (allAwaited_of_matched hb)
    rwa [List.append_assoc] at hwhole

/-! ## The check -/

variable {src : Text} {offset : Int} {ts : List Token}

/-- **The check judges by the rule,** whatever part of the word has been read. -/
theorem checkMarkers_judged (h : Leaves w st) :
    Judged src offset (w ++ markers ts) (checkMarkers src offset (st.map Marker.line) ts) := by
  -- on the length: a marker takes three tokens at once, so the tail is not enough
  induction hn : ts.length using Nat.strongRecOn generalizing w st ts with
  | _ n ih =>
    cases ts with
    | nil =>
      rw [checkMarkers.eq_def, show markers [] = [] from rfl, List.append_nil]
      cases h with
      | matched h => exact .balanced h
      | @opened w st b o h ho hb =>
        exact .unclosed (allAwaited_of_leaves (.opened h ho hb)) ho (not_answered_of_matched hb)
          (allAnswered_of_matched hb)
    | cons t ts =>
      have hshort := hn ▸ length_drop_lt t ts
      cases hopen : opensContainer (t :: ts) with
      | true =>
        have hnext := ih _ hshort (leaves_open (o := ⟨true, t.line⟩) h rfl) rfl
        rw [checkMarkers_of_opens hopen, markers_of_mark (markerAt?_of_opens hopen)]
        rwa [List.append_assoc] at hnext
      | false =>
        cases hclose : closesContainer? (t :: ts) with
        | none =>
          rw [checkMarkers_of_plain hopen hclose, markers_of_none (markerAt?_of_plain hopen hclose)]
          exact ih ts.length (by rw [← hn]; simp) h rfl
        | some q =>
          rw [markers_of_mark (markerAt?_of_closes hclose)]
          cases h with
          | matched h =>
            rw [List.map_nil, checkMarkers_unexpected hclose]
            exact .stray (c := ⟨false, t.line⟩) rfl (allAwaited_of_matched h) (not_awaited_of_matched h)
          | @opened w st b o h ho hb =>
            have hnext := ih _ hshort (leaves_close (c := ⟨false, t.line⟩) (.opened h ho hb) rfl) rfl
            rw [List.map_cons, checkMarkers_of_closes hclose]
            rwa [List.append_assoc _ [_]] at hnext

/-- Two words with a marker each that are the same word have the same marker there, or
one marker stands in front of the other. -/
theorem places_cases {front' behind' : List Marker} {m' : Marker} (h : front ++ m :: behind = front' ++ m' :: behind') :
    m = m' ∨ (∃ x, front' = front ++ m :: x ∧ behind = x ++ m' :: behind') ∨
      ∃ x, front = front' ++ m' :: x ∧ behind' = x ++ m :: behind := by
  rcases place_in_append h with ⟨x, hx, hbehind⟩ | ⟨x, hx, hbehind⟩
  · exact Or.inr (Or.inr ⟨x, hx, hbehind⟩)
  · cases x with
    | nil => exact Or.inl (List.cons.inj hbehind).1
    | cons y x =>
      obtain ⟨rfl, hx'⟩ := List.cons.inj hbehind
      exact Or.inr (Or.inl ⟨x, hx, hx'⟩)

/-- **The rule leaves no choice.** -/
theorem judged_unique {r r' : Except Fault Unit} (h : Judged src offset w r) (h' : Judged src offset w r') : r = r' := by
  -- a balanced word has neither fault, and a word with a stray marker has no other
  have stray_only : ∀ {front behind : List Marker} {c : Marker}, w = front ++ c :: behind → c.opens = false →
      ¬ Awaited front → ¬ AllAwaited w := fun hw hc hstray hall => hstray (hall _ _ _ hw hc)
  cases h with
  | balanced h =>
    cases h' with
    | balanced => rfl
    | stray hc first hstray => exact absurd (allAwaited_of_matched h) (stray_only rfl hc hstray)
    | unclosed _ ho hopen => exact absurd (allAnswered_of_matched h _ _ _ rfl ho) hopen
  | @stray front behind c hc first hstray =>
    generalize hw : front ++ c :: behind = word at h' stray_only
    cases h' with
    | balanced h => exact absurd (allAwaited_of_matched h) (stray_only hw.symm hc hstray)
    | @stray front' behind' c' hc' first' hstray' =>
      rcases places_cases hw with rfl | ⟨x, hx, -⟩ | ⟨x, hx, -⟩
      · rfl
      · exact absurd (first' _ _ _ hx hc) hstray
      · exact absurd (first _ _ _ hx hc') hstray'
    | unclosed hall => exact absurd hall (stray_only hw.symm hc hstray)
  | @unclosed front behind o hall ho hopen last =>
    generalize hw : front ++ o :: behind = word at h' stray_only hall
    cases h' with
    | balanced h => exact absurd (allAnswered_of_matched h _ _ _ hw.symm ho) hopen
    | stray hc _ hstray => exact absurd hall (stray_only rfl hc hstray)
    | @unclosed front' behind' o' _ ho' hopen' last' =>
      rcases places_cases hw with rfl | ⟨x, -, hx⟩ | ⟨x, -, hx⟩
      · rfl
      · exact absurd (last _ _ _ hx ho') hopen'
      · exact absurd (last' _ _ _ hx ho) hopen

end

/-- **The check of the markers decides balance.** A stream has a marker at each place where
a top-level paragraph with the text of one starts. The check of the stream passes
exactly when the word of its markers is balanced, and its answer is the one that the
rule gives: the first closing marker that no opener is left for, else the last opening
marker that none closes, each at its line of the document. -/
theorem containers_judged (ts : List Token) (src : Text) (offset : Int) :
    (∀ us m, markerAt? us = some m ↔ StartsWithMarker us m) ∧
      (validateContainers ts src offset = .ok () ↔ Matched (markers ts)) ∧
      ∀ answer, validateContainers ts src offset = answer ↔ Judged src offset (markers ts) answer := by
  have hjudged : Judged src offset (markers ts) (validateContainers ts src offset) :=
    checkMarkers_judged (.matched .nil)
  refine ⟨fun us m => markerAt?_eq_some_iff, ?_, ?_⟩
  · constructor
    · intro hok
      rw [hok] at hjudged
      generalize markers ts = w at hjudged
      cases hjudged with
      | balanced h => exact h
    · intro h
      exact judged_unique hjudged (.balanced h)
  · intro answer
    constructor
    · rintro rfl
      exact hjudged
    · exact judged_unique hjudged

end Docweave

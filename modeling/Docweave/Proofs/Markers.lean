import Docweave.Proofs.Nesting
import Docweave.Tree.Build

/-!
# Container markers: the check and the split

Two scans read the markers of a stream. `checkMarkers` keeps the lines of the
open containers and goes through the whole stream; `splitContainer?` counts
and stops at the closing marker that brings its count below zero. The file
proves that they agree:

> `splitContainer?_of_check`: where the check passes with a container open,
> the split finds the closing marker of that container, and the check passes
> on the part inside and on the part behind.

> `splitContainer?_of_balanced`: the split of a balanced stream that is
> followed by a closing marker is that stream.

A marker is a window of three tokens, so cutting a stream might make or hide
one at the cut. It does not where a paragraph opens: no window that starts in
front of such a cut reaches over it (`markerParagraph?_append_paragraph`).
-/

namespace Docweave

/-- Outcomes can be compared, so the check of a given stream can be run. -/
instance decidableEqExcept {ε α : Type} [DecidableEq ε] [DecidableEq α] : DecidableEq (Except ε α)
  | .ok a, .ok b => decidable_of_iff (a = b) (by simp)
  | .error a, .error b => decidable_of_iff (a = b) (by simp)
  | .ok _, .error _ => isFalse (by simp)
  | .error _, .ok _ => isFalse (by simp)

/-! ## Windows -/

/-- A marker paragraph is three tokens: a paragraph at level zero around one
`inline` token. -/
theorem markerParagraph?_eq_some {ts : List Token} {i : Token}
    (h : markerParagraph? ts = some i) :
    ∃ o c rest, ts = o :: i :: c :: rest ∧ o.kind = .opens .paragraph ∧ o.level = 0 ∧
      i.kind = .inline ∧ c.kind = .closes .paragraph := by
  unfold markerParagraph? at h
  split at h
  next o j c rest =>
    split at h
    next hk =>
      rw [Option.some.injEq] at h
      subst h
      simp only [Bool.and_eq_true, decide_eq_true_eq] at hk
      obtain ⟨⟨⟨ho, hl⟩, hi⟩, hc⟩ := hk
      exact ⟨o, c, rest, rfl, ho, hl, hi, hc⟩
    next => exact absurd h (by simp)
  next => exact absurd h (by simp)

/-- No marker paragraph starts at a token that does not open a paragraph at
level zero. -/
theorem markerParagraph?_cons_eq_none {t : Token} (ts : List Token)
    (h : ¬(t.kind = .opens .paragraph ∧ t.level = 0)) : markerParagraph? (t :: ts) = none := by
  cases hm : markerParagraph? (t :: ts) with
  | none => rfl
  | some i =>
    obtain ⟨o, c, rest, heq, hk, hl, _⟩ := markerParagraph?_eq_some hm
    rw [(List.cons.inj heq).1] at h
    exact absurd ⟨hk, hl⟩ h

/-- The window looks at three tokens only. -/
theorem markerParagraph?_append {xs : List Token} (ys : List Token) (h : 3 ≤ xs.length) :
    markerParagraph? (xs ++ ys) = markerParagraph? xs := by
  match xs, h with
  | _ :: _ :: _ :: _, _ => rfl

/-- The stream is at its end or opens a paragraph. -/
def StartsParagraph (ts : List Token) : Prop := ∀ t, ts.head? = some t → t.kind = .opens .paragraph

/-- A window does not reach over the start of a paragraph: its second token
is the text and its third closes the paragraph. -/
theorem markerParagraph?_append_paragraph {xs ys : List Token} (hx : xs ≠ [])
    (hy : StartsParagraph ys) : markerParagraph? (xs ++ ys) = markerParagraph? xs := by
  cases ys with
  | nil => rw [List.append_nil]
  | cons y ys =>
    have hk : y.kind = .opens .paragraph := hy y rfl
    match xs, hx with
    | [a], _ => cases ys <;> simp [markerParagraph?, hk]
    | [a, b], _ => simp [markerParagraph?, hk]
    | _ :: _ :: _ :: _, _ => rfl

theorem opensContainer_congr {xs ys : List Token} (h : markerParagraph? xs = markerParagraph? ys) :
    opensContainer xs = opensContainer ys := by
  rw [opensContainer, h, opensContainer]

theorem closesContainer?_congr {xs ys : List Token}
    (h : markerParagraph? xs = markerParagraph? ys) :
    closesContainer? xs = closesContainer? ys := by
  rw [closesContainer?, h, closesContainer?]

/-- The tokens of an opening marker. -/
theorem opensContainer_cases {ts : List Token} (h : opensContainer ts = true) :
    ∃ o i c rest, ts = o :: i :: c :: rest ∧ o.kind = .opens .paragraph ∧ o.level = 0 ∧
      i.kind = .inline ∧ c.kind = .closes .paragraph ∧ i.content = ['['] := by
  unfold opensContainer at h
  split at h
  next i hm =>
    obtain ⟨o, c, rest, heq, ho, hl, hi, hc⟩ := markerParagraph?_eq_some hm
    exact ⟨o, i, c, rest, heq, ho, hl, hi, hc, by simpa using h⟩
  next => exact absurd h (by simp)

/-- The tokens of a closing marker. -/
theorem closesContainer?_cases {ts : List Token} {q : Option Text}
    (h : closesContainer? ts = some q) :
    ∃ o i c rest, ts = o :: i :: c :: rest ∧ o.kind = .opens .paragraph ∧ o.level = 0 ∧
      i.kind = .inline ∧ c.kind = .closes .paragraph ∧ closingQualifier? i.content = some q := by
  obtain ⟨i, hm, hq⟩ := Option.bind_eq_some_iff.1 h
  obtain ⟨o, c, rest, heq, ho, hl, hi, hc⟩ := markerParagraph?_eq_some hm
  exact ⟨o, i, c, rest, heq, ho, hl, hi, hc, hq⟩

/-- The text of a closing marker begins with the bracket. -/
theorem head?_of_closingQualifier? {content : Text} {q : Option Text}
    (h : closingQualifier? content = some q) : content.head? = some ']' := by
  unfold closingQualifier? at h
  split at h
  next => rfl
  next => exact absurd h (by simp)

/-- No marker opens and closes. -/
theorem opensContainer_of_closes {ts : List Token} {q : Option Text}
    (h : closesContainer? ts = some q) : opensContainer ts = false := by
  obtain ⟨i, hm, hq⟩ := Option.bind_eq_some_iff.1 h
  have hhead := head?_of_closingQualifier? hq
  unfold opensContainer
  rw [hm]
  simp only [decide_eq_false_iff_not]
  intro hc
  rw [hc] at hhead
  exact absurd hhead (by decide)

theorem startsParagraph_of_opens {ts : List Token} (h : opensContainer ts = true) :
    StartsParagraph ts := by
  obtain ⟨o, i, c, rest, rfl, ho, _⟩ := opensContainer_cases h
  intro t ht
  rw [← Option.some.inj ht]
  exact ho

theorem startsParagraph_of_closes {ts : List Token} {q : Option Text}
    (h : closesContainer? ts = some q) : StartsParagraph ts := by
  obtain ⟨o, i, c, rest, rfl, ho, _⟩ := closesContainer?_cases h
  intro t ht
  rw [← Option.some.inj ht]
  exact ho

/-- An opening marker in front of a stream of any length. -/
theorem opensContainer_append {xs : List Token} (ys : List Token) (h : opensContainer xs = true) :
    opensContainer (xs ++ ys) = true := by
  obtain ⟨o, i, c, rest, rfl, _⟩ := opensContainer_cases h
  rw [← h]
  exact opensContainer_congr (markerParagraph?_append ys (by simp))

theorem closesContainer?_append {xs : List Token} {q : Option Text} (ys : List Token)
    (h : closesContainer? xs = some q) : closesContainer? (xs ++ ys) = some q := by
  obtain ⟨o, i, c, rest, rfl, _⟩ := closesContainer?_cases h
  rw [← h]
  exact closesContainer?_congr (markerParagraph?_append ys (by simp))

/-! ## The check, marker by marker -/

section Check

variable {src : Text} {offset : Int} {opened : List Nat}

theorem checkMarkers_of_opens {t : Token} {ts : List Token} (h : opensContainer (t :: ts) = true) :
    checkMarkers src offset opened (t :: ts)
      = checkMarkers src offset (t.line :: opened) (ts.drop 2) := by
  rw [checkMarkers.eq_def]
  simp only
  rw [if_pos h]

theorem checkMarkers_of_plain {t : Token} {ts : List Token}
    (ho : opensContainer (t :: ts) = false) (hc : closesContainer? (t :: ts) = none) :
    checkMarkers src offset opened (t :: ts) = checkMarkers src offset opened ts := by
  rw [checkMarkers.eq_def]
  simp only
  rw [if_neg (Bool.eq_false_iff.1 ho), if_neg (by simp [hc])]

theorem checkMarkers_of_no_window {t : Token} {ts : List Token}
    (h : markerParagraph? (t :: ts) = none) :
    checkMarkers src offset opened (t :: ts) = checkMarkers src offset opened ts :=
  checkMarkers_of_plain (by rw [opensContainer, h]) (by rw [closesContainer?, h]; rfl)

theorem checkMarkers_of_closes {t : Token} {ts : List Token} {q : Option Text} {line : Nat}
    (h : closesContainer? (t :: ts) = some q) :
    checkMarkers src offset (line :: opened) (t :: ts)
      = checkMarkers src offset opened (ts.drop 2) := by
  rw [checkMarkers, if_neg (Bool.eq_false_iff.1 (opensContainer_of_closes h)), if_pos (by simp [h])]

/-- With no container open a closing marker is a fault. -/
theorem checkMarkers_unexpected {t : Token} {ts : List Token} {q : Option Text}
    (h : closesContainer? (t :: ts) = some q) :
    checkMarkers src offset [] (t :: ts)
      = .error (.at' .unexpectedClose (t.line + offset) src) := by
  rw [checkMarkers, if_neg (Bool.eq_false_iff.1 (opensContainer_of_closes h)), if_pos (by simp [h])]

theorem closesContainer?_of_check {t : Token} {ts : List Token}
    (h : checkMarkers src offset [] (t :: ts) = .ok ()) : closesContainer? (t :: ts) = none := by
  cases hc : closesContainer? (t :: ts) with
  | none => rfl
  | some q =>
    rw [checkMarkers_unexpected hc] at h
    exact absurd h (by simp)

/-! ## The split -/

/-- A split with tokens put in front of its part inside. -/
theorem inner_of_map {r : Option (List Token × Option Text × List Token)}
    {front : List Token → List Token} {inner rest : List Token} {q : Option Text}
    (h : (r.map fun (inside, q, rest) => (front inside, q, rest)) = some (inner, q, rest)) :
    ∃ inside, inner = front inside ∧ r = some (inside, q, rest) := by
  obtain ⟨⟨inside, q', rest'⟩, hsplit, heq⟩ := Option.map_eq_some_iff.1 h
  simp only [Prod.mk.injEq] at heq
  obtain ⟨rfl, rfl, rfl⟩ := heq
  exact ⟨inside, rfl, hsplit⟩

/-- What the split cuts: the part inside, a closing marker, and the part
behind. -/
theorem splitContainer?_eq_some {depth : Nat} {ts inner rest : List Token} {q : Option Text}
    (h : splitContainer? depth ts = some (inner, q, rest)) :
    ∃ o i c, ts = inner ++ o :: i :: c :: rest ∧
      closesContainer? (o :: i :: c :: rest) = some q := by
  fun_induction splitContainer? depth ts generalizing inner q rest with
  | case1 => exact absurd h (by simp)
  | case2 depth t ts hopen ih =>
    obtain ⟨inner', rfl, hsplit⟩ := inner_of_map h
    obtain ⟨o, i, c, hts, hq⟩ := ih hsplit
    refine ⟨o, i, c, ?_, hq⟩
    rw [List.cons_append, List.cons_append, List.append_assoc, ← hts, List.take_append_drop]
  | case3 t ts _ q' hq' =>
    simp only [Option.some.injEq, Prod.mk.injEq] at h
    obtain ⟨rfl, rfl, rfl⟩ := h
    obtain ⟨o, i, c, rest, heq, _⟩ := closesContainer?_cases hq'
    obtain ⟨rfl, rfl⟩ := List.cons.inj heq
    exact ⟨t, i, c, rfl, hq'⟩
  | case4 t ts _ _ _ depth ih =>
    obtain ⟨inner', rfl, hsplit⟩ := inner_of_map h
    obtain ⟨o, i, c, hts, hq⟩ := ih hsplit
    refine ⟨o, i, c, ?_, hq⟩
    rw [List.cons_append, List.cons_append, List.append_assoc, ← hts, List.take_append_drop]
  | case5 depth t ts _ _ ih =>
    obtain ⟨inner', rfl, hsplit⟩ := inner_of_map h
    obtain ⟨o, i, c, rfl, hq⟩ := ih hsplit
    exact ⟨o, i, c, rfl, hq⟩

/-- More tokens behind a stream do not move the split. -/
theorem splitContainer?_append {depth : Nat} {ts inner rest : List Token} {q : Option Text}
    (more : List Token) (h : splitContainer? depth ts = some (inner, q, rest)) :
    splitContainer? depth (ts ++ more) = some (inner, q, rest ++ more) := by
  fun_induction splitContainer? depth ts generalizing inner q rest with
  | case1 => exact absurd h (by simp)
  | case2 depth t ts hopen ih =>
    obtain ⟨inner', rfl, hsplit⟩ := inner_of_map h
    have hopen' : opensContainer (t :: (ts ++ more)) = true := opensContainer_append more hopen
    obtain ⟨o, i, c, ts', hcons, _⟩ := opensContainer_cases hopen
    obtain ⟨rfl, rfl⟩ := List.cons.inj hcons
    rw [List.cons_append, splitContainer?, if_pos hopen']
    simp only [List.cons_append, List.drop_succ_cons, List.drop_zero] at ih hsplit ⊢
    rw [ih hsplit]
    rfl
  | case3 t ts hopen q' hq' =>
    simp only [Option.some.injEq, Prod.mk.injEq] at h
    obtain ⟨rfl, rfl, rfl⟩ := h
    have hq'' : closesContainer? (t :: (ts ++ more)) = some q' := closesContainer?_append more hq'
    obtain ⟨o, i, c, ts', hcons, _⟩ := closesContainer?_cases hq'
    obtain ⟨rfl, rfl⟩ := List.cons.inj hcons
    rw [List.cons_append, splitContainer?,
      if_neg (Bool.eq_false_iff.1 (opensContainer_of_closes hq'')), hq'']
    rfl
  | case4 t ts hopen q₀ hq₀ depth ih =>
    obtain ⟨inner', rfl, hsplit⟩ := inner_of_map h
    have hq₁ : closesContainer? (t :: (ts ++ more)) = some q₀ := closesContainer?_append more hq₀
    obtain ⟨o, i, c, ts', hcons, _⟩ := closesContainer?_cases hq₀
    obtain ⟨rfl, rfl⟩ := List.cons.inj hcons
    rw [List.cons_append, splitContainer?,
      if_neg (Bool.eq_false_iff.1 (opensContainer_of_closes hq₁)), hq₁]
    simp only [List.cons_append, List.drop_succ_cons, List.drop_zero] at ih hsplit ⊢
    rw [ih hsplit]
    rfl
  | case5 depth t ts hopen hclose ih =>
    obtain ⟨inner', rfl, hsplit⟩ := inner_of_map h
    -- the closing marker of the split still stands behind `t`, so the window at `t` is full
    obtain ⟨o, i, c, hts, _⟩ := splitContainer?_eq_some hsplit
    have hlen : 3 ≤ (t :: ts).length := by
      rw [hts]
      simp only [List.length_cons, List.length_append]
      omega
    have hwin := markerParagraph?_append more hlen
    rw [List.cons_append] at hwin ⊢
    rw [splitContainer?, opensContainer_congr hwin, if_neg hopen, closesContainer?_congr hwin,
      hclose]
    simp only
    rw [ih hsplit]
    rfl

/-- What is behind a marker is shorter than the stream it opens. -/
theorem length_drop_lt (t : Token) (ts : List Token) : (ts.drop 2).length < (t :: ts).length := by
  rw [List.length_drop, List.length_cons]
  omega

/-- **The check finds what the split looks for.** Where the check passes with
containers open, the split at the depth of one of them succeeds, and the check
passes with the containers inside on the part inside, and with those around on
the part behind. -/
theorem splitContainer?_of_check {inside around : List Nat} {line : Nat} {ts : List Token}
    (h : checkMarkers src offset (inside ++ line :: around) ts = .ok ()) :
    ∃ inner q rest, splitContainer? inside.length ts = some (inner, q, rest) ∧
      checkMarkers src offset inside inner = .ok () ∧
      checkMarkers src offset around rest = .ok () := by
  -- on the length: a marker takes three tokens at once, so the tail is not enough
  induction hn : ts.length using Nat.strongRecOn generalizing inside ts with
  | _ n ih =>
    cases ts with
    | nil =>
      cases inside <;> exact absurd h (by simp [checkMarkers])
    | cons t ts =>
      by_cases hopen : opensContainer (t :: ts) = true
      · rw [checkMarkers_of_opens hopen] at h
        have h' : checkMarkers src offset ((t.line :: inside) ++ line :: around) (ts.drop 2)
            = .ok () := h
        obtain ⟨inner, q, rest, hsplit, hin, hrest⟩ :=
          ih (ts.drop 2).length (hn ▸ length_drop_lt t ts) h' rfl
        obtain ⟨o, i, c, ts', hcons, ho, hl, hi, hc, hbr⟩ := opensContainer_cases hopen
        obtain ⟨rfl, rfl⟩ := List.cons.inj hcons
        refine ⟨t :: i :: c :: inner, q, rest, ?_, ?_, hrest⟩
        · rw [splitContainer?, if_pos hopen]
          rw [List.length_cons] at hsplit
          rw [hsplit]
          rfl
        · rw [checkMarkers_of_opens]
          · exact hin
          · rw [← hopen]
            exact opensContainer_congr rfl
      · rw [Bool.not_eq_true] at hopen
        cases hclose : closesContainer? (t :: ts) with
        | none =>
          rw [checkMarkers_of_plain hopen hclose] at h
          obtain ⟨inner, q, rest, hsplit, hin, hrest⟩ :=
            ih ts.length (by rw [← hn]; simp) h rfl
          refine ⟨t :: inner, q, rest, ?_, ?_, hrest⟩
          · rw [splitContainer?, if_neg (Bool.eq_false_iff.1 hopen), hclose]
            simp only
            rw [hsplit]
            rfl
          · -- the window at `t` ends in front of the closing marker or inside `inner`
            obtain ⟨o, i, c, hts, hq⟩ := splitContainer?_eq_some hsplit
            have hwin : markerParagraph? (t :: ts) = markerParagraph? (t :: inner) := by
              rw [hts, ← List.cons_append]
              exact markerParagraph?_append_paragraph (by simp) (startsParagraph_of_closes hq)
            rw [checkMarkers_of_plain]
            · exact hin
            · rw [← opensContainer_congr hwin]; exact hopen
            · rw [← closesContainer?_congr hwin]; exact hclose
        | some q₀ =>
          cases inside with
          | nil =>
            -- no container is open inside, so this marker closes the one split off
            rw [List.nil_append, checkMarkers_of_closes hclose] at h
            refine ⟨[], q₀, ts.drop 2, ?_, by rw [checkMarkers], h⟩
            rw [splitContainer?, if_neg (Bool.eq_false_iff.1 hopen), hclose]
            rfl
          | cons l inside =>
            rw [List.cons_append, checkMarkers_of_closes hclose] at h
            obtain ⟨inner, q, rest, hsplit, hin, hrest⟩ :=
              ih (ts.drop 2).length (hn ▸ length_drop_lt t ts) h rfl
            obtain ⟨o, i, c, ts', hcons, _⟩ := closesContainer?_cases hclose
            obtain ⟨rfl, rfl⟩ := List.cons.inj hcons
            refine ⟨t :: i :: c :: inner, q, rest, ?_, ?_, hrest⟩
            · rw [splitContainer?, if_neg (Bool.eq_false_iff.1 hopen), hclose]
              simp only [List.length_cons]
              rw [hsplit]
              rfl
            · have hwin : markerParagraph? (t :: i :: c :: inner)
                  = markerParagraph? (t :: i :: c :: ts') := rfl
              rw [checkMarkers_of_closes ((closesContainer?_congr hwin).trans hclose)]
              exact hin

/-- **The split of a balanced stream.** When the check passes, the split with
as many containers open stops exactly at a closing marker that follows. -/
theorem splitContainer?_of_balanced {inner behind : List Token} {q : Option Text}
    {o i c : Token} (h : checkMarkers src offset opened inner = .ok ())
    (hq : closesContainer? (o :: i :: c :: behind) = some q) :
    splitContainer? opened.length (inner ++ o :: i :: c :: behind) = some (inner, q, behind) := by
  induction hn : inner.length using Nat.strongRecOn generalizing opened inner with
  | _ n ih =>
    cases inner with
    | nil =>
      cases opened with
      | nil =>
        rw [List.nil_append, splitContainer?,
          if_neg (Bool.eq_false_iff.1 (opensContainer_of_closes hq)), hq]
        rfl
      | cons l opened =>
        rw [checkMarkers] at h
        exact absurd h (by simp)
    | cons t ts =>
      have hwin : markerParagraph? (t :: (ts ++ o :: i :: c :: behind))
          = markerParagraph? (t :: ts) := by
        rw [← List.cons_append]
        exact markerParagraph?_append_paragraph (by simp) (startsParagraph_of_closes hq)
      rw [List.cons_append]
      by_cases hopen : opensContainer (t :: ts) = true
      · rw [checkMarkers_of_opens hopen] at h
        have hrest := ih (ts.drop 2).length (hn ▸ length_drop_lt t ts) h rfl
        obtain ⟨o', i', c', ts', hcons, _⟩ := opensContainer_cases hopen
        obtain ⟨rfl, rfl⟩ := List.cons.inj hcons
        rw [splitContainer?, opensContainer_congr hwin, if_pos hopen]
        rw [List.length_cons] at hrest
        simp only [List.cons_append, List.drop_succ_cons, List.drop_zero] at hrest ⊢
        rw [hrest]
        rfl
      · rw [Bool.not_eq_true] at hopen
        rw [splitContainer?, opensContainer_congr hwin, if_neg (Bool.eq_false_iff.1 hopen),
          closesContainer?_congr hwin]
        cases hclose : closesContainer? (t :: ts) with
        | none =>
          rw [checkMarkers_of_plain hopen hclose] at h
          simp only
          rw [ih ts.length (by rw [← hn]; simp) h rfl]
          rfl
        | some q₀ =>
          cases opened with
          | nil =>
            rw [closesContainer?_of_check h] at hclose
            exact absurd hclose (by simp)
          | cons l opened =>
            rw [checkMarkers_of_closes hclose] at h
            have hrest := ih (ts.drop 2).length (hn ▸ length_drop_lt t ts) h rfl
            obtain ⟨o', i', c', ts', hcons, _⟩ := closesContainer?_cases hclose
            obtain ⟨rfl, rfl⟩ := List.cons.inj hcons
            simp only [List.cons_append, List.drop_succ_cons, List.drop_zero,
              List.length_cons] at hrest ⊢
            rw [hrest]
            rfl

end Check

/-! ## Containers in nested streams -/

/-- A container at the front of a stream: its opening marker, the part inside,
its closing marker and the part behind. -/
theorem container_eq {t : Token} {ts inner rest : List Token} {q : Option Text}
    (ho : opensContainer (t :: ts) = true)
    (hs : splitContainer? 0 (ts.drop 2) = some (inner, q, rest)) :
    ∃ opener closer, t :: ts = opener ++ (inner ++ (closer ++ rest)) ∧
      (∀ opened st, nestScan opened opener = some st → opened = [] ∧ st = []) ∧
      (∀ opened st, nestScan opened closer = some st → opened = [] ∧ st = []) ∧
      opener.filter Token.isCode = [] ∧ closer.filter Token.isCode = [] := by
  obtain ⟨o, i, c, ts', heq, hok, hol, hik, hck, _⟩ := opensContainer_cases ho
  obtain ⟨rfl, rfl⟩ := List.cons.inj heq
  obtain ⟨o', i', c', hts', hclose⟩ := splitContainer?_eq_some hs
  obtain ⟨_, _, _, _, heq', hok', hol', hik', hck', _⟩ := closesContainer?_cases hclose
  obtain ⟨rfl, rfl, rfl, rfl⟩ : o' = _ ∧ i' = _ ∧ c' = _ ∧ rest = _ := by simpa using heq'
  refine ⟨[t, i, c], [o', i', c'], ?_, ?_, ?_, ?_, ?_⟩
  · simpa using hts'
  · intro opened st h
    exact nestScan_paragraph h hok hol hik hck
  · intro opened st h
    exact nestScan_paragraph h hok' hol' hik' hck'
  · simp [Token.isCode, hok, hik, hck]
  · simp [Token.isCode, hok', hik', hck']

/-- The part inside a container is shorter than the stream it stands in. -/
theorem length_container {t : Token} {ts inner rest : List Token} {q : Option Text}
    (hs : splitContainer? 0 (ts.drop 2) = some (inner, q, rest)) :
    inner.length < (t :: ts).length := by
  have := length_splitContainer? hs
  simp only [List.length_drop, List.length_cons] at *
  omega

/-- The code of a stream with a container at its front is the code inside the
container and the code behind it. -/
theorem filter_isCode_container {t : Token} {ts inner rest : List Token} {q : Option Text}
    (ho : opensContainer (t :: ts) = true)
    (hs : splitContainer? 0 (ts.drop 2) = some (inner, q, rest)) :
    (t :: ts).filter Token.isCode = (inner ++ rest).filter Token.isCode := by
  obtain ⟨opener, closer, heq, _, _, hopener, hcloser⟩ := container_eq ho hs
  rw [heq]
  simp only [List.filter_append, hopener, hcloser, List.nil_append]

/-- A container in a well-nested stream stands outside of all blocks, and the
streams inside and behind it are well nested. -/
theorem nestScan_container {opened : List Element} {t : Token} {ts inner rest : List Token}
    {q : Option Text} (h : nestScan opened (t :: ts) = some [])
    (ho : opensContainer (t :: ts) = true)
    (hs : splitContainer? 0 (ts.drop 2) = some (inner, q, rest)) :
    opened = [] ∧ nestScan [] inner = some [] ∧ nestScan [] rest = some [] := by
  obtain ⟨opener, closer, heq, hopener, hcloser, _⟩ := container_eq ho hs
  rw [heq] at h
  obtain ⟨st₁, h₁, htail₁⟩ := nestScan_append_some h
  obtain ⟨st₂, h₂, htail₂⟩ := nestScan_append_some htail₁
  obtain ⟨st₃, h₃, htail₃⟩ := nestScan_append_some htail₂
  obtain ⟨rfl, rfl⟩ := hopener _ _ h₁
  obtain ⟨rfl, rfl⟩ := hcloser _ _ h₃
  exact ⟨rfl, h₂, htail₃⟩

theorem documentScan_container {opened : List Element} {t : Token} {ts inner rest : List Token}
    {q : Option Text} (h : documentScan opened (t :: ts) = some [])
    (ho : opensContainer (t :: ts) = true)
    (hs : splitContainer? 0 (ts.drop 2) = some (inner, q, rest)) :
    opened = [] ∧ documentScan [] inner = some [] ∧ documentScan [] rest = some [] := by
  obtain ⟨opener, closer, heq, hopener, hcloser, _⟩ := container_eq ho hs
  rw [heq] at h
  obtain ⟨st₁, h₁, htail₁⟩ := documentScan_append_some h
  obtain ⟨st₂, h₂, htail₂⟩ := documentScan_append_some htail₁
  obtain ⟨st₃, h₃, htail₃⟩ := documentScan_append_some htail₂
  obtain ⟨rfl, rfl⟩ := hopener _ _ (nestScan_of_documentScan h₁)
  obtain ⟨rfl, rfl⟩ := hcloser _ _ (nestScan_of_documentScan h₃)
  exact ⟨rfl, h₂, htail₃⟩

end Docweave

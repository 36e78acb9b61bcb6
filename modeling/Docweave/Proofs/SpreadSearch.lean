import Docweave.Proofs.ByteLayout
import Docweave.Proofs.ElementSearch

/-!
# Searching a hidden text and the text seen from outside

Elements are searched for in the hidden text, where a hidden character is one
space. From outside the same text is seen with a run of spaces for each hidden
character, one for each of its bytes. A search finds the same elements in both:
whatever it reads, a tag name, attributes, the blanks in a closing tag, either
has no space in it or does not care how many there are.

The two texts are kept together as a list of pairs, a character and what it is
hidden as. A reader takes something off the front of a text; `ReadsAlike` says
that it takes the same pairs off both views. The readers of an element have
this property (`closingTag?_readsAlike` and the others), so an element of one
view is one of the other (`elementAt?_seen`), and so are the elements that the
searches find (`findElement?_seen`, `findElements_seen`).

> `findElement?_inBytes`, `findElements_inBytes`: counted in bytes, the elements
> of the text seen from outside stand where those of the hidden text stand in
> the text itself.
-/

namespace Docweave.Source

open Text

variable {ps : List (Char × Char)} {f g : Text → Option Text} {e : RawElement}

/-! ## Two views of the same characters -/

/-- Each character is followed by what it is hidden as. -/
def Overlaid (ps : List (Char × Char)) : Prop := ∀ p ∈ ps, p.2 = p.1 ∨ p.2 = ' '

/-- The hidden text. -/
def hiddenText (ps : List (Char × Char)) : Text := ps.map Prod.snd

/-- The text seen from outside. -/
def seenText (ps : List (Char × Char)) : Text := ps.flatMap shown

theorem hiddenText_cons (p : Char × Char) (ps : List (Char × Char)) :
    hiddenText (p :: ps) = p.2 :: hiddenText ps := rfl

theorem length_hiddenText (ps : List (Char × Char)) : (hiddenText ps).length = ps.length :=
  List.length_map ..

theorem seenText_append (ps qs : List (Char × Char)) :
    seenText (ps ++ qs) = seenText ps ++ seenText qs := List.flatMap_append

theorem Overlaid.of_append {qs rs : List (Char × Char)} (h : Overlaid (qs ++ rs)) : Overlaid rs :=
  fun p hp => h p (List.mem_append_right qs hp)

theorem Overlaid.tail {p : Char × Char} (h : Overlaid (p :: ps)) : Overlaid ps :=
  fun q hq => h q (List.mem_cons_of_mem p hq)

/-- A character is seen as what it is hidden as, and only a space is followed by
more, which are spaces too. -/
theorem seenText_cons {p : Char × Char} (hps : Overlaid (p :: ps)) :
    ∃ n, seenText (p :: ps) = p.2 :: (spaces n ++ seenText ps) ∧ (n = 0 ∨ p.2 = ' ') ∧
      (seenText [p]).length = n + 1 := by
  have hone : seenText [p] = shown p := List.append_nil _
  obtain ⟨n, hshown, hn⟩ : ∃ n, shown p = p.2 :: spaces n ∧ (n = 0 ∨ p.2 = ' ') := by
    by_cases heq : p.1 = p.2
    · refine ⟨0, ?_, Or.inl rfl⟩
      rw [shown, if_pos heq, heq]
      rfl
    · have hspace : p.2 = ' ' :=
        (hps p (List.mem_cons_self ..)).resolve_left fun he => heq he.symm
      obtain ⟨n, hn⟩ := Nat.exists_eq_add_of_lt p.1.utf8Size_pos
      refine ⟨n, ?_, Or.inr hspace⟩
      rw [shown, if_neg heq, hspace, hn, Nat.zero_add]
      rfl
  refine ⟨n, ?_, hn, ?_⟩
  · show shown p ++ seenText ps = _
    rw [hshown]
    rfl
  · rw [hone, hshown, List.length_cons, spaces, List.length_replicate]

/-! ## Readers -/

/-- A reader that takes the same characters off both views. -/
def ReadsAlike (f : Text → Option Text) : Prop :=
  ∀ ps, Overlaid ps → (f (hiddenText ps) = none ∧ f (seenText ps) = none) ∨
    ∃ qs rs, ps = qs ++ rs ∧ f (hiddenText ps) = some (hiddenText rs) ∧
      f (seenText ps) = some (seenText rs)

theorem ReadsAlike.bind (hf : ReadsAlike f) (hg : ReadsAlike g) :
    ReadsAlike fun t => (f t).bind g := by
  intro ps hps
  rcases hf ps hps with ⟨hhid, hseen⟩ | ⟨qs, rs, rfl, hhid, hseen⟩
  · exact Or.inl ⟨congrArg (Option.bind · g) hhid, congrArg (Option.bind · g) hseen⟩
  · simp only [hhid, hseen, Option.bind_some]
    rcases hg rs hps.of_append with hnone | ⟨qs', rs', rfl, hhid', hseen'⟩
    · exact Or.inl hnone
    · exact Or.inr ⟨qs ++ qs', rs', (List.append_assoc ..).symm, hhid', hseen'⟩

/-- Takes one character of a class off the front. -/
def takeChar? (q : Char → Bool) : Text → Option Text
  | [] => none
  | c :: t => if q c then some t else none

/-- A class without the space reads alike. -/
theorem takeChar?_readsAlike {q : Char → Bool} (hq : q ' ' = false) : ReadsAlike (takeChar? q) := by
  intro ps hps
  cases ps with
  | nil => exact Or.inl ⟨rfl, rfl⟩
  | cons p ps =>
    obtain ⟨n, hseen, hn, _⟩ := seenText_cons hps
    rw [hseen, hiddenText_cons, takeChar?, takeChar?]
    cases hp : q p.2 with
    | false => exact Or.inl ⟨rfl, rfl⟩
    | true =>
      -- the character is not a space, so nothing is seen of it but itself
      obtain rfl : n = 0 := hn.resolve_right fun he => by
        rw [he, hq] at hp
        exact absurd hp (by simp)
      exact Or.inr ⟨[p], ps, rfl, rfl, rfl⟩

theorem dropPrefix?_cons (a : Char) (p : Text) :
    dropPrefix? (a :: p) = fun t => (takeChar? (a = ·) t).bind (dropPrefix? p) := by
  funext t
  cases t with
  | nil => rfl
  | cons c t =>
    simp only [dropPrefix?, takeChar?, decide_eq_true_eq]
    split <;> rfl

theorem dropPrefixFold?_cons (a : Char) (p : Text) :
    dropPrefixFold? (a :: p) = fun t => (takeChar? (sameLetter a) t).bind (dropPrefixFold? p) := by
  funext t
  cases t with
  | nil => rfl
  | cons c t =>
    simp only [dropPrefixFold?, takeChar?]
    split <;> rfl

theorem some_readsAlike : ReadsAlike some := fun ps _ => Or.inr ⟨[], ps, rfl, rfl, rfl⟩

theorem dropPrefix?_readsAlike {p : Text} (hp : ' ' ∉ p) : ReadsAlike (dropPrefix? p) := by
  induction p with
  | nil =>
    have hnil : dropPrefix? [] = some := by
      funext t
      rw [dropPrefix?]
    exact hnil ▸ some_readsAlike
  | cons a p ih =>
    obtain ⟨ha, hrest⟩ := not_or.1 fun hm => hp (List.mem_cons.2 hm)
    rw [dropPrefix?_cons]
    exact (takeChar?_readsAlike (decide_eq_false fun he => ha he.symm)).bind (ih hrest)

theorem dropPrefixFold?_readsAlike {p : Text} (hp : ∀ a ∈ p, sameLetter a ' ' = false) :
    ReadsAlike (dropPrefixFold? p) := by
  induction p with
  | nil =>
    have hnil : dropPrefixFold? [] = some := by
      funext t
      rw [dropPrefixFold?]
    exact hnil ▸ some_readsAlike
  | cons a p ih =>
    obtain ⟨ha, hrest⟩ := List.forall_mem_cons.1 hp
    rw [dropPrefixFold?_cons]
    exact (takeChar?_readsAlike ha).bind (ih hrest)

/-- A run that goes over spaces goes over all of them. -/
theorem dropWhile_readsAlike {q : Char → Bool} (hq : q ' ' = true) :
    ReadsAlike fun t => some (t.dropWhile q) := by
  intro ps hps
  refine Or.inr ?_
  induction ps with
  | nil => exact ⟨[], [], rfl, rfl, rfl⟩
  | cons p ps ih =>
    obtain ⟨n, hseen, _⟩ := seenText_cons hps
    simp only [hseen, hiddenText_cons]
    cases hp : q p.2 with
    | false =>
      refine ⟨[], p :: ps, rfl, ?_, ?_⟩
      · rw [List.dropWhile_cons_of_neg (by simp [hp])]
        rfl
      · rw [List.dropWhile_cons_of_neg (by simp [hp]), hseen]
    | true =>
      obtain ⟨qs, rs, rfl, hhid', hseen'⟩ := ih hps.tail
      have hspaces : ∀ c ∈ spaces n, q c = true := fun c hc => by
        rw [List.eq_of_mem_replicate hc, hq]
      refine ⟨p :: qs, rs, rfl, ?_, ?_⟩
      · rw [List.dropWhile_cons_of_pos hp]
        exact hhid'
      · rw [List.dropWhile_cons_of_pos hp, List.dropWhile_append_of_pos hspaces]
        exact hseen'

theorem name_not_space (e : RawElement) : ∀ a ∈ e.name, sameLetter a ' ' = false := by
  have hall : e.name.all (fun a => !sameLetter a ' ') = true := by cases e <;> decide
  intro a ha
  simpa using List.all_eq_true.1 hall a ha

theorem closingTag?_readsAlike (e : RawElement) : ReadsAlike (closingTag? e) :=
  (dropPrefix?_readsAlike (by decide)).bind
    ((dropPrefixFold?_readsAlike (name_not_space e)).bind
      ((dropWhile_readsAlike (by decide)).bind (dropPrefix?_readsAlike (by decide))))

theorem head?_seenText (hps : Overlaid ps) : (seenText ps).head? = (hiddenText ps).head? := by
  cases ps with
  | nil => rfl
  | cons p ps =>
    obtain ⟨n, hseen, _⟩ := seenText_cons hps
    rw [hseen]
    rfl

theorem openingTag?_readsAlike (e : RawElement) : ReadsAlike (openingTag? e) := by
  intro ps hps
  unfold openingTag?
  rcases (dropPrefix?_readsAlike (p := "<") (by decide)).bind
    (dropPrefixFold?_readsAlike (name_not_space e)) ps hps with
    ⟨hhid, hseen⟩ | ⟨qs, rs, rfl, hhid, hseen⟩
  · exact Or.inl ⟨congrArg _ hhid, congrArg _ hseen⟩
  · simp only [hhid, hseen, Option.filter_some, head?_seenText hps.of_append]
    split
    next => exact Or.inr ⟨qs, rs, rfl, rfl, rfl⟩
    next => exact Or.inl ⟨rfl, rfl⟩

theorem length_takeWhile_add (q : Char → Bool) (t : Text) :
    (t.takeWhile q).length + (t.dropWhile q).length = t.length := by
  rw [← List.length_append, List.takeWhile_append_dropWhile]

/-- The end of a tag has the same characters in both views: the attributes, and
the bracket behind them. -/
theorem tagEnd?_seen (hps : Overlaid ps) :
    (tagEnd? (hiddenText ps) = none ∧ tagEnd? (seenText ps) = none) ∨
    ∃ as b rs, ps = as ++ b :: rs ∧ tagEnd? (hiddenText ps) = some (hiddenText rs) ∧
      tagEnd? (seenText ps) = some (seenText rs) ∧ (seenText [b]).length = 1 ∧
      ((hiddenText ps).takeWhile (· ≠ '>')).length = as.length ∧
      ((seenText ps).takeWhile (· ≠ '>')).length = (seenText as).length := by
  obtain ⟨as, rs, rfl, hhid, hseen⟩ :=
    (dropWhile_readsAlike (q := (· ≠ '>')) (by decide) ps hps).resolve_left fun h => nomatch h.1
  obtain hhid := Option.some.inj hhid
  obtain hseen := Option.some.inj hseen
  have hattrs := length_takeWhile_add (· ≠ '>') (hiddenText (as ++ rs))
  have hattrs' := length_takeWhile_add (· ≠ '>') (seenText (as ++ rs))
  rw [hhid, length_hiddenText, length_hiddenText, List.length_append] at hattrs
  rw [hseen, seenText_append, List.length_append] at hattrs'
  unfold tagEnd?
  rw [hhid, hseen]
  cases rs with
  | nil => exact Or.inl ⟨rfl, rfl⟩
  | cons b rs =>
    obtain ⟨n, hcons, hn, hone⟩ := seenText_cons hps.of_append
    rw [hcons, hiddenText_cons]
    by_cases hb : '>' = b.2
    · obtain rfl : n = 0 := hn.resolve_right fun he => absurd (hb.trans he) (by decide)
      rw [← hb]
      refine Or.inr ⟨as, b, rs, rfl, rfl, rfl, hone, Nat.add_right_cancel hattrs, ?_⟩
      rw [seenText_append]
      exact Nat.add_right_cancel hattrs'
    · refine Or.inl ⟨?_, ?_⟩
      · show (if '>' = b.2 then _ else none) = none
        rw [if_neg hb]
      · show (if '>' = b.2 then _ else none) = none
        rw [if_neg hb]

/-! ## The content of an element -/

theorem contentLength?_of_some {t r : Text} (h : closingTag? e t = some r) :
    contentLength? e t = some (0, t.length - r.length) := by
  cases t with
  | nil => exact absurd h nofun
  | cons c t => rw [contentLength?, h]

theorem contentLength?_of_none {c : Char} {t : Text} (h : closingTag? e (c :: t) = none) :
    contentLength? e (c :: t) = (contentLength? e t).map fun p => (p.1 + 1, p.2) := by
  rw [contentLength?, h]

theorem contentLength?_spaces (e : RawElement) (n : Nat) (t : Text) :
    contentLength? e (spaces n ++ t) = (contentLength? e t).map fun p => (p.1 + n, p.2) := by
  induction n with
  | zero => exact Option.map_id'.symm
  | succ n ih =>
    have hstep := contentLength?_of_none (e := e) (c := ' ') (t := spaces n ++ t) rfl
    rw [ih, Option.map_map] at hstep
    exact hstep

/-- The content of an element has the same characters in both views. -/
theorem contentLength?_seen (e : RawElement) (hps : Overlaid ps) :
    (contentLength? e (hiddenText ps) = none ∧ contentLength? e (seenText ps) = none) ∨
    ∃ is cs rs, ps = is ++ (cs ++ rs) ∧
      contentLength? e (hiddenText ps) = some (is.length, cs.length) ∧
      contentLength? e (seenText ps) = some ((seenText is).length, (seenText cs).length) := by
  induction ps with
  | nil => exact Or.inl ⟨rfl, rfl⟩
  | cons p ps ih =>
    rcases closingTag?_readsAlike e (p :: ps) hps with ⟨hhid, hseen⟩ | ⟨cs, rs, hcs, hhid, hseen⟩
    · -- no closing tag stands here, and none in the spaces of a hidden character
      obtain ⟨n, hcons, _, hlength⟩ := seenText_cons hps
      rw [hcons] at hseen ⊢
      rw [hiddenText_cons] at hhid ⊢
      rw [contentLength?_of_none hhid, contentLength?_of_none hseen, contentLength?_spaces]
      rcases ih hps.tail with ⟨h₁, h₂⟩ | ⟨is, cs, rs, rfl, h₁, h₂⟩
      · exact Or.inl ⟨by rw [h₁]; rfl, by rw [h₂]; rfl⟩
      · refine Or.inr ⟨p :: is, cs, rs, rfl, by rw [h₁]; rfl, ?_⟩
        rw [h₂, ← List.singleton_append, seenText_append, List.length_append, hlength,
          Nat.add_comm (n + 1)]
        rfl
    · refine Or.inr ⟨[], cs, rs, hcs, ?_, ?_⟩
      · rw [contentLength?_of_some hhid, length_hiddenText, length_hiddenText, hcs,
          List.length_append, Nat.add_sub_cancel]
        rfl
      · rw [contentLength?_of_some hseen, hcs, seenText_append, List.length_append,
          Nat.add_sub_cancel]
        rfl

/-! ## Elements -/

/-- The span with each of its places changed in the same way. -/
def ElementSpan.map (f : Nat → Nat) (s : ElementSpan) : ElementSpan :=
  ⟨f s.start, f s.attrsStart, f s.attrsStop, f s.innerStart, f s.innerStop, f s.stop⟩

/-- Where a place of the hidden text is seen. -/
def seenPlace (ps : List (Char × Char)) (k : Nat) : Nat := (seenText (ps.take k)).length

theorem seenPlace_append (pre : List (Char × Char)) {qs rs : List (Char × Char)}
    (h : ps = qs ++ rs) :
    seenPlace (pre ++ ps) (pre.length + qs.length) =
      (seenText pre).length + (seenText qs).length := by
  rw [seenPlace, h, ← List.append_assoc, ← List.length_append, List.take_left, seenText_append,
    List.length_append]

/-- **An element is seen where it is hidden.** -/
theorem elementAt?_seen (e : RawElement) (pre : List (Char × Char)) (hps : Overlaid ps) :
    elementAt? e (seenText pre).length (seenText ps) =
      (elementAt? e pre.length (hiddenText ps)).map (ElementSpan.map (seenPlace (pre ++ ps))) := by
  rw [elementAt?_eq, elementAt?_eq]
  rcases openingTag?_readsAlike e ps hps with ⟨hhid, hseen⟩ | ⟨qs, rs, hqs, hhid, hseen⟩
  · rw [hhid, hseen]
    rfl
  have hrs : Overlaid rs := (hqs ▸ hps).of_append
  have hname := openingTag?_length hhid
  have hname' := openingTag?_length hseen
  rw [length_hiddenText, length_hiddenText, hqs, List.length_append] at hname
  rw [hqs, seenText_append, List.length_append] at hname'
  rw [hhid, hseen, Option.bind_some, Option.bind_some]
  rcases tagEnd?_seen hrs with ⟨hhid, hseen⟩ | ⟨as, b, rs₁, hrs₁, hhid, hseen, hb, ha, ha'⟩
  · rw [hhid, hseen]
    rfl
  have hb₁ : Overlaid rs₁ := (hrs₁ ▸ hrs).of_append.tail
  rw [hhid, hseen, ha, ha', Option.bind_some, Option.bind_some]
  rcases contentLength?_seen e hb₁ with ⟨hhid, hseen⟩ | ⟨is, cs, rest, his, hhid, hseen⟩
  · rw [hhid, hseen]
    rfl
  rw [hhid, hseen]
  -- the places of the element are the ends of its parts, in both views
  have place : ∀ (front : List (Char × Char)) {back : List (Char × Char)} {x y : Nat},
      ps = front ++ back → x = pre.length + front.length →
      y = (seenText pre).length + (seenText front).length → y = seenPlace (pre ++ ps) x := by
    rintro front back x y hsplit rfl rfl
    exact (seenPlace_append pre hsplit).symm
  have hsplit : ps = qs ++ (as ++ ([b] ++ (is ++ (cs ++ rest)))) := by
    rw [hqs, hrs₁, his]
    rfl
  refine congrArg some ?_
  simp only [spanAt, ElementSpan.map, ElementSpan.mk.injEq]
  simp only [← List.append_assoc] at hsplit
  refine ⟨place [] rfl rfl rfl, place qs hqs (by omega) (by omega),
    place (qs ++ as) (by simpa using hsplit) ?_ ?_,
    place (qs ++ as ++ [b]) (by simpa using hsplit) ?_ ?_,
    place (qs ++ as ++ [b] ++ is) (by simpa using hsplit) ?_ ?_,
    place (qs ++ as ++ [b] ++ is ++ cs) hsplit ?_ ?_⟩
  all_goals
    simp only [List.length_append, seenText_append, List.length_singleton, hb]
    omega

/-! ## The searches -/

theorem findElement?_cons (e : RawElement) (i : Nat) (c : Char) (t : Text) :
    findElement? e i (c :: t) =
      match elementAt? e i (c :: t) with
      | some s => some s
      | none => findElement? e (i + 1) t := by
  rw [findElement?]
  cases elementAt? e i (c :: t) <;> rfl

theorem findElement?_spaces (e : RawElement) (i n : Nat) (t : Text) :
    findElement? e i (spaces n ++ t) = findElement? e (i + n) t := by
  induction n generalizing i with
  | zero => rfl
  | succ n ih =>
    show findElement? e i (' ' :: (spaces n ++ t)) = _
    rw [findElement?_cons, elementAt?_eq_none (by decide), ih]
    exact congrArg (findElement? e · t) (by omega)

theorem findElements_spaces (e : RawElement) (i n : Nat) (t : Text) :
    findElements e i 0 (spaces n ++ t) = findElements e (i + n) 0 t := by
  induction n generalizing i with
  | zero => rfl
  | succ n ih =>
    show findElements e i 0 (' ' :: (spaces n ++ t)) = _
    rw [findElements_cons, elementAt?_eq_none (by decide), ih]
    exact congrArg (findElements e · 0 t) (by omega)

/-- The search finds the first element in the same place. -/
theorem findElement?_seen (e : RawElement) (pre : List (Char × Char)) (hps : Overlaid ps) :
    findElement? e (seenText pre).length (seenText ps) =
      (findElement? e pre.length (hiddenText ps)).map (ElementSpan.map (seenPlace (pre ++ ps))) := by
  induction ps generalizing pre with
  | nil => rfl
  | cons p ps ih =>
    obtain ⟨n, hcons, _, hlength⟩ := seenText_cons hps
    have hat := elementAt?_seen e pre hps
    rw [hcons, hiddenText_cons] at hat ⊢
    rw [findElement?_cons, findElement?_cons, hat]
    cases elementAt? e pre.length (p.2 :: hiddenText ps) with
    | some s => rfl
    | none =>
      have hpre : (seenText pre).length + 1 + n = (seenText (pre ++ [p])).length := by
        rw [seenText_append, List.length_append, hlength]
        omega
      have hrest := ih (pre ++ [p]) hps.tail
      rw [List.append_assoc, List.length_append] at hrest
      simp only [Option.map_none, findElement?_spaces, hpre]
      exact hrest

/-- The search finds all elements in the same places. -/
theorem findElements_seen (e : RawElement) (pre : List (Char × Char)) (hps : Overlaid ps) :
    findElements e (seenText pre).length 0 (seenText ps) =
      (findElements e pre.length 0 (hiddenText ps)).map (ElementSpan.map (seenPlace (pre ++ ps))) := by
  -- on the number of characters left, since the search jumps over an element that it has found
  induction hlen : ps.length using Nat.strongRecOn generalizing pre ps with
  | ind len ih =>
    cases ps with
    | nil => rfl
    | cons p ps =>
      obtain ⟨n, hcons, _, hlength⟩ := seenText_cons hps
      have hat := elementAt?_seen e pre hps
      have hsearch := findElements_cons e (seenText pre).length p.2 (spaces n ++ seenText ps)
      rw [← hcons, hat] at hsearch
      rw [hsearch, hiddenText_cons, findElements_cons, ← hiddenText_cons]
      cases hel : elementAt? e pre.length (hiddenText (p :: ps)) with
      | none =>
        have hpre : (seenText pre).length + 1 + n = (seenText (pre ++ [p])).length := by
          rw [seenText_append, List.length_append, hlength]
          omega
        have hrest := ih ps.length (by simp [← hlen]) (pre ++ [p])
          hps.tail rfl
        rw [List.append_assoc, List.length_append] at hrest
        simp only [Option.map_none, findElements_spaces, hpre]
        exact hrest
      | some s =>
        obtain ⟨hordered, hstart, hstop⟩ := elementAt?_ordered hel
        have hpos := hordered.start_lt_stop
        rw [length_hiddenText] at hstop
        -- the element takes some characters off the front, and the search goes on behind them
        obtain ⟨qs, rs, hsplit, hqs⟩ : ∃ qs rs, p :: ps = qs ++ rs ∧
            s.stop = pre.length + qs.length := by
          refine ⟨(p :: ps).take (s.stop - pre.length), _, (List.take_append_drop ..).symm, ?_⟩
          rw [List.length_take]
          omega
        have hplace : seenPlace (pre ++ p :: ps) s.stop = (seenText (pre ++ qs)).length := by
          rw [hqs, seenPlace_append pre hsplit, seenText_append, List.length_append]
        have hdrop : (hiddenText (p :: ps)).drop (s.stop - pre.length) = hiddenText rs := by
          rw [hqs, Nat.add_sub_cancel_left, hsplit, hiddenText, List.map_append,
            List.drop_left' (List.length_map ..)]
          rfl
        have hdrop' : (seenText (p :: ps)).drop ((seenText (pre ++ qs)).length -
            (seenText pre).length) = seenText rs := by
          rw [seenText_append, List.length_append, Nat.add_sub_cancel_left, hsplit,
            seenText_append, List.drop_left]
        have hshort : rs.length < len := by
          have := congrArg List.length hsplit
          rw [List.length_append] at this
          omega
        have hrest := ih rs.length hshort (pre ++ qs) (hsplit ▸ hps).of_append rfl
        rw [List.append_assoc, ← hsplit, List.length_append, ← hqs] at hrest
        simp only [Option.map_some, ElementSpan.map, List.map_cons, hplace, hdrop, hdrop']
        rw [hrest]

/-! ## Places in bytes -/

/-- The span with its places counted in bytes. -/
def ElementSpan.inBytes (t : Text) (s : ElementSpan) : ElementSpan :=
  s.map fun k => byteSize (t.take k)

variable {t h : Text}

theorem Hides.overlaid (hth : Hides t h) : Overlaid (t.zip h) := by
  rintro ⟨c, d⟩ hp
  exact (List.forall₂_zip hth hp).imp id And.left

theorem hiddenText_zip (hth : Hides t h) : hiddenText (t.zip h) = h :=
  List.map_snd_zip (Nat.le_of_eq hth.length_eq.symm)

/-- A place is seen behind as many bytes as it has in front of it. -/
theorem byteSize_take_seenPlace (hth : Hides t h) (k : Nat) :
    byteSize ((spread t h).take (seenPlace (t.zip h) k)) = byteSize (t.take k) := by
  have hseen : spread t h = seenText ((t.zip h).take k) ++ seenText ((t.zip h).drop k) := by
    rw [← seenText_append, List.take_append_drop]
    rfl
  have htake : seenText ((t.zip h).take k) = spread (t.take k) (h.take k) := by
    show ((t.zip h).take k).flatMap shown = ((t.take k).zip (h.take k)).flatMap shown
    exact congrArg (List.flatMap shown) List.take_zipWith
  rw [hseen, seenPlace, List.take_left, htake]
  exact byteSize_spread (List.forall₂_take k hth)

theorem inBytes_seenPlace (hth : Hides t h) (s : ElementSpan) :
    (s.map (seenPlace (t.zip h))).inBytes (spread t h) = s.inBytes t := by
  simp only [ElementSpan.inBytes, ElementSpan.map, byteSize_take_seenPlace hth]

/-- **The first element** of the text seen from outside stands where that of the
hidden text stands in the text itself. -/
theorem findElement?_inBytes (e : RawElement) (hth : Hides t h) :
    (findElement? e 0 (spread t h)).map (ElementSpan.inBytes (spread t h)) =
      (findElement? e 0 h).map (ElementSpan.inBytes t) := by
  have hseen : findElement? e 0 (spread t h) = _ := findElement?_seen e [] hth.overlaid
  rw [hseen, hiddenText_zip hth, Option.map_map]
  exact congrArg (Option.map · _) (funext (inBytes_seenPlace hth))

/-- **All elements** of the text seen from outside stand where those of the
hidden text stand in the text itself. -/
theorem findElements_inBytes (e : RawElement) (hth : Hides t h) :
    (findElements e 0 0 (spread t h)).map (ElementSpan.inBytes (spread t h)) =
      (findElements e 0 0 h).map (ElementSpan.inBytes t) := by
  have hseen : findElements e 0 0 (spread t h) = _ := findElements_seen e [] hth.overlaid
  rw [hseen, hiddenText_zip hth, List.map_map]
  exact congrArg (List.map · _) (funext (inBytes_seenPlace hth))

end Docweave.Source

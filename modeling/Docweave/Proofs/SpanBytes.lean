import Docweave.Proofs.ByteLayout
import Docweave.Proofs.CodeSpans
import Docweave.Proofs.RawBlocks

/-!
# Code spans byte by byte

A scan for code spans looks at back quotes, backslashes and newlines only, so it may as well
read bytes: a string of bytes is a text whose characters are the bytes. `byteText` is the text
of the bytes of a text.

> `hideAfresh_byteText`: the bytes that are seen of a text with its spans hidden are those of
> its bytes with their spans hidden. Step by step both scans do the same (`StepsAlike`). Of the
> bytes of a character behind a backslash only the first is taken along, but the others are no
> back quotes.

> `code_spans_hidden`: in a part of a text the scan that remembers does what the scan without a
> memory does, hides the spans of the part, and touches nothing else, whether characters or
> bytes are counted.

> `hideLines_paragraph`: the paragraphs of a document are such parts of it.
-/

namespace Docweave.Source

open Text

/-! ## Bytes as characters -/

/-- The bytes of a character, each as a character. -/
def charText (c : Char) : Text := (charBytes c).map Char.ofNat

/-- The bytes of a text, each as a character. -/
def byteText (t : Text) : Text := (bytes t).map Char.ofNat

theorem byteText_cons (c : Char) (t : Text) : byteText (c :: t) = charText c ++ byteText t := List.map_append

theorem byteText_nil : byteText [] = [] := rfl

theorem byteText_append (s t : Text) : byteText (s ++ t) = byteText s ++ byteText t := by
  rw [byteText, bytes_append, List.map_append]
  rfl

theorem charText_ascii {c : Char} (hc : c.toNat < 128) : charText c = [c] := by
  rw [charText, charBytes_ascii hc, List.map_singleton, Char.ofNat_toNat]

theorem toNat_ofNat_byte {n : Nat} (hn : n < 256) : (Char.ofNat n).toNat = n := by
  rw [Char.ofNat, dif_pos (Or.inl (by omega))]
  rfl

theorem lt_of_mem_charBytes {c : Char} {n : Nat} (h : n ∈ charBytes c) : n < 256 := by
  have hc : c.toNat < 1114112 := by
    rcases c.valid with hvalid | ⟨-, hvalid⟩
    · exact Nat.lt_trans hvalid (by decide)
    · exact hvalid
  unfold charBytes at h
  simp only at h
  (repeat' split at h) <;> simp only [List.mem_cons, List.not_mem_nil, or_false] at h <;> omega

/-- No byte of a character looks like another character of ASCII. -/
theorem mem_charText_iff {a c : Char} (ha : a.toNat < 128) : a ∈ charText c ↔ c = a := by
  constructor
  · intro h
    obtain ⟨n, hn, heq⟩ := List.mem_map.1 h
    have hnat : n = a.toNat := by rw [← heq, toNat_ofNat_byte (lt_of_mem_charBytes hn)]
    exact Char.toNat_inj.1 ((mem_charBytes_iff ha).1 (hnat ▸ hn))
  · rintro rfl
    rw [charText_ascii ha]
    exact List.mem_singleton_self _

/-- A character without meaning to the scan. -/
def IsPlain (c : Char) : Prop := c ≠ '\\' ∧ c ≠ backtick

/-- The bytes of a plain character are plain. -/
theorem plain_charText {c : Char} (hc : IsPlain c) : ∀ d ∈ charText c, IsPlain d := by
  intro d hd
  constructor
  · rintro rfl
    exact hc.1 ((mem_charText_iff (by decide)).1 hd)
  · rintro rfl
    exact hc.2 ((mem_charText_iff (by decide)).1 hd)

/-- Behind the first byte of a character no byte has a meaning. -/
theorem exists_charText_cons (c : Char) : ∃ d p, charText c = d :: p ∧ ∀ x ∈ p, IsPlain x := by
  by_cases hc : c.toNat < 128
  · exact ⟨c, [], charText_ascii hc, by simp⟩
  · have hplain : IsPlain c := by
      constructor
      · rintro rfl
        exact hc (by decide)
      · rintro rfl
        exact hc (by decide)
    cases hbytes : charText c with
    | nil =>
      have hlength := length_charBytes c
      have hpos := c.utf8Size_pos
      rw [charText, List.map_eq_nil_iff] at hbytes
      rw [hbytes, List.length_nil] at hlength
      omega
    | cons d p =>
      refine ⟨d, p, rfl, fun x hx => plain_charText hplain x ?_⟩
      rw [hbytes]
      exact List.mem_cons_of_mem d hx

/-! ## The scan over bytes -/

section

variable {c : Char} {t a r p : Text} {n fuel fuel' : Nat}

theorem hideAfresh_plain_append (hp : ∀ c ∈ p, IsPlain c) (t : Text) :
    hideAfresh (p ++ t) = p ++ hideAfresh t := by
  induction p with
  | nil => rfl
  | cons c p ih =>
    obtain ⟨hc, hp⟩ := List.forall_mem_cons.1 hp
    rw [List.cons_append, hideAfresh_plain hc.1 hc.2, ih hp, List.cons_append]

theorem runLength_quote (t : Text) : runLength (backtick :: t) = runLength t + 1 := by
  rw [runLength, List.takeWhile_cons_of_pos (by simp)]
  rfl

theorem runLength_of_not_quote (hc : c ≠ backtick) (t : Text) : runLength (c :: t) = 0 := by
  rw [runLength, List.takeWhile_cons_of_neg (by simpa using hc)]
  rfl

theorem byteText_quote (t : Text) : byteText (backtick :: t) = backtick :: byteText t := by
  rw [byteText_cons, charText_ascii (by decide)]
  rfl

/-- A text and its bytes start with the same run of back quotes. -/
theorem byteText_run (t : Text) : runLength (byteText t) = runLength t ∧
    (byteText t).take (runLength t) = byteText (t.take (runLength t)) ∧
    (byteText t).drop (runLength t) = byteText (t.drop (runLength t)) := by
  induction t with
  | nil => exact ⟨rfl, rfl, rfl⟩
  | cons c t ih =>
    by_cases hc : c = backtick
    · obtain ⟨hlength, htake, hdrop⟩ := ih
      rw [hc, byteText_quote, runLength_quote, runLength_quote, List.take_succ_cons, List.take_succ_cons,
        List.drop_succ_cons, List.drop_succ_cons, byteText_quote, hlength, htake, hdrop]
      exact ⟨rfl, rfl, rfl⟩
    · have hzero : runLength (byteText (c :: t)) = 0 := by
        obtain ⟨d, p, hbytes, -⟩ := exists_charText_cons c
        have hd : d ≠ backtick := by
          rintro rfl
          exact hc ((mem_charText_iff (by decide)).1 (by rw [hbytes]; exact List.mem_cons_self ..))
        rw [byteText_cons, hbytes]
        exact runLength_of_not_quote hd _
      rw [runLength_of_not_quote hc, hzero]
      exact ⟨rfl, rfl, rfl⟩

/-! ### The search -/

theorem closeSpan?_nil (n fuel : Nat) : closeSpan? n fuel [] = none := by
  cases fuel <;> rfl

theorem closeSpan?_other (hc : c ≠ backtick) (n fuel : Nat) (t : Text) :
    closeSpan? n (fuel + 1) (c :: t) = (closeSpan? n fuel t).map fun (a, r) => (c :: a, r) := by
  rw [closeSpan?, if_neg hc]

theorem closeSpan?_run (hrun : RunAt t n 0) (m fuel : Nat) : closeSpan? m (fuel + 1) t =
    if n = m then some (t.take n, t.drop n)
    else (closeSpan? m fuel (t.drop n)).map fun (a, r) => (t.take n ++ a, r) := by
  obtain ⟨u, rfl, rfl⟩ := hrun.exists_cons
  rw [closeSpan?, if_pos rfl]

theorem closeSpan?_skip (hp : backtick ∉ p) (n fuel : Nat) (t : Text) :
    closeSpan? n (fuel + p.length) (p ++ t) = (closeSpan? n fuel t).map fun (a, r) => (p ++ a, r) := by
  induction p with
  | nil => simp
  | cons c p ih =>
    obtain ⟨hc, hp⟩ := not_or.1 fun hm => hp (List.mem_cons.2 hm)
    rw [List.cons_append, List.length_cons, ← Nat.add_assoc, closeSpan?_other (Ne.symm hc), ih hp,
      Option.map_map]
    rfl

theorem RunAt.byteText (hrun : RunAt t n 0) : RunAt (byteText t) n 0 ∧
    (byteText t).take n = byteText (t.take n) ∧ (byteText t).drop n = byteText (t.drop n) := by
  obtain ⟨u, rfl, rfl⟩ := hrun.exists_cons
  obtain ⟨hlength, hparts⟩ := byteText_run (backtick :: u)
  refine ⟨?_, hparts⟩
  rw [← hlength]
  exact runAt_runLength (by rw [byteText_quote]; rfl)

/-- **The search finds the same run among the bytes.** -/
theorem closeSpan?_byteText (n : Nat) (hfuel : t.length ≤ fuel) (hfuel' : (byteText t).length ≤ fuel') :
    closeSpan? n fuel' (byteText t) = (closeSpan? n fuel t).map fun (a, r) => (byteText a, byteText r) := by
  induction fuel generalizing t fuel' with
  | zero =>
    obtain rfl := List.length_eq_zero_iff.1 (Nat.le_zero.1 hfuel)
    exact closeSpan?_nil n fuel'
  | succ fuel ih =>
    cases t with
    | nil => exact closeSpan?_nil n fuel'
    | cons c t =>
      by_cases hc : c = backtick
      · subst hc
        have hrun : RunAt (backtick :: t) _ 0 := runAt_runLength rfl
        generalize runLength (backtick :: t) = m at hrun
        obtain ⟨hbytes, htake, hdrop⟩ := hrun.byteText
        obtain ⟨fuel', rfl⟩ : ∃ k, fuel' = k + 1 := ⟨fuel' - 1, by
          rw [byteText_quote, List.length_cons] at hfuel'
          omega⟩
        rw [closeSpan?_run hrun, closeSpan?_run hbytes, htake, hdrop]
        split
        next => rfl
        next =>
          have hlt := hrun.length_drop_lt
          have hlt' := hbytes.length_drop_lt
          rw [hdrop] at hlt'
          rw [ih (by omega) (by omega), Option.map_map, Option.map_map]
          congr 1
          funext ⟨a, r⟩
          simp only [Function.comp_apply, byteText_append]
      · have hbytes : backtick ∉ charText c := mt (mem_charText_iff (by decide)).1 hc
        rw [byteText_cons, List.length_append] at hfuel'
        obtain ⟨fuel', rfl⟩ : ∃ k, fuel' = k + (charText c).length :=
          ⟨fuel' - (charText c).length, by omega⟩
        rw [byteText_cons, closeSpan?_skip hbytes, closeSpan?_other hc,
          ih (Nat.le_of_succ_le_succ hfuel) (by omega), Option.map_map, Option.map_map]
        congr 1
        funext ⟨a, r⟩
        simp only [Function.comp_apply, byteText_cons]

/-! ### Hiding -/

theorem length_hideAfresh (t : Text) : (hideAfresh t).length = t.length := by
  rw [← hideCodeSpans_eq_afresh]
  exact (hides_hideSpans [] t.length t).length_eq.symm

theorem spread_append {s h : Text} (hlength : s.length = h.length) (t g : Text) :
    spread (s ++ t) (h ++ g) = spread s h ++ spread t g := by
  rw [spread, List.zip_append hlength, List.flatMap_append]
  rfl

theorem byteText_spaces (n : Nat) : byteText (spaces n) = spaces n := by
  rw [byteText, bytes_spaces]
  exact List.map_replicate

/-- A character that is hidden leaves as many spaces as bytes. -/
theorem hideAll_byteText (t : Text) : hideAll (byteText t) = byteText (spread t (hideAll t)) := by
  induction t with
  | nil => rfl
  | cons c t ih =>
    have hfirst : hideAll (charText c) = byteText (shown (c, hide c)) := by
      by_cases hc : c = '\n'
      · subst hc
        rfl
      · have hshown : shown (c, hide c) = spaces c.utf8Size := by
          have hspread := spread_hideAll (l := [c]) (by simpa using Ne.symm hc)
          exact (List.append_nil _).symm.trans hspread
        rw [hshown, hideAll_eq_spaces (mt (mem_charText_iff (by decide)).1 hc), byteText_spaces, charText,
          List.length_map, length_charBytes]
    show hideAll (byteText (c :: t)) = byteText (shown (c, hide c) ++ spread t (hideAll t))
    rw [byteText_cons, byteText_append, ← hfirst, ← ih]
    exact List.map_append

/-- The scan makes `q` of the front `p` of a text, and what is seen of it of its bytes. -/
structure StepsAlike (p q u : Text) : Prop where
  length : p.length = q.length
  text : hideAfresh (p ++ u) = q ++ hideAfresh u
  bytes : hideAfresh (byteText (p ++ u)) = byteText (spread p q) ++ hideAfresh (byteText u)

theorem stepsAlike_pass {u : Text} (htext : hideAfresh (p ++ u) = p ++ hideAfresh u)
    (hbytes : hideAfresh (byteText (p ++ u)) = byteText p ++ hideAfresh (byteText u)) : StepsAlike p p u :=
  ⟨rfl, htext, by rw [hbytes, spread_self]⟩

theorem stepsAlike_plain (hc : IsPlain c) (t : Text) : StepsAlike [c] [c] t := by
  refine stepsAlike_pass (hideAfresh_plain hc.1 hc.2 t) ?_
  rw [byteText_append, hideAfresh_plain_append]
  simpa [byteText_cons, byteText_nil] using plain_charText hc

/-- Of a character behind a backslash the scan takes one byte along, and the others have no
meaning. -/
theorem stepsAlike_escape (t : Text) : StepsAlike ('\\' :: t.take 1) ('\\' :: t.take 1) (t.drop 1) := by
  have hfront : '\\' :: t.take 1 ++ t.drop 1 = '\\' :: t := congrArg ('\\' :: ·) (List.take_append_drop 1 t)
  have hslash : ∀ u, byteText ('\\' :: u) = '\\' :: byteText u := fun u => by
    rw [byteText_cons, charText_ascii (by decide)]
    rfl
  refine stepsAlike_pass (hfront ▸ hideAfresh_escape t) ?_
  rw [hfront, hslash, hslash, hideAfresh_escape]
  refine congrArg ('\\' :: ·) ?_
  cases t with
  | nil => rfl
  | cons d t =>
    obtain ⟨x, p, hd, hplain⟩ := exists_charText_cons d
    rw [byteText_cons, hd, List.cons_append, List.take_succ_cons, List.drop_succ_cons, List.take_zero,
      List.drop_zero, hideAfresh_plain_append hplain, List.take_succ_cons, List.take_zero, byteText_cons,
      byteText_nil, List.append_nil, hd]
    rfl

/-- The scan finds the same spans in a text and in its bytes. -/
theorem stepsAlike_opening (hrun : RunAt t n 0) :
    ∃ p q u, t = p ++ u ∧ p ≠ [] ∧ StepsAlike p q u := by
  obtain ⟨hbytes, htake, hdrop⟩ := hrun.byteText
  have hsearch' := closeSpan?_byteText n (Nat.le_refl (t.drop n).length) (Nat.le_refl _)
  rw [← hdrop] at hsearch'
  have hfront : t.take n ≠ [] := by
    obtain ⟨u, rfl, -⟩ := hrun.exists_cons
    exact fun h => Nat.ne_of_gt hrun.nonempty (by simpa using h)
  cases hsearch : closeSpan? n (t.drop n).length (t.drop n) with
  | none =>
    rw [hsearch] at hsearch'
    refine ⟨t.take n, t.take n, t.drop n, (List.take_append_drop n t).symm, hfront, stepsAlike_pass ?_ ?_⟩
    · rw [List.take_append_drop, hideAfresh_lone hrun hsearch]
    · rw [List.take_append_drop, hideAfresh_lone hbytes hsearch', htake, hdrop]
  | some found =>
    obtain ⟨a, r⟩ := found
    rw [hsearch] at hsearch'
    have hsplit : t.take n ++ a ++ r = t := by
      rw [List.append_assoc, ← closeSpan?_append hsearch, List.take_append_drop]
    have hne : t.take n ++ a ≠ [] := List.append_ne_nil_of_left_ne_nil hfront a
    refine ⟨_, hideAll (t.take n ++ a), r, hsplit.symm, hne, (hides_hideAll _).length_eq, ?_, ?_⟩
    · rw [hsplit, hideAfresh_span hrun hsearch]
    · rw [hsplit, hideAfresh_span hbytes hsearch', htake, ← byteText_append, hideAll_byteText]

theorem exists_stepsAlike (c : Char) (t : Text) :
    ∃ p q u, c :: t = p ++ u ∧ p ≠ [] ∧ StepsAlike p q u := by
  by_cases hslash : c = '\\'
  · refine ⟨_, _, _, ?_, List.cons_ne_nil _ _, stepsAlike_escape t⟩
    rw [hslash, List.cons_append, List.take_append_drop]
  by_cases hquote : c = backtick
  · exact stepsAlike_opening (runAt_runLength (congrArg some hquote))
  · exact ⟨[c], [c], t, rfl, List.cons_ne_nil _ _, stepsAlike_plain ⟨hslash, hquote⟩ t⟩

/-- **The spans of a text are hidden byte by byte.** -/
theorem hideAfresh_byteText (t : Text) : hideAfresh (byteText t) = byteText (spread t (hideAfresh t)) := by
  induction hm : t.length using Nat.strongRecOn generalizing t with
  | ind m ih =>
    subst hm
    cases t with
    | nil =>
      show hideAfresh [] = byteText (spread [] (hideAfresh []))
      rw [hideAfresh]
      rfl
    | cons c t =>
      obtain ⟨p, q, u, hsplit, hp, hstep⟩ := exists_stepsAlike c t
      have hpos := List.length_pos_iff.2 hp
      have hrest := ih u.length (by rw [hsplit, List.length_append]; omega) u rfl
      rw [hsplit, hstep.bytes, hstep.text, spread_append hstep.length, byteText_append, hrest]

end

/-! ## Part of a text -/

/-- The text with the code spans hidden between two places, as it is done paragraph by paragraph
(`hideLines_paragraph`). -/
def hideBetween (t : Text) (start stop : Nat) : Text :=
  t.take start ++ (hideCodeSpans (slice start stop t) ++ t.drop stop)

section

variable {t : Text} {start stop : Nat} {spans : List (Nat × Nat)}

theorem slice_append_drop (h : start ≤ stop) (t : Text) :
    slice start stop t ++ t.drop stop = t.drop start := by
  obtain ⟨n, rfl⟩ := Nat.exists_eq_add_of_le h
  rw [slice, List.drop_take, Nat.add_sub_cancel_left, ← List.drop_drop, List.take_append_drop]

/-- The spans between two places are hidden, and nothing else is. -/
theorem hideBetween_eq_hideAt (h : start ≤ stop) :
    ∃ spans, SpansFrom (t.take stop) start spans ∧ hideBetween t start stop = hideAt spans 0 t := by
  obtain ⟨spans, hspans, hhide⟩ := hideAfresh_eq_hideAt (t.take stop) start
  refine ⟨spans, hspans, ?_⟩
  have hbounds := spansFrom_bounds hspans
  have hfront : hideAt spans 0 t = t.take start ++ hideAt spans (0 + start) (t.drop start) :=
    hideAt_pass (fun s hs => by rw [Nat.zero_add]; exact (hbounds s hs).1) t
  have hback : hideAt spans stop (t.drop stop) = t.drop stop := by
    refine hideAt_outside ?_
    rintro k hk - ⟨s, hs, -, hlt⟩
    have hend := (hbounds s hs).2.2
    rw [List.length_take] at hend
    omega
  obtain ⟨n, rfl⟩ := Nat.exists_eq_add_of_le h
  have hslice : (t.take (start + n)).drop start = (t.drop start).take n := by
    rw [List.drop_take, Nat.add_sub_cancel_left]
  rw [hideBetween, hideCodeSpans_eq_afresh, slice, hhide, hfront, Nat.zero_add,
    hideAt_split spans start n (t.drop start), List.drop_drop, hback, hslice]

/-- `h` is the text with its code spans hidden between two places: each character in a span is
hidden, and every other one is where it was. -/
structure SpansHidden (t h : Text) (start stop : Nat) : Prop where
  outside : ∀ k : Nat, k < start ∨ stop ≤ k → h[k]? = t[k]?
  spans : ∃! spans, SpansFrom (t.take stop) start spans ∧
    ∀ k : Nat, h[k]? = t[k]?.map fun c => if InSpan spans k then hide c else c

theorem spansHidden_hideBetween (h : start ≤ stop) (t : Text) :
    SpansHidden t (hideBetween t start stop) start stop := by
  obtain ⟨spans, hspans, hhide⟩ := hideBetween_eq_hideAt (t := t) h
  have hplace : ∀ k : Nat, (hideBetween t start stop)[k]? =
      t[k]?.map fun c => if InSpan spans k then hide c else c := by
    intro k
    rw [hhide, getElem?_hideAt, Nat.zero_add]
  refine ⟨fun k hk => ?_, spans, ⟨hspans, hplace⟩, fun _ hother => spansFrom_unique hother.1 hspans⟩
  have houtside : ¬ InSpan spans k := by
    rintro ⟨s, hs, hle, hlt⟩
    have hbounds := spansFrom_bounds hspans s hs
    rw [List.length_take] at hbounds
    omega
  rw [hplace k]
  simp only [if_neg houtside, Option.map_id']

/-- Hiding between two places commutes with counting in bytes. -/
theorem hideBetween_byteText (h : start ≤ stop) (t : Text) :
    byteText (spread t (hideBetween t start stop)) =
      hideBetween (byteText t) (byteSize (t.take start)) (byteSize (t.take stop)) := by
  have htake : ∀ n, (byteText t).take (byteSize (t.take n)) = byteText (t.take n) := fun n => by
    rw [byteText, ← List.map_take, bytes_take]
    rfl
  have hdrop : (byteText t).drop (byteSize (t.take stop)) = byteText (t.drop stop) := by
    rw [byteText, ← List.map_drop, bytes_drop]
    rfl
  have hslice : slice (byteSize (t.take start)) (byteSize (t.take stop)) (byteText t) =
      byteText (slice start stop t) := by
    rw [byteText, byteText, bytes_slice t h, slice, List.map_drop, List.map_take]
  have hsplit : t = t.take start ++ (slice start stop t ++ t.drop stop) := by
    rw [slice_append_drop h, List.take_append_drop]
  have hspread : spread t (hideBetween t start stop) =
      t.take start ++ (spread (slice start stop t) (hideAfresh (slice start stop t)) ++ t.drop stop) := by
    conv => lhs; arg 1; rw [hsplit]
    rw [hideBetween, hideCodeSpans_eq_afresh, spread_append rfl, spread_append (length_hideAfresh _).symm,
      spread_self, spread_self]
  rw [hspread, byteText_append, byteText_append, ← hideAfresh_byteText, hideBetween, htake, hdrop, hslice,
    hideCodeSpans_eq_afresh]

/-- **The code spans in a part of a text.** What the scan remembers changes nothing; it hides
what lies in the spans of the part, and nothing else. A string of bytes is a text whose
characters are the bytes; the bytes seen of any other text are hidden in the same way. -/
theorem code_spans_hidden (t : Text) {start stop : Nat} (h : start ≤ stop) :
    hideBetween t start stop = t.take start ++ (hideAfresh (slice start stop t) ++ t.drop stop) ∧
    SpansHidden t (hideBetween t start stop) start stop ∧
    byteText (spread t (hideBetween t start stop)) =
      hideBetween (byteText t) (byteSize (t.take start)) (byteSize (t.take stop)) := by
  refine ⟨?_, spansHidden_hideBetween h t, hideBetween_byteText h t⟩
  rw [hideBetween, hideCodeSpans_eq_afresh]

/-- A part with an opening run behind an escape, in the middle of a run, with a run that is never
closed, and with a back quote right behind the part. -/
theorem code_spans_hidden_inside : 2 ≤ 11 ∧
    hideBetween "`a\\``é`b``c`" 2 11 = "`a\\`   b``c`" ∧
    SpansHidden "`a\\``é`b``c`" (hideBetween "`a\\``é`b``c`" 2 11) 2 11 :=
  ⟨by decide, by decide, (code_spans_hidden "`a\\``é`b``c`" (by decide)).2.1⟩

end

/-! ## Paragraphs -/

section

variable {front back : List (LineRole × Text)} {para prose : List Text}

theorem hideLines_prose (para prose : List Text) (back : List (LineRole × Text)) :
    hideLines para (prose.map (.prose, ·) ++ back) = hideLines (prose.reverse ++ para) back := by
  induction prose generalizing para with
  | nil => rfl
  | cons l prose ih =>
    rw [List.reverse_cons, List.append_assoc, ← List.singleton_append, ← ih]
    rfl

/-- A paragraph ends in front of the first line that is not part of it. -/
theorem hideLines_flush (h : ∀ p ∈ back.head?, p.1 ≠ .prose) :
    hideLines para back = hideLines.flush para ++ hideLines [] back := by
  rcases back with _ | ⟨⟨role, l⟩, back⟩
  · exact (List.append_nil _).symm
  · cases role with
    | kept => rfl
    | code => rfl
    | prose => exact absurd rfl (h _ rfl)

/-- Lines in front of a paragraph do not matter to it, when the last of them is no part of it. -/
theorem hideLines_append (h : ∀ p ∈ front.getLast?, p.1 ≠ .prose) (hpara : front = [] → para = [])
    (roles : List (LineRole × Text)) :
    hideLines para (front ++ roles) = hideLines para front ++ hideLines [] roles := by
  induction front generalizing para with
  | nil =>
    rw [hpara rfl]
    rfl
  | cons p front ih =>
    obtain ⟨role, l⟩ := p
    have hlast : ∀ p ∈ front.getLast?, p.1 ≠ .prose := by
      intro p hp
      cases front with
      | nil => exact absurd hp (by simp)
      | cons q front => exact h p (by rwa [List.getLast?_cons_cons])
    cases role with
    | kept =>
      show hideLines.flush para ++ l :: hideLines [] (front ++ roles) = _
      rw [ih hlast fun _ => rfl]
      exact (List.append_assoc _ (l :: _) _).symm
    | code =>
      show hideLines.flush para ++ hideAll l :: hideLines [] (front ++ roles) = _
      rw [ih hlast fun _ => rfl]
      exact (List.append_assoc _ (hideAll l :: _) _).symm
    | prose =>
      refine ih hlast fun hnil => ?_
      subst hnil
      exact absurd rfl (h _ rfl)

/-- Lines between others stand in one place of the joined text. -/
theorem exists_join_around (sep : Text) (front back : List Text) :
    ∃ a b, ∀ ps, ps ≠ [] → join sep (front ++ (ps ++ back)) = a ++ (join sep ps ++ b) := by
  obtain ⟨b, hb⟩ : ∃ b, ∀ ps, ps ≠ [] → join sep (ps ++ back) = join sep ps ++ b := by
    by_cases hback : back = []
    · exact ⟨[], fun ps _ => by rw [hback, List.append_nil, List.append_nil]⟩
    · exact ⟨sep ++ join sep back, fun ps hps => by rw [join_append sep hps hback, List.append_assoc]⟩
  by_cases hfront : front = []
  · exact ⟨[], b, fun ps hps => by rw [hfront, List.nil_append, hb ps hps, List.nil_append]⟩
  · refine ⟨join sep front ++ sep, b, fun ps hps => ?_⟩
    rw [join_append sep hfront (List.append_ne_nil_of_left_ne_nil hps back), hb ps hps]

theorem hideBetween_append (a p b : Text) :
    hideBetween (a ++ (p ++ b)) a.length (a.length + p.length) = a ++ (hideCodeSpans p ++ b) := by
  have htake : (a ++ (p ++ b)).take (a.length + p.length) = a ++ p := by
    rw [← List.append_assoc, ← List.length_append, List.take_left]
  have hdrop : (a ++ (p ++ b)).drop (a.length + p.length) = b := by
    rw [← List.append_assoc, ← List.length_append, List.drop_left]
  rw [hideBetween, slice, htake, hdrop, List.drop_left, List.take_left]

/-- **A paragraph** is a part of the text in which all other lines are done already, and its code
spans are hidden between its two places. -/
theorem hideLines_paragraph (hfront : ∀ p ∈ front.getLast?, p.1 ≠ .prose)
    (hback : ∀ p ∈ back.head?, p.1 ≠ .prose) (hprose : prose ≠ []) : ∃ start stop, start ≤ stop ∧
      slice start stop (join "\n" (hideLines [] front ++ (prose ++ hideLines [] back))) = join "\n" prose ∧
      join "\n" (hideLines [] (front ++ (prose.map (.prose, ·) ++ back))) =
        hideBetween (join "\n" (hideLines [] front ++ (prose ++ hideLines [] back))) start stop := by
  obtain ⟨a, b, hjoin⟩ := exists_join_around "\n" (hideLines [] front) (hideLines [] back)
  have hflush : hideLines.flush prose.reverse = lines (hideCodeSpans (join "\n" prose)) := by
    unfold hideLines.flush
    rw [if_neg (by simpa using hprose), List.reverse_reverse]
  have hlines : hideLines [] (front ++ (prose.map (.prose, ·) ++ back)) =
      hideLines [] front ++ (lines (hideCodeSpans (join "\n" prose)) ++ hideLines [] back) := by
    rw [hideLines_append hfront fun _ => rfl, hideLines_prose, List.append_nil, hideLines_flush hback, hflush]
  refine ⟨a.length, a.length + (join "\n" prose).length, Nat.le_add_right _ _, ?_, ?_⟩
  · rw [hjoin prose hprose, slice, ← List.append_assoc, ← List.length_append, List.take_left,
      List.drop_left]
  · rw [hlines, hjoin (lines _) (splitOn_ne_nil '\n' _), hjoin prose hprose, join_lines, hideBetween_append]

end

end Docweave.Source

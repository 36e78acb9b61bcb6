import Docweave.Markdown.Parse
import Docweave.Proofs.ParagraphLines

/-!
# Paragraphs show lines of their source

A top-level paragraph of a document starts on a line of the source, at the
first character of that line that is no blank:

> `parse_paragraph`: the first line of a top-level paragraph of
> `Markdown.parse src` has the number and the text of a line of `src`, without
> the blanks in front and maybe without blanks behind.

The block pass works on a chain of open blocks. Only its outermost block can
become a top-level one, so the invariant `Traced` says nothing of the others:
the outermost block, when it is a paragraph, holds lines of the source above a
given row, and every finished paragraph shows one first. A step of the pass
opens blocks (`openBlocks_top`, `openBlocks_deep`), continues them
(`continueBlock_keeps`) or closes them (`closeBlocks_traced`).
-/

namespace Docweave.Markdown

open Docweave.Text

variable {src : Text} {bound : Nat}

/-- A finished block that is a paragraph shows a line of the source first. -/
def Draft.Sourced (src : Text) (d : Draft) : Prop :=
  d.shape = .paragraph → ∃ s rest, d.lines = s :: rest ∧ s.Cut src

/-- The outermost open block, when it is a paragraph, holds lines of the
source above row `bound`. -/
def HeadOpen (src : Text) (bound : Nat) (chain : List OpenBlock) : Prop :=
  ∀ b, chain.head? = some b → b.isParagraph = true →
    OpenLines src b.lines ∧ ∀ s ∈ b.lines, s.row < bound

/-- What the block pass keeps. -/
structure Traced (src : Text) (bound : Nat) (st : BlockState) : Prop where
  cursor : st.cursor.On src
  done : ∀ d ∈ st.done, d.Sourced src
  head : HeadOpen src bound st.chain

theorem headOpen_mono {bound' : Nat} {chain : List OpenBlock} (h : HeadOpen src bound chain)
    (hle : bound ≤ bound') : HeadOpen src bound' chain := by
  intro b hb hp
  obtain ⟨hopen, hrows⟩ := h b hb hp
  exact ⟨hopen, fun s hs => Nat.lt_of_lt_of_le (hrows s hs) hle⟩

theorem headOpen_nil : HeadOpen src bound [] := by
  intro b hb
  exact absurd hb (by simp)

theorem headOpen_cons {b : OpenBlock} (bs : List OpenBlock) (h : b.isParagraph = false) :
    HeadOpen src bound (b :: bs) := by
  intro b' hb hp
  rw [← Option.some.inj hb, h] at hp
  exact absurd hp (by simp)

/-- Blocks behind an open one do not matter. -/
theorem headOpen_append {chain more : List OpenBlock} (h : HeadOpen src bound chain)
    (hnil : chain = [] → HeadOpen src bound more) : HeadOpen src bound (chain ++ more) := by
  cases chain with
  | nil => exact hnil rfl
  | cons b bs => exact h

/-- A change inside the chain matters when it is made to the outermost block. -/
theorem headOpen_modify {chain : List OpenBlock} {i : Nat} {f : OpenBlock → OpenBlock}
    (h : HeadOpen src bound chain)
    (hf : ∀ b, i = 0 → chain.head? = some b → (f b).isParagraph = true →
      OpenLines src (f b).lines ∧ ∀ s ∈ (f b).lines, s.row < bound) :
    HeadOpen src bound (chain.modify i f) := by
  cases chain with
  | nil => simpa using h
  | cons b bs =>
    cases i with
    | zero =>
      intro b' hb hp
      obtain rfl : f b = b' := by simpa using hb
      exact hf b rfl rfl hp
    | succ i => exact h

/-! ## Closing -/

theorem closeBlock_sourced {b : OpenBlock} {refs : List Reference}
    (h : b.isParagraph = true → OpenLines src b.lines) :
    ∀ d ∈ (closeBlock b refs).1, d.Sourced src := by
  intro d hd hshape
  unfold closeBlock at hd
  split at hd
  next hb =>
    have hopen := h (by rw [OpenBlock.isParagraph, hb])
    simp only at hd
    split at hd
    next => exact absurd hshape (transformParagraph_after _ _ _ d hd)
    next hne =>
      rcases List.mem_cons.1 hd with rfl | hd
      · cases hlines : (transformParagraph b.blankBefore b.lines refs).1 with
        | nil =>
          rw [hlines] at hne
          exact absurd rfl hne
        | cons s rest =>
          exact trimParagraph_cut rfl (transformParagraph_cut hopen hlines)
      · exact absurd hshape (transformParagraph_after _ _ _ d hd)
  next =>
    rw [List.mem_singleton.1 hd] at hshape
    exact absurd hshape (by simp [Draft.shape])
  next hb =>
    rw [List.mem_singleton.1 hd] at hshape
    simp only [Draft.shape, hb] at hshape
    exact absurd hshape (by simp)
  next hp _ _ =>
    rw [List.mem_singleton.1 hd] at hshape
    exact absurd hshape hp

theorem closeChain_sourced {chain : List OpenBlock} {refs : List Reference}
    (h : HeadOpen src bound chain) : ∀ d ∈ (closeChain chain refs).1, d.Sourced src := by
  cases chain with
  | nil => simp [closeChain]
  | cons b bs => exact closeBlock_sourced fun hp => (h b rfl hp).1

theorem addDrafts_traced {st : BlockState} {depth : Nat} {ds : List Draft}
    (h : Traced src bound st) (hd : depth = 0 → ∀ d ∈ ds, d.Sourced src) :
    Traced src bound (st.addDrafts depth ds) := by
  unfold BlockState.addDrafts
  split
  next =>
    refine ⟨h.cursor, ?_, h.head⟩
    intro d hm
    rcases List.mem_append.1 hm with hm | hm
    · exact h.done d hm
    · exact hd rfl d hm
  next d => exact ⟨h.cursor, h.done, headOpen_modify h.head fun b _ hb hp => h.head b hb hp⟩

/-- Closing blocks finishes sourced ones. At top level the block behind the
closed ones becomes the outermost. -/
theorem closeBlocks_traced {st : BlockState} {depth count : Nat} (h : Traced src bound st)
    (hdrop : depth = 0 → HeadOpen src bound (st.chain.drop count)) :
    Traced src bound (st.closeBlocks depth count) := by
  unfold BlockState.closeBlocks
  refine addDrafts_traced ⟨h.cursor, h.done, ?_⟩ ?_
  · cases depth with
    | zero => simpa using hdrop rfl
    | succ d =>
      cases hc : st.chain with
      | nil => simpa [hc] using h.head
      | cons b bs =>
        rw [List.take_succ_cons]
        intro b' hb
        exact h.head b' (by rw [hc]; exact hb)
  · rintro rfl
    have hclosed : HeadOpen src bound ((st.chain.drop 0).take count) := by
      intro b hb
      refine h.head b ?_
      cases count with
      | zero => exact absurd hb (by simp)
      | succ n =>
        cases hc : st.chain with
        | nil => rw [hc] at hb; exact absurd hb (by simp)
        | cons b' bs => rw [hc] at hb; exact hb
    exact closeChain_sourced hclosed

/-! ## Opening -/

/-- A try leaves the blocks alone. -/
theorem open?_same (start : BlockStart) (st : BlockState) (depth : Nat) (position : Option Nat) :
    (start.open? st depth position).2.cursor = st.cursor ∧
    (start.open? st depth position).2.done = st.done ∧
    (start.open? st depth position).2.chain = st.chain := by
  cases start <;> unfold BlockStart.open? <;> simp only <;> (repeat' split) <;>
    exact ⟨rfl, rfl, rfl⟩

theorem fenceShape?_ne {cursor : Cursor} {pos : Nat} {shape : Shape}
    (h : fenceShape? cursor pos = some shape) : shape ≠ .paragraph := by
  rintro rfl
  unfold fenceShape? at h
  simp only at h
  (repeat' split at h) <;> exact absurd h (by simp)

theorem quoteLine?_on {c c' : Cursor} (hon : c.On src) (h : quoteLine? c = some c') :
    c'.On src ∧ c.row ≤ c'.row := by
  unfold quoteLine? at h
  simp only at h
  split at h
  next => exact absurd h (by simp)
  next =>
    split at h
    next pos t _ =>
      obtain ⟨hon₁, hrow₁⟩ := advance_on ((indentation c.column c.text).2 + 1) hon
      split at h
      next =>
        obtain rfl := Option.some.inj h
        obtain ⟨hon₂, hrow₂⟩ := advancePadded_on 1 0 hon₁
        exact ⟨hon₂, Nat.le_trans hrow₁ hrow₂⟩
      next =>
        obtain rfl := Option.some.inj h
        obtain ⟨hon₂, hrow₂⟩ := advancePadded_on 1 _ hon₁
        exact ⟨hon₂, Nat.le_trans hrow₁ hrow₂⟩
      next =>
        obtain rfl := Option.some.inj h
        exact ⟨hon₁, hrow₁⟩
    next => exact absurd h (by simp)

/-- What a block that begins brings: a cursor that has not left the lines, and
lines of its own only from there. -/
structure Opening.Fits (src : Text) (c : Cursor) (o : Opening) : Prop where
  cursor : o.cursor.On src ∧ c.row ≤ o.cursor.row
  paragraph : o.shape = .paragraph →
    o.container = false ∧ o.lines = [c.segment.trimLeft] ∧ c.segment.trimLeft.text ≠ []

theorem fits_of_shape {c : Cursor} {o o' : Opening} (hc : o'.cursor.On src ∧ c.row ≤ o'.cursor.row)
    (hs : o'.shape ≠ .paragraph) (h : some o' = some o) : o.Fits src c := by
  obtain rfl := Option.some.inj h
  exact ⟨hc, fun hp => absurd hp hs⟩

/-- Only a paragraph takes its text from the line as it stands, and only an
underline needs a paragraph above. -/
theorem open?_fits {start : BlockStart} {st : BlockState} {depth : Nat} {position : Option Nat}
    {o : Opening} (hon : st.cursor.On src) (h : (start.open? st depth position).1 = some o) :
    o.Fits src st.cursor ∧ (start = .underline → ∃ p, st.paragraphAt? depth = some p) := by
  have here : st.cursor.On src ∧ st.cursor.row ≤ st.cursor.row := ⟨hon, Nat.le_refl _⟩
  unfold BlockStart.open? at h
  cases start with
  | underline =>
    simp only at h
    split at h
    next p level hp _ => exact ⟨fits_of_shape here (by simp) h, fun _ => ⟨p, hp⟩⟩
    next => exact absurd h (by simp)
  | rule | list | atx | html | code =>
    refine ⟨?_, by simp⟩
    simp only at h
    (repeat' split at h) <;> first
      | exact fits_of_shape here (by simp) h
      | exact absurd h (by simp)
  | item =>
    refine ⟨?_, by simp⟩
    simp only at h
    (repeat' split at h) <;> first
      | exact fits_of_shape here (by simp) h
      | exact fits_of_shape (advancePadded_on _ _ hon) (by simp) h
      | exact absurd h (by simp)
  | fence =>
    refine ⟨?_, by simp⟩
    simp only at h
    split at h
    next shape hshape =>
      obtain ⟨pos, _, hpos⟩ := Option.bind_eq_some_iff.1 hshape
      exact fits_of_shape here (fenceShape?_ne hpos) h
    next => exact absurd h (by simp)
  | quote =>
    refine ⟨?_, by simp⟩
    simp only at h
    split at h
    next c hc => exact fits_of_shape (quoteLine?_on hon hc) (by simp) h
    next => exact absurd h (by simp)
  | paragraph =>
    refine ⟨?_, by simp⟩
    simp only at h
    split at h
    next => exact absurd h (by simp)
    next hne =>
      obtain rfl := Option.some.inj h
      exact ⟨here, fun _ => ⟨rfl, rfl, by simpa using hne⟩⟩

/-- The paragraph at depth `depth` has left the chain. What it held was
finished as other blocks, and `extra` stands in its place. -/
structure Replaced (st : BlockState) (depth : Nat) (extra : List OpenBlock) (st' : BlockState) :
    Prop where
  cursor : st'.cursor = st.cursor
  length : st.chain.length = depth + 1
  blocks : ∃ after, (∀ d ∈ after, d.shape ≠ .paragraph) ∧
    ∃ base : BlockState, base.cursor = st.cursor ∧ base.done = st.done ∧
      base.chain = st.chain.take depth ∧
      st'.done = (base.addDrafts depth after).done ∧
      st'.chain = (base.addDrafts depth after).chain ++ extra

/-- What a round of tries can do. -/
def Attempt.Fits (src : Text) (depth : Nat) (st : BlockState) : Attempt → Prop
  | .failed st' => st'.cursor = st.cursor ∧ st'.done = st.done ∧ st'.chain = st.chain
  | .finished st' =>
    (st'.cursor.On src ∧ st.cursor.row ≤ st'.cursor.row) ∧ st'.done = st.done ∧
      ∃ b, st'.chain = st.chain ++ [b] ∧ (b.isParagraph = true →
        b.lines = [st.cursor.segment.trimLeft] ∧ st.cursor.segment.trimLeft.text ≠ [])
  | .inside st' depth' =>
    (st'.cursor.On src ∧ st.cursor.row ≤ st'.cursor.row) ∧ st'.done = st.done ∧
      depth' = st'.chain.length ∧ ∃ b, st'.chain = st.chain ++ [b] ∧ b.isParagraph = false
  | .underlined st' => ∃ b, b.isParagraph = false ∧ Replaced st depth [b] st'
  | .again st' => Replaced st depth [] st'

theorem isParagraph_iff {b : OpenBlock} : b.isParagraph = true ↔ b.shape = .paragraph := by
  unfold OpenBlock.isParagraph
  split
  next h => simp [h]
  next h => simpa using h

theorem paragraphAt?_length {st : BlockState} {depth : Nat} {p : OpenBlock}
    (h : st.paragraphAt? depth = some p) : st.chain.length = depth + 1 := by
  unfold BlockState.paragraphAt? at h
  split at h
  next =>
    split at h
    next hc =>
      simp only [Bool.and_eq_true, decide_eq_true_eq] at hc
      exact hc.2
    next => exact absurd h (by simp)
  next => exact absurd h (by simp)

theorem open?_underline {st : BlockState} {depth : Nat} {position : Option Nat} {o : Opening}
    (h : (BlockStart.underline.open? st depth position).1 = some o) :
    ∃ n, o.shape = .heading n := by
  unfold BlockStart.open? at h
  simp only at h
  split at h
  next level _ _ =>
    obtain rfl := Option.some.inj h
    exact ⟨level, rfl⟩
  next => exact absurd h (by simp)

/-- A round of tries on a state with the same blocks can do the same. -/
theorem fits_congr {depth : Nat} {st st₀ : BlockState} {a : Attempt}
    (hcursor : st.cursor = st₀.cursor) (hdone : st.done = st₀.done) (hchain : st.chain = st₀.chain)
    (h : a.Fits src depth st) : a.Fits src depth st₀ := by
  have replaced : ∀ {extra : List OpenBlock} {st' : BlockState},
      Replaced st depth extra st' → Replaced st₀ depth extra st' := by
    intro extra st' hr
    obtain ⟨after, hafter, base, hbase⟩ := hr.blocks
    rw [hcursor, hdone, hchain] at hbase
    exact ⟨hr.cursor.trans hcursor, hchain ▸ hr.length, after, hafter, base, hbase⟩
  cases a with
  | failed st' =>
    simp only [Attempt.Fits, hcursor, hdone, hchain] at h ⊢
    exact h
  | finished st' =>
    simp only [Attempt.Fits, hcursor, hdone, hchain] at h ⊢
    exact h
  | inside st' d =>
    simp only [Attempt.Fits, hcursor, hdone, hchain] at h ⊢
    exact h
  | underlined st' =>
    obtain ⟨b, hb, hr⟩ := h
    exact ⟨b, hb, replaced hr⟩
  | again st' => exact replaced h

theorem tryStarts_fits {depth : Nat} {blank fresh continuable : Bool} {width : Nat}
    {position : Option Nat} (starts : List BlockStart) {st : BlockState} (hon : st.cursor.On src) :
    (tryStarts depth blank fresh continuable width position starts st).Fits src depth st := by
  induction starts generalizing st with
  | nil => exact ⟨rfl, rfl, rfl⟩
  | cons s ss ih =>
    unfold tryStarts
    split
    next => exact ih hon
    next =>
      split
      next => exact ih hon
      next =>
        obtain ⟨hcursor, hdone, hchain⟩ := open?_same s st depth position
        split
        next st₁ heq =>
          rw [heq] at hcursor hdone hchain
          exact fits_congr hcursor hdone hchain (ih (by rw [hcursor]; exact hon))
        next o st₁ heq =>
          rw [heq] at hcursor hdone hchain
          simp only at hcursor hdone hchain
          obtain ⟨hfits, hunder⟩ := open?_fits hon (congrArg Prod.fst heq)
          refine fits_congr hcursor hdone hchain ?_
          rw [← hcursor] at hfits
          split
          next p hp _ _ =>
            -- an underline turns the paragraph above it into a heading
            obtain ⟨n, hshape⟩ := open?_underline (congrArg Prod.fst heq)
            have hafter := transformParagraph_after p.blankBefore (trimParagraph p.lines) st₁.refs
            generalize transformParagraph p.blankBefore (trimParagraph p.lines) st₁.refs = left
              at hafter
            obtain ⟨lines, after, refs⟩ := left
            have hcur : ∀ ds : List Draft,
                (BlockState.addDrafts { st₁ with chain := st₁.chain.take depth, refs := refs } depth
                  ds).cursor = st₁.cursor := by
              intro ds
              unfold BlockState.addDrafts
              split <;> rfl
            simp only
            split
            next =>
              exact ⟨hcur after, paragraphAt?_length hp, after, hafter,
                { st₁ with chain := st₁.chain.take depth, refs := refs }, rfl, rfl, rfl, rfl,
                by simp⟩
            next =>
              refine ⟨⟨o.shape, p.blankBefore, lines, []⟩, ?_, hcur after, paragraphAt?_length hp,
                after, hafter, { st₁ with chain := st₁.chain.take depth, refs := refs },
                rfl, rfl, rfl, rfl, rfl⟩
              simp [OpenBlock.isParagraph, hshape]
          next =>
            simp only
            split
            next hcont =>
              refine ⟨hfits.cursor, rfl, rfl, _, rfl, ?_⟩
              rw [← Bool.not_eq_true, isParagraph_iff]
              intro hp
              rw [(hfits.paragraph hp).1] at hcont
              exact absurd hcont (by simp)
            next =>
              refine ⟨hfits.cursor, rfl, _, rfl, ?_⟩
              intro hp
              exact (hfits.paragraph (isParagraph_iff.1 hp)).2

/-- One round of the search for blocks that begin. -/
theorem openBlocks_round (fuel depth : Nat) (blank fresh continuable taken : Bool) {st : BlockState}
    (hon : st.cursor.On src) :
    ∃ a : Attempt, a.Fits src depth st ∧
      openBlocks (fuel + 1) depth blank fresh continuable taken st =
        match a with
        | .inside st depth => openBlocks fuel depth blank false continuable taken st
        | .again st => openBlocks fuel depth blank fresh false true st
        | .underlined st => (.opened, true, st)
        | .finished st => (.opened, taken, st)
        | .failed st' =>
          if !fresh then (.opened, taken, st')
          else if continuable && !isBlank st.cursor.text then
            (.continued, taken,
              { st' with chain := st'.chain.modify (st'.chain.length - 1) fun b =>
                  { b with lines := b.lines ++ [st'.cursor.segment.trimLeft] } })
          else (.nothing, taken, st') := by
  refine ⟨_, ?_, rfl⟩
  split
  next => exact ⟨rfl, rfl, rfl⟩
  next => exact tryStarts_fits _ hon

/-- A paragraph that a fresh line begins. -/
theorem headOpen_opened {c : Cursor} {b : OpenBlock} (hon : c.On src) (hf : c.Fresh)
    (hb : b.isParagraph = true →
      b.lines = [c.segment.trimLeft] ∧ c.segment.trimLeft.text ≠ []) :
    HeadOpen src (c.row + 1) [b] := by
  intro b' hb' hp
  obtain rfl := Option.some.inj hb'
  obtain ⟨hlines, hne⟩ := hb hp
  rw [hlines]
  refine ⟨openLines_concat ⟨by simp, List.Pairwise.nil⟩ (led_segment hon hf hne) (by simp), ?_⟩
  intro s hs
  rw [List.mem_singleton.1 hs]
  exact Nat.lt_succ_self _

/-- Where no paragraph can be replaced or continued, blocks are only added
behind those that are open. The first of them, when it is a paragraph, holds
the line under the cursor. -/
theorem openBlocks_appends (fuel : Nat) {depth : Nat} {blank fresh continuable taken : Bool}
    {st : BlockState} (hon : st.cursor.On src) (hdepth : depth = st.chain.length)
    (hfresh : fresh = true → continuable = false) :
    ∃ r st', openBlocks fuel depth blank fresh continuable taken st = (r, taken, st') ∧
      r ≠ .continued ∧ (st'.cursor.On src ∧ st.cursor.row ≤ st'.cursor.row) ∧ st'.done = st.done ∧
      ∃ more, st'.chain = st.chain ++ more ∧
        (st.cursor.Fresh → HeadOpen src (st.cursor.row + 1) more) := by
  induction fuel generalizing depth fresh st with
  | zero =>
    exact ⟨_, st, rfl, by simp, ⟨hon, Nat.le_refl _⟩, rfl, [], (List.append_nil _).symm,
      fun _ => headOpen_nil⟩
  | succ fuel ih =>
    obtain ⟨a, hfits, heq⟩ := openBlocks_round fuel depth blank fresh continuable taken hon
    rw [heq]
    cases a with
    | failed st' =>
      obtain ⟨hcursor, hdone, hchain⟩ := hfits
      have hsame : (st'.cursor.On src ∧ st.cursor.row ≤ st'.cursor.row) ∧ st'.done = st.done ∧
          ∃ more, st'.chain = st.chain ++ more ∧
            (st.cursor.Fresh → HeadOpen src (st.cursor.row + 1) more) :=
        ⟨by rw [hcursor]; exact ⟨hon, Nat.le_refl _⟩, hdone, [], by simpa using hchain,
          fun _ => headOpen_nil⟩
      cases fresh with
      | false => exact ⟨_, st', rfl, by simp, hsame⟩
      | true =>
        rw [hfresh rfl]
        exact ⟨_, st', rfl, by simp, hsame⟩
    | finished st' =>
      obtain ⟨hcursor, hdone, b, hchain, hb⟩ := hfits
      exact ⟨_, st', rfl, by simp, hcursor, hdone, [b], hchain, fun hf => headOpen_opened hon hf hb⟩
    | inside st' depth' =>
      obtain ⟨hcursor, hdone, hlen, b, hchain, hb⟩ := hfits
      obtain ⟨r, st'', hr, hne, hcursor', hdone', more, hmore, _⟩ :=
        ih hcursor.1 hlen fun h : false = true => absurd h (by simp)
      refine ⟨r, st'', hr, hne, ⟨hcursor'.1, Nat.le_trans hcursor.2 hcursor'.2⟩,
        hdone'.trans hdone, b :: more, ?_, fun _ => headOpen_cons more hb⟩
      rw [hmore, hchain, List.append_assoc]
      rfl
    | underlined st' =>
      obtain ⟨b, _, hr⟩ := hfits
      have := hr.length
      omega
    | again st' =>
      have := hfits.length
      omega

/-- The line that continues a paragraph is not blank. -/
theorem trimLeft_ne_nil {c : Cursor} (h : isBlank c.text = false) :
    c.segment.trimLeft.text ≠ [] := by
  have hvisible : ∃ x ∈ c.rest, isBlankAscii x = false := by
    obtain ⟨x, hx, hb⟩ : ∃ x ∈ c.text, isBlankAscii x = false := by
      simpa [isBlank, List.all_eq_false] using h
    unfold Cursor.text at hx
    split at hx
    next => exact absurd hx (by simp)
    next =>
      rcases List.mem_append.1 hx with hs | hr
      · rw [List.eq_of_mem_replicate hs] at hb
        exact absurd hb (by decide)
      · exact ⟨x, hr, hb⟩
  obtain ⟨x, t, heq, _⟩ := dropWhile_eq_cons hvisible
  rw [trimLeft_text]
  show c.rest.dropWhile isBlankAscii ≠ []
  rw [heq]
  simp

/-- A paragraph at top level that was replaced. -/
theorem replaced_top {st st' : BlockState} {extra : List OpenBlock} (h : Replaced st 0 extra st')
    (hdone : ∀ d ∈ st.done, d.Sourced src) :
    st'.chain = extra ∧ ∀ d ∈ st'.done, d.Sourced src := by
  obtain ⟨after, hafter, base, _, hbdone, hbchain, hdone', hchain'⟩ := h.blocks
  rw [hchain', hdone']
  unfold BlockState.addDrafts
  simp only [hbchain, hbdone]
  refine ⟨rfl, ?_⟩
  intro d hd
  rcases List.mem_append.1 hd with hd | hd
  · exact hdone d hd
  · exact fun hp => absurd hp (hafter d hd)

/-- **Opening at top level.** On a line of which only blanks are taken, the
search keeps the invariant, and the block behind the old ones is in order. -/
theorem openBlocks_top (fuel : Nat) {blank continuable : Bool} {st : BlockState}
    (h : Traced src bound st) (hbound : bound ≤ st.cursor.row) (hf : st.cursor.Fresh) :
    ∃ r taken st', openBlocks fuel 0 blank true continuable false st = (r, taken, st') ∧
      st.cursor.row ≤ st'.cursor.row ∧ Traced src (st.cursor.row + 1) st' ∧
      (r ≠ .continued → HeadOpen src (st.cursor.row + 1)
        (st'.chain.drop (if taken then st.chain.length - 1 else st.chain.length))) := by
  have hhead : HeadOpen src (st.cursor.row + 1) st.chain := headOpen_mono h.head (by omega)
  cases fuel with
  | zero =>
    refine ⟨_, _, st, rfl, Nat.le_refl _, ⟨h.cursor, h.done, hhead⟩, fun _ => ?_⟩
    simpa using headOpen_nil
  | succ fuel =>
    obtain ⟨a, hfits, heq⟩ := openBlocks_round fuel 0 blank true continuable false h.cursor
    rw [heq]
    cases a with
    | failed st' =>
      obtain ⟨hcursor, hdone, hchain⟩ := hfits
      have hon : st'.cursor.On src := by rw [hcursor]; exact h.cursor
      have hrow : st.cursor.row ≤ st'.cursor.row := Nat.le_of_eq (by rw [hcursor])
      have hdone' : ∀ d ∈ st'.done, d.Sourced src := by rw [hdone]; exact h.done
      simp only [Bool.not_true, Bool.false_eq_true, if_false]
      split
      next hcont =>
        simp only [Bool.and_eq_true, Bool.not_eq_true'] at hcont
        refine ⟨_, _, _, rfl, hrow, ⟨hon, hdone', ?_⟩, fun hne => absurd rfl hne⟩
        -- the line goes to the outermost block only when that is the paragraph itself
        rw [hchain, hcursor]
        refine headOpen_modify hhead ?_
        intro b _ hb hp
        obtain ⟨hopen, hrows⟩ := h.head b hb hp
        refine ⟨openLines_concat hopen (led_segment h.cursor hf (trimLeft_ne_nil hcont.2)) ?_, ?_⟩
        · intro s hs
          exact Nat.lt_of_lt_of_le (hrows s hs) hbound
        · intro s hs
          rcases List.mem_append.1 hs with hs | hs
          · have := hrows s hs
            omega
          · rw [List.mem_singleton.1 hs]
            exact Nat.lt_succ_self _
      next =>
        refine ⟨_, _, st', rfl, hrow, ⟨hon, hdone', by rw [hchain]; exact hhead⟩, fun _ => ?_⟩
        rw [hchain]
        simpa using headOpen_nil
    | finished st' =>
      obtain ⟨hcursor, hdone, b, hchain, hb⟩ := hfits
      have hnew := headOpen_opened h.cursor hf hb
      refine ⟨_, _, st', rfl, hcursor.2, ⟨hcursor.1, by rw [hdone]; exact h.done, ?_⟩, fun _ => ?_⟩
      · rw [hchain]
        exact headOpen_append hhead fun _ => hnew
      · rw [hchain]
        simpa using hnew
    | inside st' depth' =>
      obtain ⟨hcursor, hdone, hlen, b, hchain, hb⟩ := hfits
      obtain ⟨r, st'', hr, hne, hcursor', hdone', more, hmore, _⟩ :=
        openBlocks_appends fuel hcursor.1 hlen fun h : false = true => absurd h (by simp)
      have hchain' : st''.chain = st.chain ++ b :: more := by
        rw [hmore, hchain, List.append_assoc]
        rfl
      refine ⟨r, false, st'', hr, Nat.le_trans hcursor.2 hcursor'.2,
        ⟨hcursor'.1, by rw [hdone', hdone]; exact h.done, ?_⟩, fun _ => ?_⟩
      · rw [hchain']
        exact headOpen_append hhead fun _ => headOpen_cons more hb
      · rw [hchain']
        simpa using headOpen_cons more hb
    | underlined st' =>
      obtain ⟨b, hb, hr⟩ := hfits
      obtain ⟨hchain, hdone⟩ := replaced_top hr h.done
      refine ⟨_, _, st', rfl, Nat.le_of_eq (by rw [hr.cursor]), ⟨?_, hdone, ?_⟩, fun _ => ?_⟩
      · rw [hr.cursor]
        exact h.cursor
      · rw [hchain]
        exact headOpen_cons [] hb
      · rw [hchain, hr.length]
        exact headOpen_cons [] hb
    | again st' =>
      -- the paragraph was all reference definitions; the line starts over with nothing open
      obtain ⟨hchain, hdone⟩ := replaced_top hfits h.done
      have hon : st'.cursor.On src := by rw [hfits.cursor]; exact h.cursor
      obtain ⟨r, st'', hr, hne, hcursor', hdone', more, hmore, hopen⟩ :=
        openBlocks_appends fuel hon (by rw [hchain, List.length_nil]) fun _ : true = true => rfl
      rw [hchain, List.nil_append] at hmore
      rw [hfits.cursor] at hcursor' hopen
      refine ⟨r, true, st'', hr, hcursor'.2, ⟨hcursor'.1, by rw [hdone']; exact hdone, ?_⟩,
        fun _ => ?_⟩
      · rw [hmore]
        exact hopen hf
      · rw [hmore, hfits.length]
        exact hopen hf

/-- A paragraph inside other blocks that was replaced. -/
theorem replaced_deep {st st' : BlockState} {depth : Nat} {extra : List OpenBlock}
    (h : Traced src bound st) (hpos : 0 < depth) (hr : Replaced st depth extra st') :
    Traced src bound st' ∧ (extra = [] → st'.chain.length = depth) := by
  obtain ⟨after, _, base, hbcursor, hbdone, hbchain, hdone', hchain'⟩ := hr.blocks
  have hlen := hr.length
  have hbase : Traced src bound base := by
    refine ⟨by rw [hbcursor]; exact h.cursor, by rw [hbdone]; exact h.done, ?_⟩
    rw [hbchain]
    intro b hb
    exact h.head b (by rw [List.head?_take, if_neg (by omega)] at hb; exact hb)
  have hadded : Traced src bound (base.addDrafts depth after) :=
    addDrafts_traced hbase fun h0 => absurd h0 (by omega)
  have hsize : (base.addDrafts depth after).chain.length = depth := by
    obtain ⟨d, rfl⟩ : ∃ d, depth = d + 1 := ⟨depth - 1, by omega⟩
    simp only [BlockState.addDrafts, List.length_modify, hbchain, List.length_take]
    omega
  refine ⟨⟨by rw [hr.cursor]; exact h.cursor, by rw [hdone']; exact hadded.done, ?_⟩, ?_⟩
  · rw [hchain']
    refine headOpen_append hadded.head fun hnil => ?_
    rw [hnil] at hsize
    exact absurd hsize (by simp; omega)
  · rintro rfl
    rw [hchain', List.append_nil, hsize]

/-- **Opening inside other blocks** does not touch the outermost one. -/
theorem openBlocks_deep (fuel : Nat) {depth : Nat} {blank continuable : Bool} {st : BlockState}
    (h : Traced src bound st) (hpos : 0 < depth) (hlt : depth < st.chain.length) :
    ∃ r taken st', openBlocks fuel depth blank true continuable false st = (r, taken, st') ∧
      st.cursor.row ≤ st'.cursor.row ∧ Traced src bound st' := by
  have hne : st.chain ≠ [] := by
    intro hnil
    rw [hnil] at hlt
    exact absurd hlt (by simp)
  cases fuel with
  | zero => exact ⟨_, _, st, rfl, Nat.le_refl _, h⟩
  | succ fuel =>
    obtain ⟨a, hfits, heq⟩ := openBlocks_round fuel depth blank true continuable false h.cursor
    rw [heq]
    cases a with
    | failed st' =>
      obtain ⟨hcursor, hdone, hchain⟩ := hfits
      have hsame : Traced src bound st' :=
        ⟨by rw [hcursor]; exact h.cursor, by rw [hdone]; exact h.done, by rw [hchain]; exact h.head⟩
      have hrow : st.cursor.row ≤ st'.cursor.row := Nat.le_of_eq (by rw [hcursor])
      simp only [Bool.not_true, Bool.false_eq_true, if_false]
      split
      next =>
        -- the paragraph that takes the line is the innermost block, not the outermost
        refine ⟨_, _, _, rfl, hrow, hsame.cursor, hsame.done, headOpen_modify hsame.head ?_⟩
        intro b h0
        rw [hchain] at h0
        omega
      next => exact ⟨_, _, st', rfl, hrow, hsame⟩
    | finished st' =>
      obtain ⟨hcursor, hdone, b, hchain, _⟩ := hfits
      refine ⟨_, _, st', rfl, hcursor.2, hcursor.1, by rw [hdone]; exact h.done, ?_⟩
      rw [hchain]
      exact headOpen_append h.head fun hnil => absurd hnil hne
    | inside st' depth' =>
      obtain ⟨hcursor, hdone, hlen, b, hchain, _⟩ := hfits
      obtain ⟨r, st'', hr, _, hcursor', hdone', more, hmore, _⟩ :=
        openBlocks_appends fuel hcursor.1 hlen fun h : false = true => absurd h (by simp)
      refine ⟨r, false, st'', hr, Nat.le_trans hcursor.2 hcursor'.2, hcursor'.1,
        by rw [hdone', hdone]; exact h.done, ?_⟩
      rw [hmore, hchain, List.append_assoc]
      exact headOpen_append h.head fun hnil => absurd hnil hne
    | underlined st' =>
      obtain ⟨b, _, hr⟩ := hfits
      exact ⟨_, _, st', rfl, Nat.le_of_eq (by rw [hr.cursor]), (replaced_deep h hpos hr).1⟩
    | again st' =>
      obtain ⟨htraced, hsize⟩ := replaced_deep h hpos hfits
      obtain ⟨r, st'', hr, _, hcursor', hdone', more, hmore, _⟩ :=
        openBlocks_appends fuel htraced.cursor (hsize rfl).symm fun _ : true = true => rfl
      rw [hfits.cursor] at hcursor'
      refine ⟨r, true, st'', hr, hcursor'.2, hcursor'.1, by rw [hdone']; exact htraced.done, ?_⟩
      rw [hmore]
      refine headOpen_append htraced.head fun hnil => ?_
      rw [hnil] at hsize
      exact absurd (hsize rfl) (by simp; omega)

/-! ## Continuing -/

/-- What an open block that is no paragraph does with a line: the cursor moves
on, and at most the block itself changes, into a block that is no paragraph. -/
structure Keeps (src : Text) (st : BlockState) (depth : Nat) (r : Continuation × BlockState) :
    Prop where
  cursor : r.2.cursor.On src ∧ st.cursor.row ≤ r.2.cursor.row
  done : r.2.done = st.done
  chain : r.2.chain = st.chain ∨
    ∃ f : OpenBlock → OpenBlock, r.2.chain = st.chain.modify depth f ∧
      ∀ b, st.chain[depth]? = some b → (f b).isParagraph = false
  fresh : st.cursor.AtStart → r.1 = .closes → r.2.cursor.Fresh

section Keeps

variable {st st' : BlockState} {depth : Nat} {state : Continuation}

/-- The line stays where it is. -/
theorem keeps_here (hon : st.cursor.On src) (hc : st'.cursor = st.cursor)
    (hd : st'.done = st.done) (hch : st'.chain = st.chain) : Keeps src st depth (state, st') := by
  refine ⟨by rw [hc]; exact ⟨hon, Nat.le_refl _⟩, hd, Or.inl hch, ?_⟩
  intro hs _
  rw [hc]
  exact fresh_of_atStart hs

/-- The marker of a container is taken off the line. -/
theorem keeps_moved {c : Cursor} (hc : c.On src ∧ st.cursor.row ≤ c.row) :
    Keeps src st depth (.container, { st with cursor := c }) :=
  ⟨hc, rfl, Or.inl rfl, fun _ h => absurd h (by simp)⟩

/-- The block takes the line. -/
theorem keeps_line {b : OpenBlock} (hon : st.cursor.On src) (hb : st.chain[depth]? = some b)
    (hp : b.isParagraph = false) (s : Segment) :
    Keeps src st depth (.leaf,
      { st with chain := st.chain.modify depth fun b => { b with lines := b.lines ++ [s] } }) := by
  refine ⟨⟨hon, Nat.le_refl _⟩, rfl, Or.inr ⟨_, rfl, ?_⟩, fun _ h => absurd h (by simp)⟩
  intro b' hb'
  rw [hb] at hb'
  obtain rfl := Option.some.inj hb'
  exact hp

end Keeps

/-- At the start of a line the text of the cursor is the line. -/
theorem text_of_atStart {c : Cursor} (h : c.AtStart) : c.text = c.rest ∧ c.rest = c.line := by
  have hrest : c.rest = c.line := by rw [Cursor.rest, h.1, List.drop_zero]
  refine ⟨?_, hrest⟩
  unfold Cursor.text Cursor.atEnd
  split
  next he => exact (List.isEmpty_iff.1 he).symm
  next => rw [h.2]; rfl

/-- A line that ends a block leaves blanks, or the next line. -/
theorem advance_fresh_of_atStart {c : Cursor} {n : Nat} (hon : c.On src) (hs : c.AtStart)
    (hn : n ≤ c.text.length) (hb : ∀ x ∈ c.text.drop n, isBlankAscii x = true) :
    (c.advance n).Fresh := by
  obtain ⟨htext, hrest⟩ := text_of_atStart hs
  rw [htext] at hn hb
  refine advance_fresh hs.2 hn ?_ hb
  intro front behind heq
  rw [hrest] at heq
  refine newline_last (getElem?_of_on hon ?_) heq
  rw [heq]
  simp

/-- What is left behind a trimmed text is blank. -/
theorem blank_of_mem_drop_trimRight {t : Text} {x : Char}
    (hx : x ∈ t.drop (trimRight isBlankAscii t).length) : isBlankAscii x = true := by
  obtain ⟨tail, htail, hblank⟩ := eq_trimRight_append isBlankAscii t
  have hdrop : t.drop (trimRight isBlankAscii t).length = tail := calc
    t.drop (trimRight isBlankAscii t).length
        = (trimRight isBlankAscii t ++ tail).drop (trimRight isBlankAscii t).length :=
          congrArg (List.drop _) htail
    _ = tail := List.drop_left
  exact hblank x (hdrop ▸ hx)

theorem length_trimRight_le (p : Char → Bool) (t : Text) : (trimRight p t).length ≤ t.length := by
  obtain ⟨tail, htail, _⟩ := eq_trimRight_append p t
  have := congrArg List.length htail
  rw [List.length_append] at this
  omega

/-- A block that a line ends, with the cursor moved on to where nothing but
blanks is left of the line. -/
theorem keeps_ended {st : BlockState} {depth n : Nat} {chain : List OpenBlock}
    (hon : st.cursor.On src)
    (hchain : chain = st.chain ∨ ∃ f : OpenBlock → OpenBlock, chain = st.chain.modify depth f ∧
      ∀ b, st.chain[depth]? = some b → (f b).isParagraph = false)
    (hn : n ≤ st.cursor.text.length)
    (hblank : ∀ x ∈ st.cursor.text.drop n, isBlankAscii x = true) :
    Keeps src st depth (.closes, { st with cursor := st.cursor.advance n, chain := chain }) :=
  ⟨advance_on n hon, rfl, hchain, fun hs _ => advance_fresh_of_atStart hon hs hn hblank⟩

theorem continueBlock_keeps {st : BlockState} {depth : Nat} {b : OpenBlock} (hon : st.cursor.On src)
    (hb : st.chain[depth]? = some b) (hp : b.isParagraph = false) :
    Keeps src st depth (continueBlock st depth b) := by
  have line := keeps_line hon hb hp
  unfold continueBlock
  simp only
  split
  next =>
    split
    next c hc => exact keeps_moved (quoteLine?_on hon hc)
    next => exact keeps_here hon rfl rfl rfl
  next =>
    (repeat' split) <;> exact keeps_here hon rfl rfl rfl
  next =>
    (repeat' split) <;> first
      | exact keeps_here hon rfl rfl rfl
      | exact keeps_moved (advance_on _ hon)
  next =>
    split
    next => exact line _
    next =>
      split
      next => exact line _
      next => exact keeps_here hon rfl rfl rfl
  next =>
    split
    next =>
      -- the closing fence: what is left is its newline, if it has one
      refine keeps_ended hon (Or.inl rfl) (Nat.sub_le ..) ?_
      intro x hx
      split at hx
      next hlast =>
        obtain ⟨t, ht⟩ := List.getLast?_eq_some_iff.1 hlast
        rw [ht] at hx
        obtain rfl : x = '\n' := by simpa using hx
        decide
      next =>
        rw [Nat.sub_zero, List.drop_length] at hx
        exact absurd hx (by simp)
    next => exact line _
  next kind closure _ =>
    have ended : ∀ n : Nat, n ≤ st.cursor.text.length →
        (∀ x ∈ st.cursor.text.drop n, isBlankAscii x = true) →
        Keeps src st depth (.closes,
          { st with
            cursor := st.cursor.advance n
            chain := st.chain.modify depth fun b =>
              { b with shape := .html kind (some st.cursor.segment) } }) := by
      intro n hn hblank
      exact keeps_ended hon (Or.inr ⟨_, rfl, fun _ _ => rfl⟩) hn hblank
    have whole : ∀ x ∈ st.cursor.text.drop st.cursor.text.length, isBlankAscii x = true := by
      rw [List.drop_length]
      simp
    (repeat' split) <;> first
      | exact keeps_here hon rfl rfl rfl
      | exact line _
      | exact ended _ (length_trimRight_le _ _) fun _ => blank_of_mem_drop_trimRight
      | exact ended _ (Nat.le_refl _) whole
  next => exact keeps_here hon rfl rfl rfl

/-- The invariant behind a block that was asked, and the chain it leaves. -/
theorem keeps_traced {st : BlockState} {depth : Nat} {b : OpenBlock} {r : Continuation × BlockState}
    (hk : Keeps src st depth r) (h : Traced src bound st) (hb : st.chain[depth]? = some b) :
    Traced src bound r.2 ∧ r.2.chain.length = st.chain.length ∧
      (b.isParagraph = false → ∃ b', r.2.chain[depth]? = some b' ∧ b'.isParagraph = false) := by
  rcases hk.chain with hsame | ⟨f, hmod, hf⟩
  · refine ⟨⟨hk.cursor.1, by rw [hk.done]; exact h.done, by rw [hsame]; exact h.head⟩,
      by rw [hsame], fun hp => ⟨b, by rw [hsame]; exact hb, hp⟩⟩
  · refine ⟨⟨hk.cursor.1, by rw [hk.done]; exact h.done, ?_⟩, by rw [hmod, List.length_modify],
      fun _ => ⟨f b, ?_, hf b hb⟩⟩
    · rw [hmod]
      refine headOpen_modify h.head ?_
      rintro b' rfl hb' hp
      rw [hf b' (by rw [← hb', List.head?_eq_getElem?])] at hp
      exact absurd hp (by simp)
    · rw [hmod, List.getElem?_modify_eq, hb]
      rfl

theorem cursor_addDrafts (st : BlockState) (depth : Nat) (ds : List Draft) :
    (st.addDrafts depth ds).cursor = st.cursor := by
  unfold BlockState.addDrafts
  split <;> rfl

theorem cursor_closeBlocks (st : BlockState) (depth count : Nat) :
    (st.closeBlocks depth count).cursor = st.cursor := cursor_addDrafts ..

/-! ## Lines -/

/-- The invariant at the end of a line: what was added to the outermost block
comes from the line under the cursor or from above. -/
def LineEnd (src : Text) (st : BlockState) : Prop := Traced src (st.cursor.row + 1) st

theorem lineEnd_of_traced {st : BlockState} (h : Traced src bound st)
    (hle : bound ≤ st.cursor.row + 1) : LineEnd src st :=
  ⟨h.cursor, h.done, headOpen_mono h.head hle⟩

/-- A line that the block at `depth` does not take opens others in its place. -/
theorem closes_lineEnd {st : BlockState} {depth : Nat} {blank : Bool} (h : Traced src bound st)
    (hbound : bound ≤ st.cursor.row) (hf : depth = 0 → st.cursor.Fresh)
    (hlt : depth < st.chain.length) :
    LineEnd src
      (match st.openOnLine depth blank with
      | (.continued, _, st') => st'
      | (_, taken, st') => st'.closeBlocks depth
          (if taken then st.chain.length - depth - 1 else st.chain.length - depth)) := by
  unfold BlockState.openOnLine
  -- only at depth zero can the outermost block be closed or replaced
  rcases Nat.eq_zero_or_pos depth with rfl | hpos
  · obtain ⟨r, taken, st', heq, hrow, htraced, hopen⟩ := openBlocks_top _ h hbound (hf rfl)
    rw [heq]
    have closed : r ≠ .continued → LineEnd src (st'.closeBlocks 0
        (if taken then st.chain.length - 0 - 1 else st.chain.length - 0)) := by
      intro hne
      refine lineEnd_of_traced (closeBlocks_traced htraced fun _ => ?_) ?_
      · simpa using hopen hne
      · rw [cursor_closeBlocks]
        omega
    have hend : LineEnd src st' := lineEnd_of_traced htraced (by omega)
    cases r with
    | continued => exact hend
    | opened => exact closed (by simp)
    | nothing => exact closed (by simp)
  · obtain ⟨r, taken, st', heq, hrow, htraced⟩ := openBlocks_deep _ h hpos hlt
    rw [heq]
    have closed : ∀ count, LineEnd src (st'.closeBlocks depth count) := by
      intro count
      refine lineEnd_of_traced (closeBlocks_traced htraced fun h0 => absurd h0 (by omega)) ?_
      rw [cursor_closeBlocks]
      omega
    have hend : LineEnd src st' := lineEnd_of_traced htraced (by omega)
    cases r with
    | continued => exact hend
    | opened => exact closed _
    | nothing => exact closed _

/-- A paragraph refuses every line; any other block is asked. -/
theorem asked_keeps {st : BlockState} {depth : Nat} {b : OpenBlock} (hon : st.cursor.On src)
    (hb : st.chain[depth]? = some b) :
    Keeps src st depth (if b.isParagraph then (.closes, st) else continueBlock st depth b) := by
  split
  next => exact keeps_here hon rfl rfl rfl
  next hp => exact continueBlock_keeps hon hb (by simpa using hp)

/-- What follows from the answer of a block, when the blocks inside it lead
the line on. -/
theorem asked_lineEnd {st : BlockState} {depth : Nat} {b : OpenBlock}
    {r : Continuation × BlockState}
    {inner : BlockState → BlockState} {above closing : Bool} {count : Nat}
    (hk : Keeps src st depth r) (h : Traced src bound st) (hbound : bound ≤ st.cursor.row)
    (hstart : depth = 0 → st.cursor.AtStart) (hb : st.chain[depth]? = some b)
    (hcount : st.chain.length = count) (hp : r.1 = .container → b.isParagraph = false)
    (hinner : ∀ st', Traced src bound st' → bound ≤ st'.cursor.row → LineEnd src (inner st')) :
    LineEnd src
      (match r.1 with
      | .leaf => inner r.2
      | .container =>
        if depth + 1 = count then (r.2.openOnLine (depth + 1) above).2.2 else inner r.2
      | .closes =>
        match r.2.openOnLine depth closing with
        | (.continued, _, st') => st'
        | (_, taken, st') => st'.closeBlocks depth
            (if taken then count - depth - 1 else count - depth)) := by
  subst hcount
  obtain ⟨htraced, hlen, hblock⟩ := keeps_traced hk h hb
  have hbound' : bound ≤ r.2.cursor.row := Nat.le_trans hbound hk.cursor.2
  split
  next => exact hinner r.2 htraced hbound'
  next hcont =>
    split
    next hlast =>
      -- the innermost block is a container, so there is no paragraph to continue
      obtain ⟨b', hb', hp'⟩ := hblock (hp hcont)
      have hnone : ((r.2.last?.map (·.isParagraph)).getD false) = false := by
        have : r.2.last? = some b' := by
          rw [BlockState.last?, List.getLast?_eq_getElem?, hlen, ← hlast]
          exact hb'
        rw [this]
        exact hp'
      obtain ⟨res, st', heq, _, hcursor, hdone, more, hmore, _⟩ :=
        openBlocks_appends (2 * r.2.cursor.text.length + 4) htraced.cursor (hlast.trans hlen.symm)
          fun _ : true = true => hnone
      unfold BlockState.openOnLine
      rw [heq]
      refine lineEnd_of_traced ⟨hcursor.1, by rw [hdone]; exact htraced.done, ?_⟩
        (Nat.le_succ_of_le (Nat.le_trans hbound' hcursor.2))
      rw [hmore]
      refine headOpen_append htraced.head fun hnil => ?_
      rw [hnil] at hb'
      exact absurd hb' (by simp)
    next => exact hinner r.2 htraced hbound'
  next hclose =>
    have hlt : depth < r.2.chain.length := by
      rw [hlen]
      exact (List.getElem?_eq_some_iff.1 hb).1
    rw [← hlen]
    exact closes_lineEnd htraced hbound' (fun h0 => hk.fresh (hstart h0) hclose) hlt

/-- **A line goes through the chain.** -/
theorem walkChain_lineEnd (fuel : Nat) {depth : Nat} {st : BlockState} (h : Traced src bound st)
    (hbound : bound ≤ st.cursor.row) (hstart : depth = 0 → st.cursor.AtStart) :
    LineEnd src (walkChain fuel depth st) := by
  induction fuel generalizing depth st with
  | zero => exact lineEnd_of_traced h (by rw [walkChain]; omega)
  | succ fuel ih =>
    unfold walkChain
    split
    next => exact lineEnd_of_traced h (by omega)
    next b hb =>
      split
      next =>
        refine lineEnd_of_traced (closeBlocks_traced h fun _ => ?_) ?_
        · rw [List.drop_length]
          exact headOpen_nil
        · rw [cursor_closeBlocks]
          omega
      next =>
        have hseen : Traced src bound
            { st with
              sightings := ⟨st.cursor.row, depth, isBlank st.cursor.text⟩ :: st.sightings } :=
          ⟨h.cursor, h.done, h.head⟩
        simp only
        refine asked_lineEnd (asked_keeps hseen.cursor hb) hseen hbound hstart hb rfl ?_ ?_
        · intro hcont
          split at hcont
          next => exact absurd hcont (by simp)
          next hp => simpa using hp
        · -- one level deeper the cursor need no longer be at the start of its line
          intro st' htraced hle
          exact ih htraced hle fun h0 => absurd h0 (by simp)

/-- The invariant between two lines. -/
structure LineStart (src : Text) (st : BlockState) : Prop where
  traced : Traced src st.cursor.row st
  start : st.cursor.AtStart

theorem lineStart_nextLine {st : BlockState} (h : LineEnd src st) :
    LineStart src { st with cursor := st.cursor.nextLine } := by
  refine ⟨⟨on_nextLine h.cursor, h.done, ?_⟩, atStart_nextLine _⟩
  show HeadOpen src st.cursor.nextLine.row st.chain
  rw [row_nextLine]
  exact h.head

/-- A line on which no block is open. -/
theorem openOnLine_lineEnd {st : BlockState} {blank : Bool} (h : Traced src bound st)
    (hchain : st.chain = []) (hf : st.cursor.Fresh) :
    LineEnd src (st.openOnLine 0 blank).2.2 := by
  have hnone : ((st.last?.map (·.isParagraph)).getD false) = false := by
    rw [BlockState.last?, hchain]
    rfl
  obtain ⟨r, st', heq, _, hcursor, hdone, more, hmore, hopen⟩ :=
    openBlocks_appends (2 * st.cursor.text.length + 4) h.cursor
      (show 0 = st.chain.length by rw [hchain, List.length_nil]) fun _ : true = true => hnone
  unfold BlockState.openOnLine
  rw [heq]
  refine lineEnd_of_traced ⟨hcursor.1, by rw [hdone]; exact h.done, ?_⟩ (Nat.succ_le_succ hcursor.2)
  rw [hmore, hchain]
  exact hopen hf

/-- **A step leads from one line to the next.** -/
theorem stepLine_lineStart {st : BlockState} (h : LineStart src st) :
    LineStart src (stepLine st) := by
  unfold stepLine
  split
  next hempty =>
    have hchain : st.chain = [] := List.isEmpty_iff.1 hempty
    have hhead : HeadOpen src 0 st.chain := by
      rw [hchain]
      exact headOpen_nil
    obtain ⟨hon, _, hstart⟩ := skipBlankLines_on h.traced.cursor h.start
    simp only
    split
    next => exact ⟨⟨hon, h.traced.done, headOpen_mono hhead (Nat.zero_le _)⟩, hstart⟩
    next =>
      exact lineStart_nextLine
        (openOnLine_lineEnd ⟨hon, h.traced.done, hhead⟩ hchain (fresh_of_atStart hstart))
  next =>
    exact lineStart_nextLine (walkChain_lineEnd _ h.traced (Nat.le_refl _) fun _ => h.start)

theorem runLines_lineStart (n : Nat) {st : BlockState} (h : LineStart src st) :
    LineStart src (runLines n st) := by
  induction n generalizing st with
  | zero => exact h
  | succ n ih =>
    unfold runLines
    split
    next => exact h
    next => exact ih (stepLine_lineStart h)

theorem draftBlocks_sourced (src : Text) : ∀ d ∈ (draftBlocks src).1, d.Sourced src := by
  have hinit : LineStart src ⟨Cursor.ofText src, [], [], [], [], false, false⟩ :=
    ⟨⟨on_ofText src, by simp, headOpen_nil⟩, atStart_ofText src⟩
  exact (runLines_lineStart _ hinit).traced.done

/-! ## Documents -/

theorem value_of_cut {s : Segment} (h : s.Cut src) : s.value = s.text := by
  unfold Segment.value
  rw [h.plain.1, h.plain.2]
  rfl

theorem toBlock_paragraph {refs : List Reference} {d : Draft} {lines : List SourceLine}
    {content : List Inline} (h : Draft.toBlock refs d = .paragraph lines content) :
    d.shape = .paragraph ∧ lines = sourceLines d.lines := by
  obtain ⟨shape, blank, segments, children⟩ := d
  cases shape with
  | paragraph =>
    rw [Draft.toBlock] at h
    exact ⟨rfl, (Block.paragraph.inj h).1.symm⟩
  | table => cases children <;> exact absurd h (by simp [Draft.toBlock])
  | _ => exact absurd h (by simp [Draft.toBlock])

theorem mem_toBlocks {refs : List Reference} {ds : List Draft} {b : Block}
    (h : b ∈ Draft.toBlocks refs ds) : ∃ d ∈ ds, b = Draft.toBlock refs d := by
  induction ds with
  | nil => exact absurd h (by simp [Draft.toBlocks])
  | cons d ds ih =>
    rw [Draft.toBlocks] at h
    rcases List.mem_cons.1 h with rfl | h
    · exact ⟨d, List.mem_cons_self .., rfl⟩
    · obtain ⟨d', hd', rfl⟩ := ih h
      exact ⟨d', List.mem_cons_of_mem _ hd', rfl⟩

/-- **Where a paragraph starts.** The first line of a top-level paragraph has
the number of a line of the source, and its text is that of the line from the
first character on that is no blank; behind it only blanks are missing. -/
theorem parse_paragraph {lines : List SourceLine} {content : List Inline}
    (h : Block.paragraph lines content ∈ parse src) :
    ∃ row front text behind rest, lines = ⟨row + 1, text⟩ :: rest ∧
      (linesWithEnds src)[row]? = some (front ++ text ++ behind) ∧
      (∀ x ∈ front, isBlankAscii x = true) ∧ (∀ x ∈ behind, isBlankAscii x = true) ∧
      ∃ c t, text = c :: t ∧ isBlankAscii c = false := by
  obtain ⟨d, hd, heq⟩ := mem_toBlocks h
  obtain ⟨hshape, rfl⟩ := toBlock_paragraph heq.symm
  obtain ⟨s, rest, hlines, hcut⟩ := draftBlocks_sourced src d hd hshape
  obtain ⟨front, behind, hline, hfront, hbehind⟩ := hcut.line
  refine ⟨s.row, front, s.text, behind, sourceLines rest, ?_, hline, hfront, hbehind, hcut.visible⟩
  rw [hlines, sourceLines, List.map_cons, Segment.toSourceLine, value_of_cut hcut]
  rfl

end Docweave.Markdown

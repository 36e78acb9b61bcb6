import Docweave.Proofs.Nesting

/-!
# What a token stream spells

Opening and closing tokens match like brackets, so a stream spells a forest: a token of a
pair starts or ends an element, every other token is a leaf. `Spells` is this reading. It
asks more of a pair than the scan of the elements that are open: both tokens have the same
element, tag and level. No stream spells two forests (`Spells.unique`), so which tokens
are partners, and in which element a token stands, is a matter of the stream alone.

The levels of a stream count the elements around a token; the runs of a text are all at
level zero. The reading covers both: `deeper` is how much the level grows in an element.

The forest of a document is its tree (`Shape.ofBlocks`). A block is an element, and the
text of a block is the one leaf in it. The text of a tight list item has no element of its
own and stands in the item; a text block at the top of a document, which a paragraph of
link definitions leaves behind, stands in no block. A table gets a head, a body and rows.
A node of any other kind would be passed through: its children would stand in its place.

> `spells_ofBlocks`: the stream of blocks spells their tree.

> `spells_ofInlines`: so do the runs of a text.

> `level_eq_length_around`: in a well-nested stream the level of a token is the number of
> elements around it.
-/

namespace Docweave

open Markdown (Block Inline Cell SourceLine Document)

/-! ## Forests -/

/-- What tokens spell. -/
inductive Shape
  /-- A token without a partner, with its text and its runs. -/
  | leaf (kind : TokenKind) (content : Text) (children : List Token)
  | element (e : Element) (inside : List Shape)

/-- The tokens, at level `n`, spell the shapes. -/
inductive Spells (deeper : Nat) : Nat → List Token → List Shape → Prop
  | nil {n : Nat} : Spells deeper n [] []
  | leaf {n : Nat} {t : Token} {behind : List Token} {ss : List Shape} :
      t.level = n → (∀ e, t.kind ≠ .opens e) → (∀ e, t.kind ≠ .closes e) →
      Spells deeper n behind ss →
      Spells deeper n (t :: behind) (.leaf t.kind t.content t.children :: ss)
  | element {n : Nat} {o c : Token} {e : Element} {inside behind : List Token}
      {is ss : List Shape} :
      o.kind = .opens e → c.kind = .closes e → c.tag = o.tag → o.level = n → c.level = n →
      Spells deeper (n + deeper) inside is → Spells deeper n behind ss →
      Spells deeper n (o :: (inside ++ c :: behind)) (.element e is :: ss)

namespace Spells

variable {deeper n : Nat} {xs ys : List Token} {ss tt : List Shape}

theorem append (h : Spells deeper n xs ss) (h' : Spells deeper n ys tt) :
    Spells deeper n (xs ++ ys) (ss ++ tt) := by
  induction h with
  | nil => exact h'
  | leaf hlevel hopens hcloses _ ih => exact .leaf hlevel hopens hcloses (ih h')
  | element ho hc htag hol hcl hinside _ _ ih =>
    rw [List.cons_append, List.append_assoc, List.cons_append, List.cons_append]
    exact .element ho hc htag hol hcl hinside (ih h')

/-- One token that is not of a pair. -/
theorem single {t : Token} (hlevel : t.level = n) (hopens : ∀ e, t.kind ≠ .opens e)
    (hcloses : ∀ e, t.kind ≠ .closes e) :
    Spells deeper n [t] [.leaf t.kind t.content t.children] :=
  .leaf hlevel hopens hcloses .nil

/-- One pair with what stands between its tokens. -/
theorem pair {o c : Token} {e : Element} (ho : o.kind = .opens e) (hc : c.kind = .closes e)
    (htag : c.tag = o.tag) (hol : o.level = n) (hcl : c.level = n)
    (hinside : Spells deeper (n + deeper) xs ss) :
    Spells deeper n ([o] ++ xs ++ [c]) [.element e ss] :=
  .element ho hc htag hol hcl hinside .nil

theorem flatMap {α : Type} {f : α → List Token} {g : α → Shape} {l : List α}
    (h : ∀ a ∈ l, Spells deeper n (f a) [g a]) : Spells deeper n (l.flatMap f) (l.map g) := by
  induction l with
  | nil => exact .nil
  | cons a l ih =>
    exact (h a (List.mem_cons_self ..)).append (ih fun b hb => h b (List.mem_cons_of_mem _ hb))

/-- Two readings of a stream in front of a closing token end at the same one. -/
theorem cut {c c' : Token} {e e' : Element} {r r' : List Token} (h : Spells deeper n xs ss)
    (h' : Spells deeper n ys tt) (hc : c.kind = .closes e) (hc' : c'.kind = .closes e')
    (heq : xs ++ c :: r = ys ++ c' :: r') : ss = tt ∧ r = r' := by
  induction h generalizing ys tt c c' e e' r r' with
  | nil =>
    cases h' with
    | nil => exact ⟨rfl, (List.cons.inj heq).2⟩
    | leaf _ _ hcloses _ => exact absurd ((List.cons.inj heq).1 ▸ hc) (hcloses e)
    | element ho =>
      rw [(List.cons.inj heq).1, ho] at hc
      exact absurd hc (by simp)
  | leaf _ hopens hcloses _ ih =>
    cases h' with
    | nil => exact absurd ((List.cons.inj heq).1 ▸ hc') (hcloses e')
    | leaf _ _ _ hbehind =>
      obtain ⟨rfl, htail⟩ := List.cons.inj heq
      obtain ⟨rfl, hrest⟩ := ih hbehind hc hc' htail
      exact ⟨rfl, hrest⟩
    | element ho => exact absurd ((List.cons.inj heq).1 ▸ ho) (hopens _)
  | element ho hclose _ _ _ _ _ ihinside ihbehind =>
    cases h' with
    | nil =>
      rw [← (List.cons.inj heq).1, ho] at hc'
      exact absurd hc' (by simp)
    | leaf _ hopens _ _ => exact absurd ((List.cons.inj heq).1 ▸ ho) (hopens _)
    | element ho' hclose' _ _ _ hinside' hbehind' =>
      simp only [List.cons_append, List.append_assoc, List.cons.injEq] at heq
      obtain ⟨rfl, htail⟩ := heq
      obtain rfl := TokenKind.opens.inj (ho.symm.trans ho')
      -- the partners first, then what stands behind them
      obtain ⟨rfl, hlater⟩ := ihinside hinside' hclose hclose' htail
      obtain ⟨rfl, hrest⟩ := ihbehind hbehind' hc hc' hlater
      exact ⟨rfl, hrest⟩

/-- A stream spells one forest only. -/
theorem unique (h : Spells deeper n xs ss) (h' : Spells deeper n xs tt) : ss = tt :=
  (h.cut h' (rfl : ({ kind := .closes .paragraph } : Token).kind = _) rfl
    (rfl : xs ++ [_] = xs ++ [_])).1

theorem iff_eq (h : Spells deeper n xs ss) : Spells deeper n xs tt ↔ tt = ss :=
  ⟨fun h' => h'.unique h, fun heq => heq ▸ h⟩

end Spells

/-! ## Runs -/

mutual

/-- The shapes of a piece of inline content. -/
def Shape.ofInline : Inline → List Shape
  | .text content ending =>
    .leaf .text (unescapeText content) [] ::
      match ending with
      | .none => []
      | .soft => [.leaf .softbreak [] []]
      | .hard => [.leaf .hardbreak [] []]
  | .code content => [.leaf .codeInline content []]
  | .emphasis strong children => [.element (if strong then .strong else .em) (Shape.ofInlines children)]
  | .strikethrough children => [.element .s (Shape.ofInlines children)]
  | .link _ _ children => [.element .link (Shape.ofInlines children)]
  | .image _ _ _ => [.leaf .image [] []]
  | .autolink url _ => [.element .link [.leaf .text url []]]
  | .html content => [.leaf .htmlInline content []]

/-- The shapes of inline content. -/
def Shape.ofInlines : List Inline → List Shape
  | [] => []
  | i :: is => Shape.ofInline i ++ Shape.ofInlines is

end

mutual

theorem spells_ofInline : ∀ i : Inline, Spells 0 0 (Token.ofInline i) (Shape.ofInline i)
  | .text content ending => by
    unfold Token.ofInline Shape.ofInline
    refine .leaf rfl (fun _ => by simp) (fun _ => by simp) ?_
    cases ending with
    | none => exact .nil
    | soft => exact .single rfl (fun _ => by simp) (fun _ => by simp)
    | hard => exact .single rfl (fun _ => by simp) (fun _ => by simp)
  | .code content => by
    rw [Token.ofInline, Shape.ofInline]
    exact .single rfl (fun _ => by simp) (fun _ => by simp)
  | .emphasis true children => by
    rw [Token.ofInline, Shape.ofInline]
    exact .pair rfl rfl rfl rfl rfl (spells_ofInlines children)
  | .emphasis false children => by
    rw [Token.ofInline, Shape.ofInline]
    exact .pair rfl rfl rfl rfl rfl (spells_ofInlines children)
  | .strikethrough children => by
    rw [Token.ofInline, Shape.ofInline]
    exact .pair rfl rfl rfl rfl rfl (spells_ofInlines children)
  | .link _ _ children => by
    rw [Token.ofInline, Shape.ofInline]
    exact .pair rfl rfl rfl rfl rfl (spells_ofInlines children)
  | .image _ _ _ => by
    rw [Token.ofInline, Shape.ofInline]
    exact .single rfl (fun _ => by simp) (fun _ => by simp)
  | .autolink _ _ => by
    rw [Token.ofInline, Shape.ofInline]
    show Spells 0 0 ([_] ++ [_] ++ [_]) _
    exact .pair rfl rfl rfl rfl rfl (.single rfl (fun _ => by simp) (fun _ => by simp))
  | .html _ => by
    rw [Token.ofInline, Shape.ofInline]
    exact .single rfl (fun _ => by simp) (fun _ => by simp)

/-- The runs of a text match like brackets. -/
theorem spells_ofInlines : ∀ is : List Inline, Spells 0 0 (Token.ofInlines is) (Shape.ofInlines is)
  | [] => by
    rw [Token.ofInlines, Shape.ofInlines]
    exact .nil
  | i :: is => by
    rw [Token.ofInlines, Shape.ofInlines]
    exact (spells_ofInline i).append (spells_ofInlines is)

end

/-! ## Blocks -/

/-- The shape of a block's text. -/
def Shape.ofText (lines : List SourceLine) (content : List Inline) : Shape :=
  .leaf .inline (inlineToken lines content 0).content (Token.ofInlines content)

/-- The shape of a row of cells. -/
def Shape.ofRow (cell : Element) (cells : List Cell) : Shape :=
  .element .tr (cells.map fun c => .element cell [Shape.ofText c.lines c.content])

/-- The shape of a table. A table without rows has no body. -/
def Shape.ofTable (header : List Cell) (rows : List (List Cell)) : Shape :=
  .element .table (.element .thead [Shape.ofRow .th header] ::
    match rows with
    | [] => []
    | _ :: _ => [.element .tbody (rows.map (Shape.ofRow .td))])

mutual

/-- The shape of a block. -/
def Shape.ofBlock : Block → Shape
  | .heading _ lines content => .element .heading [Shape.ofText lines content]
  | .paragraph lines content => .element .paragraph [Shape.ofText lines content]
  | .textBlock lines content => Shape.ofText lines content
  | .quote children => .element .blockquote (Shape.ofBlocks children)
  | .list (some _) items => .element .orderedList (Shape.ofBlocks items)
  | .list none items => .element .bulletList (Shape.ofBlocks items)
  | .item children => .element .listItem (Shape.ofBlocks children)
  | .fencedCode _ lines => .leaf .fence (linesText lines) []
  | .code lines => .leaf .codeBlock (linesText lines) []
  | .html lines closure => .leaf .htmlBlock (linesText lines ++ closure) []
  | .thematicBreak => .leaf .hr [] []
  | .table header rows => Shape.ofTable header rows

/-- The shapes of blocks. -/
def Shape.ofBlocks : List Block → List Shape
  | [] => []
  | b :: bs => Shape.ofBlock b :: Shape.ofBlocks bs

end

section
variable {n : Nat}

theorem spells_inlineToken (lines : List SourceLine) (content : List Inline) :
    Spells 1 n [inlineToken lines content n] [Shape.ofText lines content] :=
  .single rfl (fun _ => by simp [inlineToken]) (fun _ => by simp [inlineToken])

theorem spells_wrapTokens {e : Element} {tag : Text} {line : Nat} {attrs : List (Text × Text)}
    {content : List Token} {ss : List Shape} (h : Spells 1 (n + 1) content ss) :
    Spells 1 n (wrapTokens e tag line n attrs content) [.element e ss] :=
  .pair rfl rfl rfl rfl rfl h

theorem spells_row (cell : Element) (cells : List Cell) :
    Spells 1 n (wrapTokens .tr "tr" (firstCellLine cells) n [] (cellTokens cell (n + 1) cells))
      [Shape.ofRow cell cells] :=
  spells_wrapTokens (.flatMap fun c _ => spells_wrapTokens (spells_inlineToken c.lines c.content))

theorem spells_tableTokens (header : List Cell) (rows : List (List Cell)) :
    Spells 1 n (tableTokens n header rows) [Shape.ofTable header rows] := by
  refine spells_wrapTokens (Spells.append (spells_wrapTokens (spells_row .th header)) ?_)
  cases rows with
  | nil => exact .nil
  | cons first rest => exact spells_wrapTokens (.flatMap fun cells _ => spells_row .td cells)

end

mutual

theorem spells_ofBlock (n : Nat) : ∀ b : Block, Spells 1 n (Token.ofBlock n b) [Shape.ofBlock b]
  | .heading _ lines content => by
    rw [Token.ofBlock, Shape.ofBlock]
    exact spells_wrapTokens (spells_inlineToken lines content)
  | .paragraph lines content => by
    rw [Token.ofBlock, Shape.ofBlock]
    exact spells_wrapTokens (spells_inlineToken lines content)
  | .textBlock lines content => by
    rw [Token.ofBlock, Shape.ofBlock]
    exact spells_inlineToken lines content
  | .quote children => by
    rw [Token.ofBlock, Shape.ofBlock]
    exact spells_wrapTokens (spells_ofBlocks (n + 1) children)
  | .list (some _) items => by
    rw [Token.ofBlock, Shape.ofBlock]
    exact spells_wrapTokens (spells_ofBlocks (n + 1) items)
  | .list none items => by
    rw [Token.ofBlock, Shape.ofBlock]
    exact spells_wrapTokens (spells_ofBlocks (n + 1) items)
  | .item children => by
    rw [Token.ofBlock, Shape.ofBlock]
    exact spells_wrapTokens (spells_ofBlocks (n + 1) children)
  | .fencedCode _ _ => by
    rw [Token.ofBlock, Shape.ofBlock]
    exact .single rfl (fun _ => by simp) (fun _ => by simp)
  | .code _ => by
    rw [Token.ofBlock, Shape.ofBlock]
    exact .single rfl (fun _ => by simp) (fun _ => by simp)
  | .html _ _ => by
    rw [Token.ofBlock, Shape.ofBlock]
    exact .single rfl (fun _ => by simp) (fun _ => by simp)
  | .thematicBreak => by
    rw [Token.ofBlock, Shape.ofBlock]
    exact .single rfl (fun _ => by simp) (fun _ => by simp)
  | .table header rows => by
    rw [Token.ofBlock, Shape.ofBlock]
    exact spells_tableTokens header rows

/-- The stream of blocks spells their tree. -/
theorem spells_ofBlocks (n : Nat) :
    ∀ bs : List Block, Spells 1 n (Token.ofBlocks n bs) (Shape.ofBlocks bs)
  | [] => by
    rw [Token.ofBlocks, Shape.ofBlocks]
    exact .nil
  | b :: bs => by
    rw [Token.ofBlocks, Shape.ofBlocks]
    exact (spells_ofBlock n b).append (spells_ofBlocks n bs)

end

/-! ## Levels -/

/-- The elements open behind a token, innermost first. -/
def openStep (opened : List Element) (t : Token) : List Element :=
  match t.kind with
  | .opens e => e :: opened
  | .closes _ => opened.tail
  | _ => opened

/-- The elements open behind a stream. -/
def openBehind (ts : List Token) : List Element := ts.foldl openStep []

/-- The elements around a token behind a stream. A closing token is not in its own element. -/
def elementsAround (front : List Token) (t : Token) : List Element :=
  match t.kind with
  | .closes _ => (openBehind front).tail
  | _ => openBehind front

theorem openStep_of_nestStep {opened st : List Element} {t : Token}
    (h : nestStep opened t = some st) : openStep opened t = st := by
  unfold openStep
  rcases nestStep_cases h with ⟨e, hk, _, rfl⟩ | ⟨e, hk, _, rfl⟩ | ⟨hopens, hcloses, _, rfl⟩
  · rw [hk]
  · rw [hk, List.tail_cons]
  · split
    next e hk => exact absurd hk (hopens e)
    next e hk => exact absurd hk (hcloses e)
    next => rfl

theorem foldl_openStep_of_nestScan {opened st : List Element} {ts : List Token}
    (h : nestScan opened ts = some st) : ts.foldl openStep opened = st := by
  induction ts generalizing opened with
  | nil => exact Option.some.inj h
  | cons t ts ih =>
    obtain ⟨mid, hstep, hrest⟩ := nestScan_cons_some h
    rw [List.foldl_cons, openStep_of_nestStep hstep]
    exact ih hrest

/-- The level of a token is the number of elements around it. -/
theorem level_eq_length_around {front behind : List Token} {t : Token}
    (h : WellNested (front ++ t :: behind)) : t.level = (elementsAround front t).length := by
  obtain ⟨opened, hfront, hrest⟩ := nestScan_append_some h
  obtain ⟨st, hstep, _⟩ := nestScan_cons_some hrest
  rw [elementsAround, openBehind, foldl_openStep_of_nestScan hfront]
  rcases nestStep_cases hstep with ⟨e, hk, hlevel, _⟩ | ⟨e, hk, hlevel, rfl⟩ | ⟨_, hcloses, hlevel, _⟩
  · rw [hk, hlevel]
  · rw [hk, hlevel, List.tail_cons]
  · split
    next e hk => exact absurd hk (hcloses e)
    next => exact hlevel

/-! ## Where runs come from -/

/-- The runs of the token are those of some inline content. -/
def Token.HasRuns (t : Token) : Prop := ∃ content, t.children = Token.ofInlines content

theorem Token.hasRuns_of_nil {t : Token} (h : t.children = []) : t.HasRuns :=
  ⟨[], by rw [h, Token.ofInlines]⟩

theorem Token.hasRuns_inlineToken (lines : List SourceLine) (content : List Inline) (n : Nat) :
    ∀ t ∈ [inlineToken lines content n], t.HasRuns := by
  intro t ht
  rw [List.mem_singleton.1 ht]
  exact ⟨content, rfl⟩

theorem Token.hasRuns_single {u : Token} (h : u.children = []) : ∀ t ∈ [u], t.HasRuns := by
  intro t ht
  rw [List.mem_singleton.1 ht]
  exact hasRuns_of_nil h

theorem Token.hasRuns_wrapTokens {e : Element} {tag : Text} {line n : Nat}
    {attrs : List (Text × Text)} {content : List Token} (h : ∀ t ∈ content, t.HasRuns) :
    ∀ t ∈ wrapTokens e tag line n attrs content, t.HasRuns := by
  intro t ht
  rw [wrapTokens, List.cons_append, List.mem_cons, List.mem_append, List.mem_singleton] at ht
  rcases ht with rfl | ht | rfl
  · exact hasRuns_of_nil rfl
  · exact h t ht
  · exact hasRuns_of_nil rfl

theorem Token.hasRuns_row (cell : Element) (n line : Nat) (cells : List Cell) :
    ∀ t ∈ wrapTokens .tr "tr" line n [] (cellTokens cell (n + 1) cells), t.HasRuns := by
  refine hasRuns_wrapTokens fun t ht => ?_
  obtain ⟨c, _, hc⟩ := List.mem_flatMap.1 ht
  exact hasRuns_wrapTokens (hasRuns_inlineToken _ _ _) t hc

theorem Token.hasRuns_tableTokens (n : Nat) (header : List Cell) (rows : List (List Cell)) :
    ∀ t ∈ tableTokens n header rows, t.HasRuns := by
  refine hasRuns_wrapTokens fun t ht => ?_
  rcases List.mem_append.1 ht with hhead | hbody
  · exact hasRuns_wrapTokens (hasRuns_row .th _ _ header) t hhead
  · cases rows with
    | nil => exact absurd hbody (by simp)
    | cons first rest =>
      refine hasRuns_wrapTokens (fun u hu => ?_) t hbody
      obtain ⟨cells, _, hcells⟩ := List.mem_flatMap.1 hu
      exact hasRuns_row .td _ _ cells u hcells

mutual

theorem Token.hasRuns_ofBlock (n : Nat) : ∀ b : Block, ∀ t ∈ Token.ofBlock n b, t.HasRuns
  | .heading _ _ _ => by
    rw [Token.ofBlock]
    exact hasRuns_wrapTokens (hasRuns_inlineToken _ _ _)
  | .paragraph _ _ => by
    rw [Token.ofBlock]
    exact hasRuns_wrapTokens (hasRuns_inlineToken _ _ _)
  | .textBlock _ _ => by
    rw [Token.ofBlock]
    exact hasRuns_inlineToken _ _ _
  | .quote children => by
    rw [Token.ofBlock]
    exact hasRuns_wrapTokens (Token.hasRuns_ofBlocks (n + 1) children)
  | .list (some _) items => by
    rw [Token.ofBlock]
    exact hasRuns_wrapTokens (Token.hasRuns_ofBlocks (n + 1) items)
  | .list none items => by
    rw [Token.ofBlock]
    exact hasRuns_wrapTokens (Token.hasRuns_ofBlocks (n + 1) items)
  | .item children => by
    rw [Token.ofBlock]
    exact hasRuns_wrapTokens (Token.hasRuns_ofBlocks (n + 1) children)
  | .fencedCode _ _ => by
    rw [Token.ofBlock]
    exact hasRuns_single rfl
  | .code _ => by
    rw [Token.ofBlock]
    exact hasRuns_single rfl
  | .html _ _ => by
    rw [Token.ofBlock]
    exact hasRuns_single rfl
  | .thematicBreak => by
    rw [Token.ofBlock]
    exact hasRuns_single rfl
  | .table header rows => by
    rw [Token.ofBlock]
    exact hasRuns_tableTokens n header rows

/-- The runs of every token in the stream of blocks are those of some text. -/
theorem Token.hasRuns_ofBlocks (n : Nat) :
    ∀ bs : List Block, ∀ t ∈ Token.ofBlocks n bs, t.HasRuns
  | [] => fun t ht => absurd ht (by simp [Token.ofBlocks])
  | b :: bs => by
    rw [Token.ofBlocks]
    intro t ht
    rcases List.mem_append.1 ht with hb | hbs
    · exact Token.hasRuns_ofBlock n b t hb
    · exact Token.hasRuns_ofBlocks n bs t hbs

end

/-- **A stream spells its document.** Read as brackets of equal element, tag and level, the
stream of a document spells the tree of the document and nothing else; in particular the text
of a block is directly in its element. The level of each token is the number of elements
around it, so that a paragraph at level zero is one with nothing open around it. And the runs
of each token spell the tree of an inline content and nothing else. -/
theorem stream_spells_document (d : Document) :
    (∀ ss, Spells 1 0 (Token.ofDocument d) ss ↔ ss = Shape.ofBlocks d) ∧
      (∀ front t behind, Token.ofDocument d = front ++ t :: behind →
        t.level = (elementsAround front t).length ∧
          (t.kind = .opens .paragraph → (t.level = 0 ↔ openBehind front = []))) ∧
      ∀ t ∈ Token.ofDocument d, ∃ content, t.children = Token.ofInlines content ∧
        ∀ ss, Spells 0 0 t.children ss ↔ ss = Shape.ofInlines content := by
  refine ⟨fun ss => (spells_ofBlocks 0 d).iff_eq, fun front t behind heq => ?_, fun t ht => ?_⟩
  · have hnested : WellNested (front ++ t :: behind) := by
      rw [← heq]
      exact nestScan_of_documentScan (documentScan_ofDocument d)
    have hlevel := level_eq_length_around hnested
    refine ⟨hlevel, fun hk => ?_⟩
    rw [hlevel, elementsAround, hk, List.length_eq_zero_iff]
  · obtain ⟨content, hruns⟩ := Token.hasRuns_ofBlocks 0 d t ht
    refine ⟨content, hruns, fun ss => ?_⟩
    rw [hruns]
    exact (spells_ofInlines content).iff_eq

end Docweave

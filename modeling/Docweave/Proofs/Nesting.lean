import Docweave.Token.Stream

/-!
# Nesting of the token stream

A token stream is read with a stack of the elements that are open. `nestScan`
is that reading: it fails at the first token whose level is not the number of
open elements, and at a closing token of another element than the innermost
one. A stream that it takes from the empty stack to the empty stack is well
nested:

> `WellNested ts`: `nestScan [] ts = some []`.

The stream of a document obeys a stricter rule, because a table holds cells
of text only: `documentScan` also fails at a code block or a table inside a
table. The main result of the file is that the rule is kept by every tree:

> `documentScan_ofDocument`: `documentScan [] (Token.ofDocument d) = some []`.

Both scans are folds, so a stream can be cut anywhere: the part in front
leads to some stack, from which the part behind goes on
(`nestScan_append`, `documentScan_append`).
-/

namespace Docweave

/-- The token is a code block, fenced or indented. -/
def Token.isCode (t : Token) : Bool := t.kind = .fence || t.kind = .codeBlock

/-! ## The scans -/

/-- The elements open behind a token, innermost first; none when the token
does not fit the elements open in front of it. -/
def nestStep (opened : List Element) (t : Token) : Option (List Element) :=
  match t.kind with
  | .opens e => if t.level = opened.length then some (e :: opened) else none
  | .closes e =>
    match opened with
    | f :: fs => if e = f ∧ t.level = fs.length then some fs else none
    | [] => none
  | _ => if t.level = opened.length then some opened else none

/-- The elements open behind a stream. -/
def nestScan (opened : List Element) (ts : List Token) : Option (List Element) :=
  ts.foldlM nestStep opened

/-- Opening and closing tokens match like brackets, and the level of each
token is the number of elements open around it. -/
def WellNested (ts : List Token) : Prop := nestScan [] ts = some []

instance (ts : List Token) : Decidable (WellNested ts) :=
  inferInstanceAs (Decidable (nestScan [] ts = some []))

/-- `nestStep` for documents: inside a table neither a code block nor another
table may stand. -/
def documentStep (opened : List Element) (t : Token) : Option (List Element) :=
  if .table ∈ opened ∧ (t.isCode = true ∨ t.kind = .opens .table) then none
  else nestStep opened t

/-- The elements open behind a stream that may be that of a document. -/
def documentScan (opened : List Element) (ts : List Token) : Option (List Element) :=
  ts.foldlM documentStep opened

@[simp] theorem nestScan_nil (opened : List Element) : nestScan opened [] = some opened := rfl

theorem nestScan_cons (opened : List Element) (t : Token) (ts : List Token) :
    nestScan opened (t :: ts) = (nestStep opened t).bind fun st => nestScan st ts := by
  rw [nestScan, List.foldlM_cons]
  rfl

theorem nestScan_append (opened : List Element) (xs ys : List Token) :
    nestScan opened (xs ++ ys) = (nestScan opened xs).bind fun st => nestScan st ys := by
  rw [nestScan, List.foldlM_append]
  rfl

@[simp] theorem documentScan_nil (opened : List Element) :
    documentScan opened [] = some opened := rfl

theorem documentScan_cons (opened : List Element) (t : Token) (ts : List Token) :
    documentScan opened (t :: ts) = (documentStep opened t).bind fun st => documentScan st ts := by
  rw [documentScan, List.foldlM_cons]
  rfl

theorem documentScan_append (opened : List Element) (xs ys : List Token) :
    documentScan opened (xs ++ ys)
      = (documentScan opened xs).bind fun st => documentScan st ys := by
  rw [documentScan, List.foldlM_append]
  rfl

/-! ## What a token that fits can be -/

/-- A token that fits opens an element at the present depth, closes the
innermost one, or changes nothing. -/
theorem nestStep_cases {opened opened' : List Element} {t : Token}
    (h : nestStep opened t = some opened') :
    (∃ e, t.kind = .opens e ∧ t.level = opened.length ∧ opened' = e :: opened) ∨
    (∃ e, t.kind = .closes e ∧ t.level = opened'.length ∧ opened = e :: opened') ∨
    ((∀ e, t.kind ≠ .opens e) ∧ (∀ e, t.kind ≠ .closes e) ∧ t.level = opened.length ∧
      opened' = opened) := by
  unfold nestStep at h
  split at h
  next e he =>
    split at h
    next hl => exact Or.inl ⟨e, he, hl, (Option.some.inj h).symm⟩
    next => exact absurd h (by simp)
  next e he =>
    split at h
    next f fs =>
      split at h
      next hc =>
        obtain ⟨rfl, hl⟩ := hc
        rw [← Option.some.inj h]
        exact Or.inr (Or.inl ⟨e, he, hl, rfl⟩)
      next => exact absurd h (by simp)
    next => exact absurd h (by simp)
  next ho hc =>
    split at h
    next hl => exact Or.inr (Or.inr ⟨ho, hc, hl, (Option.some.inj h).symm⟩)
    next => exact absurd h (by simp)

theorem nestStep_opens {opened mid : List Element} {t : Token} {e : Element}
    (h : nestStep opened t = some mid) (hk : t.kind = .opens e) :
    t.level = opened.length ∧ mid = e :: opened := by
  rcases nestStep_cases h with ⟨f, hf, hlev, rfl⟩ | ⟨f, hf, _⟩ | ⟨hn, _⟩
  · obtain rfl : e = f := by simpa [hk] using hf
    exact ⟨hlev, rfl⟩
  · rw [hk] at hf; exact absurd hf (by simp)
  · exact absurd hk (hn _)

theorem nestStep_closes {opened mid : List Element} {t : Token} {e : Element}
    (h : nestStep opened t = some mid) (hk : t.kind = .closes e) : opened = e :: mid := by
  rcases nestStep_cases h with ⟨f, hf, _⟩ | ⟨f, hf, _, rfl⟩ | ⟨_, hn, _⟩
  · rw [hk] at hf; exact absurd hf (by simp)
  · obtain rfl : e = f := by simpa [hk] using hf
    rfl
  · exact absurd hk (hn _)

theorem nestStep_other {opened mid : List Element} {t : Token}
    (h : nestStep opened t = some mid) (ho : ∀ e, t.kind ≠ .opens e)
    (hc : ∀ e, t.kind ≠ .closes e) : mid = opened := by
  rcases nestStep_cases h with ⟨f, hf, _⟩ | ⟨f, hf, _⟩ | ⟨_, _, _, heq⟩
  · exact absurd hf (ho f)
  · exact absurd hf (hc f)
  · exact heq

/-- What fits a document fits any stream. -/
theorem nestStep_of_documentStep {opened opened' : List Element} {t : Token}
    (h : documentStep opened t = some opened') : nestStep opened t = some opened' := by
  unfold documentStep at h
  split at h
  next => exact absurd h (by simp)
  next => exact h

/-- The token of a document inside a table is neither code nor a table. -/
theorem documentStep_in_table {opened opened' : List Element} {t : Token}
    (h : documentStep opened t = some opened') (ht : .table ∈ opened) :
    t.isCode = false ∧ t.kind ≠ .opens .table := by
  unfold documentStep at h
  split at h
  next => exact absurd h (by simp)
  next hn =>
    constructor
    · cases hc : t.isCode with
      | false => rfl
      | true => exact absurd ⟨ht, Or.inl hc⟩ hn
    · intro hk
      exact hn ⟨ht, Or.inr hk⟩

/-- The first token of a scan and the scan behind it. -/
theorem nestScan_cons_some {opened st : List Element} {t : Token} {ts : List Token}
    (h : nestScan opened (t :: ts) = some st) :
    ∃ mid, nestStep opened t = some mid ∧ nestScan mid ts = some st := by
  rw [nestScan_cons] at h
  exact Option.bind_eq_some_iff.1 h

theorem documentScan_cons_some {opened st : List Element} {t : Token} {ts : List Token}
    (h : documentScan opened (t :: ts) = some st) :
    ∃ mid, documentStep opened t = some mid ∧ documentScan mid ts = some st := by
  rw [documentScan_cons] at h
  exact Option.bind_eq_some_iff.1 h

theorem nestScan_append_some {opened st : List Element} {xs ys : List Token}
    (h : nestScan opened (xs ++ ys) = some st) :
    ∃ mid, nestScan opened xs = some mid ∧ nestScan mid ys = some st := by
  rw [nestScan_append] at h
  exact Option.bind_eq_some_iff.1 h

theorem documentScan_append_some {opened st : List Element} {xs ys : List Token}
    (h : documentScan opened (xs ++ ys) = some st) :
    ∃ mid, documentScan opened xs = some mid ∧ documentScan mid ys = some st := by
  rw [documentScan_append] at h
  exact Option.bind_eq_some_iff.1 h

/-- The stream of a document is well nested. -/
theorem nestScan_of_documentScan {opened st : List Element} {ts : List Token}
    (h : documentScan opened ts = some st) : nestScan opened ts = some st := by
  induction ts generalizing opened with
  | nil => exact h
  | cons t ts ih =>
    obtain ⟨mid, hstep, hrest⟩ := documentScan_cons_some h
    rw [nestScan_cons, nestStep_of_documentStep hstep]
    exact ih hrest

/-- Every element that is open in front of a stream is closed in it when
nothing is open behind. -/
theorem exists_closes_of_nestScan {opened : List Element} {ts : List Token} {e : Element}
    (h : nestScan opened ts = some []) (he : e ∈ opened) : ∃ t ∈ ts, t.kind = .closes e := by
  induction ts generalizing opened with
  | nil =>
    rw [nestScan_nil, Option.some.injEq] at h
    rw [h] at he
    exact absurd he (by simp)
  | cons t ts ih =>
    obtain ⟨mid, hstep, hrest⟩ := nestScan_cons_some h
    have later : e ∈ mid → ∃ u ∈ t :: ts, u.kind = .closes e := by
      intro hm
      obtain ⟨u, hu, hk⟩ := ih hrest hm
      exact ⟨u, List.mem_cons_of_mem _ hu, hk⟩
    rcases nestStep_cases hstep with ⟨f, _, _, rfl⟩ | ⟨f, hk, _, rfl⟩ | ⟨_, _, _, rfl⟩
    · exact later (List.mem_cons_of_mem _ he)
    · rcases List.mem_cons.1 he with rfl | hm
      · exact ⟨t, List.mem_cons_self .., hk⟩
      · exact later hm
    · exact later he

/-- A paragraph at level zero stands outside of all blocks. -/
theorem nestScan_paragraph {opened st : List Element} {o i c : Token}
    (h : nestScan opened [o, i, c] = some st) (ho : o.kind = .opens .paragraph)
    (hl : o.level = 0) (hi : i.kind = .inline) (hc : c.kind = .closes .paragraph) :
    opened = [] ∧ st = [] := by
  obtain ⟨st₁, h₁, hrest₁⟩ := nestScan_cons_some h
  obtain ⟨st₂, h₂, hrest₂⟩ := nestScan_cons_some hrest₁
  obtain ⟨st₃, h₃, hrest₃⟩ := nestScan_cons_some hrest₂
  obtain rfl : st₃ = st := by simpa using hrest₃
  -- the level of an opening token is the number of blocks around it
  obtain ⟨hlev, rfl⟩ := nestStep_opens h₁ ho
  obtain rfl : opened = [] := List.eq_nil_of_length_eq_zero (by omega)
  obtain rfl := nestStep_other h₂ (by simp [hi]) (by simp [hi])
  exact ⟨rfl, (List.cons.inj (nestStep_closes h₃ hc)).2.symm⟩

/-! ## Documents -/

/-- A block is read when its content is, one level deeper. -/
theorem documentScan_wrapTokens (opened : List Element) {e : Element} {tag : Text} {line : Nat}
    {attrs : List (Text × Text)} {content : List Token}
    (he : .table ∈ opened → e ≠ .table)
    (hc : documentScan (e :: opened) content = some (e :: opened)) :
    documentScan opened (wrapTokens e tag line opened.length attrs content) = some opened := by
  rw [wrapTokens, List.cons_append, documentScan_cons, documentStep, if_neg]
  · simp only [nestStep, if_true, Option.bind_some]
    rw [documentScan_append, hc, Option.bind_some, documentScan_cons]
    simp [documentStep, nestStep, Token.isCode]
  · rintro ⟨ht, hcode | hopen⟩
    · exact absurd hcode (by simp [Token.isCode])
    · exact he ht (by simpa using hopen)

/-- A token that neither opens nor closes is read at its own level. -/
theorem documentScan_leaf {opened : List Element} {t : Token} (hl : t.level = opened.length)
    (ho : ∀ e, t.kind ≠ .opens e) (hc : ∀ e, t.kind ≠ .closes e)
    (ht : .table ∈ opened → t.isCode = false) : documentScan opened [t] = some opened := by
  rw [documentScan_cons, documentStep, if_neg]
  · unfold nestStep
    split
    next e he => exact absurd he (ho e)
    next e he => exact absurd he (hc e)
    next => rw [if_pos hl]; rfl
  · rintro ⟨hin, hcode | hopen⟩
    · rw [ht hin] at hcode
      exact absurd hcode (by simp)
    · exact ho _ hopen

theorem documentScan_inlineToken (opened : List Element) (lines : List Markdown.SourceLine)
    (content : List Markdown.Inline) :
    documentScan opened [inlineToken lines content opened.length] = some opened :=
  documentScan_leaf rfl (fun _ => by simp [inlineToken]) (fun _ => by simp [inlineToken])
    (fun _ => by simp [Token.isCode, inlineToken])

/-- The text of a block between its tokens. -/
theorem documentScan_wrapInline {opened : List Element} {e : Element} {tag : Text} {line : Nat}
    {attrs : List (Text × Text)} (lines : List Markdown.SourceLine)
    (content : List Markdown.Inline) (he : e ≠ .table) :
    documentScan opened (wrapTokens e tag line opened.length attrs
      [inlineToken lines content (opened.length + 1)]) = some opened :=
  documentScan_wrapTokens opened (fun _ => he)
    (documentScan_inlineToken (e :: opened) lines content)

/-- A list of streams that each lead back to where they start does so too. -/
theorem documentScan_flatMap {α : Type} {opened : List Element} {f : α → List Token} {l : List α}
    (h : ∀ a ∈ l, documentScan opened (f a) = some opened) :
    documentScan opened (l.flatMap f) = some opened := by
  induction l with
  | nil => rfl
  | cons a l ih =>
    rw [List.flatMap_cons, documentScan_append, h a (List.mem_cons_self ..), Option.bind_some]
    exact ih fun b hb => h b (List.mem_cons_of_mem _ hb)

theorem documentScan_cellTokens (opened : List Element) {e : Element} (he : e ≠ .table)
    (cells : List Markdown.Cell) :
    documentScan opened (cellTokens e opened.length cells) = some opened :=
  documentScan_flatMap fun c _ => documentScan_wrapInline c.lines c.content he

theorem documentScan_tableTokens {opened : List Element} (ht : .table ∉ opened)
    (header : List Markdown.Cell) (rows : List (List Markdown.Cell)) :
    documentScan opened (tableTokens opened.length header rows) = some opened := by
  have row : ∀ (part e : Element) (cells : List Markdown.Cell), e ≠ .table →
      documentScan (part :: .table :: opened)
        (wrapTokens .tr "tr" (firstCellLine cells) (opened.length + 2) []
          (cellTokens e (opened.length + 3) cells)) = some (part :: .table :: opened) := by
    intro part e cells he
    exact documentScan_wrapTokens (part :: .table :: opened) (fun _ => by simp)
      (documentScan_cellTokens (.tr :: part :: .table :: opened) he cells)
  have head : documentScan (.table :: opened)
      (wrapTokens .thead "thead" (firstCellLine header) (opened.length + 1) []
        (wrapTokens .tr "tr" (firstCellLine header) (opened.length + 2) []
          (cellTokens .th (opened.length + 3) header))) = some (.table :: opened) :=
    documentScan_wrapTokens (.table :: opened) (fun _ => by simp)
      (row .thead .th header (by simp))
  refine documentScan_wrapTokens opened (fun h => absurd h ht) ?_
  rw [documentScan_append, head, Option.bind_some]
  cases rows with
  | nil => rfl
  | cons first rest =>
    refine documentScan_wrapTokens (.table :: opened) (fun _ => by simp) ?_
    exact documentScan_flatMap fun cells _ => row .tbody .td cells (by simp)

mutual

/-- The tokens of a block outside of tables are read at its level. -/
theorem documentScan_ofBlock {opened : List Element} (ht : .table ∉ opened) :
    ∀ b : Markdown.Block, documentScan opened (Token.ofBlock opened.length b) = some opened
  | .heading n lines content => by
    rw [Token.ofBlock]
    exact documentScan_wrapInline lines content (by simp)
  | .paragraph lines content => by
    rw [Token.ofBlock]
    exact documentScan_wrapInline lines content (by simp)
  | .textBlock lines content => by
    rw [Token.ofBlock]
    exact documentScan_inlineToken opened lines content
  | .quote children => by
    rw [Token.ofBlock]
    exact documentScan_wrapTokens opened (fun h => absurd h ht)
      (documentScan_ofBlocks (.blockquote :: opened) (by simp [ht]) children)
  | .list (some first) items => by
    rw [Token.ofBlock]
    exact documentScan_wrapTokens opened (fun h => absurd h ht)
      (documentScan_ofBlocks (.orderedList :: opened) (by simp [ht]) items)
  | .list none items => by
    rw [Token.ofBlock]
    exact documentScan_wrapTokens opened (fun h => absurd h ht)
      (documentScan_ofBlocks (.bulletList :: opened) (by simp [ht]) items)
  | .item children => by
    rw [Token.ofBlock]
    exact documentScan_wrapTokens opened (fun h => absurd h ht)
      (documentScan_ofBlocks (.listItem :: opened) (by simp [ht]) children)
  | .fencedCode language lines => by
    rw [Token.ofBlock]
    exact documentScan_leaf rfl (fun _ => by simp) (fun _ => by simp) (fun h => absurd h ht)
  | .code lines => by
    rw [Token.ofBlock]
    exact documentScan_leaf rfl (fun _ => by simp) (fun _ => by simp) (fun h => absurd h ht)
  | .html lines closure => by
    rw [Token.ofBlock]
    exact documentScan_leaf rfl (fun _ => by simp) (fun _ => by simp) (fun h => absurd h ht)
  | .thematicBreak => by
    rw [Token.ofBlock]
    exact documentScan_leaf rfl (fun _ => by simp) (fun _ => by simp) (fun h => absurd h ht)
  | .table header rows => by
    rw [Token.ofBlock]
    exact documentScan_tableTokens ht header rows

/-- The tokens of blocks outside of tables are read at their level. -/
theorem documentScan_ofBlocks (opened : List Element) (ht : .table ∉ opened) :
    ∀ bs : List Markdown.Block,
      documentScan opened (Token.ofBlocks opened.length bs) = some opened
  | [] => by rw [Token.ofBlocks]; rfl
  | b :: bs => by
    rw [Token.ofBlocks, documentScan_append, documentScan_ofBlock ht b, Option.bind_some]
    exact documentScan_ofBlocks opened ht bs

end

/-- **Documents nest.** The stream of every document is well nested, and its
tables hold neither code nor tables. -/
theorem documentScan_ofDocument (d : Markdown.Document) :
    documentScan [] (Token.ofDocument d) = some [] :=
  documentScan_ofBlocks [] (by simp) d

end Docweave

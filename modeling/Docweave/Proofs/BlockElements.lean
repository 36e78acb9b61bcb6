import Docweave.Proofs.CodeRuns
import Docweave.Proofs.Placeholders
import Docweave.Proofs.TableScan
import Docweave.Proofs.TreeRendering

/-!
# Code blocks in the template

The template is what the resolver writes of the tree that the build has left. Each
fragment of the tree is in it, rewritten on its own, so a code block can be followed
into the template: the build puts its placeholder into a fragment, between the markup of
the blocks around it, and the rewriting copies what has no brackets and no braces. Of
the placeholder that is all but the path.

> `isContent_build`, `fragment_shown`: what a build leaves is shown, one fragment a line.

> `rewriteBrackets_placeholder`: between markup without brackets and braces the rewriting
> takes the path of a placeholder on its own.

> `placeholder_shown`: a placeholder without brackets and braces in its path is shown as
> it is, outside of escaped constructs and qualifiers.
-/

namespace Docweave

/-! ## What a build leaves -/

section

variable {ctx : BuildContext} {σ : BuildState} {n : Node} {ns nodes : List Node} {log : BuildLog} {m : Text}

theorem isContent_concat (hns : isContent ns = true) (hn : isContentNode n = true) : isContent (ns ++ [n]) = true := by
  induction ns with
  | nil => exact isContent_cons.2 ⟨hn, rfl⟩
  | cons n' ns ih =>
    obtain ⟨hfirst, hothers⟩ := isContent_cons.1 hns
    exact isContent_cons.2 ⟨hfirst, ih hothers⟩

theorem isContentNode_containerNode (children : List Node) (q : Option Text) (line : Nat) :
    isContentNode (containerNode children q line) = isContent children := by
  cases q with
  | none => rw [containerNode, isContentNode]
  | some body => rw [containerNode, isContentNode]

theorem isContentNode_of_isHtml (h : n.IsHtml) : isContentNode n = true := by
  obtain ⟨m, rfl⟩ := h
  rfl

theorem isContent_push {s : Scaffold} (hs : isContent s.nodes = true) (hn : isContentNode n = true) :
    isContent (s.push n).nodes = true := by
  cases hframes : s.frames with
  | nil =>
    rw [push_of_nil hframes]
    exact isContent_concat hs hn
  | cons f fs =>
    rw [push_of_cons hframes]
    exact hs

/-- A run keeps to nodes that are below the top of a tree. -/
theorem isContent_run (h : σ.run ctx = .ok (nodes, log)) (hσ : isContent σ.scaffold.nodes = true) :
    isContent nodes = true := by
  revert hσ
  refine run_ok_induction (fun _ _ h => h) ?_ h
  intro σ τ nodes log hstep ih inner hσ
  refine ih ?_
  cases hstep with
  | @container s log t ts within q rest children log₁ hopen hsplit hinner =>
    refine isContent_push hσ ?_
    rw [isContentNode_containerNode]
    exact inner _ children log₁ (length_container hsplit) hinner rfl
  | table hkind hframes htable =>
    obtain ⟨⟨headers, source, label, rfl⟩, -⟩ := dynamicTable?_cases htable
    exact isContent_push hσ rfl
  | opening => exact hσ
  | closing => exact isContent_push hσ (isContentNode_of_isHtml (close_isHtml ..))
  | leaf hleaf => exact isContent_push hσ (isContentNode_of_isHtml (leafNode?_isHtml hleaf))
  | skip => exact hσ

theorem isContent_build {ts : List Token} (h : buildTree ctx ts = .ok (nodes, log)) : isContent nodes = true :=
  isContent_run (σ := .start {} ts) h rfl

theorem content_infix_around (tag attrs content : Text) : content <:+: aroundContent tag attrs content := by
  unfold aroundContent
  exact ((List.infix_append _ content _).trans (List.prefix_append _ tag).isInfix).trans
    (List.prefix_append _ _).isInfix

mutual

theorem fragment_shown_node (number : Nat) (n : Node) (h : m ∈ n.fragments) (hne : m ≠ []) :
    rewriteBrackets m ++ ['\n'] <:+: renderNode number n := by
  cases n with
  | html m' =>
    rw [Node.fragments, List.mem_singleton] at h
    have hline : renderNode number (.html m') = rewriteBrackets m ++ ['\n'] := by
      rw [renderNode, ← h, if_neg (by simpa using hne)]
    exact hline ▸ List.infix_refl _
  | table headers source placeholder m' => exact absurd h (by simp [Node.fragments])
  | container tag attrs children line m' =>
    rw [Node.fragments] at h
    rw [renderNode]
    exact (fragment_shown number children h hne).trans (content_infix_around ..)
  | root children =>
    rw [Node.fragments] at h
    rw [renderNode]
    exact fragment_shown number children h hne

/-- **Each fragment is shown**, rewritten on its own, and ends its line. -/
theorem fragment_shown (number : Nat) (ns : List Node) (h : m ∈ fragments ns) (hne : m ≠ []) :
    rewriteBrackets m ++ ['\n'] <:+: renderNodes number ns := by
  cases ns with
  | nil => exact absurd h (by simp [fragments])
  | cons n ns =>
    rw [fragments] at h
    rw [renderNodes]
    rcases List.mem_append.1 h with h | h
    · exact (fragment_shown_node number n h hne).trans (List.prefix_append _ _).isInfix
    · exact (fragment_shown _ ns h hne).trans (List.suffix_append _ _).isInfix

end

end

/-! ## Placeholders -/

/-- The placeholder up to the literal with the path. -/
def pathFront (job : HighlightJob) : Text := "<CodeBlock " ++ Qualifier.quoted "name" job.key ++ " highlight-path="

/-- The placeholder behind the literal with the path. -/
def pathBehind (job : HighlightJob) : Text := " raw='" ++ Text.escapeCode job.code ++ "'></CodeBlock>"

section

variable {path front back u v t : Text} {job : HighlightJob}

theorem placeholder_eq (path : Text) (job : HighlightJob) :
    placeholder path job = pathFront job ++ Text.quote :: (path ++ Text.quote :: pathBehind job) := by
  unfold placeholder pathFront pathBehind
  unfold Qualifier.quoted
  simp [Text.quote]

theorem unbracketed_quote : Unbracketed (Text.quote :: v) ↔ Unbracketed v := by
  unfold Unbracketed
  rw [List.forall_mem_cons, and_iff_right (by decide)]

theorem unbracketed_pathBehind (job : HighlightJob) : Unbracketed (pathBehind job) := by
  unfold pathBehind
  exact unbracketed_append.2 ⟨unbracketed_append.2 ⟨by decide, unbracketed_escapeCode job.code⟩, by decide⟩

/-- Keys are made of letters, digits and underscores. -/
theorem unbracketed_key {ts : List Token} (h : job ∈ codeJobs 0 ts) : Unbracketed job.key := by
  obtain ⟨i, _, rfl⟩ := List.mem_mapIdx.1 h
  refine unbracketed_append.2 ⟨by decide, fun c hc => ?_⟩
  have hdigit := Text.isDigit_of_mem_ofNat hc
  refine ⟨?_, ?_, ?_, ?_⟩ <;> rintro rfl <;> exact absurd hdigit (by decide)

theorem unbracketed_pathFront (h : Unbracketed job.key) : Unbracketed (pathFront job) := by
  unfold pathFront Qualifier.quoted
  simp only [unbracketed_append]
  exact ⟨⟨by decide, ⟨⟨by decide, by decide⟩, h⟩, by decide⟩, by decide⟩

/-- Markup without brackets around a text is copied, if its front ends like a tag or a
value does. -/
theorem rewriteBrackets_between (hu : Inert u) (hv : Unbracketed v) (t : Text) :
    rewriteBrackets (u ++ (t ++ v)) = u ++ (rewriteBrackets t ++ v) := by
  rw [rewriteBrackets_eq_shown, bracketPieces_inert hu, bracketPieces_append_unbracketed hv, List.flatMap_append,
    List.flatMap_append, shown_chars, shown_chars, ← rewriteBrackets_eq_shown]

/-- **The path of a placeholder is rewritten on its own** between markup without
brackets and braces. -/
theorem rewriteBrackets_placeholder (hkey : Unbracketed job.key) (hfront : Unbracketed front)
    (hback : Unbracketed back) :
    rewriteBrackets (front ++ placeholder path job ++ back) =
      front ++ pathFront job ++ Text.quote :: (rewriteBrackets path ++ Text.quote :: (pathBehind job ++ back)) := by
  have hopen : Inert (front ++ pathFront job ++ [Text.quote]) :=
    ⟨unbracketed_append.2 ⟨unbracketed_append.2 ⟨hfront, unbracketed_pathFront hkey⟩, by decide⟩,
      _, Text.quote, rfl, by decide, by decide⟩
  have hclose : Unbracketed (Text.quote :: (pathBehind job ++ back)) :=
    unbracketed_quote.2 (unbracketed_append.2 ⟨unbracketed_pathBehind job, hback⟩)
  have hsplit : front ++ placeholder path job ++ back =
      front ++ pathFront job ++ [Text.quote] ++ (path ++ Text.quote :: (pathBehind job ++ back)) := by
    rw [placeholder_eq]
    simp
  rw [hsplit, rewriteBrackets_between hopen hclose]
  simp

-- brackets in the name of a document become an interpolation
example : rewriteBrackets (placeholder "../:[x].shiki.js" ⟨"shiki_0", "x\n", []⟩) =
    placeholder "../\x7b\x7b x \x7d\x7d.shiki.js" ⟨"shiki_0", "x\n", []⟩ := by decide +kernel

theorem inert_placeholder (hkey : Unbracketed job.key) (hpath : Unbracketed path) : Inert (placeholder path job) where
  plain := by
    rw [placeholder_eq]
    refine unbracketed_append.2 ⟨unbracketed_pathFront hkey, unbracketed_quote.2 ?_⟩
    exact unbracketed_append.2 ⟨hpath, unbracketed_quote.2 (unbracketed_pathBehind job)⟩
  ends := by
    obtain ⟨w, hw⟩ := (List.getLast?_eq_some_iff.1 (getLast?_placeholder path job))
    exact ⟨w, '>', hw, by decide, by decide⟩

theorem edged_placeholder (path : Text) (job : HighlightJob) : Text.Edged (placeholder path job) where
  first := ⟨'<', _, rfl, by decide⟩
  last := by
    obtain ⟨w, hw⟩ := (List.getLast?_eq_some_iff.1 (getLast?_placeholder path job))
    exact ⟨w, '>', hw, by decide⟩

/-- **A placeholder is shown as it is**, if its path has no brackets and braces and no
construct around it is escaped or takes it for its qualifier. -/
theorem placeholder_shown (hkey : Unbracketed job.key) (hpath : Unbracketed path)
    (hliteral : ¬InLiteral front (placeholder path job) back)
    (hqualifier : ∀ body, ¬InQualifier front (placeholder path job) back body) :
    placeholder path job <:+: rewriteBrackets (front ++ placeholder path job ++ back) := by
  rcases place_cases (inert_placeholder hkey hpath) front back with htext | ⟨b, hcontent⟩ | hlit | ⟨body, hq⟩
  · exact shown_of_inText htext
  · exact shown_of_inContent (edged_placeholder path job) hcontent
  · exact absurd hlit hliteral
  · exact absurd hq (hqualifier body)

end

end Docweave

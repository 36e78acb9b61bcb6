import Docweave.Proofs.MarkupEntities
import Docweave.Tree.Resolve

/-!
# The markup of a tree

Resolving writes the content of a container into its markup, and writing a tree
shows a container by its markup or, as long as it has none, by its content. So
what is inside a container stands in two places, and has to come out once.

`renderNodes` says in one recursion what a tree looks like: fragments rewritten,
tables filled in, containers around what is inside them. It does not look at
markup of tables and containers, and it does not resolve anything first.

> `rewriteBrackets_eq_nil`: rewriting makes no fragment empty, so none that is
> there vanishes.

> `serialize_resolve`: a resolved tree is written as it is rendered.

> `leaves_resolve`: every fragment and every table is resolved once, however
> deep it is.
-/

namespace Docweave

/-! ## What is in a tree -/

mutual

/-- The node is a fragment, a table, or a container of such nodes. -/
def isContentNode : Node → Bool
  | .html _ => true
  | .table .. => true
  | .container _ _ children _ _ => isContent children
  | .root _ => false

/-- The nodes are what can be below the top of a tree. -/
def isContent : List Node → Bool
  | [] => true
  | n :: ns => isContentNode n && isContent ns

end

mutual

/-- The fragments and tables of a node, in document order. -/
def leavesOfNode : Node → List Node
  | .html m => [.html m]
  | .table headers source placeholder m => [.table headers source placeholder m]
  | .container _ _ children _ _ => leavesOf children
  | .root children => leavesOf children

/-- The fragments and tables of nodes, in document order. -/
def leavesOf : List Node → List Node
  | [] => []
  | n :: ns => leavesOfNode n ++ leavesOf ns

end

/-- A table of a tree. -/
structure TableNode where
  headers : List Text
  source : Text
  placeholder : Text
  markup : Text
deriving DecidableEq

/-- The table that a node is. -/
def Node.table? : Node → Option TableNode
  | .table headers source placeholder m => some ⟨headers, source, placeholder, m⟩
  | _ => none

/-- The tables of nodes, in document order. -/
def tablesOf (ns : List Node) : List TableNode := (leavesOf ns).filterMap Node.table?

/-! ## Rendering -/

/-- A container around its content, in lines of its own. -/
def aroundContent (tag attrs content : Text) : Text :=
  "<" ++ tag ++ attrGap attrs ++ ">\n" ++ content ++ "</" ++ tag ++ ">\n"

mutual

/-- What a node looks like, with its first table under a number. -/
def renderNode (number : Nat) : Node → Text
  | .html m => if m.isEmpty then [] else rewriteBrackets m ++ ['\n']
  | .table headers source placeholder _ => tableMarkup number headers source placeholder ++ ['\n']
  | .container tag attrs children _ _ => aroundContent tag attrs (renderNodes number children)
  | .root children => renderNodes number children

/-- What nodes look like one after the other, with their tables numbered from a
number on. -/
def renderNodes (number : Nat) : List Node → Text
  | [] => []
  | n :: ns => renderNode number n ++ renderNodes (number + (tablesOf [n]).length) ns

end

/-! ## Small facts -/

section

variable {n : Node} {ns : List Node}

theorem isContent_cons : isContent (n :: ns) = true ↔ isContentNode n = true ∧ isContent ns = true := by
  rw [isContent, Bool.and_eq_true]

theorem tablesOf_cons (n : Node) (ns : List Node) : tablesOf (n :: ns) = tablesOf [n] ++ tablesOf ns := by
  simp only [tablesOf, leavesOf, List.filterMap_append, List.append_nil]

theorem tablesOf_append (ns ms : List Node) : tablesOf (ns ++ ms) = tablesOf ns ++ tablesOf ms := by
  induction ns with
  | nil => rfl
  | cons n ns ih => rw [List.cons_append, tablesOf_cons, ih, tablesOf_cons n ns, List.append_assoc]

theorem tablesOf_container (tag attrs : Text) (children : List Node) (line : Nat) (m : Text) :
    tablesOf [.container tag attrs children line m] = tablesOf children := by
  simp only [tablesOf, leavesOf, leavesOfNode, List.append_nil]

theorem resolve_cons (r : Resolver) (n : Node) (ns : List Node) :
    resolve r (n :: ns) =
      ((resolveNode r n).1 :: (resolve (resolveNode r n).2 ns).1, (resolve (resolveNode r n).2 ns).2) := by
  rw [resolve]

theorem resolve_append (r : Resolver) (ns ms : List Node) :
    resolve r (ns ++ ms) =
      ((resolve r ns).1 ++ (resolve (resolve r ns).2 ms).1, (resolve (resolve r ns).2 ms).2) := by
  induction ns generalizing r with
  | nil => rfl
  | cons n ns ih =>
    rw [List.cons_append, resolve_cons, resolve_cons, ih]
    rfl

end

/-! ## Rewriting keeps what is there -/

theorem escapeHtml_ne_nil {t : Text} (h : t ≠ []) : Text.escapeHtml t ≠ [] := by
  intro hnil
  have hback := Text.unescape_escapeHtml t
  rw [hnil] at hback
  exact h hback.symm

theorem render_ne_nil (b : BracketSpan) {literal : Text} (h : literal ≠ []) : b.render literal ≠ [] := by
  unfold BracketSpan.render
  simp only
  split
  next =>
    split
    next => exact List.append_ne_nil_of_right_ne_nil _ (by decide)
    next => exact h
  next =>
    -- an element, which ends in a tag
    split
    next => exact List.append_ne_nil_of_right_ne_nil _ (by decide)
    next => exact List.append_ne_nil_of_right_ne_nil _ (by decide)

/-- A construct takes at least one character. -/
theorem taken_ne_nil {t rest : Text} {b : BracketSpan} (h : BracketSpan.match? t = some (b, rest)) :
    t.take (t.length - rest.length) ≠ [] := by
  have hlen := BracketSpan.length_match? h
  intro hnil
  have htaken := congrArg List.length hnil
  rw [List.length_take, List.length_nil] at htaken
  omega

/-- **No fragment vanishes:** only the empty one is rewritten to nothing. -/
theorem rewriteBrackets_eq_nil {t : Text} : rewriteBrackets t = [] ↔ t = [] := by
  constructor
  · intro hnil
    cases t with
    | nil => rfl
    | cons c t =>
      rw [rewriteBrackets] at hnil
      split at hnil
      next hescaped =>
        split at hnil
        next b rest hfound =>
          exact absurd (List.append_eq_nil_iff.1 hnil).1 (escapeHtml_ne_nil (taken_ne_nil hfound))
        next =>
          -- the escaped bracket itself is left
          cases t with
          | nil => exact absurd hescaped (by simp [BracketSpan.starts])
          | cons x t => exact absurd hnil (by simp)
      next =>
        split at hnil
        next b rest hfound =>
          exact absurd (List.append_eq_nil_iff.1 hnil).1 (render_ne_nil b (taken_ne_nil hfound))
        next => exact absurd hnil (by simp)
  · rintro rfl
    rw [rewriteBrackets]

/-! ## Resolving -/

/-- Markup that is not empty is written and ends its line. -/
theorem serialize_markup {m : Text} (h : m ≠ []) (unresolved : Text) :
    (if m.isEmpty then unresolved else m ++ ['\n']) = m ++ ['\n'] := by
  rw [if_neg]
  intro hempty
  exact h (List.isEmpty_iff.1 hempty)

theorem tableMarkup_ne_nil (number : Nat) (headers : List Text) (source placeholder : Text) :
    tableMarkup number headers source placeholder ≠ [] :=
  List.append_ne_nil_of_right_ne_nil _ (by decide)

theorem containerMarkup_line (tag attrs : Text) (children : List Node) :
    containerMarkup tag attrs children ++ ['\n'] = aroundContent tag attrs (serialize children) := by
  show ("<" ++ tag ++ attrGap attrs ++ ">\n" ++ serialize children ++ "</" ++ tag ++ ">" : Text) ++ ['\n'] =
    "<" ++ tag ++ attrGap attrs ++ ">\n" ++ serialize children ++ "</" ++ tag ++ ">\n"
  simp only [List.append_assoc]
  rfl

theorem containerMarkup_ne_nil (tag attrs : Text) (children : List Node) :
    containerMarkup tag attrs children ≠ [] :=
  List.append_ne_nil_of_right_ne_nil _ (by decide)

mutual

/-- A resolver counts the tables of a node. -/
theorem tables_resolveNode (r : Resolver) (n : Node) (h : isContentNode n = true) :
    (resolveNode r n).2.tables = r.tables + (tablesOf [n]).length := by
  cases n with
  | html m => rfl
  | table headers source placeholder m => rfl
  | container tag attrs children line m =>
    rw [tablesOf_container]
    exact tables_resolve r children h
  | root children => exact absurd h (by simp [isContentNode])

/-- A resolver counts tables. -/
theorem tables_resolve (r : Resolver) (ns : List Node) (h : isContent ns = true) :
    (resolve r ns).2.tables = r.tables + (tablesOf ns).length := by
  cases ns with
  | nil => rfl
  | cons n ns =>
    obtain ⟨hn, hns⟩ := isContent_cons.1 h
    rw [resolve_cons, tables_resolve _ ns hns, tables_resolveNode r n hn, tablesOf_cons n ns,
      List.length_append, Nat.add_assoc]

end

mutual

theorem serialize_resolveNode (r : Resolver) (n : Node) (h : isContentNode n = true) :
    serializeNode (resolveNode r n).1 = renderNode r.tables n := by
  cases n with
  | html m =>
    rw [resolveNode, serializeNode, renderNode]
    by_cases hm : m = []
    · rw [hm, rewriteBrackets]
    · rw [serialize_markup (fun hnil => hm (rewriteBrackets_eq_nil.1 hnil)), if_neg]
      exact fun hempty => hm (List.isEmpty_iff.1 hempty)
  | table headers source placeholder m =>
    rw [resolveNode, serializeNode, renderNode]
    exact serialize_markup (tableMarkup_ne_nil _ _ _ _) _
  | container tag attrs children line m =>
    -- the markup has the content in it, and stands for it
    rw [resolveNode, serializeNode, renderNode, serialize_markup (containerMarkup_ne_nil _ _ _),
      containerMarkup_line, serialize_resolve r children h]
  | root children => exact absurd h (by simp [isContentNode])

/-- **A resolved tree is written as it is rendered.** -/
theorem serialize_resolve (r : Resolver) (ns : List Node) (h : isContent ns = true) :
    serialize (resolve r ns).1 = renderNodes r.tables ns := by
  cases ns with
  | nil => rfl
  | cons n ns =>
    obtain ⟨hn, hns⟩ := isContent_cons.1 h
    rw [resolve_cons, serialize, renderNodes, serialize_resolveNode r n hn, serialize_resolve _ ns hns,
      tables_resolveNode r n hn]

end

mutual

theorem leaves_resolveNode (r : Resolver) (n : Node) (h : isContentNode n = true) :
    resolve r (leavesOfNode n) = (leavesOfNode (resolveNode r n).1, (resolveNode r n).2) := by
  cases n with
  | html m => rfl
  | table headers source placeholder m => rfl
  | container tag attrs children line m =>
    rw [leavesOfNode, leaves_resolve r children h, resolveNode, leavesOfNode]
  | root children => exact absurd h (by simp [isContentNode])

/-- **The leaves of a resolved tree** are the leaves resolved side by side, without
the containers around them. -/
theorem leaves_resolve (r : Resolver) (ns : List Node) (h : isContent ns = true) :
    resolve r (leavesOf ns) = (leavesOf (resolve r ns).1, (resolve r ns).2) := by
  cases ns with
  | nil => rfl
  | cons n ns =>
    obtain ⟨hn, hns⟩ := isContent_cons.1 h
    rw [leavesOf, resolve_append, leaves_resolveNode r n hn, leaves_resolve _ ns hns, resolve_cons, leavesOf]

end

/-! ## Trees -/

/-- **A tree comes out once.** Whatever a resolver has seen before, and whatever
markup tables and containers had: a tree that it resolves is written as it is
rendered, in document order, each container around what is inside it. Its leaves
are what they are when they are resolved on their own, so nothing is rewritten
again for a container around it. -/
theorem resolved_tree_renders (r : Resolver) {tree : List Node} (h : isContent tree = true) :
    serialize (r.resolveTree tree).1.children = renderNodes r.tables tree ∧
      leavesOf (r.resolveTree tree).1.children = (resolve r (leavesOf tree)).1 := by
  refine ⟨serialize_resolve r tree h, ?_⟩
  rw [leaves_resolve r tree h]
  rfl

/-- A container in a container, both with markup that no longer fits. -/
def cardTree : List Node :=
  [.html "x [a]\x7b.n\x7d",
    .container "div" [] [.html [], .container "Card" "id=\"c\"" [.html ":[v]"] 3 "old"] 1 "stale"]

theorem resolved_tree_renders_card :
    isContent cardTree = true ∧
      renderNodes 2 cardTree =
        "x <span class=\"n\">a</span>\n<div>\n<Card id=\"c\">\n\x7b\x7b v \x7d\x7d\n</Card>\n</div>\n" ∧
      serialize ((⟨2, []⟩ : Resolver).resolveTree cardTree).1.children = renderNodes 2 cardTree ∧
      leavesOf ((⟨2, []⟩ : Resolver).resolveTree cardTree).1.children =
        (resolve ⟨2, []⟩ (leavesOf cardTree)).1 := by
  have hcontent : isContent cardTree = true := by decide
  obtain ⟨htext, hleaves⟩ := resolved_tree_renders ⟨2, []⟩ hcontent
  exact ⟨hcontent, by decide +kernel, htext, hleaves⟩

end Docweave

import Docweave.Proofs.ColumnReferences
import Docweave.Proofs.JsonStrings
import Docweave.Proofs.TreeRendering

/-!
# Tables and their columns

A resolver counts tables and collects declarations. The two are separate, and
both go on from tree to tree and through containers: the number in the markup of
a table has to be the number in its declaration, wherever the table is.

> `tables_resolve_numbered`, `declarations_resolve`: what nodes do to the tables
> and the declarations, by recursion on the tree.

> `resolveTrees_cons`, `resolveTrees_get`: trees one after the other.

> `readDeclaration?_headersDeclaration`: a declaration binds the variable of its
> table to the labels of its table.

> `tables_keep_their_columns`: numbers run in document order across containers and
> trees, each table refers to its own variable, and each tree brings along the
> declarations of all tables so far.
-/

namespace Docweave

open Docweave.Text (dropPrefix? readJsonStrings)

/-! ## Numbers -/

/-- A table with the markup it has under a number. -/
def TableNode.under (t : TableNode) (number : Nat) : TableNode :=
  { t with markup := tableMarkup number t.headers t.source t.placeholder }

/-- Tables with their markup, numbered from a number on. -/
def numberedFrom (number : Nat) (ts : List TableNode) : List TableNode :=
  (ts.zipIdx number).map fun (t, i) => t.under i

/-- The declarations of tables numbered from a number on. -/
def declarationsFrom (number : Nat) (ts : List TableNode) : List Text :=
  (ts.zipIdx number).map fun (t, i) => headersDeclaration i t.headers

section

variable {number : Nat} {ts us : List TableNode}

theorem numberedFrom_append :
    numberedFrom number (ts ++ us) = numberedFrom number ts ++ numberedFrom (number + ts.length) us := by
  rw [numberedFrom, List.zipIdx_append, List.map_append]
  rfl

theorem declarationsFrom_append :
    declarationsFrom number (ts ++ us) =
      declarationsFrom number ts ++ declarationsFrom (number + ts.length) us := by
  rw [declarationsFrom, List.zipIdx_append, List.map_append]
  rfl

end

/-! ## Nodes -/

mutual

theorem tables_resolveNode_numbered (r : Resolver) (n : Node) (h : isContentNode n = true) :
    tablesOf [(resolveNode r n).1] = numberedFrom r.tables (tablesOf [n]) := by
  cases n with
  | html m => rfl
  | table headers source placeholder m => rfl
  | container tag attrs children line m =>
    rw [resolveNode, tablesOf_container, tablesOf_container]
    exact tables_resolve_numbered r children h
  | root children => exact absurd h (by simp [isContentNode])

/-- The tables of resolved nodes are numbered in document order. -/
theorem tables_resolve_numbered (r : Resolver) (ns : List Node) (h : isContent ns = true) :
    tablesOf (resolve r ns).1 = numberedFrom r.tables (tablesOf ns) := by
  cases ns with
  | nil => rfl
  | cons n ns =>
    obtain ⟨hn, hns⟩ := isContent_cons.1 h
    rw [resolve_cons, tablesOf_cons, tablesOf_cons n ns, numberedFrom_append,
      tables_resolveNode_numbered r n hn, tables_resolve_numbered _ ns hns, tables_resolveNode r n hn]

end

mutual

theorem declarations_resolveNode (r : Resolver) (n : Node) (h : isContentNode n = true) :
    (resolveNode r n).2.declarations = r.declarations ++ declarationsFrom r.tables (tablesOf [n]) := by
  cases n with
  | html m => exact (List.append_nil _).symm
  | table headers source placeholder m => rfl
  | container tag attrs children line m =>
    rw [tablesOf_container]
    exact declarations_resolve r children h
  | root children => exact absurd h (by simp [isContentNode])

/-- Nodes add the declarations of their tables, in document order and under the
numbers that the tables have. -/
theorem declarations_resolve (r : Resolver) (ns : List Node) (h : isContent ns = true) :
    (resolve r ns).2.declarations = r.declarations ++ declarationsFrom r.tables (tablesOf ns) := by
  cases ns with
  | nil => exact (List.append_nil _).symm
  | cons n ns =>
    obtain ⟨hn, hns⟩ := isContent_cons.1 h
    rw [resolve_cons, declarations_resolve _ ns hns, declarations_resolveNode r n hn, tables_resolveNode r n hn,
      tablesOf_cons n ns, declarationsFrom_append, List.append_assoc]

end

/-! ## Trees -/

/-- The resolver has numbered and declared these tables, and no others. -/
structure Resolver.HasSeen (r : Resolver) (ts : List TableNode) : Prop where
  tables : r.tables = ts.length
  declarations : r.declarations = declarationsFrom 0 ts

section

variable {r : Resolver} {ts : List TableNode} {tree : List Node} {trees : List (List Node)}

theorem hasSeen_nothing : Resolver.HasSeen {} [] := ⟨rfl, rfl⟩

/-- A tree adds its tables to those that the resolver has seen. -/
theorem hasSeen_resolveTree (h : r.HasSeen ts) (hcontent : isContent tree = true) :
    (r.resolveTree tree).2.HasSeen (ts ++ tablesOf tree) := by
  constructor
  · rw [List.length_append, ← h.tables]
    exact tables_resolve r tree hcontent
  · rw [declarationsFrom_append, ← h.declarations, Nat.zero_add, ← h.tables]
    exact declarations_resolve r tree hcontent

theorem resolveTrees_cons (r : Resolver) (tree : List Node) (trees : List (List Node)) :
    r.resolveTrees (tree :: trees) = (r.resolveTree tree).1 :: (r.resolveTree tree).2.resolveTrees trees := rfl

theorem length_resolveTrees (r : Resolver) (trees : List (List Node)) :
    (r.resolveTrees trees).length = trees.length := by
  induction trees generalizing r with
  | nil => rfl
  | cons tree trees ih => rw [resolveTrees_cons, List.length_cons, List.length_cons, ih]

/-- The tables of all trees are numbered as those of one tree are. -/
theorem tables_resolveTrees (r : Resolver) (hcontent : ∀ tree ∈ trees, isContent tree = true) :
    (r.resolveTrees trees).flatMap (fun result => tablesOf result.children) =
      numberedFrom r.tables (trees.flatMap tablesOf) := by
  induction trees generalizing r with
  | nil => rfl
  | cons tree trees ih =>
    have hfirst := hcontent tree (List.mem_cons_self ..)
    have hrest := ih (r.resolveTree tree).2 fun t ht => hcontent t (List.mem_cons_of_mem _ ht)
    have htables : (r.resolveTree tree).2.tables = r.tables + (tablesOf tree).length :=
      tables_resolve r tree hfirst
    have htree : tablesOf (r.resolveTree tree).1.children = numberedFrom r.tables (tablesOf tree) :=
      tables_resolve_numbered r tree hfirst
    rw [resolveTrees_cons, List.flatMap_cons, List.flatMap_cons, numberedFrom_append, hrest, htables, htree]

/-- **The tree at a place** is resolved behind all tables of the trees before it. -/
theorem resolveTrees_get (h : r.HasSeen ts) (hcontent : ∀ tree ∈ trees, isContent tree = true) {k : Nat}
    (htree : trees[k]? = some tree) :
    ∃ result, (r.resolveTrees trees)[k]? = some result ∧
      tablesOf result.children =
        numberedFrom (ts ++ (trees.take k).flatMap tablesOf).length (tablesOf tree) ∧
      result.declarations = declarationsFrom 0 (ts ++ (trees.take (k + 1)).flatMap tablesOf) := by
  induction trees generalizing r ts k with
  | nil => exact absurd htree (by simp)
  | cons first trees ih =>
    have hfirst := hcontent first (List.mem_cons_self ..)
    have hseen := hasSeen_resolveTree h hfirst
    cases k with
    | zero =>
      obtain rfl := Option.some.inj htree
      refine ⟨(r.resolveTree first).1, rfl, ?_, ?_⟩
      · rw [List.take_zero, List.flatMap_nil, List.append_nil, ← h.tables]
        exact tables_resolve_numbered r first hfirst
      · rw [List.take_succ_cons, List.take_zero, List.flatMap_cons, List.flatMap_nil, List.append_nil]
        exact hseen.declarations
    | succ k =>
      rw [List.getElem?_cons_succ] at htree
      obtain ⟨result, hget, htables, hdeclared⟩ :=
        ih hseen (fun t ht => hcontent t (List.mem_cons_of_mem _ ht)) htree
      rw [List.append_assoc] at htables hdeclared
      exact ⟨result, hget, htables, hdeclared⟩

end

/-! ## Declarations -/

/-- The variable and the labels that a declaration binds. -/
def readDeclaration? (d : Text) : Option (Text × List Text) := do
  let binding ← dropPrefix? "const " d
  let value ← dropPrefix? " = " (binding.dropWhile isVariableChar)
  let labels ← readJsonStrings value
  return (binding.takeWhile isVariableChar, labels)

theorem isVariableChar_of_headersVariable (number : Nat) :
    ∀ c ∈ headersVariable number, isVariableChar c = true := by
  intro c hc
  rcases List.mem_append.1 hc with hstem | hdigit
  · exact isVariableChar_of_stem c hstem
  · have hd : Text.isDigit c = true := Text.isDigit_of_mem_ofNat hdigit
    simp only [isVariableChar, Text.isAlphanumeric, hd, Bool.or_true]

/-- **A declaration binds the variable of a number to the labels.** -/
theorem readDeclaration?_headersDeclaration (number : Nat) (headers : List Text) :
    readDeclaration? (headersDeclaration number headers) = some (headersVariable number, headers) := by
  have hname := isVariableChar_of_headersVariable number
  have hvalue : readJsonStrings (Text.markupJsonStrings headers) = some headers :=
    Text.readJsonStrings_markupJsonStrings headers
  have hshape : headersDeclaration number headers =
      "const " ++ (headersVariable number ++ (" = " ++ Text.markupJsonStrings headers)) := by
    unfold headersDeclaration
    rw [List.append_assoc, List.append_assoc]
  have hconst : dropPrefix? "const " (headersDeclaration number headers) =
      some (headersVariable number ++ (" = " ++ Text.markupJsonStrings headers)) :=
    Text.dropPrefix?_eq_some.2 hshape
  have hequals : dropPrefix? " = " (" = " ++ Text.markupJsonStrings headers) =
      some (Text.markupJsonStrings headers) := Text.dropPrefix?_eq_some.2 rfl
  have htake : (headersVariable number ++ (" = " ++ Text.markupJsonStrings headers)).takeWhile isVariableChar =
      headersVariable number := by
    rw [List.takeWhile_append_of_pos hname]
    exact List.append_nil _
  have hdrop : (headersVariable number ++ (" = " ++ Text.markupJsonStrings headers)).dropWhile isVariableChar =
      " = " ++ Text.markupJsonStrings headers := by
    rw [List.dropWhile_append_of_pos hname]
    rfl
  unfold readDeclaration?
  rw [hconst]
  show (dropPrefix? " = " (List.dropWhile _ _)).bind _ = _
  rw [hdrop, hequals]
  show (readJsonStrings (Text.markupJsonStrings headers)).bind _ = _
  rw [hvalue, htake]
  rfl

theorem headersVariable_inj {i j : Nat} : headersVariable i = headersVariable j ↔ i = j := by
  refine ⟨fun h => ?_, fun h => h ▸ rfl⟩
  have hdigits := congrArg (fun ds => Nat.ofDigitChars 10 ds 0) (List.append_cancel_left h)
  simpa [Text.ofNat] using hdigits

/-- No declaration is there twice: they bind different variables. -/
theorem nodup_declarationsFrom (number : Nat) (ts : List TableNode) : (declarationsFrom number ts).Nodup := by
  have hnumbers : ((ts.zipIdx number).map Prod.snd).Nodup := by
    rw [List.zipIdx_map_snd]
    exact List.nodup_range' ..
  have hapart : (ts.zipIdx number).Pairwise fun s t =>
      headersDeclaration s.2 s.1.headers ≠ headersDeclaration t.2 t.1.headers := by
    refine (List.pairwise_map.1 hnumbers).imp fun hne hsame => hne ?_
    have hread := congrArg readDeclaration? hsame
    rw [readDeclaration?_headersDeclaration, readDeclaration?_headersDeclaration] at hread
    exact headersVariable_inj.1 (Prod.mk.inj (Option.some.inj hread)).1
  exact List.pairwise_map.2 hapart

/-! ## Tables in document order -/

/-- The stem of variables with column labels is not written in a table. -/
def TableNode.IsPlain (t : TableNode) : Prop :=
  (∀ x ∈ t.headers, ¬ columnStem <:+: x) ∧ ¬ columnStem <:+: t.source ∧ ¬ columnStem <:+: t.placeholder

instance (t : TableNode) : Decidable t.IsPlain :=
  inferInstanceAs (Decidable (_ ∧ _ ∧ _))

theorem references_under {t : TableNode} (h : t.IsPlain) (number : Nat) :
    columnReferences (t.under number).markup = [Text.ofNat number] := by
  obtain ⟨hheaders, hsource, hplaceholder⟩ := h
  exact references_tableMarkup number (fun x hx => references_eq_nil.2 (hheaders x hx))
    (references_eq_nil.2 hsource) (references_eq_nil.2 hplaceholder)

/-- **Tables and declarations stay together.** One resolver, trees one after the
other: the tables of all trees are numbered from 0 on in document order, however
deep in containers they are, and a tree brings along one declaration for each
table up to its end, in that order. What is under a number belongs together: the
markup refers to the variable of that number and to no other, and the declaration
binds that variable to the labels of that table. -/
theorem tables_keep_their_columns {trees : List (List Node)} (hcontent : ∀ tree ∈ trees, isContent tree = true)
    (hplain : ∀ t ∈ trees.flatMap tablesOf, t.IsPlain) :
    ((({} : Resolver).resolveTrees trees).length = trees.length ∧
      ∀ k tree, trees[k]? = some tree →
        ∃ result, (({} : Resolver).resolveTrees trees)[k]? = some result ∧
          tablesOf result.children = numberedFrom ((trees.take k).flatMap tablesOf).length (tablesOf tree) ∧
          result.declarations = declarationsFrom 0 ((trees.take (k + 1)).flatMap tablesOf) ∧
          result.declarations.Nodup) ∧
      (({} : Resolver).resolveTrees trees).flatMap (fun result => tablesOf result.children) =
        numberedFrom 0 (trees.flatMap tablesOf) ∧
      ∀ i t, (trees.flatMap tablesOf)[i]? = some t →
        columnReferences (t.under i).markup = [Text.ofNat i] ∧
          readDeclaration? (headersDeclaration i t.headers) = some (headersVariable i, t.headers) := by
  refine ⟨⟨length_resolveTrees _ _, fun k tree htree => ?_⟩, ?_, fun i t ht => ?_⟩
  · obtain ⟨result, hget, htables, hdeclared⟩ := resolveTrees_get hasSeen_nothing hcontent htree
    rw [List.nil_append] at htables hdeclared
    exact ⟨result, hget, htables, hdeclared, hdeclared ▸ nodup_declarationsFrom 0 _⟩
  · exact tables_resolveTrees {} hcontent
  · exact ⟨references_under (hplain t (List.mem_of_getElem? ht)) i,
      readDeclaration?_headersDeclaration i t.headers⟩

/-- A table in a container, and one in the next tree. -/
def columnTrees : List (List Node) :=
  [[.container "div" [] [.html "x", .table ["a", "b\""] ":data-source=\"rows\"" "none" []] 1 []],
    [.table ["c"] ":data-source=\"more\"" [] [], .html "y"]]

theorem tables_keep_their_columns_pair :
    (({} : Resolver).resolveTrees columnTrees).map (·.declarations) =
        ([["const __mdv_headers_0 = [\"a\",\"b\\\"\"]"],
          ["const __mdv_headers_0 = [\"a\",\"b\\\"\"]", "const __mdv_headers_1 = [\"c\"]"]] :
          List (List Text)) ∧
      ∀ i t, (columnTrees.flatMap tablesOf)[i]? = some t →
        columnReferences (t.under i).markup = [Text.ofNat i] ∧
          readDeclaration? (headersDeclaration i t.headers) = some (headersVariable i, t.headers) :=
  ⟨by decide +kernel, (tables_keep_their_columns (by decide) (by decide +kernel)).2.2⟩

end Docweave

import Docweave.Proofs.Composition
import Docweave.Proofs.StaticTables
import Docweave.Proofs.TableColumns
import Docweave.Proofs.WordPlaces

/-!
# Data sources

Whether a table is dynamic is decided by a search for `:data-source` anywhere in a
line in braces. Its rows iterate over the value that the words of the line give to
`:data-source`. A line can pass the first test and give no value, so the two are
related here line by line.

> `finds_iff_names`: of a line that passes the test a value is found exactly when
> the first word that assigns one to `:data-source` assigns one that is not empty.

> `visits_tables`: every table that the build ever holds has its line from the
> stream.

> `dynamic_tables_named_source`: so the rows of a dynamic table iterate over a value
> exactly when its line names one, and when all lines that pass the test do, a table
> without a source is static.
-/

namespace Docweave

open Markdown (Cell)
open Qualifier (lookup? Assigns lookup?_eq_some_iff unquote_eq_nil_iff)

/-! ## Lines -/

/-- The attribute that names the data source of a table. -/
def sourceAttribute : Text := ":data-source"

/-- A line is in braces, and the first word in them that gives `:data-source` a value
gives it one that is not empty. -/
def NamesSource (line : Text) : Prop :=
  ∃ inner value, Text.trim line = '\x7b' :: (inner ++ ['\x7d']) ∧ Assigns inner sourceAttribute value ∧
    ¬ (value = [] ∨ value = [Text.quote, Text.quote] ∨ value = [Text.apostrophe, Text.apostrophe])

section

variable {line inner : Text}

theorem trim_braces (inner : Text) :
    Text.trim ('\x7b' :: (inner ++ ['\x7d'])) = '\x7b' :: (inner ++ ['\x7d']) := by
  rw [Text.trim_cons _ (by decide), Text.trimRight, List.reverse_append, List.reverse_singleton,
    List.singleton_append, List.dropWhile_cons_of_neg (by decide), List.reverse_cons, List.reverse_reverse]

/-- A line that passes the test is in braces. -/
theorem braces_of_isDataSourceLine (h : isDataSourceLine line = true) :
    ∃ inner, Text.trim line = '\x7b' :: (inner ++ ['\x7d']) := by
  unfold isDataSourceLine at h
  simp only [Bool.and_eq_true] at h
  obtain ⟨⟨hstart, hend⟩, -⟩ := h
  obtain ⟨rest, hrest⟩ := Option.isSome_iff_exists.1 hstart
  obtain ⟨front, hfront⟩ := Text.endsWith_iff.1 hend
  have hopen : Text.trim line = '\x7b' :: rest := Text.dropPrefix?_eq_some.1 hrest
  rw [hfront] at hopen
  cases front with
  | nil => exact absurd (List.cons.inj hopen).1 (by decide)
  | cons c front =>
    obtain ⟨rfl, -⟩ := List.cons.inj hopen
    exact ⟨front, hfront⟩

theorem trim_of_isDataSourceLine (h : isDataSourceLine line = true) :
    Text.trim (Text.trim line) = Text.trim line := by
  obtain ⟨inner, hinner⟩ := braces_of_isDataSourceLine h
  rw [hinner, trim_braces]

theorem isDataSourceLine_trim (h : isDataSourceLine line = true) : isDataSourceLine (Text.trim line) = true := by
  unfold isDataSourceLine at h ⊢
  rw [trim_of_isDataSourceLine h]
  exact h

theorem namesSource_trim (h : isDataSourceLine line = true) :
    NamesSource (Text.trim line) ↔ NamesSource line := by
  unfold NamesSource
  rw [trim_of_isDataSourceLine h]

/-- **A value is found when one is named.** -/
theorem finds_iff_names (h : isDataSourceLine line = true) :
    (∃ value, value ≠ [] ∧ lookup? line sourceAttribute = some value) ↔ NamesSource line := by
  obtain ⟨inner, hinner⟩ := braces_of_isDataSourceLine h
  have hname : '=' ∉ sourceAttribute := by decide
  constructor
  · rintro ⟨value, hne, hfound⟩
    obtain ⟨raw, hassigns, rfl⟩ := (lookup?_eq_some_iff hinner hname).1 hfound
    exact ⟨inner, raw, hinner, hassigns, fun hempty => hne (unquote_eq_nil_iff.2 hempty)⟩
  · rintro ⟨inner', raw, hinner', hassigns, hne⟩
    obtain rfl : inner' = inner := by
      rw [hinner'] at hinner
      exact List.append_cancel_right (List.cons.inj hinner).2
    exact ⟨_, fun hempty => hne (unquote_eq_nil_iff.1 hempty),
      (lookup?_eq_some_iff hinner hname).2 ⟨raw, hassigns, rfl⟩⟩

end

/-! ## Where a line comes from -/

/-- The line of a table is a text of the stream that passes the test. -/
def HasLineOf (ts : List Token) (t : TableNode) : Prop :=
  ∃ i ∈ ts, i.kind = .inline ∧ isDataSourceLine i.content = true ∧ t.source = Text.trim i.content

/-- The tables that have been built so far. -/
def Scaffold.tables (s : Scaffold) : List TableNode :=
  tablesOf s.nodes ++ s.frames.flatMap fun f => tablesOf f.children

section

variable {ts rest : List Token} {t : Token}

theorem see_source (s : TableScan) (t : Token) (ts : List Token) :
    (s.see (t :: ts)).source = s.source ∨
      t.kind = .inline ∧ isDataSourceLine t.content = true ∧
        (s.see (t :: ts)).source = Text.trim t.content := by
  unfold TableScan.see
  simp only
  split
  next hline =>
    simp only [Bool.and_eq_true, decide_eq_true_eq] at hline
    exact Or.inr ⟨hline.1, hline.2, rfl⟩
  next =>
    left
    split <;> rfl

/-- The source of a scan is a text that it has gone over. -/
theorem scanTable_source (s : TableScan) (ts : List Token) :
    (scanTable s ts).1.source = s.source ∨
      ∃ i ∈ ts, i.kind = .inline ∧ isDataSourceLine i.content = true ∧
        (scanTable s ts).1.source = Text.trim i.content := by
  fun_induction scanTable s ts with
  | case1 => exact Or.inl rfl
  | case2 => exact Or.inl rfl
  | case3 s t ts hend text hcell ih =>
    rcases ih with hsame | ⟨i, hi, hfound⟩
    · exact Or.inl hsame
    · exact Or.inr ⟨i, List.mem_cons_of_mem _ (List.mem_of_mem_drop hi), hfound⟩
  | case4 s t ts hend hcell ih =>
    rcases ih with hsame | ⟨i, hi, hfound⟩
    · rw [hsame]
      rcases see_source s t ts with hseen | hfound
      · exact Or.inl hseen
      · exact Or.inr ⟨t, List.mem_cons_self .., hfound⟩
    · exact Or.inr ⟨i, List.mem_cons_of_mem _ hi, hfound⟩

/-- **A dynamic table has a line of the stream.** -/
theorem dynamicTable?_hasLine {n : Node} (h : dynamicTable? ts = some (n, rest)) :
    ∃ t, tablesOf [n] = [t] ∧ HasLineOf ts t := by
  unfold dynamicTable? at h
  simp only at h
  split at h
  next hsource =>
    obtain ⟨rfl, -⟩ := Prod.mk.inj (Option.some.inj h)
    refine ⟨_, rfl, ?_⟩
    rcases scanTable_source {} ts with hnone | ⟨i, hi, hinline, hline, hfound⟩
    · rw [hnone] at hsource
      exact absurd hsource (by decide)
    · exact ⟨i, hi, hinline, hline, hfound⟩
  next =>
    split at h
    next i hparagraph =>
      split at h
      next hline =>
        obtain ⟨rfl, -⟩ := Prod.mk.inj (Option.some.inj h)
        obtain ⟨o, c, more, hbehind, -, -, hinline, -⟩ := markerParagraph?_eq_some hparagraph
        rw [scanTable_snd] at hbehind
        have hmem : i ∈ (ts.dropWhile beforeTableEnd).drop 1 := by
          rw [hbehind]
          simp
        exact ⟨_, rfl, i, (List.dropWhile_suffix _).subset (List.mem_of_mem_drop hmem), hinline, hline, rfl⟩
      next => exact absurd h (by simp)
    next => exact absurd h (by simp)

/-! ## Tables on the way -/

theorem tablesOf_html {n : Node} (h : n.IsHtml) : tablesOf [n] = [] := by
  obtain ⟨m, rfl⟩ := h
  rfl

theorem mem_tables_push {s : Scaffold} {n : Node} {t : TableNode} :
    t ∈ (s.push n).tables ↔ t ∈ s.tables ∨ t ∈ tablesOf [n] := by
  unfold Scaffold.tables
  cases hframes : s.frames with
  | nil =>
    rw [push_of_nil hframes]
    simp [tablesOf_append]
  | cons f fs =>
    rw [push_of_cons hframes]
    simp only [List.flatMap_cons, tablesOf_append, List.mem_append]
    tauto

end

/-- The rest of a stream is of the stream, and the tables that have been built have
their lines from it. -/
structure Sourced (ts : List Token) (σ : BuildState) : Prop where
  within : ∀ x ∈ σ.rest, x ∈ ts
  lines : ∀ t ∈ σ.scaffold.tables, HasLineOf ts t

section

variable {ctx : BuildContext} {σ τ υ : BuildState} {ts : List Token} {log : BuildLog}

theorem hasLineOf_mono {us : List Token} {t : TableNode} (h : HasLineOf us t) (hsub : ∀ x ∈ us, x ∈ ts) :
    HasLineOf ts t := by
  obtain ⟨i, hi, hline⟩ := h
  exact ⟨i, hsub i hi, hline⟩

theorem sourced_start {us : List Token} (hsub : ∀ x ∈ us, x ∈ ts) : Sourced ts (BuildState.start log us) :=
  ⟨hsub, fun _ ht => absurd ht (by simp [BuildState.start, Scaffold.tables, tablesOf, leavesOf])⟩

/-- The part of the stream inside a container is of the stream. -/
theorem inner_subset {inner rest : List Token} {q : Option Text} {t : Token}
    (hsplit : splitContainer? 0 (ts.drop 2) = some (inner, q, rest)) : ∀ x ∈ inner, x ∈ t :: ts := by
  intro x hx
  obtain ⟨o, i, c, hts, -⟩ := splitContainer?_eq_some hsplit
  have hdrop : x ∈ ts.drop 2 := by
    rw [hts]
    exact List.mem_append_left _ hx
  exact List.mem_cons_of_mem _ (List.mem_of_mem_drop hdrop)

/-- One step keeps the lines, when the runs inside containers do. -/
theorem buildStep_sourced (h : BuildStep ctx σ τ)
    (hinside : ∀ υ nodes log, υ.rest.length < σ.rest.length → υ.run ctx = .ok (nodes, log) →
      Sourced ts υ → ∀ t ∈ tablesOf nodes, HasLineOf ts t)
    (hσ : Sourced ts σ) : Sourced ts τ := by
  refine ⟨fun x hx => hσ.within x ((buildStep_suffix h).subset hx), ?_⟩
  cases h with
  | @container s log t us inner q rest children log' hopen hsplit hinner =>
    intro table htable
    rcases mem_tables_push.1 htable with hold | hnew
    · exact hσ.lines table hold
    · have hshort := length_splitContainer? hsplit
      have hchildren : table ∈ tablesOf children := by
        cases q <;> exact (tablesOf_container _ _ children _ _) ▸ hnew
      refine hinside _ children log' ?_ hinner ?_ table hchildren
      · simp only [BuildState.start, List.length_cons, List.length_drop] at *
        omega
      · exact sourced_start fun x hx => hσ.within x (inner_subset hsplit x hx)
  | @table s log t us n rest hkind hframes hfound =>
    intro table htable
    rcases mem_tables_push.1 htable with hold | hnew
    · exact hσ.lines table hold
    · obtain ⟨found, htables, hline⟩ := dynamicTable?_hasLine hfound
      rw [htables, List.mem_singleton] at hnew
      subst hnew
      exact hasLineOf_mono hline fun x hx => hσ.within x (List.mem_cons_of_mem _ hx)
  | @opening s log t us e hopen hkind htable =>
    intro table htable
    exact hσ.lines table (by simpa [Scaffold.tables, tablesOf, leavesOf] using htable)
  | @closing s log t us e f fs hkind hframes =>
    -- what is in the frame goes into a fragment
    intro table htable
    rcases mem_tables_push.1 htable with hold | hnew
    · refine hσ.lines table ?_
      simp only [Scaffold.tables, hframes, List.flatMap_cons, List.mem_append] at hold ⊢
      exact hold.imp id Or.inr
    · rw [tablesOf_html (close_isHtml ctx f log)] at hnew
      exact absurd hnew (by simp)
  | @leaf s log t us n log' hleaf =>
    intro table htable
    rcases mem_tables_push.1 htable with hold | hnew
    · exact hσ.lines table hold
    · rw [tablesOf_html (leafNode?_isHtml hleaf)] at hnew
      exact absurd hnew (by simp)
  | skip => exact hσ.lines

/-- A run that succeeds returns tables with lines of the stream. -/
theorem run_sourced {nodes : List Node} (h : σ.run ctx = .ok (nodes, log)) (hσ : Sourced ts σ) :
    ∀ t ∈ tablesOf nodes, HasLineOf ts t := by
  revert hσ
  refine run_ok_induction ?_ ?_ h
  · intro nodes log hσ t ht
    exact hσ.lines t (List.mem_append_left _ ht)
  · intro σ τ nodes log hstep ih hinside hσ
    exact ih (buildStep_sourced hstep hinside hσ)

theorem visits_sourced (h : Visits ctx σ υ) (hσ : Sourced ts σ) : Sourced ts υ := by
  induction h with
  | here => exact hσ
  | step hstep _ ih => exact ih (buildStep_sourced hstep (fun _ _ _ _ hrun hυ => run_sourced hrun hυ) hσ)
  | inside hopen hsplit _ ih =>
    exact ih (sourced_start fun x hx => hσ.within x (inner_subset hsplit x hx))

/-- **Every table has its line from the stream**, wherever the build is and whether it
succeeds or not. -/
theorem visits_tables (h : Visits ctx (BuildState.start log ts) υ) : Sourced ts υ :=
  visits_sourced h (sourced_start fun _ hx => hx)

end

/-! ## Rows -/

/-- The markup of a table in front of its rows. -/
def tableTop (headers : List Text) : Text :=
  "<table>\n  <thead>\n    <tr>" ++ headers.flatMap (fun h => element "th" [] h) ++
    "</tr>\n  </thead>\n  <tbody>\n"

/-- The opening of a row for each element of a value. -/
def rowsOver (value : Text) : Text :=
  "    <tr v-if=\"" ++ value ++ " && " ++ value ++ ".length > 0\" v-for=\"item in " ++ value ++ "\" :key=\"item."

/-- The rows of a table iterate over a value. -/
def TableNode.IteratesOver (t : TableNode) (value : Text) : Prop :=
  tableTop t.headers ++ rowsOver value <+: t.markup

/-- The rows iterate over what is looked up in the line of the table. -/
theorem iterates_under (t : TableNode) (number : Nat) :
    (t.under number).IteratesOver ((lookup? t.source sourceAttribute).getD []) := by
  unfold TableNode.IteratesOver TableNode.under tableMarkup tableTop rowsOver sourceAttribute
  apply Exists.intro
  simp only [List.append_assoc]
  rfl

/-! ## Texts of a table -/

section

variable {x : Token} {ts : List Token} {level : Nat}

theorem mem_wrapTokens (element : Element) (tag : Text) (line level : Nat) (h : x ∈ ts) :
    x ∈ wrapTokens element tag line level [] ts := by
  unfold wrapTokens
  simp [h]

/-- The text of a cell below the header is a text of the table. -/
theorem mem_tableInside (header : List Cell) {rows : List (List Cell)} {l : Text} (h : l ∈ bodyTexts rows) :
    ∃ i ∈ tableInside header rows, i.kind = .inline ∧ i.content = l := by
  obtain ⟨c, hc, rfl⟩ := List.mem_map.1 h
  obtain ⟨cells, hcells, hc⟩ := List.mem_flatten.1 hc
  refine ⟨inlineToken c.lines c.content 4, ?_, rfl, rfl⟩
  have hcell : inlineToken c.lines c.content 4 ∈ cellTokens .td 3 cells :=
    List.mem_flatMap.2 ⟨c, hc, mem_wrapTokens _ _ _ _ (List.mem_singleton.2 rfl)⟩
  have hrow : inlineToken c.lines c.content 4 ∈ rowTokens .td cells := mem_wrapTokens _ _ _ _ hcell
  cases rows with
  | nil => exact absurd hcells (by simp)
  | cons first rows =>
    have hbody : inlineToken c.lines c.content 4 ∈ bodyTokens (first :: rows) :=
      mem_wrapTokens _ _ _ _ (List.mem_flatMap.2 ⟨cells, hcells, hrow⟩)
    exact List.mem_append_left _ (List.mem_append_right _ hbody)

end

/-- **Dynamic tables and their sources.** Take any stream and any state in which its
build, or the build of a container in it, ever is. Every table that has been built
has a line of the stream that passes the test, and its rows iterate over what is
looked up in this line; a value that is not empty is found exactly when the line
names one. Now let all texts of the stream that pass the test name a source. Then
the rows of every table iterate over a value that is not empty, and a table of which
no cell below the header and no paragraph right below names a source becomes one
fragment, as does a table inside another block. -/
theorem dynamic_tables_named_source {ctx : BuildContext} {log : BuildLog} {ts : List Token} {υ : BuildState}
    (h : Visits ctx (BuildState.start log ts) υ) :
    (∀ t ∈ υ.scaffold.tables,
      HasLineOf ts t ∧
      ((∃ value, value ≠ [] ∧ lookup? t.source sourceAttribute = some value) ↔ NamesSource t.source) ∧
      ∀ number, (t.under number).IteratesOver ((lookup? t.source sourceAttribute).getD [])) ∧
    ((∀ i ∈ ts, i.kind = .inline → isDataSourceLine i.content = true → NamesSource i.content) →
      (∀ t ∈ υ.scaffold.tables, ∃ value, value ≠ [] ∧ lookup? t.source sourceAttribute = some value ∧
        ∀ number, (t.under number).IteratesOver value) ∧
      ∀ level header rows more, υ.rest = Token.ofBlock level (.table header rows) ++ more →
        (υ.scaffold.frames = [] → level = 0 ∧ (∀ l ∈ bodyTexts rows, ¬ NamesSource l) ∧
          ∀ i, markerParagraph? more = some i → ¬ NamesSource i.content) →
        (staticTable ctx header rows υ.log).1.IsHtml ∧
          υ.run ctx = (⟨υ.scaffold.push (staticTable ctx header rows υ.log).1,
            (staticTable ctx header rows υ.log).2, more⟩ : BuildState).run ctx) := by
  have hsourced := visits_tables h
  have hfinds : ∀ t ∈ υ.scaffold.tables,
      ((∃ value, value ≠ [] ∧ lookup? t.source sourceAttribute = some value) ↔ NamesSource t.source) := by
    intro t ht
    obtain ⟨i, -, -, hline, hsource⟩ := hsourced.lines t ht
    rw [hsource]
    exact finds_iff_names (isDataSourceLine_trim hline)
  refine ⟨fun t ht => ⟨hsourced.lines t ht, hfinds t ht, iterates_under t⟩, fun hnamed => ⟨?_, ?_⟩⟩
  · intro t ht
    obtain ⟨i, hi, hinline, hline, hsource⟩ := hsourced.lines t ht
    have hnames : NamesSource t.source := by
      rw [hsource]
      exact (namesSource_trim hline).2 (hnamed i hi hinline hline)
    obtain ⟨value, hne, hfound⟩ := (hfinds t ht).2 hnames
    refine ⟨value, hne, hfound, fun number => ?_⟩
    have hover := iterates_under t number
    rwa [hfound] at hover
  · intro level header rows more hrest htop
    have hrejected : ∀ i ∈ υ.rest, i.kind = .inline → ¬ NamesSource i.content →
        isDataSourceLine i.content = false := by
      intro i hi hinline hnot
      rw [← Bool.not_eq_true]
      exact fun hline => hnot (hnamed i (hsourced.within i hi) hinline hline)
    obtain ⟨s, log', rest⟩ := υ
    obtain rfl : rest = Token.ofBlock level (.table header rows) ++ more := hrest
    refine ⟨close_isHtml _ _ _, run_static ctx level header rows fun hframes => ?_⟩
    obtain ⟨rfl, hcells, hparagraph⟩ := htop hframes
    rw [ofBlock_table] at hrejected ⊢
    refine (rewinds_static (fun l hl => ?_) fun i hi => ?_ : Rewinds ctx header rows more).found
    · obtain ⟨i, hi, hinline, rfl⟩ := mem_tableInside header hl
      exact hrejected i (List.mem_cons_of_mem _ (List.mem_append_left _ hi)) hinline (hcells _ hl)
    · obtain ⟨o, c, behind, rfl, -, -, hinline, -⟩ := markerParagraph?_eq_some hi
      exact hrejected i (by simp) hinline (hparagraph i hi)

/-- A cell with a word. -/
def wordCell (line : Nat) (word : Text) : Cell := ⟨[⟨line, word⟩], [.text word .none]⟩

/-- A table with one column and one row. -/
def wordTable (line : Nat) (label word : Text) : List Token :=
  Token.ofBlock 0 (.table [wordCell line label] [[wordCell (line + 2) word]])

/-- A table with a line below it, and one without. -/
def twoTables (line : Text) : List Token :=
  wordTable 1 "A" "x" ++ (Token.ofBlock 0 (.paragraph [⟨5, line⟩] []) ++ wordTable 7 "B" "y")

/-- The build has taken the first table with its line, and is in front of the second. -/
def betweenTables (line : Text) : BuildState := ⟨⟨[.table ["A"] line "x" []], []⟩, {}, wordTable 7 "B" "y"⟩

theorem visits_betweenTables {line : Text} (htext : (inlineToken [⟨5, line⟩] [] 1).content = line)
    (htrim : Text.trim line = line) (hline : isDataSourceLine line = true) :
    Visits ⟨[], 0, [], []⟩ (BuildState.start {} (twoTables line)) (betweenTables line) := by
  have hbelow : markerParagraph? (Token.ofBlock 0 (.paragraph [⟨5, line⟩] []) ++ wordTable 7 "B" "y") =
      some (inlineToken [⟨5, line⟩] [] 1) := rfl
  have hfound : CommitsTo ⟨[], 0, [], []⟩ [wordCell 1 "A"] [[wordCell 3 "x"]] _ _ _ :=
    commitsTo_paragraph (by decide) hbelow (by rw [htext]; exact hline)
  have hstep := hfound.step [] {}
  rw [htext, htrim] at hstep
  exact .step hstep (.here _)

/-- A line with a source and more. -/
def rowsLine : Text := "\x7b.wide :data-source=\"rows\"\x7d"

theorem dynamic_tables_named_source_pair :
    Visits ⟨[], 0, [], []⟩ (BuildState.start {} (twoTables rowsLine)) (betweenTables rowsLine) ∧
      (∃ t ∈ (betweenTables rowsLine).scaffold.tables, t.source = rowsLine ∧
        ∀ number, (t.under number).IteratesOver "rows") ∧
      (betweenTables rowsLine).run ⟨[], 0, [], []⟩ = .ok ([.table ["A"] rowsLine "x" [],
        .html "<table><thead><tr><th>B</th></tr></thead><tbody><tr><td>y</td></tr></tbody></table>"], {}) := by
  have hline : isDataSourceLine rowsLine = true := by decide +kernel
  have hlookup : lookup? rowsLine sourceAttribute = some ("rows" : Text) := by decide +kernel
  have hnames : NamesSource rowsLine := (finds_iff_names hline).1 ⟨_, by decide, hlookup⟩
  have hvisits : Visits ⟨[], 0, [], []⟩ (BuildState.start {} (twoTables rowsLine)) (betweenTables rowsLine) :=
    visits_betweenTables (by decide +kernel) (by decide +kernel) hline
  have hlines : ∀ i ∈ twoTables rowsLine, i.kind = .inline → isDataSourceLine i.content = true →
      i.content = rowsLine := by decide +kernel
  obtain ⟨-, hnamed⟩ := dynamic_tables_named_source hvisits
  obtain ⟨htables, hstatic⟩ := hnamed fun i hi hinline hpass => by
    rw [hlines i hi hinline hpass]
    exact hnames
  refine ⟨hvisits, ?_, ?_⟩
  · have hmem : ⟨["A"], rowsLine, "x", []⟩ ∈ (betweenTables rowsLine).scaffold.tables := by decide +kernel
    obtain ⟨value, -, hfound, hover⟩ := htables _ hmem
    obtain rfl : ("rows" : Text) = value := Option.some.inj (hlookup.symm.trans hfound)
    exact ⟨_, hmem, rfl, hover⟩
  · have hplain : ¬ NamesSource "y" := by
      rintro ⟨inner, value, htrim, -⟩
      have htext : Text.trim "y" = ['y'] := by decide +kernel
      rw [htext] at htrim
      exact absurd (List.cons.inj htrim).1 (by decide)
    have hbehind : ∀ i, markerParagraph? [] = some i → ¬ NamesSource i.content := by simp [markerParagraph?]
    obtain ⟨-, hrun⟩ := hstatic 0 [wordCell 7 "B"] [[wordCell 9 "y"]] [] (List.append_nil _).symm
      fun _ => ⟨rfl, List.forall_mem_singleton.2 hplain, hbehind⟩
    rw [hrun, BuildState.run, buildFrom.eq_def]
    rfl

/-- A line that passes the test, because the attribute of another name has this value. -/
def titleLine : Text := "\x7btitle=\":data-source\"\x7d"

/-- The test of a line is a search in its text, so a table may be dynamic without a
data source, and its rows iterate over nothing. -/
theorem rows_over_nothing :
    Visits ⟨[], 0, [], []⟩ (BuildState.start {} (twoTables titleLine)) (betweenTables titleLine) ∧
      ∃ t ∈ (betweenTables titleLine).scaffold.tables, t.source = titleLine ∧
        lookup? t.source sourceAttribute = none ∧ ∀ number, (t.under number).IteratesOver [] := by
  have hvisits : Visits ⟨[], 0, [], []⟩ (BuildState.start {} (twoTables titleLine)) (betweenTables titleLine) :=
    visits_betweenTables (by decide +kernel) (by decide +kernel) (by decide +kernel)
  have hnone : lookup? titleLine sourceAttribute = none := by decide +kernel
  refine ⟨hvisits, ⟨["A"], titleLine, "x", []⟩, by decide +kernel, rfl, hnone, fun number => ?_⟩
  have hover := iterates_under ⟨["A"], titleLine, "x", []⟩ number
  rwa [hnone] at hover

end Docweave

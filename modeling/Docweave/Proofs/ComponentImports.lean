import Docweave.Proofs.BuildSteps
import Docweave.Proofs.ComponentNames
import Docweave.Token.Stream

/-!
# Imports of components

A block whose element is registered is written under the name of a component, and the
component is imported, unless the block's own qualifier names another one. All this
happens when the frame of the block closes, in whichever of the nested runs that is,
and the runs share one list of imports. `Closes` follows a build through its runs and
lists the blocks that it closes; `Frame.Uses` says which component a block uses.

> `close_log`, `close_named`: a block that closes imports the component that it uses,
> and nothing else, and is written under its name.

> `firstUses_closes`: a run keeps the imports those of the blocks that are closed, each
> once and in the order of their first uses.

> `imports_match_uses`: so the imports of a build are those of the components that its
> blocks use.
-/

namespace Docweave

/-- The import of a component file, under its name. -/
def componentImport (path : Text) : Text := importLine (componentName path) path ++ ";"

/-- The block's own qualifier names a component or a slot. -/
def Frame.Overridden (f : Frame) : Prop :=
  ∃ children body, takeQualifier? f.children = some (children, body) ∧ (Qualifier.parse body).kind ≠ .none

/-- The component file that is registered for an element. -/
def BuildContext.registered? (ctx : BuildContext) (element : Text) : Option Text :=
  (ctx.components.find? (·.1 = element)).map (·.2)

/-- The block uses the component file: its element is registered to it, and its own
qualifier does not say otherwise. -/
structure Frame.Uses (ctx : BuildContext) (f : Frame) (path : Text) : Prop where
  registered : ctx.registered? f.tag = some path
  nonempty : path ≠ []
  plain : ¬ f.Overridden

/-- The component file that a block uses, if it uses one. -/
def Frame.used? (ctx : BuildContext) (f : Frame) : Option Text :=
  match takeQualifier? f.children with
  | some (_, body) => if (Qualifier.parse body).kind = .none then ctx.component? f.tag else none
  | none => ctx.component? f.tag

/-- The import that a block records. -/
def Frame.import? (ctx : BuildContext) (f : Frame) : Option Text := (f.used? ctx).map componentImport

/-- A block that has closed: its frame, and the fragment that it has become. -/
structure ClosedBlock where
  frame : Frame
  fragment : Node

/-- The blocks that the run from a state closes, with those of the runs for containers
inside it, in the order in which they close. -/
inductive Closes (ctx : BuildContext) : BuildState → List ClosedBlock → Prop
  | done {s log} : Closes ctx ⟨s, log, []⟩ []
  | container {s log t ts inner q rest children log' within behind}
      (hopen : opensContainer (t :: ts) = true)
      (hsplit : splitContainer? 0 (ts.drop 2) = some (inner, q, rest))
      (hinner : (BuildState.start log inner).run ctx = .ok (children, log'))
      (hwithin : Closes ctx (BuildState.start log inner) within)
      (hbehind : Closes ctx ⟨s.push (containerNode children q t.line), log', rest⟩ behind) :
      Closes ctx ⟨s, log, t :: ts⟩ (within ++ behind)
  | closing {s log t ts e f fs behind}
      (hkind : t.kind = .closes e) (hframes : s.frames = f :: fs)
      (hbehind : Closes ctx
        ⟨Scaffold.push { s with frames := fs } (f.close ctx log).1, (f.close ctx log).2, ts⟩ behind) :
      Closes ctx ⟨s, log, t :: ts⟩ (⟨f, (f.close ctx log).1⟩ :: behind)
  | passing {σ τ t ts behind} (hstep : BuildStep ctx σ τ) (hrest : σ.rest = t :: ts)
      (hopen : opensContainer (t :: ts) = false) (hcloses : ∀ e, t.kind ≠ .closes e)
      (hbehind : Closes ctx τ behind) : Closes ctx σ behind

/-- The lines are those that are used, each once, in the order of their first uses. -/
structure FirstUses (uses lines : List Text) : Prop where
  mem_iff : ∀ line, line ∈ lines ↔ line ∈ uses
  order : lines.Pairwise fun l l' => uses.idxOf l < uses.idxOf l'

/-! ## One block -/

section

variable {ctx : BuildContext} {f : Frame} {log : BuildLog} {path : Text}

theorem component?_eq_some_iff {tag : Text} :
    ctx.component? tag = some path ↔ ctx.registered? tag = some path ∧ path ≠ [] := by
  unfold BuildContext.component? BuildContext.registered?
  cases ctx.components.find? (·.1 = tag) with
  | none => simp
  | some entry =>
    obtain ⟨element, file⟩ := entry
    cases file with
    | nil => simp [eq_comm]
    | cons c file =>
      simp only [List.isEmpty_cons, Bool.false_eq_true, if_false, Option.some.injEq, Option.map_some]
      exact ⟨fun h => ⟨h, by rw [← h]; simp⟩, And.left⟩

/-- A component in use is registered. -/
theorem Frame.Uses.mem_components (h : f.Uses ctx path) : path ∈ ctx.components.map (·.2) := by
  obtain ⟨entry, hentry, rfl⟩ := Option.map_eq_some_iff.1 h.registered
  exact List.mem_map_of_mem (List.mem_of_find?_eq_some hentry)

theorem used?_eq_some_iff : f.used? ctx = some path ↔ f.Uses ctx path := by
  have hplain : f.Uses ctx path ↔ ctx.component? f.tag = some path ∧ ¬ f.Overridden := by
    rw [component?_eq_some_iff]
    exact ⟨fun h => ⟨⟨h.registered, h.nonempty⟩, h.plain⟩, fun h => ⟨h.1.1, h.1.2, h.2⟩⟩
  rw [hplain]
  unfold Frame.used? Frame.Overridden
  cases takeQualifier? f.children with
  | none => simp
  | some r => by_cases hkind : (Qualifier.parse r.2).kind = .none <;> simp [hkind, Prod.ext_iff]

/-- **A block imports** the component that it uses, and nothing else. -/
theorem close_log (ctx : BuildContext) (f : Frame) (log : BuildLog) :
    (f.close ctx log).2 = (f.import? ctx).elim log log.addImport := by
  unfold Frame.close Frame.import? Frame.used?
  cases takeQualifier? f.children with
  | none => cases ctx.component? f.tag <;> simp [componentImport]
  | some r =>
    by_cases hkind : (Qualifier.parse r.2).kind = .none
    · cases ctx.component? f.tag <;> simp [hkind, componentImport, Qualifier.tag]
    · simp [hkind]

/-- **A block is written** under the name of the component that it uses. -/
theorem close_named (log : BuildLog) (h : f.Uses ctx path) :
    ∃ attrs content, (f.close ctx log).1 = .html (element (componentName path) attrs content) := by
  have hc : ctx.component? f.tag = some path := component?_eq_some_iff.2 ⟨h.registered, h.nonempty⟩
  unfold Frame.close
  cases hq : takeQualifier? f.children with
  | none => exact ⟨f.attrs, f.children.flatMap Node.value, by simp only [hc]⟩
  | some r =>
    have hkind : (Qualifier.parse r.2).kind = .none :=
      Classical.byContradiction fun hkind => h.plain ⟨r.1, r.2, hq, hkind⟩
    exact ⟨joinAttrs [(Qualifier.parse r.2).attrText, f.attrs], r.1.flatMap Node.value,
      by simp only [hc, Qualifier.tag, hkind]⟩

theorem componentImport_inj {path' : Text} (h : componentImport path = componentImport path') : path = path' :=
  (importLine_inj (not_mem_of_alphanumeric (alphanumeric_componentName path) rfl)
    (not_mem_of_alphanumeric (alphanumeric_componentName path') rfl) (List.append_cancel_right h)).2

end

/-! ## First uses -/

section

variable {uses lines : List Text} {line : Text}

theorem firstUses_nil : FirstUses [] [] := ⟨by simp, .nil⟩

theorem FirstUses.nodup (h : FirstUses uses lines) : lines.Nodup :=
  h.order.imp fun hlt heq => absurd hlt (by rw [heq]; exact Nat.lt_irrefl _)

/-- More uses leave the places of the earlier ones. -/
theorem pairwise_idxOf_append (more : List Text) (h : FirstUses uses lines) :
    lines.Pairwise fun l l' => (uses ++ more).idxOf l < (uses ++ more).idxOf l' := by
  refine h.order.imp_of_mem fun hl hl' hlt => ?_
  rwa [List.idxOf_append, List.idxOf_append, if_pos ((h.mem_iff _).1 hl), if_pos ((h.mem_iff _).1 hl')]

/-- One more use keeps the lines those of the uses: a line that is used already stays
where it is, a new one comes last. -/
theorem firstUses_addImport {log : BuildLog} (line : Text) (h : FirstUses uses log.imports) :
    FirstUses (uses ++ [line]) (log.addImport line).imports := by
  unfold BuildLog.addImport
  by_cases hmem : line ∈ log.imports
  · rw [if_pos (List.contains_iff_mem.2 hmem)]
    refine ⟨fun l => ?_, pairwise_idxOf_append _ h⟩
    rw [h.mem_iff, List.mem_append, List.mem_singleton]
    exact ⟨.inl, fun hl => hl.elim id fun heq => heq ▸ (h.mem_iff line).1 hmem⟩
  · rw [if_neg (by simpa using hmem)]
    refine ⟨fun l => by simp only [List.mem_append, h.mem_iff], List.pairwise_append.2 ⟨pairwise_idxOf_append _ h,
      List.pairwise_singleton .., fun l hl l' hl' => ?_⟩⟩
    obtain rfl := List.mem_singleton.1 hl'
    have hused : l ∈ uses := (h.mem_iff l).1 hl
    rw [List.idxOf_append, if_pos hused, List.idxOf_append, if_neg fun hu => hmem ((h.mem_iff l').2 hu)]
    exact Nat.lt_of_lt_of_le (List.idxOf_lt_length_of_mem hused) (Nat.le_add_left ..)

end

/-! ## Runs -/

section

variable {ctx : BuildContext} {σ τ : BuildState} {t : Token} {ts : List Token} {nodes : List Node} {log : BuildLog}
  {blocks : List ClosedBlock}

/-- The imports that the blocks ask for, one for each of their uses. -/
def usedImports (ctx : BuildContext) (blocks : List ClosedBlock) : List Text :=
  blocks.filterMap fun b => b.frame.import? ctx

theorem usedImports_cons (ctx : BuildContext) (b : ClosedBlock) (blocks : List ClosedBlock) :
    usedImports ctx (b :: blocks) = (b.frame.import? ctx).toList ++ usedImports ctx blocks := by
  unfold usedImports
  rw [List.filterMap_cons]
  cases b.frame.import? ctx <;> rfl

theorem mem_usedImports {line : Text} :
    line ∈ usedImports ctx blocks ↔ ∃ b ∈ blocks, ∃ path, b.frame.Uses ctx path ∧ line = componentImport path := by
  simp only [usedImports, List.mem_filterMap, Frame.import?, Option.map_eq_some_iff, used?_eq_some_iff,
    eq_comm (a := line)]

/-- A component is imported exactly when a block uses it. -/
theorem FirstUses.import_mem_iff {imports : List Text} (h : FirstUses (usedImports ctx blocks) imports) (path : Text) :
    componentImport path ∈ imports ↔ ∃ b ∈ blocks, b.frame.Uses ctx path := by
  rw [h.mem_iff, mem_usedImports]
  constructor
  · rintro ⟨b, hb, path', hpath, hline⟩
    exact ⟨b, hb, componentImport_inj hline ▸ hpath⟩
  · exact fun ⟨b, hb, hpath⟩ => ⟨b, hb, path, hpath, rfl⟩

/-- A block that closes keeps the imports those that are used. -/
theorem firstUses_close {uses : List Text} (f : Frame) (h : FirstUses uses log.imports) :
    FirstUses (uses ++ (f.import? ctx).toList) (f.close ctx log).2.imports := by
  rw [close_log]
  cases f.import? ctx with
  | none => simpa using h
  | some line => exact firstUses_addImport line h

/-- A step that neither builds a container nor closes a block imports nothing. -/
theorem imports_passing (hstep : BuildStep ctx σ τ) (hrest : σ.rest = t :: ts)
    (hopen : opensContainer (t :: ts) = false) (hcloses : ∀ e, t.kind ≠ .closes e) :
    τ.log.imports = σ.log.imports := by
  cases hstep with
  | container hcontainer hsplit hinner =>
    rw [← hrest, hcontainer] at hopen
    exact absurd hopen (by simp)
  | table | opening | skip => rfl
  | closing hkind hframes =>
    obtain ⟨rfl, -⟩ := List.cons.inj hrest
    exact absurd hkind (hcloses _)
  | leaf hleaf =>
    rw [leafNode?_eq] at hleaf
    split at hleaf
    next =>
      obtain ⟨-, rfl⟩ := Prod.ext_iff.1 (Option.some.inj hleaf)
      rfl
    next =>
      obtain ⟨m, -, hm⟩ := Option.map_eq_some_iff.1 hleaf
      obtain ⟨-, rfl⟩ := Prod.ext_iff.1 hm
      rfl

/-- A run that succeeds closes its blocks. -/
theorem closes_of_run (h : σ.run ctx = .ok (nodes, log)) : ∃ blocks, Closes ctx σ blocks := by
  refine run_ok_induction ?_ ?_ h
  · exact fun _ _ => ⟨[], .done⟩
  · intro σ τ nodes log hstep ⟨behind, hbehind⟩ inside
    cases hstep with
    | @container s log t ts inner q rest children log' hopen hsplit hinner =>
      have hshort : inner.length < (t :: ts).length := by
        have := length_splitContainer? hsplit
        simp only [List.length_drop, List.length_cons] at *
        omega
      obtain ⟨within, hwithin⟩ := inside _ _ _ hshort hinner
      exact ⟨within ++ behind, .container hopen hsplit hinner hwithin hbehind⟩
    | closing hkind hframes => exact ⟨_ :: behind, .closing hkind hframes hbehind⟩
    | table hkind hframes htable =>
      exact ⟨behind, .passing (.table hkind hframes htable) rfl (opensContainer_of_kind _ (by simp [hkind]))
        (by simp [hkind]) hbehind⟩
    | opening hopen hkind htable =>
      exact ⟨behind, .passing (.opening hopen hkind htable) rfl hopen (by simp [hkind]) hbehind⟩
    | leaf hleaf =>
      obtain ⟨hopens, hcloses⟩ := leafNode?_kind hleaf
      exact ⟨behind, .passing (.leaf hleaf) rfl (opensContainer_of_kind _ (hopens _)) hcloses hbehind⟩
    | skip hopens hcloses hleaf =>
      exact ⟨behind, .passing (.skip hopens hcloses hleaf) rfl (opensContainer_of_kind _ (hopens _)) hcloses hbehind⟩

/-- **A run imports** what its blocks use, behind what has been used before it. -/
theorem firstUses_closes {uses : List Text} (h : Closes ctx σ blocks) (hrun : σ.run ctx = .ok (nodes, log))
    (hlog : FirstUses uses σ.log.imports) : FirstUses (uses ++ usedImports ctx blocks) log.imports := by
  induction h generalizing uses nodes log with
  | done =>
    rcases run_ok_cases hrun with heq | ⟨τ, hstep, -⟩
    · simp only [BuildState.mk.injEq] at heq
      rw [← heq.2.1]
      simpa [usedImports] using hlog
    · exact absurd (buildStep_shorter hstep) (by simp)
  | container hopen hsplit hinner hwithin hbehind ihWithin ihBehind =>
    rw [usedImports, List.filterMap_append, ← List.append_assoc]
    rw [buildStep_run (.container hopen hsplit hinner)] at hrun
    exact ihBehind hrun (ihWithin hinner hlog)
  | closing hkind hframes hbehind ih =>
    rw [usedImports_cons, ← List.append_assoc]
    rw [buildStep_run (.closing hkind hframes)] at hrun
    exact ih hrun (firstUses_close _ hlog)
  | passing hstep hrest hopen hcloses hbehind ih =>
    rw [buildStep_run hstep] at hrun
    exact ih hrun (by rw [imports_passing hstep hrest hopen hcloses]; exact hlog)

/-- The imports of a build and the blocks that it closes. -/
structure ImportsMatch (ctx : BuildContext) (blocks : List ClosedBlock) (imports : List Text) : Prop where
  /-- No line stands twice. -/
  once : imports.Nodup
  /-- The lines stand in the order of their first uses. -/
  firstUse : FirstUses (usedImports ctx blocks) imports
  /-- A component is imported exactly when a block uses it. -/
  used : ∀ path, componentImport path ∈ imports ↔ ∃ b ∈ blocks, b.frame.Uses ctx path
  /-- Nothing else is imported. -/
  noOther : ∀ line ∈ imports, ∃ b ∈ blocks, ∃ path, b.frame.Uses ctx path ∧ line = componentImport path
  /-- A block is written under the name of the component that it uses. -/
  named : ∀ b ∈ blocks, ∀ path, b.frame.Uses ctx path →
    ∃ attrs content, b.fragment = .html (element (componentName path) attrs content)
  /-- A block whose qualifier names a component or a slot imports nothing. -/
  overridden : ∀ b ∈ blocks, b.frame.Overridden → ∀ log, (b.frame.close ctx log).2 = log

/-- The fragment of a block is what its frame has closed to. -/
theorem fragment_eq (h : Closes ctx σ blocks) :
    ∀ b ∈ blocks, ∃ log, b.fragment = (b.frame.close ctx log).1 := by
  induction h with
  | done => simp
  | container hopen hsplit hinner hwithin hbehind ihWithin ihBehind =>
    exact fun b hb => (List.mem_append.1 hb).elim (ihWithin b) (ihBehind b)
  | @closing s log t ts e f fs behind hkind hframes hbehind ih => exact List.forall_mem_cons.2 ⟨⟨log, rfl⟩, ih⟩
  | passing hstep hrest hopen hcloses hbehind ih => exact ih

/-- **Imports match uses.** A build that succeeds closes some blocks, in its own run and
in those of its containers, and its imports match them. -/
theorem imports_match_uses (h : buildTree ctx ts = .ok (nodes, log)) :
    (∃ blocks, Closes ctx (BuildState.start {} ts) blocks) ∧
      ∀ blocks, Closes ctx (BuildState.start {} ts) blocks → ImportsMatch ctx blocks log.imports := by
  have hrun : (BuildState.start {} ts).run ctx = .ok (nodes, log) := h
  refine ⟨closes_of_run hrun, fun blocks hblocks => ?_⟩
  have huses : FirstUses (usedImports ctx blocks) log.imports := firstUses_closes hblocks hrun firstUses_nil
  refine ⟨huses.nodup, huses, huses.import_mem_iff, fun line hline => ?_, fun b hb path hpath => ?_,
    fun b _ hover log => ?_⟩
  · exact mem_usedImports.1 ((huses.mem_iff line).1 hline)
  · obtain ⟨log', hfragment⟩ := fragment_eq hblocks b hb
    rw [hfragment]
    exact close_named log' hpath
  · have hunused : b.frame.used? ctx = none :=
      Option.eq_none_iff_forall_ne_some.2 fun path hused => (used?_eq_some_iff.1 hused).plain hover
    rw [close_log, Frame.import?, hunused]
    rfl

end

/-- Headings and quotes are replaced; `h2` is registered without a file. -/
def cardContext : BuildContext := ⟨[], 0, [("h1", "ui/title.vue"), ("blockquote", "ui/note.vue"), ("h2", "")], []⟩

/-- A container with a quote and a heading, and headings behind it, of which one names a
component of its own. -/
def cardDocument : Text := "[\n\n> a\n\n# B \x7b.b\x7d\n\n]\n\n# C \x7b::card\x7d\n\n## D\n\n# E\n"

theorem imports_match_uses_cards : ∃ nodes log, buildTree cardContext (tokenize cardDocument) = .ok (nodes, log) ∧
    log.imports = [componentImport "ui/note.vue", componentImport "ui/title.vue"] ∧
    (∃ blocks, Closes cardContext (BuildState.start {} (tokenize cardDocument)) blocks) ∧
    ∀ blocks, Closes cardContext (BuildState.start {} (tokenize cardDocument)) blocks →
      ImportsMatch cardContext blocks log.imports := by
  have himports : (buildTree cardContext (tokenize cardDocument)).toOption.map (·.2.imports)
      = some [componentImport "ui/note.vue", componentImport "ui/title.vue"] := by decide +kernel
  cases hbuild : buildTree cardContext (tokenize cardDocument) with
  | error e =>
    rw [hbuild] at himports
    exact absurd himports (by simp [Except.toOption])
  | ok r =>
    rw [hbuild] at himports
    exact ⟨r.1, r.2, rfl, Option.some.inj himports, imports_match_uses hbuild⟩

end Docweave

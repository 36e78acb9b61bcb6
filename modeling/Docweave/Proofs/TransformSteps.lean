import Docweave.Project.Workspace
import Docweave.Proofs.DiskTree

/-!
# What a transform does

A transform of a document has four ways to end. It is refused before anything
is written; it is skipped, because the record has the time of the file; or the
document compiles and its plan is run, which may stop half-way or may reach its
end, and only then is the document recorded. `Transformed` lists them with all
that is known in each, and what is proved about transforms is proved by cases
of it.

> `transformed_of_eq`: these are all the ways.

> `run_stopped`: a plan stops at a change that the disk refuses, or behind the
> component, at metadata that have no text.

> `run_finished`: a plan that reaches its end has made all of its changes.
-/

namespace Docweave

/-! ## Running a plan -/

namespace Compiled

/-- The first changes of a plan: the component written into its folder. -/
def componentChanges (c : Compiled) (a : Artifacts) : List (Stage × Change) :=
  [(.outputFolder, .makeFolders (Path.dir a.component)), (.component, .write a.component c.content)]

/-- The last change of a plan: the highlight module written, or taken away. -/
def highlightChange (c : Compiled) (a : Artifacts) : Stage × Change :=
  if c.highlights.isEmpty then (.staleHighlights, .erase a.highlights)
  else (.highlights, .write a.highlights (highlightModule c.highlights))

/-- The changes of a plan, with the text of the metadata. -/
def changes (c : Compiled) (a : Artifacts) (metadata : Text) : List (Stage × Change) :=
  c.componentChanges a ++ [(.metadata, .write a.metadata metadata), c.highlightChange a]

end Compiled

section

variable {a : Artifacts} {c : Compiled} {d d' : Disk}

theorem applyAll_cons {x : Stage × Change} {rest : List (Stage × Change)}
    {f : Option ProcessFault} (h : d.applyAll (x :: rest) = (d', f)) :
    (∃ g, d.apply x.2 = .error g ∧ d' = d ∧ f = some (.change x.1 g)) ∨
      ∃ d₁, d.apply x.2 = .ok d₁ ∧ d₁.applyAll rest = (d', f) := by
  rw [Disk.applyAll] at h
  cases hchange : d.apply x.2 with
  | error g =>
    rw [hchange] at h
    obtain ⟨rfl, rfl⟩ := Prod.mk.inj h
    exact Or.inl ⟨g, rfl, rfl, rfl⟩
  | ok d₁ =>
    rw [hchange] at h
    exact Or.inr ⟨d₁, rfl, h⟩

theorem applyAll_fault {changes : List (Stage × Change)} {f : ProcessFault}
    (h : d.applyAll changes = (d', some f)) : ∃ stage g, f = .change stage g := by
  induction changes generalizing d with
  | nil => exact absurd (Prod.mk.inj h).2 (by simp)
  | cons x rest ih =>
    rcases applyAll_cons h with ⟨g, _, _, hf⟩ | ⟨d₁, _, hrest⟩
    · exact ⟨x.1, g, Option.some.inj hf⟩
    · exact ih hrest

theorem run_of_no_fault (changes : List (Stage × Change)) (d : Disk) :
    (Plan.mk changes none).run d = d.applyAll changes := by
  unfold Plan.run
  split
  next heq => exact heq.symm
  next heq => exact heq.symm

theorem run_of_metadata {text : Text} (hmeta : metadataText c.metadata = .ok text) (d : Disk) :
    (c.plan a).run d = d.applyAll (c.changes a text) := by
  unfold Compiled.plan
  simp only [hmeta]
  exact run_of_no_fault (c.changes a text) d

theorem run_of_no_metadata {e : Yaml.JsonFault} (hmeta : metadataText c.metadata = .error e)
    (d : Disk) :
    (c.plan a).run d = match d.applyAll (c.componentChanges a) with
      | (d', some f) => (d', some f)
      | (d', none) => (d', some (.encoding e)) := by
  unfold Plan.run Compiled.plan
  simp only [hmeta]
  rfl

/-- A plan that stops: the disk refused a change, or the component was written
and the metadata have no text. -/
theorem run_stopped {f : ProcessFault} (h : (c.plan a).run d = (d', some f)) :
    (∃ stage g, f = .change stage g) ∨
      ∃ e, metadataText c.metadata = .error e ∧ f = .encoding e ∧
        d.applyAll (c.componentChanges a) = (d', none) := by
  cases hmeta : metadataText c.metadata with
  | ok text =>
    rw [run_of_metadata hmeta] at h
    exact Or.inl (applyAll_fault h)
  | error e =>
    rw [run_of_no_metadata hmeta] at h
    split at h
    next heq => exact Or.inl (applyAll_fault (heq.trans h))
    next heq =>
      obtain ⟨rfl, hf⟩ := Prod.mk.inj h
      exact Or.inr ⟨e, rfl, (Option.some.inj hf).symm, heq⟩

/-- A plan that reaches its end. -/
theorem run_finished (h : (c.plan a).run d = (d', none)) :
    ∃ text, metadataText c.metadata = .ok text ∧ d.applyAll (c.changes a text) = (d', none) := by
  cases hmeta : metadataText c.metadata with
  | ok text =>
    rw [run_of_metadata hmeta] at h
    exact ⟨text, rfl, h⟩
  | error e =>
    rw [run_of_no_metadata hmeta] at h
    split at h
    next => exact absurd (Prod.mk.inj h).2 (by simp)
    next => exact absurd (Prod.mk.inj h).2 (by simp)

end

open Workspace

/-! ## The record -/

theorem recorded?_forget (w : Workspace) (path q : Text) :
    (w.forget path).recorded? q = if q = path then none else w.recorded? q := by
  unfold recorded? forget
  rw [List.find?_filter]
  split
  next h =>
    rw [h, List.find?_eq_none.2, Option.map_none]
    simp
  next h =>
    congr 2
    funext x
    by_cases hx : x.1 = q
    · simp [hx, h]
    · simp [hx]

theorem recorded?_remember (w : Workspace) (path : Text) (time : Int) (q : Text) :
    (w.remember path time).recorded? q = if q = path then some time else w.recorded? q := by
  by_cases h : q = path
  · simp [recorded?, remember, h]
  · have hne : ¬path = q := fun heq => h heq.symm
    rw [if_neg h]
    have hforget := recorded?_forget w path q
    rw [if_neg h] at hforget
    rw [← hforget]
    simp [recorded?, remember, hne]

/-! ## The ways a transform can end -/

/-- The fault comes from the disk. -/
def ProcessFault.isOfDisk : ProcessFault → Bool
  | stat _ | read _ | change _ _ | removal _ _ => true
  | _ => false

/-- The fault comes up behind the compile, while its result is written. -/
def ProcessFault.isOfWriting : ProcessFault → Bool
  | encoding _ | change _ _ => true
  | _ => false

/-- The result, the fault and the workspace behind a transform. -/
inductive Transformed (s : TransformSettings) (cancelled : Bool) (path : Text) (w : Workspace) :
    Output → Option ProcessFault → Workspace → Prop
  | refused {out : Output} {f : ProcessFault} : Transformed s cancelled path w out (some f) w
  | skipped {a : Artifacts} {text : Text} {time : Int}
      (hfile : w.disk.stat path = .ok (.file text time))
      (hfiles : resolveArtifacts s.srcRoot s.cacheDir path = .ok a)
      (hrecord : w.recorded? path = some time) :
      Transformed s cancelled path w ⟨path, a, true⟩ none w
  | stopped {a : Artifacts} {text : Text} {time : Int} {c : Compiled} {d : Disk} {f : ProcessFault}
      (hfile : w.disk.stat path = .ok (.file text time))
      (hfiles : resolveArtifacts s.srcRoot s.cacheDir path = .ok a)
      (hstale : w.recorded? path ≠ some time)
      (hcompiled : compileSource s cancelled a text = .ok c)
      (hrun : (c.plan a).run w.disk = (d, some f)) :
      Transformed s cancelled path w ⟨path, a, false⟩ (some f) { w with disk := d }
  | written {a : Artifacts} {text : Text} {time : Int} {c : Compiled} {d : Disk}
      (hfile : w.disk.stat path = .ok (.file text time))
      (hfiles : resolveArtifacts s.srcRoot s.cacheDir path = .ok a)
      (hstale : w.recorded? path ≠ some time)
      (hcompiled : compileSource s cancelled a text = .ok c)
      (hrun : (c.plan a).run w.disk = (d, none)) :
      Transformed s cancelled path w ⟨path, a, false⟩ none ({ w with disk := d }.remember path time)

section

variable {s : TransformSettings} {cancelled : Bool} {path : Text} {w w' : Workspace}

/-- What is read along a path is the file that stands there. -/
theorem stat_of_contents {d : Disk} {text : Text} {e : Entry} (hstat : d.stat path = .ok e)
    (htext : d.contents path = .ok text) : ∃ time, e = .file text time := by
  have hentry : d.entryOf path = .ok e := mapError_eq_ok.1 hstat
  rw [Disk.contents, hentry] at htext
  cases e with
  | folder => simp at htext
  | file text' time => exact ⟨time, by rw [Except.ok.inj htext]⟩

theorem contents_of_stat {d : Disk} {text : Text} {time : Int}
    (hstat : d.stat path = .ok (.file text time)) : d.contents path = .ok text := by
  have hentry : d.entryOf path = .ok (.file text time) := mapError_eq_ok.1 hstat
  rw [Disk.contents, hentry]

/-- What a compiled source is put together from. -/
theorem compile_parts {h : Highlighter} {schedule : Schedule} {options : CompileOptions} {text : Text}
    {paths : ReferencePaths} {c : Compiled} (hc : compile h schedule options text paths = .ok c) :
    ∃ fm nodes log, ∃ parts : ComponentParts, Frontmatter.parse text = .ok fm ∧
      buildTree ⟨text, fm.bodyLine, options.components, paths.highlights⟩
        (tokenize (Source.sections fm.body).body) = .ok (nodes, log) ∧
      highlightAll h options.concurrency schedule log.jobs = .ok parts.highlights ∧ parts.metadata = fm.metadata ∧
      parts.imports = log.imports ∧
      parts.template = serialize (Resolver.resolveTree {} nodes).1.children ∧
      c = ⟨parts.assemble options paths, parts.metadata, parts.highlights⟩ := by
  unfold compile at hc
  split at hc
  next => exact absurd hc (by simp)
  next fm hparse =>
    simp only at hc
    split at hc
    next => exact absurd hc (by simp)
    next =>
      split at hc
      next => exact absurd hc (by simp)
      next nodes log htree =>
        split at hc
        next => exact absurd hc (by simp)
        next highlights hjobs =>
          obtain rfl := Except.ok.inj hc
          exact ⟨fm, nodes, log, _, hparse, htree, hjobs, rfl, rfl, rfl, rfl⟩

/-- What a source compiles from: its metadata, and a tree whose code is all
highlighted. -/
theorem compile_eq_ok {h : Highlighter} {schedule : Schedule} {options : CompileOptions} {text : Text}
    {paths : ReferencePaths} {c : Compiled} (hc : compile h schedule options text paths = .ok c) :
    ∃ fm nodes log, Frontmatter.parse text = .ok fm ∧
      buildTree ⟨text, fm.bodyLine, options.components, paths.highlights⟩
        (tokenize (Source.sections fm.body).body) = .ok (nodes, log) ∧
      highlightAll h options.concurrency schedule log.jobs = .ok c.highlights ∧ c.metadata = fm.metadata := by
  obtain ⟨fm, nodes, log, parts, hparse, htree, hjobs, hmeta, -, -, rfl⟩ := compile_parts hc
  exact ⟨fm, nodes, log, hparse, htree, hjobs, hmeta⟩

/-- A source that compiles was not called off, and compiles for the paths of its
artifacts. -/
theorem compileSource_eq_ok {a : Artifacts} {text : Text} {c : Compiled}
    (h : compileSource s cancelled a text = .ok c) :
    cancelled = false ∧ ∃ paths, referencePaths s.cacheDir a = .ok paths ∧
      compile s.highlighter s.schedule s.options text paths = .ok c := by
  unfold compileSource at h
  split at h
  next => exact absurd h (by simp)
  next =>
    split at h
    next => exact absurd h (by simp)
    next paths hpaths =>
      rw [mapError_eq_ok, compileUnless] at h
      cases cancelled with
      | true => exact absurd h (by simp)
      | false =>
        refine ⟨rfl, paths, hpaths, ?_⟩
        rw [if_neg (by simp)] at h
        exact h

/-- **All the ways a transform can end.** -/
theorem transformed_of_eq {out : Output} {fault : Option ProcessFault}
    (h : w.transform s cancelled path = (out, fault, w')) :
    Transformed s cancelled path w out fault w' := by
  unfold transform at h
  split at h
  next => cases h; exact .refused
  next e hstat =>
    split at h
    next => cases h; exact .refused
    next a hfiles =>
      simp only at h
      split at h
      next hsame =>
        cases h
        cases e with
        | folder => exact absurd hsame (by simp [timeOf])
        | file text time =>
          rw [Bool.and_eq_true, decide_eq_true_eq] at hsame
          exact .skipped hstat hfiles hsame.2
      next hsame =>
        split at h
        next => cases h; exact .refused
        next text hread =>
          obtain ⟨time, rfl⟩ := stat_of_contents hstat hread
          have hstale : w.recorded? path ≠ some time := fun heq => hsame (by
            rw [Bool.and_eq_true, decide_eq_true_eq]
            exact ⟨rfl, heq⟩)
          split at h
          next => cases h; exact .refused
          next c hcompiled =>
            split at h
            next d f hrun => cases h; exact .stopped hstat hfiles hstale hcompiled hrun
            next d hrun => cases h; exact .written hstat hfiles hstale hcompiled hrun

end

end Docweave

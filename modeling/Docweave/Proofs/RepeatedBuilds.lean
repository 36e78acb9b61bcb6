import Docweave.Proofs.BuildPhases
import Docweave.Proofs.PoolRuns
import Docweave.Proofs.QueuedCode

/-!
# Builds one after the other

The sources of a project are edited and built, again and again. Each file that
is edited gets a time that it has not had, so a document whose time is on record
is the one that was compiled then, and its artifacts are still in the cache
(`history_sound`).

Among the components this fails. Mirroring wipes the folder at every build, and
a document in it that has not changed is passed over, so its artifacts are gone
until it is edited.

> `history_sound`: the invariant, over any sequence of edits and builds.

> `builds_keep_cache`: behind every build, what is in the cache for a document.
-/

namespace Docweave

open Docweave.Path (rooted Names IsName)
open Workspace Project

namespace ProjectLayout

variable {s : BuildSettings} (L : ProjectLayout s)

/-! ## Edits and builds -/

/-- What can happen to a project, with all disks it has had. Sources are edited
in any way; a file that is written gets a time that it has not had before, and
nobody but the builds touches the cache. No document, and no component that was
in the cache in the beginning, is called by its extension alone or by dots in
front of it. -/
inductive ProjectHistory : List Disk → Workspace → Prop
  | start {d : Disk} (htree : d.IsTree) (hdocuments : L.DocumentsNamed d)
      (hcomponents : L.ComponentsNamed d) : ProjectHistory [d] { disk := d }
  | edit {past : List Disk} {w : Workspace} {d : Disk} (hist : ProjectHistory past w)
      (htree : d.IsTree) (hcache : ∀ q, L.cache <+: q → d.find? q = w.disk.find? q)
      (hnew : ∀ q text time, L.src <+: q → d.find? q = some (.file text time) →
        d.find? q = w.disk.find? q ∨ ∀ d' ∈ past, ∀ text', d'.find? q ≠ some (.file text' time))
      (hdocuments : L.DocumentsNamed d) : ProjectHistory (d :: past) { w with disk := d }
  | build {past : List Disk} {w w' : Workspace} {cancelled : Bool} {res : Option BuildResult}
      {fault : Option BuildFault} (hist : ProjectHistory past w)
      (h : build s cancelled w = (res, fault, w')) : ProjectHistory (w'.disk :: past) w'

section

variable {L} {past : List Disk} {d₀ d : Disk} {w w' : Workspace} {n : DocumentName}

/-- The next build starts from the disk that is there now. -/
theorem sound_rebase (h : L.Sound past d₀ w) : L.Sound (w.disk :: past) w.disk w where
  base := List.mem_cons_self ..
  touches := Disk.Touches.refl h.touches.tree
  components := h.components
  held := h.held
  seen := by
    intro n time hrec
    obtain ⟨d, hd, hfile⟩ := h.seen n time hrec
    exact ⟨d, List.mem_cons_of_mem _ hd, hfile⟩

theorem sound_edit (h : L.Sound past d₀ w) (htree : d.IsTree)
    (hcache : ∀ q, L.cache <+: q → d.find? q = w.disk.find? q)
    (hnew : ∀ q text time, L.src <+: q → d.find? q = some (.file text time) →
      d.find? q = w.disk.find? q ∨ ∀ d' ∈ past, ∀ text', d'.find? q ≠ some (.file text' time)) :
    L.Sound (d :: past) d { w with disk := d } where
  base := List.mem_cons_self ..
  touches := Disk.Touches.refl htree
  components := by
    intro fs stem text time hfs hfind
    rw [hcache _ ⟨fs ++ [stem ++ componentExt], (List.append_assoc ..).symm⟩] at hfind
    exact h.components fs stem text time hfs hfind
  held := by
    intro n text time hout hrec hfind
    rcases hnew _ text time (L.src_above n) hfind with hsame | hunseen
    · -- not edited, and neither is what is in the cache
      obtain ⟨text', time', c, hfind', hrec', hc, hholds⟩ :=
        h.held n text time hout hrec (hsame ▸ hfind)
      refine ⟨text', time', c, hsame.trans hfind', hrec', hc, holds_congr (fun f hf => ?_) hholds⟩
      obtain ⟨es, hes, hplace, rfl⟩ := artifact_rooted hf
      rw [text?_rooted hes, text?_rooted hes, Disk.textAt?, Disk.textAt?,
        hcache es (cache_above hplace)]
    · -- the time is on record, so the file has had it before
      obtain ⟨d', hd', text', hfile⟩ := h.seen n time hrec
      exact absurd hfile (hunseen d' hd' text')
  seen := by
    intro n time hrec
    obtain ⟨d', hd', hfile⟩ := h.seen n time hrec
    exact ⟨d', List.mem_cons_of_mem _ hd', hfile⟩

/-- **The invariant, over any sequence of edits and builds.** -/
theorem history_sound (hist : L.ProjectHistory past w) :
    L.Sound past w.disk w ∧ L.DocumentsNamed w.disk := by
  induction hist with
  | start htree hdocuments hcomponents =>
    -- nothing is on record yet
    refine ⟨⟨List.mem_singleton.2 rfl, Disk.Touches.refl htree, hcomponents, ?_, ?_⟩, hdocuments⟩
    · intro n text time _ hrec
      exact absurd hrec (by simp [recorded?])
    · intro n time hrec
      exact absurd hrec (by simp [recorded?])
  | edit _ htree hcache hnew hdocuments ih => exact ⟨sound_edit ih.1 htree hcache hnew, hdocuments⟩
  | build _ h ih =>
    obtain ⟨hsound, -⟩ := build_sound ih.1 ih.2 h
    exact ⟨sound_rebase hsound, documentsNamed_of_touches hsound.touches ih.2⟩

end

end ProjectLayout

/-! ## What is in the cache -/

/-- The document has code blocks. -/
def hasCode (src : Text) : Bool :=
  match Frontmatter.parse src with
  | .error _ => false
  | .ok fm => (tokenize (Source.sections fm.body).body).any Token.isCode

/-- Code is highlighted exactly where there is code. -/
theorem isEmpty_highlights {s : TransformSettings} {a : Artifacts} {text : Text} {c : Compiled}
    (h : compileSource s false a text = .ok c) : c.highlights.isEmpty = !hasCode text := by
  obtain ⟨-, paths, -, hc⟩ := compileSource_eq_ok h
  obtain ⟨fm, nodes, log, hparse, htree, hall, -⟩ := compile_eq_ok hc
  have hcode : hasCode text = (tokenize (Source.sections fm.body).body).any Token.isCode := by
    unfold hasCode
    rw [hparse]
  have hjobs : log.jobs = codeJobs 0 (tokenize (Source.sections fm.body).body) := buildTree_jobs htree
  rw [hjobs] at hall
  rw [hcode, Bool.eq_iff_iff, List.isEmpty_iff, ← List.length_eq_zero_iff,
    length_of_highlightAll (nodup_codeJobs_keys 0 _) hall]
  simp [codeJobs]

namespace ProjectLayout

variable {s : BuildSettings} {L : ProjectLayout s} {w : Workspace} {n : DocumentName}

theorem inComponents_above (h : n.InComponents) :
    L.src ++ [componentsFolder] <+: Path.elements (L.path n) := by
  rw [path, Path.elements_rooted (L.names_place n), place, List.append_assoc,
    List.prefix_append_right_inj]
  obtain ⟨rest, hrest⟩ : ∃ rest, n.folders = componentsFolder :: rest := by
    unfold DocumentName.InComponents at h
    cases hfolders : n.folders with
    | nil => rw [hfolders] at h; exact absurd h (by simp)
    | cons f rest => rw [hfolders] at h; exact ⟨rest, by rw [Option.some.inj h]⟩
  exact ⟨rest ++ [n.stem ++ documentExt], by rw [hrest]; rfl⟩

/-- What the cache holds for a document that is settled. -/
theorem held_of_settled (htree : w.disk.IsTree) (h : L.Settled w n) :
    ∃ text c, w.disk.contents (L.path n) = .ok text ∧
      compileSource s.toTransformSettings false (L.artifacts n) text = .ok c ∧
      w.disk.Holds (L.artifacts n) c ∧
      (w.disk.text? (L.artifacts n).highlights).isSome = hasCode text := by
  obtain ⟨text, time, c, hfind, -, hc, hholds⟩ := h
  have htext : w.disk.contents (L.path n) = .ok text := by
    refine (Disk.contents_rooted htree (L.names_place n)).2 ?_
    rw [Disk.textAt?, hfind]
  refine ⟨text, c, htext, hc, hholds, ?_⟩
  rw [hholds.highlights, isEmpty_highlights hc]
  cases hasCode text <;> rfl

end ProjectLayout

/-- **Repeated builds keep the cache complete, outside the components.** Over
any sequence of edits and builds: behind a build with a result, every document
that is found and is not reported as failed has its artifacts in the cache, as
compiling it now writes them, with a highlight module if and only if it has code
blocks. Among the components this holds for the documents that the build has
compiled; one that it passed over may have lost them. -/
theorem builds_keep_cache {s : BuildSettings} (L : ProjectLayout s) {past : List Disk}
    {w w' : Workspace} (hist : L.ProjectHistory past w) {cancelled : Bool} {res : BuildResult}
    {fault : Option BuildFault} (h : Project.build s cancelled w = (some res, fault, w')) :
    ∃ found, Project.findDocuments s.srcRoot w'.disk = .ok found ∧
      ∀ p ∈ found, (∀ r ∈ res.failed, r.path ≠ p) →
        ¬ L.src ++ [componentsFolder] <+: Path.elements p ∨ (∃ out ∈ res.compiled, out.source = p) →
        ∃ a text c, resolveArtifacts s.srcRoot s.cacheDir p = .ok a ∧
          w'.disk.contents p = .ok text ∧
          compileSource s.toTransformSettings false a text = .ok c ∧ w'.disk.Holds a c ∧
          (w'.disk.text? a.highlights).isSome = hasCode text := by
  obtain ⟨hsound, hnamed⟩ := ProjectLayout.history_sound hist
  obtain ⟨hsound', hreports⟩ := ProjectLayout.build_sound hsound hnamed h
  obtain ⟨found, hfound, hpaths, rs, hrs, hleaves, hfailed, hcompiled⟩ := hreports res rfl
  refine ⟨found, hfound, fun p hp hnot hcase => ?_⟩
  obtain ⟨n, rfl⟩ := hpaths p hp
  have hsettled : L.Settled w' n := by
    rcases hcase with hout | ⟨out, hmem, hsource⟩
    · -- the result for the document is no fault
      obtain ⟨r, hr, hpath⟩ := List.mem_map.1 (hrs ▸ hp)
      have hnone : r.fault = none := by
        cases hfault : r.fault with
        | none => rfl
        | some f =>
          have hreported : r ∈ res.failed := by
            rw [hfailed]
            exact List.mem_filter.2 ⟨hr, by rw [hfault]; rfl⟩
          exact absurd hpath (hnot r hreported)
      exact (hleaves r hr hnone).2 n hpath
        (Or.inl fun hin => hout (ProjectLayout.inComponents_above hin))
    · -- it was compiled by this build, wherever it is
      rw [hcompiled] at hmem
      obtain ⟨r, hr, rfl⟩ := List.mem_map.1 hmem
      obtain ⟨hr, hdone⟩ := List.mem_filter.1 hr
      rw [Bool.and_eq_true, Option.isNone_iff_eq_none, Bool.not_eq_true'] at hdone
      obtain ⟨hown, hleft⟩ := hleaves r hr hdone.1
      exact hleft n (hown.symm.trans hsource) (Or.inr hdone.2)
  obtain ⟨text, c, htext, hc, hholds, hcode⟩ :=
    ProjectLayout.held_of_settled hsound'.touches.tree hsettled
  exact ⟨L.artifacts n, text, c, L.resolve_path n, htext, hc, hholds, hcode⟩

/-- Settings of a project that keeps what it once wrote. -/
def notesSettings : BuildSettings :=
  { highlighter := plainHighlighter .github, parser := fun _ _ => [], srcRoot := "/src", cacheDir := "/cache",
    skipCleanup := true }

def notesLayout : ProjectLayout notesSettings := .sideBySide rfl rfl

/-- A document with code. -/
def noteText : Text := "# Note\n\n```sh\nls\n```\n"

/-- A project with one document, in a folder. -/
def notesWorkspace (folder : Text) : Workspace :=
  { disk := { entries := [(["src"], .folder), (["src", folder], .folder),
      (["src", folder, "note.v.md"], .file noteText 5)], clock := 9 } }

/-- What the first build of the project leaves, -/
def notesOnce (folder : Text) : Option BuildResult × Option BuildFault × Workspace :=
  Project.build notesSettings false (notesWorkspace folder)

/-- and what the second leaves. -/
def notesTwice (folder : Text) : Option BuildResult × Option BuildFault × Workspace :=
  Project.build notesSettings false (notesOnce folder).2.2

theorem notesHistory :
    notesLayout.ProjectHistory [(notesWorkspace "docs").disk] (notesWorkspace "docs") := by
  have htree : (notesWorkspace "docs").disk.IsTree := by decide
  refine .start htree (fun fs stem text time => ?_) (fun fs stem text time _ => ?_)
  · exact ProjectLayout.isName_of_entries htree (by decide)
  · exact ProjectLayout.isName_of_entries htree (by decide)

/-- The second build passes over a document that the first has compiled. -/
theorem builds_keep_cache_notes :
    (notesTwice "docs").1.map (fun res => (res.failed.length, res.skipped)) = some (0, 1) ∧
      ∃ a text c, resolveArtifacts "/src" "/cache" "/src/docs/note.v.md" = .ok a ∧
        (notesTwice "docs").2.2.disk.contents "/src/docs/note.v.md" = .ok text ∧
        compileSource notesSettings.toTransformSettings false a text = .ok c ∧
        (notesTwice "docs").2.2.disk.Holds a c ∧
        ((notesTwice "docs").2.2.disk.text? a.highlights).isSome = hasCode text := by
  have hcounts : (notesTwice "docs").1.map (fun res => (res.failed.length, res.skipped)) =
      some (0, 1) := by decide +kernel
  have hfound : (Project.findDocuments "/src" (notesTwice "docs").2.2.disk).toOption =
      some [("/src/docs/note.v.md" : Text)] := by decide +kernel
  unfold notesTwice at hcounts hfound ⊢
  generalize hfirst : notesOnce "docs" = first at hcounts hfound ⊢
  generalize hsecond : Project.build notesSettings false first.2.2 = second at hcounts hfound ⊢
  obtain ⟨res, fault, w⟩ := first
  obtain ⟨res', fault', w'⟩ := second
  obtain ⟨res', rfl, hboth⟩ := Option.map_eq_some_iff.1 hcounts
  have hnone : ∀ r ∈ res'.failed, r.path ≠ "/src/docs/note.v.md".toList := by
    rw [List.length_eq_zero_iff.1 (Prod.mk.inj hboth).1]
    simp
  obtain ⟨found, hok, hheld⟩ := builds_keep_cache notesLayout (.build notesHistory hfirst) hsecond
  rw [show Project.findDocuments "/src" w'.disk = .ok found from hok] at hfound
  obtain rfl := Option.some.inj hfound
  exact ⟨hcounts, hheld _ (List.mem_singleton.2 rfl) hnone (Or.inl (by decide))⟩

/-- Among the components a document that is passed over has lost its component. -/
theorem component_lost_among_components :
    (notesOnce componentsFolder).2.2.disk.has "/cache/components/note.vue" = true ∧
      (Project.findDocuments "/src" (notesTwice componentsFolder).2.2.disk).toOption =
        some [("/src/components/note.v.md" : Text)] ∧
      (notesTwice componentsFolder).1.map (fun res => (res.failed.length, res.skipped)) = some (0, 1) ∧
      (notesTwice componentsFolder).2.2.disk.has "/cache/components/note.vue" = false := by
  decide +kernel

end Docweave

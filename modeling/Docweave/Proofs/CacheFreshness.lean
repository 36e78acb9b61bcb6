import Docweave.Proofs.CachedArtifacts

/-!
# A transform that is skipped is not needed

A transform looks at nothing but the time of a document to decide that there is
nothing to do. The times that are recorded therefore have to mean something:
`Fresh` says that for every document on record the cache holds what compiling
the text of that time gives. Every step of a `CacheHistory` keeps it, because a
document is recorded last and forgotten first, and because the artifacts of two
documents share no place.

> `fresh_transform`, `fresh_discard`: the steps that write to the cache.

> `history_fresh`: the invariant along every history.

> `transform_never_stale`: behind a transform that succeeds, skipped or not, the
> cache holds what compiling the document gives.
-/

namespace Docweave

open Docweave.Path (rooted Names IsName)
open Workspace

/-! ## Documents and what happens to them -/

/-- The documents that a transformer is asked for: clean paths below the source
root whose artifacts do not collide, each with the texts it has had by the times
they were written at. The cache may be anywhere; a relative path to it starts in
the folder that the transformer works in. -/
structure DocumentSet (s : TransformSettings) where
  member : Text → Prop
  textAtTime : Text → Int → Text
  work : Place
  root : List Text
  names_root : Names root
  srcRoot_eq : Path.clean s.srcRoot = rooted root
  below : ∀ p, member p → ∃ rest, rest ≠ [] ∧ Names rest ∧ p = rooted (root ++ rest)
  apart : ∀ p q a b, member p → member q → p ≠ q →
    resolveArtifacts s.srcRoot s.cacheDir p = .ok a →
    resolveArtifacts s.srcRoot s.cacheDir q = .ok b →
    ∀ f ∈ filesOf a, ∀ g ∈ filesOf b, Path.placeFrom work f ≠ Path.placeFrom work g

section

variable {s : TransformSettings} (D : DocumentSet s)

/-- The time of a document tells its text. -/
def DocumentSet.Dated (d : Disk) (p : Text) : Prop :=
  ∀ text time, d.stat p = .ok (.file text time) → text = D.textAtTime p time

/-- The artifacts of the documents have the same texts on two disks. -/
def DocumentSet.SameCache (d d' : Disk) : Prop :=
  ∀ p a, D.member p → resolveArtifacts s.srcRoot s.cacheDir p = .ok a →
    ∀ f ∈ filesOf a, d'.text? f = d.text? f

/-- What can happen to a cache. Sources are edited in any way that leaves the
artifacts alone, and documents are transformed, forgotten and discarded in any
order; a transform may fail, but not while its result is written. -/
inductive CacheHistory : Workspace → Prop
  | start {d : Disk} (htree : d.IsTree) (hwork : d.workFolder = D.work) : CacheHistory { disk := d }
  | edit {w : Workspace} {d : Disk} (hist : CacheHistory w) (htree : d.IsTree)
      (hwork : d.workFolder = D.work) (hsame : D.SameCache w.disk d) : CacheHistory { w with disk := d }
  | transform {w w' : Workspace} {p : Text} {cancelled : Bool} {out : Output}
      {fault : Option ProcessFault} (hist : CacheHistory w) (hp : D.member p)
      (hdated : D.Dated w.disk p) (h : w.transform s cancelled p = (out, fault, w'))
      (hearly : ∀ f, fault = some f → f.isOfWriting = false) : CacheHistory w'
  | forget {w : Workspace} (hist : CacheHistory w) (p : Text) : CacheHistory (w.forget p)
  | discard {w w' : Workspace} {p : Text} {removed : List Text} {fault : Option ProcessFault}
      (hist : CacheHistory w) (hp : D.member p) (h : w.discard s p = (removed, fault, w')) :
      CacheHistory w'

/-- What the record means: for every document on it the cache holds what the
text of the recorded time compiles to. -/
structure Fresh (w : Workspace) : Prop where
  tree : w.disk.IsTree
  work : w.disk.workFolder = D.work
  held : ∀ p time, D.member p → w.recorded? p = some time →
    ∃ a c, resolveArtifacts s.srcRoot s.cacheDir p = .ok a ∧
      compileSource s false a (D.textAtTime p time) = .ok c ∧ w.disk.Holds a c

end

/-! ## What each step keeps -/

section

variable {s : TransformSettings} {D : DocumentSet s} {w w' : Workspace} {p : Text}

/-- Work on one document leaves the artifacts of the others alone. -/
theorem text?_of_others {q : Text} {a b : Artifacts} {folder : Place} {stem : Text} {d d' : Disk}
    (hp : D.member p) (hq : D.member q) (hne : q ≠ p)
    (ha : resolveArtifacts s.srcRoot s.cacheDir p = .ok a)
    (hb : resolveArtifacts s.srcRoot s.cacheDir q = .ok b) (hwork : d.workFolder = D.work)
    (hstand : a.StandAt d.workFolder folder stem)
    (htouch : Disk.Touches (IsArtifactPlace folder stem) folder d d') :
    ∀ f ∈ filesOf b, d'.text? f = d.text? f := by
  intro f hf
  have hapart := fun g hg => D.apart q p b a hq hp hne hb ha f hf g hg
  rw [← hwork] at hapart
  refine text?_of_touches htouch ?_
  rintro ⟨ext, hext, hplace⟩
  simp only [artifactExts, List.mem_cons, List.not_mem_nil, or_false] at hext
  rcases hext with rfl | rfl | rfl
  · exact hapart a.component (by simp [filesOf]) (hplace.trans hstand.component.symm)
  · exact hapart a.metadata (by simp [filesOf]) (hplace.trans hstand.metadata.symm)
  · exact hapart a.highlights (by simp [filesOf]) (hplace.trans hstand.highlights.symm)

theorem fresh_edit {d : Disk} (h : Fresh D w) (htree : d.IsTree) (hwork : d.workFolder = D.work)
    (hsame : D.SameCache w.disk d) : Fresh D { w with disk := d } := by
  refine ⟨htree, hwork, fun p time hp hrecord => ?_⟩
  obtain ⟨a, c, ha, hc, hholds⟩ := h.held p time hp hrecord
  exact ⟨a, c, ha, hc, holds_congr (hsame p a hp ha) hholds⟩

theorem fresh_forget (h : Fresh D w) (p : Text) : Fresh D (w.forget p) := by
  refine ⟨h.tree, h.work, fun q time hq hrecord => ?_⟩
  rw [recorded?_forget] at hrecord
  split at hrecord
  next => exact absurd hrecord (by simp)
  next => exact h.held q time hq hrecord

/-- The other documents keep what is held for them while one is worked on. -/
theorem held_of_touches {a : Artifacts} {folder : Place} {stem : Text} {d : Disk} (h : Fresh D w)
    (hp : D.member p) (ha : resolveArtifacts s.srcRoot s.cacheDir p = .ok a)
    (hstand : a.StandAt w.disk.workFolder folder stem)
    (htouch : Disk.Touches (IsArtifactPlace folder stem) folder w.disk d) {q : Text} {time : Int}
    (hq : D.member q) (hne : q ≠ p) (hrecord : w.recorded? q = some time) :
    ∃ b c, resolveArtifacts s.srcRoot s.cacheDir q = .ok b ∧
      compileSource s false b (D.textAtTime q time) = .ok c ∧ d.Holds b c := by
  obtain ⟨b, c, hb, hc, hholds⟩ := h.held q time hq hrecord
  exact ⟨b, c, hb, hc, holds_congr (text?_of_others hp hq hne ha hb h.work hstand htouch) hholds⟩

theorem fresh_discard {removed : List Text} {fault : Option ProcessFault} (h : Fresh D w)
    (hp : D.member p) (hdiscard : w.discard s p = (removed, fault, w')) : Fresh D w' := by
  cases ha : resolveArtifacts s.srcRoot s.cacheDir p with
  | error f =>
    -- nothing to remove, but the document is forgotten
    unfold Workspace.discard at hdiscard
    simp only [ha] at hdiscard
    obtain rfl := (Prod.mk.inj (Prod.mk.inj hdiscard).2).2
    exact fresh_forget h p
  | ok a =>
    obtain ⟨folder, stem, hstand⟩ := exists_standAt w.disk.workFolder ha
    obtain ⟨htouch, hrecords⟩ := discard_touches h.tree ha hstand hdiscard
    refine ⟨htouch.tree, htouch.workFolder.trans h.work, fun q time hq hrecord => ?_⟩
    have hleft : (w.forget p).recorded? q = some time := by
      rw [← hrecord, recorded?, recorded?, hrecords]
    rw [recorded?_forget] at hleft
    split at hleft
    next => exact absurd hleft (by simp)
    next hne => exact held_of_touches h hp ha hstand htouch hq hne hleft

theorem fresh_transform {cancelled : Bool} {out : Output} {fault : Option ProcessFault}
    (h : Fresh D w) (hp : D.member p) (hdated : D.Dated w.disk p)
    (htransform : w.transform s cancelled p = (out, fault, w'))
    (hearly : ∀ f, fault = some f → f.isOfWriting = false) : Fresh D w' := by
  cases transformed_of_eq htransform with
  | refused => exact h
  | skipped => exact h
  | stopped hfile ha hstale hc hrun =>
    -- excluded: the fault comes from writing
    have hfault := hearly _ rfl
    rcases run_stopped hrun with ⟨stage, g, rfl⟩ | ⟨e, -, rfl, -⟩
    · exact absurd hfault (by simp [ProcessFault.isOfWriting])
    · exact absurd hfault (by simp [ProcessFault.isOfWriting])
  | @written a text time c d hfile ha hstale hc hrun =>
    obtain ⟨folder, stem, hstand⟩ := exists_standAt w.disk.workFolder ha
    have htouch := run_touches h.tree hstand hrun
    refine ⟨htouch.tree, htouch.workFolder.trans h.work, fun q time' hq hrecord => ?_⟩
    rw [recorded?_remember] at hrecord
    split at hrecord
    next heq =>
      -- recorded last, when all its artifacts stand
      obtain rfl := Option.some.inj hrecord
      obtain rfl := (compileSource_eq_ok hc).1
      rw [heq]
      exact ⟨a, c, ha, hdated text time hfile ▸ hc, holds_of_run h.tree hstand hrun⟩
    next hne => exact held_of_touches h hp ha hstand htouch hq hne hrecord

/-- **The invariant along every history.** -/
theorem history_fresh (hist : CacheHistory D w) : Fresh D w := by
  induction hist with
  | start htree hwork =>
    exact ⟨htree, hwork, fun p time _ hrecord => absurd hrecord (by simp [recorded?])⟩
  | edit _ htree hwork hsame ih => exact fresh_edit ih htree hwork hsame
  | transform _ hp hdated h hearly ih => exact fresh_transform ih hp hdated h hearly
  | forget _ p ih => exact fresh_forget ih p
  | discard _ hp h ih => exact fresh_discard ih hp h

end

/-! ## Never stale -/

/-- **The cache never goes stale behind a skip.** Whatever has been written,
deleted, transformed, forgotten and discarded before: when a transform succeeds,
skipped or not, then the artifacts are what compiling the document as it is now
gives, with a highlight module if and only if it has highlighted code. -/
theorem transform_never_stale {s : TransformSettings} (D : DocumentSet s) {w w' : Workspace}
    (hist : CacheHistory D w) {p : Text} (hp : D.member p) (hdated : D.Dated w.disk p)
    {cancelled : Bool} {out : Output} (h : w.transform s cancelled p = (out, none, w')) :
    ∃ text c, w'.disk.contents p = .ok text ∧
      resolveArtifacts s.srcRoot s.cacheDir p = .ok out.artifacts ∧
      compileSource s false out.artifacts text = .ok c ∧ w'.disk.Holds out.artifacts c := by
  have hfresh := history_fresh hist
  cases transformed_of_eq h with
  | @skipped a text time hfile ha hrecord =>
    -- the record has the time of the file, so it stands for its text
    obtain ⟨b, c, hb, hc, hholds⟩ := hfresh.held p time hp hrecord
    obtain rfl : a = b := Except.ok.inj (ha.symm.trans hb)
    rw [← hdated text time hfile] at hc
    exact ⟨text, c, contents_of_stat hfile, ha, hc, hholds⟩
  | @written a text time c d hfile ha hstale hc hrun =>
    obtain ⟨folder, stem, hstand⟩ := exists_standAt w.disk.workFolder ha
    obtain ⟨rest, hne, hrest, rfl⟩ := D.below p hp
    have hnames : Names (D.root ++ rest) := Path.names_append.2 ⟨D.names_root, hrest⟩
    have htouch := run_touches hfresh.tree hstand hrun
    have hown : ¬ IsArtifactPlace folder stem (D.root ++ rest) := by
      rintro ⟨ext, hext, hplace⟩
      exact not_own_artifact D.names_root D.srcRoot_eq hrest hne ha hstand hext hplace
    have htext := (Disk.contents_rooted hfresh.tree hnames).1 (contents_of_stat hfile)
    obtain rfl := (compileSource_eq_ok hc).1
    refine ⟨text, c, (Disk.contents_rooted htouch.tree hnames).2 ?_, ha, hc,
      holds_of_run hfresh.tree hstand hrun⟩
    rw [← htext]
    exact htouch.textAt? hown

/-- Settings of a transformer with a cache next to the folder it works in. -/
def guideSettings : TransformSettings :=
  { highlighter := plainHighlighter .github, parser := fun _ _ => [], srcRoot := "/src/", cacheDir := "../cache" }

def guidePath : Text := "/src/guide.v.md"

/-- A document with code. -/
def guideText : Text := "---\ntitle: Guide\n---\n# Guide\n\n```sh\nls\n```\n"

def guideDisk : Disk where
  entries := [(["src"], .folder), (["src", "guide.v.md"], .file guideText 5)]
  workFolder := ["src"]
  clock := 9

def guideWorkspace : Workspace := { disk := guideDisk }

def guideSet : DocumentSet guideSettings where
  member p := p = guidePath
  textAtTime _ _ := guideText
  work := ["src"]
  root := ["src"]
  names_root := by decide
  srcRoot_eq := rfl
  below := by
    rintro p rfl
    exact ⟨["guide.v.md"], by decide, by decide, rfl⟩
  apart := by
    rintro p q a b rfl rfl hne
    exact absurd rfl hne

/-- The first transform writes, and the second is skipped. -/
theorem transform_never_stale_guide :
    ∃ out w out' w', guideWorkspace.transform guideSettings false guidePath = (out, none, w) ∧
      w.transform guideSettings false guidePath = (out', none, w') ∧ out'.skipped = true ∧
      ∃ text c, w'.disk.contents guidePath = .ok text ∧
        compileSource guideSettings false out'.artifacts text = .ok c ∧
        w'.disk.Holds out'.artifacts c := by
  have hstart : (guideWorkspace.disk.stat guidePath).toOption = some (.file guideText 5) := by
    decide +kernel
  have hfirst : (guideWorkspace.transform guideSettings false guidePath).2.1.isNone = true := by
    decide +kernel
  have hkept : ((guideWorkspace.transform guideSettings false guidePath).2.2.disk.stat
      guidePath).toOption = some (.file guideText 5) := by decide +kernel
  have hsecond : ((guideWorkspace.transform guideSettings false guidePath).2.2.transform guideSettings
      false guidePath).2.1.isNone = true := by decide +kernel
  have hskipped : ((guideWorkspace.transform guideSettings false guidePath).2.2.transform guideSettings
      false guidePath).1.skipped = true := by decide +kernel
  have hdated : ∀ d : Disk, (d.stat guidePath).toOption = some (.file guideText 5) →
      guideSet.Dated d guidePath := by
    intro d hstat text time hfile
    rw [hfile] at hstat
    exact (Entry.file.inj (Option.some.inj hstat)).1
  generalize hr : guideWorkspace.transform guideSettings false guidePath = first
    at hfirst hkept hsecond hskipped
  obtain ⟨out, fault, w⟩ := first
  generalize hr' : w.transform guideSettings false guidePath = second at hsecond hskipped
  obtain ⟨out', fault', w'⟩ := second
  obtain rfl := Option.isNone_iff_eq_none.1 hfirst
  obtain rfl := Option.isNone_iff_eq_none.1 hsecond
  have hist : CacheHistory guideSet w :=
    .transform (.start (by decide) rfl) rfl (hdated _ hstart) hr (by simp)
  obtain ⟨text, c, htext, -, hc, hholds⟩ :=
    transform_never_stale guideSet hist rfl (hdated _ hkept) hr'
  exact ⟨out, w, out', w', rfl, hr', hskipped, text, c, htext, hc, hholds⟩

end Docweave

import Docweave.Proofs.TransformSteps

/-!
# Transforms that fail

A transform that fails should leave the cache as it was. It does, as long as
the metadata of the document can be written: nothing is written before the
document has compiled. But the component is written before the metadata get
their text, and not all metadata have one: YAML has numbers that are none and
mappings by other keys than texts, and JSON has neither. A document with such
metadata leaves a new component behind.

> `isOk_toJson`: which values have a text in JSON.

> `failed_transform_keeps_cache`: what a failed transform leaves behind when
> the disk did all that it was asked to do.
-/

namespace Docweave

/-! ## Values that can be written -/

namespace Yaml.Value

mutual

/-- The value has a text in JSON: its numbers are finite, the zones of its times
are less than a day off, and its mappings go by texts. -/
def isWritable : Value → Bool
  | float .nan => false
  | float (.infinite _) => false
  | time t => t.offset.natAbs < 24 * 60
  | seq items => allWritable items
  | map textKeys entries => textKeys && entriesWritable entries
  | _ => true

/-- All items have a text in JSON. -/
def allWritable : List Value → Bool
  | [] => true
  | v :: vs => v.isWritable && allWritable vs

/-- All values that texts are keys of have a text in JSON. -/
def entriesWritable : List (Value × Value) → Bool
  | [] => true
  | (text _, v) :: es => v.isWritable && entriesWritable es
  | _ :: es => entriesWritable es

end

theorem isOk_map {ε α β : Type} (f : α → β) (x : Except ε α) : (x.map f).isOk = x.isOk := by
  cases x <;> rfl

theorem isOk_sequenceEntries (es : List (Text × Except JsonFault Json)) :
    (sequenceEntries es).isOk = es.all (·.2.isOk) := by
  induction es with
  | nil => rfl
  | cons e es ih =>
    obtain ⟨k, r⟩ := e
    cases r with
    | error f => rfl
    | ok j =>
      rw [sequenceEntries, isOk_map, ih]
      rfl

/-- The order in which entries are written does not matter. -/
theorem isOk_sortEntries (es : List (Text × Except JsonFault Json)) :
    (sequenceEntries (sortEntries es)).isOk = es.all (·.2.isOk) := by
  rw [isOk_sequenceEntries]
  exact (List.mergeSort_perm es _).all_eq

mutual

theorem isOk_toJson (v : Value) : v.toJson.isOk = v.isWritable := by
  cases v with
  | null => rfl
  | bool b => rfl
  | int i => rfl
  | float f => cases f <;> rfl
  | time t =>
    rw [toJson, isWritable]
    split
    next h => rw [decide_eq_false (Nat.not_lt.2 h)]; rfl
    next h => rw [decide_eq_true (Nat.not_le.1 h)]; rfl
  | text t => rfl
  | seq items =>
    rw [toJson, isWritable, isOk_map]
    exact isOk_itemsToJson items
  | map textKeys entries =>
    rw [toJson, isWritable]
    cases textKeys with
    | false => rfl
    | true =>
      rw [if_pos rfl, isOk_map, isOk_sortEntries, Bool.true_and]
      exact all_entriesToJson entries

theorem isOk_itemsToJson (vs : List Value) : (itemsToJson vs).isOk = allWritable vs := by
  cases vs with
  | nil => rfl
  | cons v vs =>
    rw [itemsToJson, allWritable, ← isOk_toJson v, ← isOk_itemsToJson vs]
    cases v.toJson <;> cases itemsToJson vs <;> rfl

theorem all_entriesToJson (es : List (Value × Value)) :
    (entriesToJson es).all (·.2.isOk) = entriesWritable es := by
  cases es with
  | nil => rfl
  | cons e es =>
    obtain ⟨k, v⟩ := e
    have hrest := all_entriesToJson es
    cases k with
    | text t =>
      rw [entriesToJson, entriesWritable, List.all_cons, hrest, isOk_toJson v]
    | _ => exact hrest

end

end Yaml.Value

/-- The metadata have a text. -/
def Metadata.isWritable (m : Metadata) : Bool := m.all (·.2.isWritable)

theorem isOk_metadataText (m : Metadata) : (metadataText m).isOk = Metadata.isWritable m := by
  rw [metadataText, Yaml.Value.isOk_map, Yaml.Value.isOk_toJson, Yaml.Value.isWritable, Bool.true_and]
  induction m with
  | nil => rfl
  | cons e m ih =>
    rw [List.map_cons, Yaml.Value.entriesWritable, ih]
    rfl

/-- The metadata of the document at a path have a text, if it has metadata. -/
def Disk.metadataWritable (d : Disk) (path : Text) : Bool :=
  match d.contents path with
  | .error _ => true
  | .ok text =>
    match Frontmatter.parse text with
    | .error _ => true
    | .ok fm => Metadata.isWritable fm.metadata

/-! ## What is left behind -/

open Workspace

section

variable {s : TransformSettings} {cancelled : Bool} {a : Artifacts} {text : Text} {c : Compiled}

/-- Where a compiled document stands, its metadata decide whether the metadata
there can be written. -/
theorem metadataWritable_of_compiled {d : Disk} {path : Text} (htext : d.contents path = .ok text)
    (hc : compileSource s cancelled a text = .ok c) :
    d.metadataWritable path = Metadata.isWritable c.metadata := by
  obtain ⟨-, paths, -, hcompile⟩ := compileSource_eq_ok hc
  obtain ⟨fm, -, -, hparse, -, -, hmeta⟩ := compile_eq_ok hcompile
  unfold Disk.metadataWritable
  rw [htext, hmeta]
  simp only [hparse]

end

/-- **A failed transform keeps the cache, if the metadata can be written.** When
a transform fails though the disk did all that it was asked to do, the record is
as it was, and so is the disk if the metadata of the document can be written. If
anything did change, then the metadata cannot be written, and what changed is
that the component was. -/
theorem failed_transform_keeps_cache (s : TransformSettings) (cancelled : Bool) (path : Text)
    (w w' : Workspace) (out : Output) (f : ProcessFault)
    (h : w.transform s cancelled path = (out, some f, w')) (hdisk : f.isOfDisk = false) :
    w'.record = w.record ∧ (w.disk.metadataWritable path = true → w' = w) ∧
      (w' ≠ w → w.disk.metadataWritable path = false ∧
        ∃ text a c, w.disk.contents path = .ok text ∧
          resolveArtifacts s.srcRoot s.cacheDir path = .ok a ∧
          compileSource s cancelled a text = .ok c ∧
          w.disk.applyAll (c.componentChanges a) = (w'.disk, none)) := by
  cases transformed_of_eq h with
  | refused => exact ⟨rfl, fun _ => rfl, fun hne => absurd rfl hne⟩
  | @stopped a text time c d f hfile hfiles hstale hcompiled hrun =>
    rcases run_stopped hrun with ⟨stage, g, rfl⟩ | ⟨e, hmeta, rfl, hchanges⟩
    · exact absurd hdisk (by simp [ProcessFault.isOfDisk])
    · -- the component was written before the metadata were found to have no text
      have htext := contents_of_stat hfile
      have hfalse : w.disk.metadataWritable path = false := by
        rw [metadataWritable_of_compiled htext hcompiled, ← isOk_metadataText, hmeta]
        rfl
      exact ⟨rfl, fun htrue => absurd (hfalse.symm.trans htrue) (by simp),
        fun _ => ⟨hfalse, text, a, c, htext, hfiles, hcompiled, hchanges⟩⟩

/-- Settings of a transformer for two folders. -/
def ratingSettings : TransformSettings :=
  { highlighter := plainHighlighter .github, parser := fun _ _ => [], srcRoot := "/src", cacheDir := "/cache" }

/-- A workspace with one document. -/
def ratingWorkspace (text : Text) : Workspace :=
  { disk := { entries := [(["src"], .folder), (["src", "a.v.md"], .file text 1)] } }

/-- A container that is never closed, below metadata that can be written. -/
def openRating : Text := "---\nrating: 4.5\n---\n[\n"

/-- A rating that is no number. -/
def noRating : Text := "---\nrating: .nan\n---\n# A\n"

theorem failed_transform_keeps_cache_unclosed :
    ((ratingWorkspace openRating).transform ratingSettings false "/src/a.v.md").2.1.map (·.isOfDisk) =
        some false ∧
      (ratingWorkspace openRating).disk.metadataWritable "/src/a.v.md" = true ∧
      ((ratingWorkspace openRating).transform ratingSettings false "/src/a.v.md").2.2 =
        ratingWorkspace openRating := by
  have hfault : ((ratingWorkspace openRating).transform ratingSettings false "/src/a.v.md").2.1.map
      (·.isOfDisk) = some false := by decide +kernel
  have hwritable : (ratingWorkspace openRating).disk.metadataWritable "/src/a.v.md" = true := by
    decide +kernel
  generalize hr : (ratingWorkspace openRating).transform ratingSettings false "/src/a.v.md" = r
    at hfault ⊢
  obtain ⟨out, fault, w'⟩ := r
  obtain ⟨f, rfl, hdisk⟩ := Option.map_eq_some_iff.1 hfault
  have hkept := failed_transform_keeps_cache ratingSettings false "/src/a.v.md"
    (ratingWorkspace openRating) w' out f hr hdisk
  exact ⟨hfault, hwritable, hkept.2.1 hwritable⟩

/-- A rating that is no number leaves the component of its document behind. -/
theorem component_left_by_failed_transform :
    ((ratingWorkspace noRating).transform ratingSettings false "/src/a.v.md").2.1.map (·.isOfDisk) =
        some false ∧
      (ratingWorkspace noRating).disk.has "/cache/a.vue" = false ∧
      ((ratingWorkspace noRating).transform ratingSettings false "/src/a.v.md").2.2.disk.has
        "/cache/a.vue" = true := by
  decide +kernel

end Docweave

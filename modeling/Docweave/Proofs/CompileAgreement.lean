import Docweave.Command.Run
import Docweave.Proofs.AlikeDisks
import Docweave.Proofs.PoolRuns
import Docweave.Proofs.QueuedCode

/-!
# Three ways to compile a document

An editor compiles the text of an open document, a command prints the component
of a file, and a build writes it into the cache. Each goes its own way: they find
the document by a URI, by a path of the command line or by a path of the project,
the first two look for its folder elsewhere when it is not below the source root,
and only the last looks at the record. `verdict` is what they have in common.

They share the settings, but not the order in which the blocks of the document
come to be highlighted. Where several blocks fault, that order decides which of them
is named, and nothing else.

> `verdict_eq_ok`, `verdict_alike`: the verdicts under two schedules.

> `compileAt_eq_verdict`, `compileSource_eq_verdict`: each way comes to the verdict.

> `contents_clean`, with `resolveArtifacts_clean`: it does not matter that one of them
> cleans the path.

> `compiles_agree`: the three give the same component, or fail for the same reason,
> each under its own schedule.
-/

namespace Docweave

open Docweave.Path (rooted Names)
open Workspace

/-! ## The verdict on a text -/

/-- Why a text is not compiled for its artifacts. -/
inductive SourceFault
  | script (fault : Script.CheckFault)
  | path (fault : PathFault)
  | compile (fault : CompileFault)

namespace SourceFault

/-- The fault as an editor hears of it. -/
def document : SourceFault → DocumentFault
  | script f => .script f
  | path f => .path f
  | compile f => .compile f

/-- The fault as a build reports it. -/
def process : SourceFault → ProcessFault
  | script f => .script f
  | path f => .path f
  | compile f => .compile f

theorem message_process (f : SourceFault) : f.process.message = f.document.message := by
  cases f with
  | script f => rfl
  | path f => rfl
  | compile f => rfl

end SourceFault

/-- What becomes of a text with these artifacts: its script is checked, if that is
asked for, and then it is compiled. -/
def verdict (s : TransformSettings) (cancelled : Bool) (a : Artifacts) (text : Text) :
    Except SourceFault Compiled :=
  match (if s.checkScript then Script.checkWith s.parser text else .ok ()) with
  | .error f => .error (.script f)
  | .ok () =>
    match referencePaths s.cacheDir a with
    | .error f => .error (.path f)
    | .ok paths => (compileUnless cancelled s.highlighter s.schedule s.options text paths).mapError .compile

/-! ## Schedules -/

/-- The same settings with another order of highlighting. -/
def TransformSettings.under (s : TransformSettings) (schedule : Schedule) : TransformSettings :=
  { s with schedule := schedule }

/-- The code blocks of a document. -/
def documentJobs (src : Text) : List HighlightJob :=
  match Frontmatter.parse src with
  | .error _ => []
  | .ok fm => codeJobs 0 (tokenize (Source.sections fm.body).body)

/-- Faults of a compile for the same reason. Where blocks of the queue fault, each
fault is that of one of them, and else they are the same. -/
inductive CompileFault.Alike (h : Highlighter) (jobs : List HighlightJob) : CompileFault → CompileFault → Prop
  | same {f : CompileFault} : Alike h jobs f f
  | blocks {b b' : HighlightFault} (own : OwnFault h jobs b) (own' : OwnFault h jobs b') :
      Alike h jobs (.highlight b) (.highlight b')

/-- Faults of a text for the same reason. -/
inductive SourceFault.Alike (h : Highlighter) (jobs : List HighlightJob) : SourceFault → SourceFault → Prop
  | script {f : Script.CheckFault} : Alike h jobs (.script f) (.script f)
  | path {f : PathFault} : Alike h jobs (.path f) (.path f)
  | compile {f f' : CompileFault} (halike : f.Alike h jobs f') : Alike h jobs (.compile f) (.compile f')

section

variable {h : Highlighter} {σ : Schedule} {options : CompileOptions} {text : Text} {paths : ReferencePaths}

/-- A compile fails before it comes to the code, or all that can fail is the code. -/
theorem compile_cases (options : CompileOptions) (text : Text) (paths : ReferencePaths) :
    (∃ f, ∀ h σ, compile h σ options text paths = .error f) ∨
      ∃ component : List (Text × Text) → Compiled, ∀ h σ, compile h σ options text paths =
        ((highlightAll h options.concurrency σ (documentJobs text)).mapError .highlight).map component := by
  unfold compile documentJobs
  cases Frontmatter.parse text with
  | error e => exact Or.inl ⟨_, fun h σ => rfl⟩
  | ok fm =>
    simp only
    cases validateContainers (tokenize (Source.sections fm.body).body) text fm.bodyLine with
    | error e => exact Or.inl ⟨_, fun h σ => rfl⟩
    | ok checked =>
      simp only
      cases hbuild : buildTree ⟨text, fm.bodyLine, options.components, paths.highlights⟩
          (tokenize (Source.sections fm.body).body) with
      | error e => exact Or.inl ⟨_, fun h σ => rfl⟩
      | ok built =>
        obtain ⟨nodes, log⟩ := built
        have hjobs : log.jobs = codeJobs 0 (tokenize (Source.sections fm.body).body) := buildTree_jobs hbuild
        let tree := (Resolver.resolveTree {} nodes).1
        refine Or.inr ⟨fun highlights => ⟨ComponentParts.assemble ⟨serialize tree.children,
          Source.sections fm.body, fm.metadata, highlights, log.imports, tree.declarations⟩ options paths,
          fm.metadata, highlights⟩, fun h σ => ?_⟩
        simp only [← hjobs]
        cases highlightAll h options.concurrency σ log.jobs with
        | error b => rfl
        | ok highlights => rfl

/-- A document that compiles does so under every schedule. -/
theorem compile_of_schedule {c : Compiled} (hc : compile h σ options text paths = .ok c) (σ' : Schedule) :
    compile h σ' options text paths = .ok c := by
  rcases compile_cases options text paths with ⟨f, hf⟩ | ⟨component, hcomponent⟩
  · exact absurd ((hf h σ).symm.trans hc) (by simp)
  · rw [hcomponent] at hc ⊢
    cases hall : highlightAll h options.concurrency σ (documentJobs text) with
    | error b =>
      rw [hall] at hc
      exact absurd hc (by simp [Except.mapError, Except.map])
    | ok highlights =>
      rw [hall] at hc
      rw [highlightAll_eq_ok hall σ']
      exact hc

/-- With one block at a time nothing depends on the schedule. -/
theorem compile_one (h : Highlighter) (hone : options.concurrency = 1) (σ σ' : Schedule) :
    compile h σ options text paths = compile h σ' options text paths := by
  rcases compile_cases options text paths with ⟨f, hf⟩ | ⟨component, hcomponent⟩
  · rw [hf, hf]
  · rw [hcomponent, hcomponent, hone, highlightAll_one h _ σ σ']

/-- One that does not compile fails under every schedule. Only where the fault is that
of a block may it be another. -/
theorem compile_alike {f : CompileFault} (hf : compile h σ options text paths = .error f) (σ' : Schedule) :
    ∃ f', compile h σ' options text paths = .error f' ∧ f.Alike h (documentJobs text) f' := by
  rcases compile_cases options text paths with ⟨f', hf'⟩ | ⟨component, hcomponent⟩
  · obtain rfl := Except.error.inj (hf.symm.trans (hf' h σ))
    exact ⟨f, hf' h σ', .same⟩
  · rw [hcomponent] at hf
    rw [hcomponent]
    cases hall : highlightAll h options.concurrency σ (documentJobs text) with
    | ok highlights =>
      rw [hall] at hf
      exact absurd hf (by simp [Except.mapError, Except.map])
    | error b =>
      rw [hall] at hf
      obtain rfl := Except.error.inj hf
      cases hall' : highlightAll h options.concurrency σ' (documentJobs text) with
      | ok highlights => exact absurd (hall.symm.trans (highlightAll_eq_ok hall' σ)) (by simp)
      | error b' => exact ⟨_, rfl, .blocks (highlightAll_eq_error hall) (highlightAll_eq_error hall')⟩

end

section

variable {s : TransformSettings} {cancelled : Bool} {a : Artifacts} {p text : Text}

/-- The verdict is a fault before anything is compiled, or that of the compile. -/
theorem verdict_cases (s : TransformSettings) (cancelled : Bool) (a : Artifacts) (text : Text) :
    (∃ f, f.Alike s.highlighter (documentJobs text) f ∧
        ∀ σ, verdict (s.under σ) cancelled a text = .error f) ∨
      ∃ paths, cancelled = false ∧ ∀ σ, verdict (s.under σ) cancelled a text =
        (compile s.highlighter σ s.options text paths).mapError .compile := by
  cases hcheck : (if s.checkScript then Script.checkWith s.parser text else .ok ()) with
  | error f =>
    refine Or.inl ⟨.script f, .script, fun σ => ?_⟩
    rw [verdict, show (if (s.under σ).checkScript then Script.checkWith (s.under σ).parser text else .ok ()) =
      .error f from hcheck]
  | ok checked =>
    have hverdict : ∀ σ, verdict (s.under σ) cancelled a text = match referencePaths s.cacheDir a with
        | .error f => .error (.path f)
        | .ok paths => (compileUnless cancelled s.highlighter σ s.options text paths).mapError .compile := by
      intro σ
      rw [verdict, show (if (s.under σ).checkScript then Script.checkWith (s.under σ).parser text else .ok ()) =
        .ok () from hcheck]
      rfl
    cases hpaths : referencePaths s.cacheDir a with
    | error f => exact Or.inl ⟨.path f, .path, fun σ => by rw [hverdict, hpaths]⟩
    | ok paths =>
      cases cancelled with
      | true => exact Or.inl ⟨.compile .cancelled, .compile .same, fun σ => by rw [hverdict, hpaths]; rfl⟩
      | false => exact Or.inr ⟨paths, rfl, fun σ => by rw [hverdict, hpaths]; rfl⟩

/-- The verdict is a component under one schedule if it is under another. -/
theorem verdict_eq_ok {σ : Schedule} {c : Compiled} (hc : verdict (s.under σ) cancelled a text = .ok c)
    (σ' : Schedule) : verdict (s.under σ') cancelled a text = .ok c := by
  rcases verdict_cases s cancelled a text with ⟨f, -, hf⟩ | ⟨paths, -, hcompile⟩
  · exact absurd ((hf σ).symm.trans hc) (by simp)
  · rw [hcompile, mapError_eq_ok] at hc ⊢
    exact compile_of_schedule hc σ'

/-- The verdict under another schedule is a fault for the same reason. -/
theorem verdict_alike {σ : Schedule} {f : SourceFault} (hf : verdict (s.under σ) cancelled a text = .error f)
    (σ' : Schedule) :
    ∃ f', verdict (s.under σ') cancelled a text = .error f' ∧
      f.Alike s.highlighter (documentJobs text) f' ∧ (s.options.concurrency = 1 → f' = f) := by
  rcases verdict_cases s cancelled a text with ⟨f', halike, hf'⟩ | ⟨paths, -, hcompile⟩
  · obtain rfl := Except.error.inj (hf.symm.trans (hf' σ))
    exact ⟨f, hf' σ', halike, fun _ => rfl⟩
  · rw [hcompile] at hf
    rw [hcompile]
    cases hg : compile s.highlighter σ s.options text paths with
    | ok c =>
      rw [hg] at hf
      exact absurd hf (by simp [Except.mapError])
    | error g =>
      rw [hg] at hf
      obtain rfl := Except.error.inj hf
      obtain ⟨g', hg', halike⟩ := compile_alike hg σ'
      refine ⟨.compile g', by rw [hg']; rfl, .compile halike, fun hone => ?_⟩
      rw [Except.error.inj (hg'.symm.trans ((compile_one s.highlighter hone σ' σ).trans hg))]

/-! ## Each way -/

/-- A build comes to the verdict. -/
theorem compileSource_eq_verdict :
    compileSource s cancelled a text = (verdict s cancelled a text).mapError SourceFault.process := by
  unfold compileSource verdict
  cases (if s.checkScript then Script.checkWith s.parser text else .ok ()) with
  | error f => rfl
  | ok checked =>
    cases referencePaths s.cacheDir a with
    | error f => rfl
    | ok paths =>
      simp only
      cases compileUnless cancelled s.highlighter s.schedule s.options text paths with
      | error f => rfl
      | ok c => rfl

/-- A text that is compiled as if it stood at a path below the source root comes
to the verdict. -/
theorem compileAt_eq_verdict (ha : resolveArtifacts s.srcRoot s.cacheDir p = .ok a) :
    Documents.compileAt s cancelled p text = (verdict s cancelled a text).mapError SourceFault.document := by
  unfold Documents.compileAt Documents.artifactsOf verdict
  rw [ha]
  cases (if s.checkScript then Script.checkWith s.parser text else .ok ()) with
  | error f => rfl
  | ok checked =>
    simp only
    cases referencePaths s.cacheDir a with
    | error f => rfl
    | ok paths =>
      simp only
      cases compileUnless cancelled s.highlighter s.schedule s.options text paths with
      | error f => rfl
      | ok c => rfl

/-! ## Clean paths -/

/-- What is read along a path is read along its clean form. -/
theorem contents_clean {d : Disk} (htree : d.IsTree) (hp : Path.isRooted p = true)
    (h : d.contents p = .ok text) : d.contents (Path.clean p) = .ok text := by
  obtain ⟨es, hes, heq⟩ := Path.clean_of_isRooted hp
  have hplace : d.placeOf p = es := by
    rw [Disk.placeOf, ← Path.placeFrom_clean, heq, Path.placeFrom_rooted _ hes]
  rw [heq, Disk.contents_rooted htree hes, ← hplace]
  exact Disk.textAt?_of_contents htree h

end

/-! ## The three ways -/

section

variable {s : TransformSettings} {a : Artifacts} {p text file uri : Text} {time : Int} {w : Workspace}
  {docs : Documents} (cancelled : Bool)

theorem compile_open (ha : resolveArtifacts s.srcRoot s.cacheDir p = .ok a) (hopen : docs.text? uri = some text)
    (huri : Uri.toPath uri = .ok p) :
    docs.compile s cancelled uri = (verdict s cancelled a text).mapError SourceFault.document := by
  unfold Documents.compile
  simp only [hopen, huri]
  exact compileAt_eq_verdict ha

theorem compileOne_file {d : Disk} (htree : d.IsTree) (hp : Path.isRooted p = true)
    (ha : resolveArtifacts s.srcRoot s.cacheDir p = .ok a) (htext : d.contents p = .ok text)
    (hfile : Config.absoluteFrom (Config.workPath d) "." file = Path.clean p) :
    Command.compileOne s cancelled file d =
      match verdict s cancelled a text with
      | .error f => { fault := some (.document f.document), disk := d }
      | .ok c => { out := c.content, disk := d } := by
  unfold Command.compileOne
  simp only [hfile, contents_clean htree hp htext]
  rw [compileAt_eq_verdict ((resolveArtifacts_clean hp).2 ha)]
  cases verdict s cancelled a text with
  | error f => rfl
  | ok c => rfl

theorem skipped_transform (hstat : w.disk.stat p = .ok (.file text time))
    (ha : resolveArtifacts s.srcRoot s.cacheDir p = .ok a) :
    (w.transform s cancelled p).1.skipped = true ↔ w.recorded? p = some time := by
  rw [transform_of_file hstat ha]
  split
  next hrecord => simp [hrecord]
  next hrecord =>
    simp only [hrecord, iff_false]
    split
    next => simp
    next =>
      split
      next => simp
      next => simp

/-- A transform that is not skipped writes the component, if it can, or fails for
the reason of the verdict. -/
theorem transform_verdict (htree : w.disk.IsTree) (hstat : w.disk.stat p = .ok (.file text time))
    (ha : resolveArtifacts s.srcRoot s.cacheDir p = .ok a) {out : Output} {fault : Option ProcessFault}
    {w' : Workspace} (h : w.transform s cancelled p = (out, fault, w')) (hskip : out.skipped = false) :
    match verdict s cancelled a text with
    | .error f => fault = some f.process ∧ w' = w
    | .ok c =>
      (fault = none → w'.disk.text? a.component = some c.content) ∧
        ∀ f, fault = some f → f.isOfWriting = true := by
  have hstale : w.recorded? p ≠ some time := by
    intro hrecord
    have hskipped := (skipped_transform cancelled hstat ha).2 hrecord
    rw [h, hskip] at hskipped
    exact absurd hskipped (by simp)
  rw [transform_of_file hstat ha, if_neg hstale, compileSource_eq_verdict] at h
  cases hverdict : verdict s cancelled a text with
  | error f =>
    rw [hverdict] at h
    obtain ⟨-, rfl, rfl⟩ := h
    exact ⟨rfl, rfl⟩
  | ok c =>
    rw [hverdict, show (Except.ok c).mapError SourceFault.process = .ok c from rfl] at h
    simp only at h
    obtain ⟨folder, stem, hstand⟩ := exists_standAt w.disk.workFolder ha
    split at h
    next d f hrun =>
      obtain ⟨-, rfl, rfl⟩ := h
      refine ⟨fun hnone => absurd hnone (by simp), ?_⟩
      rintro g hg
      obtain rfl := Option.some.inj hg
      rcases run_stopped hrun with ⟨stage, g, rfl⟩ | ⟨e, -, rfl, -⟩
      · rfl
      · rfl
    next d hrun =>
      obtain ⟨-, rfl, rfl⟩ := h
      exact ⟨fun _ => (holds_of_run htree hstand hrun).component, fun f hf => absurd hf (by simp)⟩

/-- **The three ways to compile agree,** whatever parser and highlighter the settings
name, and in whatever order each of them has the blocks highlighted. A document below
the source root that compiles on one way compiles on all: an editor that has its text
open gets the component, the command prints it, and a transform that is not skipped
writes it unless the writing fails. One that does not compile fails on all for the
same reason, and nothing is written: under one schedule with the very same fault, and
under two with the same unless several blocks fault, of which each way names one. With
one block at a time that is the same one. -/
theorem compiles_agree {S rest : List Text} (hS : Names S) (hroot : Path.clean s.srcRoot = rooted S)
    (hrest : Names rest) (hp : Path.clean p = rooted (S ++ rest)) (htree : w.disk.IsTree)
    (hstat : w.disk.stat p = .ok (.file text time))
    (hfile : Config.absoluteFrom (Config.workPath w.disk) "." file = Path.clean p)
    (hopen : docs.text? uri = some text) (huri : Uri.toPath uri = .ok p) :
    ∃ a, resolveArtifacts s.srcRoot s.cacheDir p = .ok a ∧
      (∀ σ, (w.transform (s.under σ) cancelled p).1.skipped = true ↔ w.recorded? p = some time) ∧
      (∀ σ c, verdict (s.under σ) cancelled a text = .ok c → ∀ σ',
        docs.compile (s.under σ') cancelled uri = .ok c ∧
          Command.compileOne (s.under σ') cancelled file w.disk = { out := c.content, disk := w.disk } ∧
          ∀ out fault w', w.transform (s.under σ') cancelled p = (out, fault, w') → out.skipped = false →
            (fault = none → w'.disk.text? a.component = some c.content) ∧
              ∀ f, fault = some f → f.isOfWriting = true) ∧
      ∀ σ f, verdict (s.under σ) cancelled a text = .error f →
        (docs.compile (s.under σ) cancelled uri = .error f.document ∧
          Command.compileOne (s.under σ) cancelled file w.disk =
            { fault := some (.document f.document), disk := w.disk } ∧
          f.process.message = f.document.message ∧
          ∀ out fault w', w.transform (s.under σ) cancelled p = (out, fault, w') → out.skipped = false →
            fault = some f.process ∧ w' = w) ∧
        ∀ σ', ∃ f', verdict (s.under σ') cancelled a text = .error f' ∧
          f.Alike s.highlighter (documentJobs text) f' ∧ (s.options.concurrency = 1 → f' = f) := by
  have hrooted : Path.isRooted p = true := by
    rw [← Path.isRooted_clean, hp, Path.isRooted_rooted]
  obtain ⟨a, ha⟩ : ∃ a, resolveArtifacts s.srcRoot s.cacheDir p = .ok a :=
    ⟨_, (resolveArtifacts_clean hrooted).1 (hp ▸ resolveArtifacts_below hS hroot hrest s.cacheDir)⟩
  have hprinted : ∀ σ, _ := fun σ =>
    compileOne_file (s := s.under σ) cancelled htree hrooted ha (contents_of_stat hstat) hfile
  have hedited : ∀ σ, _ := fun σ => compile_open (s := s.under σ) cancelled ha hopen huri
  refine ⟨a, ha, fun σ => skipped_transform (s := s.under σ) cancelled hstat ha, ?_, ?_⟩
  · intro σ c hc σ'
    have hverdict := verdict_eq_ok hc σ'
    have hprinted' := hprinted σ'
    have hedited' := hedited σ'
    rw [hverdict] at hprinted' hedited'
    refine ⟨hedited', hprinted', fun out fault w' h hskip => ?_⟩
    have hwritten := transform_verdict (s := s.under σ') cancelled htree hstat ha h hskip
    rw [hverdict] at hwritten
    exact hwritten
  · intro σ f hverdict
    have hprinted' := hprinted σ
    have hedited' := hedited σ
    rw [hverdict] at hprinted' hedited'
    refine ⟨⟨hedited', hprinted', f.message_process, fun out fault w' h hskip => ?_⟩, verdict_alike hverdict⟩
    have hrefused := transform_verdict (s := s.under σ) cancelled htree hstat ha h hskip
    rw [hverdict] at hrefused
    exact hrefused

end

/-- A document with a container. -/
def agreeText : Text := "[\n\n# A\n\n]\n"

/-- A project in the working folder, with that document. -/
def agreeWorkspace : Workspace :=
  { disk :=
      { workFolder := ["p"]
        entries := [(["p"], .folder), (["p", "src"], .folder), (["p", "src", "a.v.md"], .file agreeText 1)] } }

/-- Settings of that project. -/
def agreeSettings : TransformSettings :=
  { highlighter := plainHighlighter .github, parser := fun _ _ => [], srcRoot := "/p/src", cacheDir := "/p/.mdv"
    checkScript := true }

/-- A URI of the document, with an escape and a detour. -/
def agreeUri : Text := "file:///p/src/../src/a%2Ev.md"

/-- The document, open under that URI. -/
def agreeDocuments : Documents := ⟨[(agreeUri, agreeText)]⟩

theorem eq_ok_of_toOption {ε α : Type} {x : Except ε α} {a : α} (h : x.toOption = some a) : x = .ok a := by
  cases x with
  | error e => exact absurd (show none = some a from h) (by simp)
  | ok b => exact congrArg Except.ok (Option.some.inj h)

theorem compiles_agree_detour :
    ∃ a c, resolveArtifacts agreeSettings.srcRoot agreeSettings.cacheDir "/p/src/../src/a.v.md" = .ok a ∧
      agreeDocuments.compile agreeSettings false agreeUri = .ok c ∧
      Command.compileOne agreeSettings false "src/a.v.md" agreeWorkspace.disk =
        { out := c.content, disk := agreeWorkspace.disk } := by
  have hS : Names ["p", "src"] := by decide
  have hroot : Path.clean agreeSettings.srcRoot = rooted ["p", "src"] := by decide +kernel
  have hrest : Names ["a.v.md"] := by decide
  have hp : Path.clean "/p/src/../src/a.v.md" =
      rooted ((["p", "src"] : List Text) ++ (["a.v.md"] : List Text)) := by decide +kernel
  have hstat : agreeWorkspace.disk.stat "/p/src/../src/a.v.md" = .ok (.file agreeText 1) :=
    eq_ok_of_toOption (by decide +kernel)
  have hfile : Config.absoluteFrom (Config.workPath agreeWorkspace.disk) "." "src/a.v.md" =
      Path.clean "/p/src/../src/a.v.md" := by decide +kernel
  have hopen : agreeDocuments.text? agreeUri = some agreeText := by decide +kernel
  have huri : Uri.toPath agreeUri = .ok "/p/src/../src/a.v.md" := eq_ok_of_toOption (by decide +kernel)
  have hcompiles : (agreeDocuments.compile agreeSettings false agreeUri).isOk = true := by decide +kernel
  obtain ⟨a, ha, -, hok, herror⟩ :=
    compiles_agree false hS hroot hrest hp (by decide) hstat hfile hopen huri
  cases hverdict : verdict (agreeSettings.under []) false a agreeText with
  | ok c =>
    obtain ⟨hedited, hprinted, -⟩ := hok [] c hverdict []
    exact ⟨a, c, ha, hedited, hprinted⟩
  | error f =>
    have hfails : agreeDocuments.compile agreeSettings false agreeUri = _ := (herror [] f hverdict).1.1
    rw [hfails] at hcompiles
    exact absurd hcompiles (by simp [Except.isOk, Except.toBool])

end Docweave

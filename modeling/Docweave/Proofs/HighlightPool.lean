import Docweave.Proofs.Placeholders
import Docweave.Proofs.PoolRuns
import Docweave.Proofs.ValidatedBuild

/-!
# Code in its place

The code blocks of a document are numbered as the build comes to them, their
placeholders stand in the tree in that order, and each call of the highlighter
fills the place of its own block. So the markup comes under the right key
whatever the calls do in between.

> `code_highlighted_in_place`: the queue, the placeholders and the outcomes of
> all runs of the pool.
-/

namespace Docweave

/-- **Code is highlighted in its place.** For every document that is built: the
queue holds its code blocks in document order, the keys number them, and the
fragments of the tree have one placeholder for each block of the queue, in the
same order. For every highlighter, whatever number of calls run at a time and
in whatever order they come back: every run ends; with answers for all blocks
it ends with the answers, each under the key of its block; with a fault it ends
with the fault of a block whose own call faulted, not of one that gave up. What
`highlightAll` returns under some schedule is what these runs end with. -/
theorem code_highlighted_in_place (ctx : BuildContext) (d : Markdown.Document) (nodes : List Node)
    (log : BuildLog) (hbuild : buildTree ctx (Token.ofDocument d) = .ok (nodes, log)) :
    log.jobs = ((Token.ofDocument d).filter Token.isCode).mapIdx
      (fun i t => ⟨"shiki_" ++ Text.ofNat i, t.content, t.info⟩) ∧
    (∃ ps : List Pattern, ps.flatMap Pattern.codes = log.jobs ∧
      fragments nodes = ps.map (Pattern.fill ctx.highlightPath) ∧
      ∀ path, ∃ nodes', buildTree (ctx.withPath path) (Token.ofDocument d) = .ok (nodes', log) ∧
        fragments nodes' = ps.map (Pattern.fill path)) ∧
    (log.jobs.map HighlightJob.key).Nodup ∧
    ∀ (h : Highlighter) (limit : Int),
      (∀ n p, PoolRun h limit log.jobs n p →
        n ≤ 3 * log.jobs.length ∧ (p.Finished ∨ ∃ q, PoolStep h limit log.jobs p q)) ∧
      (∀ n p, PoolRun h limit log.jobs n p → p.Finished →
        (∀ job ∈ log.jobs, ∃ markup, h job.code job.lang = .ok markup) →
        ∃ highlights, p.outcome log.jobs = .ok highlights ∧
          (∀ schedule, highlightAll h limit schedule log.jobs = .ok highlights) ∧
          highlights.map Prod.fst = log.jobs.map HighlightJob.key ∧
          ∀ (i : Nat) (job : HighlightJob), log.jobs[i]? = some job →
            ∃ markup, h job.code job.lang = .ok markup ∧ highlights[i]? = some (job.key, markup)) ∧
      (∀ n p, PoolRun h limit log.jobs n p → p.Finished →
        (∃ job ∈ log.jobs, ∃ cause, h job.code job.lang = .error cause) →
        ∃ (i : Nat) (job : HighlightJob) (cause : Text), log.jobs[i]? = some job ∧
          p.calls[i]? = some (.settled (.answered (.error cause))) ∧
          h job.code job.lang = .error cause ∧
          p.outcome log.jobs = .error ⟨job.key, job.lang, cause⟩) ∧
      (∀ schedule, ∃ n p, PoolRun h limit log.jobs n p ∧ p.Finished ∧
        p.outcome log.jobs = highlightAll h limit schedule log.jobs) ∧
      ∀ n p, PoolRun h limit log.jobs n p → p.Finished →
        ∃ schedule, highlightAll h limit schedule log.jobs = p.outcome log.jobs := by
  have hrun : (BuildState.start {} (Token.ofDocument d)).run ctx = .ok (nodes, log) := hbuild
  have hjobs : log.jobs = codeJobs 0 (Token.ofDocument d) :=
    run_jobs [] hrun (start_onDocument (documentScan_ofDocument d))
  have hkeys : (log.jobs.map HighlightJob.key).Nodup := by
    rw [hjobs]
    exact nodup_codeJobs_keys 0 _
  refine ⟨?_, ?_, hkeys, ?_⟩
  · rw [hjobs]
    unfold codeJobs codeJob
    simp only [Nat.zero_add]
  · obtain ⟨ps, hcodes, hpaths⟩ := build_patterns hbuild
    refine ⟨ps, hcodes, ?_, hpaths⟩
    obtain ⟨nodes', hbuild', hfrag⟩ := hpaths ctx.highlightPath
    have hsame : buildTree ctx (Token.ofDocument d) = .ok (nodes', log) := hbuild'
    obtain rfl : nodes = nodes' := by simpa [hbuild] using hsame
    exact hfrag
  · intro h limit
    refine ⟨fun n p => run_steps, ?_, ?_, fun schedule => run_of_schedule h limit schedule log.jobs,
      fun n p => schedule_of_run⟩
    · intro n p hrun hp hall
      obtain ⟨hout, houtcome⟩ := outcome_of_answers hrun hp hkeys hall
      obtain ⟨schedule, hschedule⟩ := schedule_of_run hrun hp
      refine ⟨_, houtcome, highlightAll_eq_ok (hschedule.trans houtcome), withKeys_fst hout.1, ?_⟩
      intro i job hjob
      obtain ⟨markup, hm, hok⟩ := hout.2 i job hjob
      exact ⟨markup, hok, getElem?_withKeys hjob hm⟩
    · rintro n p hrun hp ⟨job, hmem, cause, hjob⟩
      exact outcome_of_fault hrun hp hmem hjob

/-- Code in a quote in a list in a container, indented code behind it, and
markup that looks like a placeholder. -/
def codeDocument : Markdown.Document :=
  [.paragraph [⟨1, "[\n"⟩] [],
   .list none [.item [.quote [.fencedCode "sh" [⟨3, "ls\n"⟩]]]],
   .html [⟨5, "<CodeBlock name=\"shiki_7\"></CodeBlock>\n"⟩] [],
   .paragraph [⟨7, "]\n"⟩] [],
   .code [⟨9, "x\n"⟩]]

/-- It knows one language and says so of any other. -/
def shellOnly : Highlighter := fun code lang => if lang = "sh" then .ok code else .error "no lexer"

theorem code_highlighted_in_place_nested :
    ∃ nodes log, buildTree ⟨[], 0, [], []⟩ (Token.ofDocument codeDocument) = .ok (nodes, log) ∧
      log.jobs = [⟨"shiki_0", "ls\n", "sh"⟩, ⟨"shiki_1", "x\n", []⟩] ∧
      (∀ n p, PoolRun shellOnly 0 log.jobs n p → p.Finished →
        p.outcome log.jobs = .error ⟨"shiki_1", [], "no lexer"⟩) ∧
      ∀ n p, PoolRun (plainHighlighter .monokai) 2 log.jobs n p → p.Finished →
        ∃ highlights, p.outcome log.jobs = .ok highlights ∧
          highlights.map Prod.fst = [("shiki_0" : Text), ("shiki_1" : Text)] := by
  have hcheck : validateContainers (Token.ofDocument codeDocument) [] 0 = .ok () := by
    decide +kernel
  obtain ⟨nodes, log, hbuild⟩ : ∃ nodes log,
      buildTree ⟨[], 0, [], []⟩ (Token.ofDocument codeDocument) = .ok (nodes, log) :=
    validated_run (start_validated (documentScan_ofDocument codeDocument) hcheck)
  obtain ⟨hqueue, _, _, hpool⟩ := code_highlighted_in_place _ _ nodes log hbuild
  have hjobs : log.jobs = [⟨"shiki_0", "ls\n", "sh"⟩, ⟨"shiki_1", "x\n", []⟩] := by
    rw [hqueue]
    decide +kernel
  refine ⟨nodes, log, hbuild, hjobs, ?_, ?_⟩
  · intro n p hrun hp
    obtain ⟨i, job, cause, hjob, _, herr, houtcome⟩ := (hpool shellOnly 0).2.2.1 n p hrun hp
      ⟨⟨"shiki_1", "x\n", []⟩, hjobs ▸ List.mem_cons_of_mem _ (List.mem_singleton_self _),
        "no lexer", by decide +kernel⟩
    have hmem : job ∈ log.jobs := List.mem_of_getElem? hjob
    rw [hjobs, List.mem_cons, List.mem_singleton] at hmem
    rw [houtcome]
    rcases hmem with rfl | rfl
    · have hok : shellOnly "ls\n" "sh" = .ok "ls\n" := by decide +kernel
      exact absurd (hok.symm.trans herr) (by simp)
    · have hno : shellOnly "x\n" [] = .error "no lexer" := by decide +kernel
      obtain rfl : _ = cause := Except.error.inj (hno.symm.trans herr)
      rfl
  · intro n p hrun hp
    obtain ⟨highlights, houtcome, _, hkeys, _⟩ :=
      (hpool (plainHighlighter .monokai) 2).2.1 n p hrun hp fun job _ => ⟨_, rfl⟩
    exact ⟨highlights, houtcome, by rw [hkeys, hjobs]; rfl⟩

end Docweave

import Docweave.Highlight.Pool

/-!
# Runs of the highlight pool

`PoolStep` lists what can happen next in a pool: the next call in turn starts,
when there is room for it; a call answers; a call gives up, once there is a
fault; what a call returned is settled. Nothing is said about the order
otherwise, so a statement about every `PoolRun` holds for every order in which
the calls come back.

> `run_steps`: a run takes three steps for each block, and one that is not
> through can go on, so every run ends.

> `outcome_of_answers`: when the highlighter answers for all blocks, every run
> ends with the answers, each under the key of its block.

> `outcome_of_fault`: when it faults for some block, every run ends with the
> fault of a block whose own call faulted.

> `first_one_at_a_time`: with room for one call that is the first such block.

> `run_of_schedule`, `schedule_of_run`: the outcomes of runs that are through
> are what `highlightAll` returns under some schedule.
-/

namespace Docweave

/-! ## Steps -/

/-- The number of steps a call has taken. -/
def CallState.steps : CallState → Nat
  | waiting => 0
  | running => 1
  | returned _ => 2
  | settled _ => 3

/-- All calls are through. -/
def Pool.Finished (p : Pool) : Prop := ∀ c ∈ p.calls, ∃ r, c = .settled r

/-- What can happen next, with room for `limit` calls at a time, or for all
when it is zero or less. -/
inductive PoolStep (h : Highlighter) (limit : Int) (jobs : List HighlightJob) : Pool → Pool → Prop
  /-- The next call in turn starts. -/
  | start {p i} (hwaiting : p.calls[i]? = some .waiting)
      (hturn : ∀ j < i, p.calls[j]? ≠ some .waiting)
      (hroom : limit ≤ 0 ∨ (p.calls.countP CallState.isActive : Int) < limit) :
      PoolStep h limit jobs p (p.move i .running)
  /-- A call answers. -/
  | answer {p i job} (hrunning : p.calls[i]? = some .running) (hjob : jobs[i]? = some job) :
      PoolStep h limit jobs p (p.move i (.returned (.answered (h job.code job.lang))))
  /-- A call gives up, because another one has failed. -/
  | giveUp {p i} (cause : Text) (hrunning : p.calls[i]? = some .running)
      (hfault : p.first ≠ none) :
      PoolStep h limit jobs p (p.move i (.returned (.gaveUp cause)))
  /-- What a call returned is settled. -/
  | settle {p i job r} (hreturned : p.calls[i]? = some (.returned r)) (hjob : jobs[i]? = some job) :
      PoolStep h limit jobs p (p.settle i job r)

/-- The pools that a number of steps can lead to. -/
inductive PoolRun (h : Highlighter) (limit : Int) (jobs : List HighlightJob) : Nat → Pool → Prop
  | start : PoolRun h limit jobs 0 (Pool.start jobs)
  | step {n p q} : PoolRun h limit jobs n p → PoolStep h limit jobs p q →
      PoolRun h limit jobs (n + 1) q

/-! ## Every run ends -/

section

variable {h : Highlighter} {limit : Int} {jobs : List HighlightJob}

theorem settle_calls (p : Pool) (i : Nat) (job : HighlightJob) (r : CallResult) :
    (p.settle i job r).calls = p.calls.set i (.settled r) := by
  unfold Pool.settle
  split
  next => rfl
  next => rfl

/-- A step takes one call one step further. One that starts has its turn. -/
theorem poolStep_calls {p q : Pool} (hstep : PoolStep h limit jobs p q) :
    ∃ i c c', p.calls[i]? = some c ∧ q.calls = p.calls.set i c' ∧ c'.steps = c.steps + 1 ∧
      (c = .waiting → ∀ j < i, p.calls[j]? ≠ some .waiting) := by
  cases hstep with
  | @start i hwaiting hturn hroom => exact ⟨i, _, _, hwaiting, rfl, rfl, fun _ => hturn⟩
  | @answer i job hrunning hjob => exact ⟨i, _, _, hrunning, rfl, rfl, fun hw => absurd hw (by simp)⟩
  | @giveUp i cause hrunning hfault => exact ⟨i, _, _, hrunning, rfl, rfl, fun hw => absurd hw (by simp)⟩
  | @settle i job r hreturned hjob =>
    exact ⟨i, _, _, hreturned, settle_calls p i job r, rfl, fun hw => absurd hw (by simp)⟩

theorem CallState.steps_le (c : CallState) : c.steps ≤ 3 := by
  cases c <;> simp [CallState.steps]

/-- The steps that all calls have taken. -/
def callSteps : List CallState → Nat
  | [] => 0
  | c :: calls => c.steps + callSteps calls

theorem callSteps_set {calls : List CallState} {i : Nat} {c c' : CallState}
    (hc : calls[i]? = some c) (hs : c'.steps = c.steps + 1) :
    callSteps (calls.set i c') = callSteps calls + 1 := by
  induction calls generalizing i with
  | nil => exact absurd hc (by simp)
  | cons d calls ih =>
    cases i with
    | zero =>
      obtain rfl : d = c := by simpa using hc
      rw [List.set_cons_zero, callSteps, callSteps, hs]
      omega
    | succ i =>
      rw [List.set_cons_succ, callSteps, callSteps, ih hc]
      omega

theorem callSteps_replicate (n : Nat) : callSteps (List.replicate n .waiting) = 0 := by
  induction n with
  | zero => rfl
  | succ n ih => rw [List.replicate_succ, callSteps, ih]; rfl

theorem callSteps_le (calls : List CallState) : callSteps calls ≤ 3 * calls.length := by
  induction calls with
  | nil => exact Nat.le_refl _
  | cons c calls ih =>
    have hc := c.steps_le
    rw [callSteps, List.length_cons]
    omega

/-- A run has taken as many steps as its calls, and has a call for each block. -/
theorem run_callSteps {n : Nat} {p : Pool} (hrun : PoolRun h limit jobs n p) :
    callSteps p.calls = n ∧ p.calls.length = jobs.length := by
  induction hrun with
  | start => exact ⟨callSteps_replicate _, List.length_replicate ..⟩
  | @step n p q _ hstep ih =>
    obtain ⟨i, c, c', hc, hcalls, hs, -⟩ := poolStep_calls hstep
    rw [hcalls, callSteps_set hc hs, List.length_set, ih.1, ih.2]
    exact ⟨rfl, rfl⟩

theorem job_of_call {p : Pool} {i : Nat} {c : CallState} (hlen : p.calls.length = jobs.length)
    (hc : p.calls[i]? = some c) : ∃ job, jobs[i]? = some job := by
  obtain ⟨hi, _⟩ := List.getElem?_eq_some_iff.1 hc
  exact ⟨_, List.getElem?_eq_getElem (hlen ▸ hi)⟩

theorem exists_first_waiting {calls : List CallState} (hw : .waiting ∈ calls) :
    ∃ i : Nat, calls[i]? = some .waiting ∧ ∀ j < i, calls[j]? ≠ some .waiting := by
  induction calls with
  | nil => exact absurd hw (by simp)
  | cons c calls ih =>
    by_cases hc : c = .waiting
    · exact ⟨0, by rw [hc]; rfl, fun j hj => absurd hj (Nat.not_lt_zero j)⟩
    · obtain ⟨i, hi, hturn⟩ := ih ((List.mem_cons.1 hw).resolve_left fun heq => hc heq.symm)
      refine ⟨i + 1, hi, ?_⟩
      intro j hj
      cases j with
      | zero => exact fun heq => hc (Option.some.inj heq)
      | succ j => exact hturn j (Nat.lt_of_succ_lt_succ hj)

/-- A pool that is not through can take a step: a call that is running can
answer, one that is back can be settled, and where there is neither, there is
room for the next call. -/
theorem exists_poolStep {p : Pool} (hlen : p.calls.length = jobs.length) (hp : ¬p.Finished) :
    ∃ q, PoolStep h limit jobs p q := by
  by_cases hactive : ∃ c ∈ p.calls, c.isActive = true
  · obtain ⟨c, hmem, hc⟩ := hactive
    obtain ⟨i, hi⟩ := List.mem_iff_getElem?.1 hmem
    obtain ⟨job, hj⟩ := job_of_call hlen hi
    cases c with
    | waiting => exact absurd hc (by simp [CallState.isActive])
    | running => exact ⟨_, .answer hi hj⟩
    | returned r => exact ⟨_, .settle hi hj⟩
    | settled r => exact absurd hc (by simp [CallState.isActive])
  · -- nothing is active: some call is waiting, and the first of them has its turn
    have hwaiting : .waiting ∈ p.calls := by
      unfold Pool.Finished at hp
      rw [Classical.not_forall] at hp
      obtain ⟨c, hc⟩ := hp
      rw [Classical.not_imp] at hc
      obtain ⟨hmem, hc⟩ := hc
      cases c with
      | waiting => exact hmem
      | running => exact absurd ⟨_, hmem, rfl⟩ hactive
      | returned r => exact absurd ⟨_, hmem, rfl⟩ hactive
      | settled r => exact absurd ⟨r, rfl⟩ hc
    have hnone : p.calls.countP CallState.isActive = 0 := by
      rw [List.countP_eq_zero]
      intro c hc hactive'
      exact hactive ⟨c, hc, hactive'⟩
    obtain ⟨i, hi, hturn⟩ := exists_first_waiting hwaiting
    refine ⟨_, .start hi hturn ?_⟩
    rw [hnone]
    omega

/-- **Every run ends.** A run takes at most three steps for each block, and can
go on until it is through. -/
theorem run_steps {n : Nat} {p : Pool} (hrun : PoolRun h limit jobs n p) :
    n ≤ 3 * jobs.length ∧ (p.Finished ∨ ∃ q, PoolStep h limit jobs p q) := by
  obtain ⟨hsteps, hlen⟩ := run_callSteps hrun
  constructor
  · rw [← hsteps, ← hlen]
    exact callSteps_le p.calls
  · by_cases hp : p.Finished
    · exact Or.inl hp
    · exact Or.inr (exists_poolStep hlen hp)

/-! ## What a run keeps -/

/-- What is known of the call for a block at place `i`. An answer is that of
the highlighter, settled markup is in its place, and a call fails or gives up
only when there is a fault in the end. -/
def Pool.Sound (h : Highlighter) (p : Pool) (i : Nat) (job : HighlightJob) : CallState → Prop
  | .waiting => True
  | .running => True
  | .returned (.answered r) => r = h job.code job.lang
  | .returned (.gaveUp _) => p.first ≠ none
  | .settled (.answered (.ok markup)) => h job.code job.lang = .ok markup ∧ p.out[i]? = some markup
  | .settled (.answered (.error cause)) => h job.code job.lang = .error cause ∧ p.first ≠ none
  | .settled (.gaveUp _) => p.first ≠ none

/-- What every run keeps. The fault, if there is one, is that of a block whose
own call faulted. -/
structure PoolInv (h : Highlighter) (jobs : List HighlightJob) (p : Pool) : Prop where
  places : p.out.length = jobs.length
  sound : ∀ i job c, jobs[i]? = some job → p.calls[i]? = some c → p.Sound h i job c
  own : ∀ f, p.first = some f → ∃ (i : Nat) (job : HighlightJob) (cause : Text),
    jobs[i]? = some job ∧ p.calls[i]? = some (.settled (.answered (.error cause))) ∧
    f = ⟨job.key, job.lang, cause⟩

theorem start_poolInv : PoolInv h jobs (Pool.start jobs) := by
  refine ⟨List.length_replicate .., ?_, ?_⟩
  · intro i job c _ hc
    obtain rfl : .waiting = c := by
      have hmem := List.mem_of_getElem? hc
      exact (List.eq_of_mem_replicate hmem).symm
    exact True.intro
  · intro f hf
    exact absurd hf (by simp [Pool.start])

/-- What is known of a call stays true while its place is left alone and no
fault is dropped. -/
theorem sound_mono {p q : Pool} {i : Nat} {job : HighlightJob} {c : CallState}
    (hfirst : p.first ≠ none → q.first ≠ none) (hout : q.out[i]? = p.out[i]?)
    (hs : p.Sound h i job c) : q.Sound h i job c := by
  unfold Pool.Sound at hs ⊢
  split
  next => exact True.intro
  next => exact True.intro
  next => exact hs
  next => exact hfirst hs
  next => exact ⟨hs.1, hout.trans hs.2⟩
  next => exact ⟨hs.1, hfirst hs.2⟩
  next => exact hfirst hs

/-- One call moves on: the others stay as they are, and the fault is still
that of a call that faulted, because such a call does not move. -/
theorem poolInv_move {p q : Pool} {i : Nat} {job : HighlightJob} {c c' : CallState}
    (hinv : PoolInv h jobs p) (hjob : jobs[i]? = some job) (hc : p.calls[i]? = some c)
    (hcalls : q.calls = p.calls.set i c') (hplaces : q.out.length = p.out.length)
    (hothers : ∀ j, j ≠ i → q.out[j]? = p.out[j]?) (hfirst : p.first ≠ none → q.first ≠ none)
    (hactive : ∀ r, c ≠ .settled r) (hsound : q.Sound h i job c')
    (hown : ∀ f, q.first = some f → p.first = some f ∨
      ∃ cause, c' = .settled (.answered (.error cause)) ∧ f = ⟨job.key, job.lang, cause⟩) :
    PoolInv h jobs q := by
  have hi : i < p.calls.length := (List.getElem?_eq_some_iff.1 hc).1
  refine ⟨hplaces.trans hinv.places, ?_, ?_⟩
  · intro j job' d hj hd
    rw [hcalls] at hd
    by_cases hji : j = i
    · subst hji
      obtain rfl : job = job' := Option.some.inj (hjob.symm.trans hj)
      obtain rfl : c' = d := by simpa [hi] using hd
      exact hsound
    · rw [List.getElem?_set_ne fun heq => hji heq.symm] at hd
      exact sound_mono hfirst (hothers j hji) (hinv.sound j job' d hj hd)
  · intro f hf
    rcases hown f hf with hold | ⟨cause, rfl, rfl⟩
    · obtain ⟨j, job', cause, hj, hd, rfl⟩ := hinv.own f hold
      -- a call that brought the fault is settled, so it is not the one that moves
      have hji : j ≠ i := by
        rintro rfl
        exact hactive _ (Option.some.inj (hc.symm.trans hd))
      refine ⟨j, job', cause, hj, ?_, rfl⟩
      rw [hcalls, List.getElem?_set_ne fun heq => hji heq.symm]
      exact hd
    · refine ⟨i, job, cause, hjob, ?_, rfl⟩
      rw [hcalls, List.getElem?_set_self hi]

/-- A call that neither fails nor settles leaves the rest of the pool alone. -/
theorem poolInv_advance {p : Pool} {i : Nat} {job : HighlightJob} {c c' : CallState}
    (hinv : PoolInv h jobs p) (hjob : jobs[i]? = some job) (hc : p.calls[i]? = some c)
    (hactive : ∀ r, c ≠ .settled r) (hsound : p.Sound h i job c') : PoolInv h jobs (p.move i c') :=
  poolInv_move hinv hjob hc rfl rfl (fun _ _ => rfl) id hactive (sound_mono id rfl hsound)
    fun _ hf => Or.inl hf

/-- What a call returned is settled. Only a call that has answered can bring
the first fault: one that gave up found a fault there. -/
theorem poolInv_settle {p : Pool} {i : Nat} {job : HighlightJob} {r : CallResult}
    (hinv : PoolInv h jobs p) (hjob : jobs[i]? = some job) (hc : p.calls[i]? = some (.returned r)) :
    PoolInv h jobs (p.settle i job r) := by
  have hsound := hinv.sound i job _ hjob hc
  have hactive : ∀ r', CallState.returned r ≠ .settled r' := fun _ => by simp
  have hkept : ∀ (f : HighlightFault), p.first.or (some f) ≠ none := fun f => by simp
  cases r with
  | answered r =>
    cases r with
    | ok markup =>
      have hi : i < jobs.length := (List.getElem?_eq_some_iff.1 hjob).1
      refine poolInv_move hinv hjob hc rfl (List.length_set ..) ?_ id hactive ⟨hsound.symm, ?_⟩
        fun _ hf => Or.inl hf
      · intro j hj
        exact List.getElem?_set_ne fun heq => hj heq.symm
      · exact List.getElem?_set_self (hinv.places ▸ hi)
    | error cause =>
      refine poolInv_move hinv hjob hc rfl rfl (fun _ _ => rfl) (fun _ => hkept _) hactive
        ⟨hsound.symm, hkept _⟩ ?_
      intro f hf
      rcases Option.or_eq_some_iff.1 hf with hold | ⟨_, hnew⟩
      · exact Or.inl hold
      · exact Or.inr ⟨cause, rfl, (Option.some.inj hnew).symm⟩
  | gaveUp cause =>
    refine poolInv_move hinv hjob hc rfl rfl (fun _ _ => rfl) (fun _ => hkept _) hactive
      (hkept _) ?_
    intro f hf
    -- a call gives up only when a fault is there, so its own cause is never kept
    rcases Option.or_eq_some_iff.1 hf with hold | ⟨hnone, _⟩
    · exact Or.inl hold
    · exact absurd hnone hsound

/-- Every step keeps the invariant. -/
theorem poolStep_inv {p q : Pool} (hlen : p.calls.length = jobs.length)
    (hstep : PoolStep h limit jobs p q) (hinv : PoolInv h jobs p) : PoolInv h jobs q := by
  cases hstep with
  | @start i hwaiting hturn hroom =>
    obtain ⟨job, hjob⟩ := job_of_call hlen hwaiting
    exact poolInv_advance hinv hjob hwaiting (fun _ => by simp) True.intro
  | @answer i job hrunning hjob =>
    exact poolInv_advance hinv hjob hrunning (fun _ => by simp) rfl
  | @giveUp i cause hrunning hfault =>
    obtain ⟨job, hjob⟩ := job_of_call hlen hrunning
    exact poolInv_advance hinv hjob hrunning (fun _ => by simp) hfault
  | @settle i job r hreturned hjob => exact poolInv_settle hinv hjob hreturned

theorem run_poolInv {n : Nat} {p : Pool} (hrun : PoolRun h limit jobs n p) : PoolInv h jobs p := by
  induction hrun with
  | start => exact start_poolInv
  | step hrun hstep ih => exact poolStep_inv (run_callSteps hrun).2 hstep ih

/-- The fault of a queued block whose own call faults. -/
def OwnFault (h : Highlighter) (jobs : List HighlightJob) (f : HighlightFault) : Prop :=
  ∃ job ∈ jobs, ∃ cause, h job.code job.lang = .error cause ∧ f = ⟨job.key, job.lang, cause⟩

theorem ownFault_of_first {n : Nat} {p : Pool} {f : HighlightFault} (hrun : PoolRun h limit jobs n p)
    (hf : p.first = some f) : OwnFault h jobs f := by
  obtain ⟨i, job, cause, hjob, hc, rfl⟩ := (run_poolInv hrun).own f hf
  exact ⟨job, List.mem_of_getElem? hjob, cause, ((run_poolInv hrun).sound i job _ hjob hc).1, rfl⟩

/-- There is no fault when there is an answer for every block. -/
theorem first_of_answers {n : Nat} {p : Pool} (hrun : PoolRun h limit jobs n p)
    (hall : ∀ job ∈ jobs, ∃ markup, h job.code job.lang = .ok markup) : p.first = none := by
  cases hf : p.first with
  | none => rfl
  | some f =>
    obtain ⟨job, hmem, cause, hfault, -⟩ := ownFault_of_first hrun hf
    obtain ⟨markup, hok⟩ := hall job hmem
    exact absurd (hok.symm.trans hfault) (by simp)

/-- A call of a pool that is through. -/
theorem settled_of_finished {n : Nat} {p : Pool} {i : Nat} {job : HighlightJob}
    (hrun : PoolRun h limit jobs n p) (hp : p.Finished) (hjob : jobs[i]? = some job) :
    ∃ r, p.calls[i]? = some (.settled r) ∧ p.Sound h i job (.settled r) := by
  have hi : i < p.calls.length := by
    rw [(run_callSteps hrun).2]
    exact (List.getElem?_eq_some_iff.1 hjob).1
  have hc := List.getElem?_eq_getElem hi
  obtain ⟨r, hr⟩ := hp _ (List.getElem_mem hi)
  rw [hr] at hc
  exact ⟨r, hc, (run_poolInv hrun).sound i job _ hjob hc⟩

/-! ## Outcomes -/

/-- Under keys that differ nothing is replaced. -/
theorem foldl_putMarkup (es entries : List (Text × Text))
    (hkeys : ((entries ++ es).map Prod.fst).Nodup) :
    es.foldl (fun entries e => putMarkup entries e.1 e.2) entries = entries ++ es := by
  induction es generalizing entries with
  | nil => exact (List.append_nil _).symm
  | cons e es ih =>
    have hnew : putMarkup entries e.1 e.2 = entries ++ [e] := by
      unfold putMarkup
      rw [if_neg]
      intro hany
      obtain ⟨e', he', heq⟩ := List.any_eq_true.1 hany
      rw [List.map_append, List.nodup_append] at hkeys
      exact hkeys.2.2 e'.1 (List.mem_map_of_mem he') e.1
        (List.mem_map_of_mem (List.mem_cons_self ..)) (of_decide_eq_true heq)
    rw [List.foldl_cons, hnew, ih, ← List.append_cons]
    rw [← List.append_cons]
    exact hkeys

theorem withKeys_fst {out : List Text} (hlen : out.length = jobs.length) :
    (withKeys jobs out).map Prod.fst = jobs.map HighlightJob.key := by
  unfold withKeys
  induction jobs generalizing out with
  | nil => rfl
  | cons job jobs ih =>
    obtain ⟨markup, out, rfl⟩ := List.exists_cons_of_length_eq_add_one hlen
    rw [List.zipWith_cons_cons, List.map_cons, ih (Nat.succ.inj hlen), List.map_cons]

theorem getElem?_withKeys {out : List Text} {i : Nat} {job : HighlightJob} {markup : Text}
    (hjob : jobs[i]? = some job) (hout : out[i]? = some markup) :
    (withKeys jobs out)[i]? = some (job.key, markup) := by
  rw [withKeys, List.getElem?_zipWith, hjob, hout]

/-- The markup of each block is the answer for it. -/
def Answers (h : Highlighter) (jobs : List HighlightJob) (out : List Text) : Prop :=
  out.length = jobs.length ∧
  ∀ (i : Nat) (job : HighlightJob), jobs[i]? = some job →
    ∃ markup, out[i]? = some markup ∧ h job.code job.lang = .ok markup

/-- There is one answer for each block. -/
theorem answers_unique {out out' : List Text} (hout : Answers h jobs out) (hout' : Answers h jobs out') :
    out = out' := by
  refine List.ext_getElem? fun i => ?_
  by_cases hi : i < jobs.length
  · obtain ⟨markup, hm, hok⟩ := hout.2 i _ (List.getElem?_eq_getElem hi)
    obtain ⟨markup', hm', hok'⟩ := hout'.2 i _ (List.getElem?_eq_getElem hi)
    rw [hm, hm', Except.ok.inj (hok.symm.trans hok')]
  · rw [List.getElem?_eq_none (hout.1 ▸ Nat.not_lt.1 hi), List.getElem?_eq_none (hout'.1 ▸ Nat.not_lt.1 hi)]

/-- Without a fault all markup is in its place. -/
theorem run_answers {n : Nat} {p : Pool} (hrun : PoolRun h limit jobs n p) (hp : p.Finished)
    (hfirst : p.first = none) : Answers h jobs p.out := by
  refine ⟨(run_poolInv hrun).places, ?_⟩
  intro i job hjob
  obtain ⟨r, _, hsound⟩ := settled_of_finished hrun hp hjob
  cases r with
  | answered r =>
    cases r with
    | ok markup => exact ⟨markup, hsound.2, hsound.1⟩
    | error cause => exact absurd hfirst hsound.2
  | gaveUp cause => exact absurd hfirst hsound

/-- Without a fault the outcome is the markup of each block under its key. -/
theorem outcome_of_no_fault {n : Nat} {p : Pool} (hrun : PoolRun h limit jobs n p)
    (hkeys : (jobs.map HighlightJob.key).Nodup) (hfirst : p.first = none) :
    p.outcome jobs = .ok (withKeys jobs p.out) := by
  have hfst := withKeys_fst (run_poolInv hrun).places
  unfold Pool.outcome
  rw [hfirst]
  simp only
  rw [foldl_putMarkup _ [] (by rw [List.nil_append, hfst]; exact hkeys), List.nil_append]

/-- **All answered.** When the highlighter answers for all blocks, every run
that is through has the answers, each under the key of its block. -/
theorem outcome_of_answers {n : Nat} {p : Pool} (hrun : PoolRun h limit jobs n p) (hp : p.Finished)
    (hkeys : (jobs.map HighlightJob.key).Nodup)
    (hall : ∀ job ∈ jobs, ∃ markup, h job.code job.lang = .ok markup) :
    Answers h jobs p.out ∧ p.outcome jobs = .ok (withKeys jobs p.out) := by
  have hfirst := first_of_answers hrun hall
  exact ⟨run_answers hrun hp hfirst, outcome_of_no_fault hrun hkeys hfirst⟩

/-- **Some faulted.** When the highlighter faults for a block, every run that
is through has a fault, and it is that of a block whose own call faulted. -/
theorem outcome_of_fault {n : Nat} {p : Pool} {job : HighlightJob} {cause : Text}
    (hrun : PoolRun h limit jobs n p) (hp : p.Finished) (hmem : job ∈ jobs)
    (hjob : h job.code job.lang = .error cause) :
    ∃ (i : Nat) (job : HighlightJob) (cause : Text), jobs[i]? = some job ∧
      p.calls[i]? = some (.settled (.answered (.error cause))) ∧
      h job.code job.lang = .error cause ∧
      p.outcome jobs = .error ⟨job.key, job.lang, cause⟩ := by
  cases hf : p.first with
  | none =>
    obtain ⟨i, hi⟩ := List.mem_iff_getElem?.1 hmem
    obtain ⟨markup, _, hok⟩ := (run_answers hrun hp hf).2 i job hi
    exact absurd (hok.symm.trans hjob) (by simp)
  | some f =>
    obtain ⟨i, job', cause', hjob', hc, rfl⟩ := (run_poolInv hrun).own f hf
    refine ⟨i, job', cause', hjob', hc, ((run_poolInv hrun).sound i job' _ hjob' hc).1, ?_⟩
    unfold Pool.outcome
    rw [hf]

theorem outcome_eq_error {n : Nat} {p : Pool} {f : HighlightFault} (hrun : PoolRun h limit jobs n p)
    (herror : p.outcome jobs = .error f) : OwnFault h jobs f := by
  unfold Pool.outcome at herror
  split at herror
  next g hg =>
    obtain rfl := Except.error.inj herror
    exact ownFault_of_first hrun hg
  next => exact absurd herror (by simp)

theorem first_of_outcome_ok {p : Pool} {highlights : List (Text × Text)}
    (hok : p.outcome jobs = .ok highlights) : p.first = none := by
  unfold Pool.outcome at hok
  split at hok
  next => exact absurd hok (by simp)
  next hfirst => exact hfirst

/-- Where one run comes to the markup, every run does, with as much room as it
likes: a fault would be that of a block which has its answer. -/
theorem outcome_eq_ok {limit' : Int} {n n' : Nat} {p p' : Pool} {highlights : List (Text × Text)}
    (hrun : PoolRun h limit jobs n p) (hp : p.Finished) (hrun' : PoolRun h limit' jobs n' p')
    (hp' : p'.Finished) (hok : p.outcome jobs = .ok highlights) : p'.outcome jobs = .ok highlights := by
  have hfirst := first_of_outcome_ok hok
  have hout := run_answers hrun hp hfirst
  have hfirst' : p'.first = none := by
    refine first_of_answers hrun' fun job hmem => ?_
    obtain ⟨i, hi⟩ := List.mem_iff_getElem?.1 hmem
    obtain ⟨markup, -, hanswer⟩ := hout.2 i job hi
    exact ⟨markup, hanswer⟩
  rw [← hok, Pool.outcome, Pool.outcome, hfirst, hfirst',
    answers_unique hout (run_answers hrun' hp' hfirst')]

/-! ## Calls start in order -/

/-- Behind a call that is waiting all are. -/
def InOrder (calls : List CallState) : Prop :=
  ∀ (i j : Nat) (c : CallState), i ≤ j → calls[i]? = some .waiting → calls[j]? = some c → c = .waiting

theorem run_inOrder {n : Nat} {p : Pool} (hrun : PoolRun h limit jobs n p) : InOrder p.calls := by
  induction hrun with
  | start =>
    intro i j c _ _ hc
    exact List.eq_of_mem_replicate (List.mem_of_getElem? hc)
  | @step n p q _ hstep ih =>
    obtain ⟨k, c, c', hc, hcalls, hs, hturn⟩ := poolStep_calls hstep
    have hk : k < p.calls.length := (List.getElem?_eq_some_iff.1 hc).1
    have hgone : c' ≠ .waiting := by
      rintro rfl
      exact absurd hs (by simp [CallState.steps])
    rw [hcalls]
    intro i j d hij hi hd
    -- the call that moves is not the one that waits
    have hki : k ≠ i := by
      rintro rfl
      rw [List.getElem?_set_self hk] at hi
      exact hgone (Option.some.inj hi)
    rw [List.getElem?_set_ne hki] at hi
    by_cases hkj : k = j
    · -- nor does it stand behind that one: it would be waiting, and not have its turn
      subst hkj
      obtain rfl := ih i k c hij hi hc
      exact absurd hi (hturn rfl i (by omega))
    · rw [List.getElem?_set_ne hkj] at hd
      exact ih i j d hij hi hd

/-! ## One at a time -/

/-- The fault of an answer, if it is one. -/
def faultOf? (job : HighlightJob) : Except Text Text → Option HighlightFault
  | .ok _ => none
  | .error cause => some ⟨job.key, job.lang, cause⟩

/-- The fault of the first block whose call faults. -/
def firstFault? (h : Highlighter) (jobs : List HighlightJob) : Option HighlightFault :=
  jobs.findSome? fun job => faultOf? job (h job.code job.lang)

theorem settle_first (p : Pool) (i : Nat) (job : HighlightJob) (r : CallResult) :
    (p.settle i job r).first = p.first.or (faultOf? job r.value) := by
  unfold Pool.settle
  split
  next hvalue => rw [hvalue]; exact (Option.or_none ..).symm
  next hvalue => rw [hvalue]; rfl

/-- The first `k` calls are through. -/
def Pool.SettledTo (p : Pool) (k : Nat) : Prop := ∀ i < k, ∃ r, p.calls[i]? = some (.settled r)

/-- The call at place `k` is the next to be settled, the calls behind it wait, and
the fault is the first of those in front. -/
structure OneAtATime (h : Highlighter) (jobs : List HighlightJob) (p : Pool) (k : Nat) : Prop where
  front : p.SettledTo k
  back : ∀ i c, k < i → p.calls[i]? = some c → c = .waiting
  next : ∀ r, p.calls[k]? ≠ some (.settled r)
  fault : p.first = firstFault? h (jobs.take k)

/-- Only the next call can be active. -/
theorem place_of_active {p : Pool} {i k : Nat} {c : CallState} (hp : OneAtATime h jobs p k)
    (hc : p.calls[i]? = some c) (hactive : c.isActive = true) : i = k := by
  rcases Nat.lt_trichotomy i k with hlt | heq | hgt
  · obtain ⟨r, hr⟩ := hp.front i hlt
    obtain rfl := Option.some.inj (hc.symm.trans hr)
    exact absurd hactive (by simp [CallState.isActive])
  · exact heq
  · obtain rfl := hp.back i c hgt hc
    exact absurd hactive (by simp [CallState.isActive])

/-- With room for one, only the next call can start. -/
theorem place_of_start {p : Pool} {i k : Nat} (hp : OneAtATime h jobs p k)
    (hwaiting : p.calls[i]? = some .waiting) (hturn : ∀ j < i, p.calls[j]? ≠ some .waiting)
    (hroom : p.calls.countP CallState.isActive = 0) : i = k := by
  rcases Nat.lt_trichotomy i k with hlt | heq | hgt
  · obtain ⟨r, hr⟩ := hp.front i hlt
    exact absurd (hwaiting.symm.trans hr) (by simp)
  · exact heq
  · have hk : k < p.calls.length := Nat.lt_trans hgt (List.getElem?_eq_some_iff.1 hwaiting).1
    have hc := List.getElem?_eq_getElem hk
    have hidle := List.countP_eq_zero.1 hroom _ (List.getElem_mem hk)
    cases hstate : p.calls[k] with
    | waiting => exact absurd (hc.trans (congrArg some hstate)) (hturn k hgt)
    | running => exact absurd (by rw [hstate]; rfl) hidle
    | returned r => exact absurd (by rw [hstate]; rfl) hidle
    | settled r => exact absurd (hc.trans (congrArg some hstate)) (hp.next r)

theorem oneAtATime_move {p : Pool} {k : Nat} {c c' : CallState} (hp : OneAtATime h jobs p k)
    (hc : p.calls[k]? = some c) (hc' : ∀ r, c' ≠ .settled r) : OneAtATime h jobs (p.move k c') k := by
  have hk : k < p.calls.length := (List.getElem?_eq_some_iff.1 hc).1
  refine ⟨?_, ?_, ?_, hp.fault⟩
  · intro i hi
    rw [Pool.move, List.getElem?_set_ne (by omega)]
    exact hp.front i hi
  · intro i d hi hd
    rw [Pool.move, List.getElem?_set_ne (by omega)] at hd
    exact hp.back i d hi hd
  · intro r hr
    rw [Pool.move, List.getElem?_set_self hk] at hr
    exact hc' r (Option.some.inj hr)

theorem oneAtATime_settle {p : Pool} {k : Nat} {job : HighlightJob} {r : CallResult}
    (hp : OneAtATime h jobs p k) (hinv : PoolInv h jobs p) (hjob : jobs[k]? = some job)
    (hc : p.calls[k]? = some (.returned r)) : OneAtATime h jobs (p.settle k job r) (k + 1) := by
  have hk : k < p.calls.length := (List.getElem?_eq_some_iff.1 hc).1
  refine ⟨?_, ?_, ?_, ?_⟩
  · intro i hi
    rw [settle_calls]
    rcases Nat.lt_succ_iff_lt_or_eq.1 hi with hlt | rfl
    · rw [List.getElem?_set_ne (by omega)]
      exact hp.front i hlt
    · exact ⟨r, List.getElem?_set_self hk⟩
  · intro i d hi hd
    rw [settle_calls, List.getElem?_set_ne (by omega)] at hd
    exact hp.back i d (by omega) hd
  · intro r' hr'
    rw [settle_calls, List.getElem?_set_ne (by omega)] at hr'
    exact absurd (hp.back (k + 1) _ (by omega) hr') (by simp)
  · have htake : jobs.take (k + 1) = jobs.take k ++ [job] := by
      rw [List.take_add_one, hjob]
      rfl
    have hlast : firstFault? h [job] = faultOf? job (h job.code job.lang) := by
      rw [firstFault?, List.findSome?_cons, List.findSome?_nil]
      split
      next f hf => exact hf.symm
      next hf => exact hf.symm
    have hfaults : firstFault? h (jobs.take (k + 1)) = p.first.or (faultOf? job (h job.code job.lang)) := by
      rw [htake, firstFault?, List.findSome?_append, hp.fault, ← hlast]
      rfl
    rw [settle_first, hfaults]
    have hsound := hinv.sound k job _ hjob hc
    cases r with
    | answered r =>
      have hr : r = h job.code job.lang := hsound
      rw [hr]
      rfl
    | gaveUp cause =>
      -- there is a fault already, and it stays
      obtain ⟨f, hf⟩ := Option.ne_none_iff_exists'.1 (show p.first ≠ none from hsound)
      rw [hf]
      rfl

theorem run_oneAtATime {n : Nat} {p : Pool} (hrun : PoolRun h 1 jobs n p) :
    ∃ k, OneAtATime h jobs p k := by
  induction hrun with
  | start =>
    refine ⟨0, fun i hi => absurd hi (Nat.not_lt_zero i), ?_, ?_, rfl⟩
    · intro i c _ hc
      exact List.eq_of_mem_replicate (List.mem_of_getElem? hc)
    · intro r hr
      exact absurd (List.eq_of_mem_replicate (List.mem_of_getElem? hr)) (by simp)
  | @step n p q hrun hstep ih =>
    obtain ⟨k, hp⟩ := ih
    cases hstep with
    | @start i hwaiting hturn hroom =>
      obtain rfl := place_of_start hp hwaiting hturn (by omega)
      exact ⟨i, oneAtATime_move hp hwaiting fun _ => by simp⟩
    | @answer i job hrunning hjob =>
      obtain rfl := place_of_active hp hrunning rfl
      exact ⟨i, oneAtATime_move hp hrunning fun _ => by simp⟩
    | @giveUp i cause hrunning hfault =>
      obtain rfl := place_of_active hp hrunning rfl
      exact ⟨i, oneAtATime_move hp hrunning fun _ => by simp⟩
    | @settle i job r hreturned hjob =>
      obtain rfl := place_of_active hp hreturned rfl
      exact ⟨i + 1, oneAtATime_settle hp (run_poolInv hrun) hjob hreturned⟩

/-- **One at a time.** With room for one call, the first block that faults decides. -/
theorem first_one_at_a_time {n : Nat} {p : Pool} (hrun : PoolRun h 1 jobs n p) (hp : p.Finished) :
    p.first = firstFault? h jobs := by
  obtain ⟨k, hk⟩ := run_oneAtATime hrun
  have hlen : jobs.length ≤ k := by
    rw [← (run_callSteps hrun).2, ← Nat.not_lt]
    intro hlt
    obtain ⟨r, hr⟩ := hp _ (List.getElem_mem hlt)
    exact hk.next r ((List.getElem?_eq_getElem hlt).trans (congrArg some hr))
  rw [hk.fault, List.take_of_length_le hlen]

/-! ## Schedules -/

theorem isWaiting_iff {c : CallState} : c.isWaiting = true ↔ c = .waiting := by
  cases c <;> simp [CallState.isWaiting]

theorem hasTurn_iff {p : Pool} {i : Nat} :
    p.hasTurn i = true ↔ ∀ j < i, p.calls[j]? ≠ some .waiting := by
  rw [Pool.hasTurn, Bool.not_eq_true', List.any_eq_false]
  constructor
  · intro hall j hj hw
    have hmem : CallState.waiting ∈ p.calls.take i :=
      List.mem_of_getElem? (by rw [List.getElem?_take_of_lt hj]; exact hw)
    exact hall _ hmem rfl
  · intro hturn c hc hw
    obtain ⟨j, hj⟩ := List.mem_iff_getElem?.1 hc
    obtain rfl := isWaiting_iff.1 hw
    rw [List.getElem?_take] at hj
    split at hj
    next hlt => exact hturn j hlt hj
    next => exact absurd hj (by simp)

theorem hasRoom_iff {p : Pool} :
    p.hasRoom limit = true ↔ limit ≤ 0 ∨ (p.calls.countP CallState.isActive : Int) < limit := by
  simp [Pool.hasRoom]

/-- A move that is possible is a step, and any other changes nothing. -/
theorem after_step (h : Highlighter) (limit : Int) (jobs : List HighlightJob) (p : Pool) (m : Move) :
    p.after h limit jobs m = p ∨ PoolStep h limit jobs p (p.after h limit jobs m) := by
  unfold Pool.after
  split
  next job hjob hwaiting =>
    split
    next hgo =>
      rw [Bool.and_eq_true] at hgo
      exact Or.inr (.start hwaiting (hasTurn_iff.1 hgo.1) (hasRoom_iff.1 hgo.2))
    next => exact Or.inl rfl
  next job hjob hrunning =>
    right
    unfold Pool.reply
    split
    next f cause hf _ => exact .giveUp cause hrunning (by rw [hf]; exact Option.some_ne_none f)
    next => exact .answer hrunning hjob
  next job r hjob hreturned => exact Or.inr (.settle hreturned hjob)
  next => exact Or.inl rfl

/-- Every step is a move. -/
theorem exists_move {p q : Pool} (hlen : p.calls.length = jobs.length) (hstep : PoolStep h limit jobs p q) :
    ∃ m, p.after h limit jobs m = q := by
  cases hstep with
  | @start i hwaiting hturn hroom =>
    obtain ⟨job, hjob⟩ := job_of_call hlen hwaiting
    refine ⟨⟨i, none⟩, ?_⟩
    rw [Pool.after, hjob, hwaiting]
    exact if_pos (by rw [hasTurn_iff.2 hturn, hasRoom_iff.2 hroom]; rfl)
  | @answer i job hrunning hjob =>
    refine ⟨⟨i, none⟩, ?_⟩
    rw [Pool.after, hjob, hrunning]
    cases hf : p.first with
    | none => simp only [Pool.reply, hf]
    | some f => simp only [Pool.reply, hf]
  | @giveUp i cause hrunning hfault =>
    obtain ⟨job, hjob⟩ := job_of_call hlen hrunning
    obtain ⟨f, hf⟩ := Option.ne_none_iff_exists'.1 hfault
    refine ⟨⟨i, some cause⟩, ?_⟩
    rw [Pool.after, hjob, hrunning]
    simp only [Pool.reply, hf]
  | @settle i job r hreturned hjob =>
    refine ⟨⟨i, none⟩, ?_⟩
    rw [Pool.after, hjob, hreturned]

theorem follow_append (p : Pool) (σ τ : Schedule) :
    p.follow h limit jobs (σ ++ τ) = (p.follow h limit jobs σ).follow h limit jobs τ :=
  List.foldl_append

theorem run_after {n : Nat} {p : Pool} (hrun : PoolRun h limit jobs n p) (m : Move) :
    ∃ n', PoolRun h limit jobs n' (p.after h limit jobs m) := by
  rcases after_step h limit jobs p m with heq | hstep
  · exact ⟨n, by rw [heq]; exact hrun⟩
  · exact ⟨n + 1, .step hrun hstep⟩

/-- A schedule is followed by a run. -/
theorem run_follow {n : Nat} {p : Pool} (hrun : PoolRun h limit jobs n p) (σ : Schedule) :
    ∃ n', PoolRun h limit jobs n' (p.follow h limit jobs σ) := by
  induction σ generalizing n p with
  | nil => exact ⟨n, hrun⟩
  | cons m σ ih =>
    obtain ⟨n', hafter⟩ := run_after hrun m
    exact ih hafter

/-- A run follows a schedule. -/
theorem exists_follow {n : Nat} {p : Pool} (hrun : PoolRun h limit jobs n p) :
    ∃ σ, (Pool.start jobs).follow h limit jobs σ = p := by
  induction hrun with
  | start => exact ⟨[], rfl⟩
  | @step n p q hrun hstep ih =>
    obtain ⟨σ, rfl⟩ := ih
    obtain ⟨m, rfl⟩ := exists_move (run_callSteps hrun).2 hstep
    exact ⟨σ ++ [m], follow_append _ σ [m]⟩

/-- A call that is settled has no step to take. -/
theorem poolStep_settled {p q : Pool} {i : Nat} {r : CallResult} (hstep : PoolStep h limit jobs p q)
    (hr : p.calls[i]? = some (.settled r)) : q.calls[i]? = some (.settled r) := by
  obtain ⟨k, c, c', hc, hcalls, hs, -⟩ := poolStep_calls hstep
  have hki : k ≠ i := by
    rintro rfl
    obtain rfl := Option.some.inj (hc.symm.trans hr)
    have hle := c'.steps_le
    rw [hs] at hle
    exact absurd hle (by simp [CallState.steps])
  rw [hcalls, List.getElem?_set_ne hki]
  exact hr

/-- A pool that is through stays as it is. -/
theorem follow_of_finished {p : Pool} (hp : p.Finished) (σ : Schedule) :
    p.follow h limit jobs σ = p := by
  induction σ with
  | nil => rfl
  | cons m σ ih =>
    have hafter : p.after h limit jobs m = p := by
      refine (after_step h limit jobs p m).resolve_right fun hstep => ?_
      obtain ⟨k, c, c', hc, -, hs, -⟩ := poolStep_calls hstep
      obtain ⟨r, rfl⟩ := hp c (List.mem_of_getElem? hc)
      have hle := c'.steps_le
      rw [hs] at hle
      exact absurd hle (by simp [CallState.steps])
    rw [Pool.follow, List.foldl_cons, hafter]
    exact ih

/-! ## In turn -/

theorem settledTo_after (h : Highlighter) (limit : Int) (jobs : List HighlightJob) {p : Pool} {k : Nat}
    (hk : p.SettledTo k) (m : Move) :
    (p.after h limit jobs m).SettledTo k := by
  rcases after_step h limit jobs p m with heq | hstep
  · rw [heq]
    exact hk
  · intro i hi
    obtain ⟨r, hr⟩ := hk i hi
    exact ⟨r, poolStep_settled hstep hr⟩

/-- When the calls in front are through and the next one waits, nothing is
active. -/
theorem countP_isActive_in_turn {n k : Nat} {p : Pool} (hrun : PoolRun h limit jobs n p)
    (hk : p.SettledTo k) (hw : p.calls[k]? = some .waiting) :
    p.calls.countP CallState.isActive = 0 := by
  rw [List.countP_eq_zero]
  intro c hc
  obtain ⟨i, hi⟩ := List.mem_iff_getElem?.1 hc
  by_cases hlt : i < k
  · obtain ⟨r, hr⟩ := hk i hlt
    obtain rfl := Option.some.inj (hi.symm.trans hr)
    simp [CallState.isActive]
  · obtain rfl := run_inOrder hrun k i c (Nat.not_lt.1 hlt) hw hi
    simp [CallState.isActive]

/-- The next call takes a step, if there is one left for it, and those in front stay
through. -/
theorem after_in_turn {n k : Nat} {p : Pool} {c : CallState} (hrun : PoolRun h limit jobs n p)
    (hk : p.SettledTo k) (hc : p.calls[k]? = some c) :
    ∃ n' q c', q = p.after h limit jobs ⟨k, none⟩ ∧ PoolRun h limit jobs n' q ∧ q.SettledTo k ∧
      q.calls[k]? = some c' ∧ min 3 (c.steps + 1) ≤ c'.steps := by
  have hklen : k < p.calls.length := (List.getElem?_eq_some_iff.1 hc).1
  obtain ⟨job, hjob⟩ := job_of_call (run_callSteps hrun).2 hc
  obtain ⟨n', hafter⟩ := run_after hrun ⟨k, none⟩
  suffices hcall : ∃ c', (p.after h limit jobs ⟨k, none⟩).calls[k]? = some c' ∧
      min 3 (c.steps + 1) ≤ c'.steps by
    obtain ⟨c', hc', hs⟩ := hcall
    exact ⟨n', _, c', rfl, hafter, settledTo_after h limit jobs hk _, hc', hs⟩
  rw [Pool.after, hjob, hc]
  cases c with
  | waiting =>
    have hturn : p.hasTurn k = true := by
      rw [hasTurn_iff]
      intro j hj hw
      obtain ⟨r, hr⟩ := hk j hj
      exact absurd (hw.symm.trans hr) (by simp)
    have hroom : p.hasRoom limit = true := by
      rw [hasRoom_iff, countP_isActive_in_turn hrun hk hc]
      omega
    refine ⟨.running, ?_, by simp [CallState.steps]⟩
    simp only [hturn, hroom, Bool.and_self, if_true]
    exact List.getElem?_set_self hklen
  | running => exact ⟨_, List.getElem?_set_self hklen, by simp [CallState.steps]⟩
  | returned r =>
    refine ⟨.settled r, ?_, by simp [CallState.steps]⟩
    simp only
    rw [settle_calls, List.getElem?_set_self hklen]
  | settled r => exact ⟨.settled r, hc, by simp [CallState.steps]⟩

/-- Three moves are enough for the next call. -/
theorem settledTo_in_turn {n k : Nat} {p : Pool} (hrun : PoolRun h limit jobs n p)
    (hk : p.SettledTo k) (hklen : k < jobs.length) :
    (p.follow h limit jobs [⟨k, none⟩, ⟨k, none⟩, ⟨k, none⟩]).SettledTo (k + 1) := by
  have hc := List.getElem?_eq_getElem ((run_callSteps hrun).2 ▸ hklen)
  obtain ⟨n₁, q₁, c₁, hq₁, hrun₁, hk₁, hc₁, hs₁⟩ := after_in_turn hrun hk hc
  obtain ⟨n₂, q₂, c₂, hq₂, hrun₂, hk₂, hc₂, hs₂⟩ := after_in_turn hrun₁ hk₁ hc₁
  obtain ⟨n₃, q₃, c₃, hq₃, hrun₃, hk₃, hc₃, hs₃⟩ := after_in_turn hrun₂ hk₂ hc₂
  have hthree : 3 ≤ c₃.steps := by omega
  rw [show p.follow h limit jobs [⟨k, none⟩, ⟨k, none⟩, ⟨k, none⟩] = q₃ by rw [hq₃, hq₂, hq₁]; rfl]
  intro i hi
  rcases Nat.lt_succ_iff_lt_or_eq.1 hi with hlt | rfl
  · exact hk₃ i hlt
  · cases c₃ with
    | settled r => exact ⟨r, hc₃⟩
    | waiting => exact absurd hthree (by simp [CallState.steps])
    | running => exact absurd hthree (by simp [CallState.steps])
    | returned r => exact absurd hthree (by simp [CallState.steps])

theorem settledTo_inTurn {n k : Nat} {p : Pool} (hrun : PoolRun h limit jobs n p)
    (hklen : k ≤ jobs.length) : (p.follow h limit jobs (Schedule.inTurn k)).SettledTo k := by
  induction k with
  | zero => exact fun i hi => absurd hi (Nat.not_lt_zero i)
  | succ k ih =>
    obtain ⟨n', hrun'⟩ := run_follow hrun (Schedule.inTurn k)
    have hmoves : Schedule.inTurn (k + 1) = Schedule.inTurn k ++ [⟨k, none⟩, ⟨k, none⟩, ⟨k, none⟩] := by
      rw [Schedule.inTurn, List.range_succ, List.flatMap_append, List.flatMap_singleton]
      rfl
    rw [hmoves, follow_append]
    exact settledTo_in_turn hrun' (ih (by omega)) hklen

/-- All calls are through when each has had its turn. -/
theorem finished_inTurn {n : Nat} {p : Pool} (hrun : PoolRun h limit jobs n p) :
    (p.follow h limit jobs (Schedule.inTurn jobs.length)).Finished := by
  intro c hc
  obtain ⟨i, hi⟩ := List.mem_iff_getElem?.1 hc
  obtain ⟨n', hrun'⟩ := run_follow hrun (Schedule.inTurn jobs.length)
  have hlt : i < jobs.length := by
    rw [← (run_callSteps hrun').2]
    exact (List.getElem?_eq_some_iff.1 hi).1
  obtain ⟨r, hr⟩ := settledTo_inTurn hrun (Nat.le_refl _) i hlt
  exact ⟨r, Option.some.inj (hi.symm.trans hr)⟩

/-! ## What is highlighted -/

/-- **Under a schedule.** What `highlightAll` returns is the outcome of a run
that is through. -/
theorem run_of_schedule (h : Highlighter) (limit : Int) (σ : Schedule) (jobs : List HighlightJob) :
    ∃ n p, PoolRun h limit jobs n p ∧ p.Finished ∧ p.outcome jobs = highlightAll h limit σ jobs := by
  have hstart : PoolRun h limit jobs 0 (Pool.start jobs) := .start
  obtain ⟨n, hrun⟩ := run_follow hstart σ
  obtain ⟨n', hrun'⟩ := run_follow hrun (Schedule.inTurn jobs.length)
  refine ⟨n', _, hrun', finished_inTurn hrun, ?_⟩
  rw [highlightAll, follow_append]

/-- **Every order is one.** The outcome of a run that is through is what
`highlightAll` returns under some schedule. -/
theorem schedule_of_run {n : Nat} {p : Pool} (hrun : PoolRun h limit jobs n p) (hp : p.Finished) :
    ∃ σ, highlightAll h limit σ jobs = p.outcome jobs := by
  obtain ⟨σ, rfl⟩ := exists_follow hrun
  refine ⟨σ, ?_⟩
  rw [highlightAll, follow_append, follow_of_finished hp]

/-- Markup does not depend on the schedule. -/
theorem highlightAll_eq_ok {σ : Schedule} {highlights : List (Text × Text)}
    (hok : highlightAll h limit σ jobs = .ok highlights) (σ' : Schedule) :
    highlightAll h limit σ' jobs = .ok highlights := by
  obtain ⟨n, p, hrun, hp, houtcome⟩ := run_of_schedule h limit σ jobs
  obtain ⟨n', p', hrun', hp', houtcome'⟩ := run_of_schedule h limit σ' jobs
  rw [← houtcome']
  exact outcome_eq_ok hrun hp hrun' hp' (houtcome.trans hok)

/-- A fault is that of a block whose own call faults. -/
theorem highlightAll_eq_error {σ : Schedule} {f : HighlightFault}
    (herror : highlightAll h limit σ jobs = .error f) : OwnFault h jobs f := by
  obtain ⟨n, p, hrun, -, houtcome⟩ := run_of_schedule h limit σ jobs
  exact outcome_eq_error hrun (houtcome.trans herror)

/-- Two blocks fault, and the one that is settled first is named. -/
example :
    highlightAll (fun code _ => .error code) 0 [] [⟨"a", "x", []⟩, ⟨"b", "y", []⟩] =
        .error ⟨"a", [], "x"⟩ ∧
      highlightAll (fun code _ => .error code) 0 [⟨0, none⟩, ⟨1, none⟩, ⟨1, none⟩, ⟨1, none⟩]
          [⟨"a", "x", []⟩, ⟨"b", "y", []⟩] =
        .error ⟨"b", [], "y"⟩ :=
  ⟨rfl, rfl⟩

/-- With room for one call nothing depends on the schedule. -/
theorem highlightAll_one (h : Highlighter) (jobs : List HighlightJob) (σ σ' : Schedule) :
    highlightAll h 1 σ jobs = highlightAll h 1 σ' jobs := by
  obtain ⟨n, p, hrun, hp, houtcome⟩ := run_of_schedule h 1 σ jobs
  obtain ⟨n', p', hrun', hp', houtcome'⟩ := run_of_schedule h 1 σ' jobs
  have hfirst := first_one_at_a_time hrun hp
  cases hf : firstFault? h jobs with
  | none =>
    have hok := highlightAll_eq_ok (houtcome.symm.trans (by rw [Pool.outcome, hfirst.trans hf])) σ'
    rw [← houtcome, Pool.outcome, hfirst.trans hf]
    exact hok.symm
  | some f =>
    rw [← houtcome, ← houtcome', Pool.outcome, Pool.outcome, hfirst.trans hf,
      (first_one_at_a_time hrun' hp').trans hf]

/-- Under keys that differ there is markup for each block. -/
theorem length_of_highlightAll {σ : Schedule} {highlights : List (Text × Text)}
    (hkeys : (jobs.map HighlightJob.key).Nodup) (hok : highlightAll h limit σ jobs = .ok highlights) :
    highlights.length = jobs.length := by
  obtain ⟨n, p, hrun, -, houtcome⟩ := run_of_schedule h limit σ jobs
  have hok' := houtcome.trans hok
  rw [outcome_of_no_fault hrun hkeys (first_of_outcome_ok hok')] at hok'
  obtain rfl := Except.ok.inj hok'
  have hfst := congrArg List.length (withKeys_fst (run_poolInv hrun).places)
  rw [List.length_map, List.length_map] at hfst
  exact hfst

end

end Docweave

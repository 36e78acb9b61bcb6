import Docweave.Highlight

/-!
# Highlighting at a time

The queued blocks of a document are highlighted by calls that run side by side. A call that fails makes the
others pointless, so the first fault is kept, and from then on a call may give up instead of answering. When
all calls are through, the fault is the outcome, or else the markup by key.

In what order the calls start, come back and are settled is not for the pool to say: a `Schedule` does. What
it leaves open goes on in turn.
-/

namespace Docweave

/-- What a call came back with. -/
inductive CallResult
  /-- The answer of the highlighter. -/
  | answered (r : Except Text Text)
  /-- The call gave up, for the reason it states. -/
  | gaveUp (cause : Text)

/-- The markup, or the cause of a fault. -/
def CallResult.value : CallResult → Except Text Text
  | answered r => r
  | gaveUp cause => .error cause

/-- How far the call for a block has come. -/
inductive CallState
  | waiting
  | running
  /-- The call is back, but nothing has been done about it. -/
  | returned (r : CallResult)
  | settled (r : CallResult)

/-- The call has not started. -/
def CallState.isWaiting : CallState → Bool
  | waiting => true
  | _ => false

/-- The call takes up room. -/
def CallState.isActive : CallState → Bool
  | waiting => false
  | running => true
  | returned _ => true
  | settled _ => false

/-- The calls for queued blocks, in the order of the queue. -/
structure Pool where
  calls : List CallState
  /-- A place for the markup of each block. -/
  out : List Text
  /-- The fault that was settled first. -/
  first : Option HighlightFault

/-- Markup under a key, in place of what is there. -/
def putMarkup (entries : List (Text × Text)) (key markup : Text) : List (Text × Text) :=
  if entries.any (·.1 = key) then entries.map fun e => if e.1 = key then (key, markup) else e
  else entries ++ [(key, markup)]

/-- The markup of each block with its key. -/
def withKeys (jobs : List HighlightJob) (out : List Text) : List (Text × Text) :=
  jobs.zipWith (fun job markup => (job.key, markup)) out

/-- What happens next: the call for the block at a place takes a step. -/
structure Move where
  place : Nat
  /-- Why the call gives up where it may; without a reason it answers. -/
  cause? : Option Text := none
deriving Inhabited

/-- The order in which calls go on. -/
abbrev Schedule := List Move

/-- Each of the first `n` calls starts, comes back and is settled before the next one. -/
def Schedule.inTurn (n : Nat) : Schedule :=
  (List.range n).flatMap fun i => [⟨i, none⟩, ⟨i, none⟩, ⟨i, none⟩]

namespace Pool

/-- The pool before the first call. -/
def start (jobs : List HighlightJob) : Pool :=
  ⟨List.replicate jobs.length .waiting, List.replicate jobs.length [], none⟩

/-- The pool with the call for the block at place `i` further on. -/
def move (p : Pool) (i : Nat) (c : CallState) : Pool := { p with calls := p.calls.set i c }

/-- The pool when what a call returned is settled: markup is put into its place, a fault is kept unless there
is one. -/
def settle (p : Pool) (i : Nat) (job : HighlightJob) (r : CallResult) : Pool :=
  match r.value with
  | .ok markup => { p.move i (.settled r) with out := p.out.set i markup }
  | .error cause =>
    { p.move i (.settled r) with first := p.first.or (some ⟨job.key, job.lang, cause⟩) }

/-- No call in front of place `i` is waiting. -/
def hasTurn (p : Pool) (i : Nat) : Bool := !(p.calls.take i).any CallState.isWaiting

/-- There is room for one more call; zero or less is room for all. -/
def hasRoom (limit : Int) (p : Pool) : Bool := limit ≤ 0 || p.calls.countP CallState.isActive < limit

/-- What a running call comes back with. It may give up when there is a fault. -/
def reply (h : Highlighter) (job : HighlightJob) (p : Pool) (cause? : Option Text) : CallResult :=
  match p.first, cause? with
  | some _, some cause => .gaveUp cause
  | _, _ => .answered (h job.code job.lang)

/-- The pool after a move. One that is not possible changes nothing. -/
def after (h : Highlighter) (limit : Int) (jobs : List HighlightJob) (p : Pool) (m : Move) : Pool :=
  match jobs[m.place]?, p.calls[m.place]? with
  | some _, some .waiting => if p.hasTurn m.place && p.hasRoom limit then p.move m.place .running else p
  | some job, some .running => p.move m.place (.returned (p.reply h job m.cause?))
  | some job, some (.returned r) => p.settle m.place job r
  | _, _ => p

/-- The pool after the moves of a schedule. -/
def follow (h : Highlighter) (limit : Int) (jobs : List HighlightJob) (p : Pool) (schedule : Schedule) : Pool :=
  schedule.foldl (after h limit jobs) p

/-- What the pool comes to, once all calls are through. -/
def outcome (jobs : List HighlightJob) (p : Pool) : Except HighlightFault (List (Text × Text)) :=
  match p.first with
  | some f => .error f
  | none => .ok ((withKeys jobs p.out).foldl (fun entries e => putMarkup entries e.1 e.2) [])

end Pool

/-- The markup of queued blocks by key, with room for `limit` calls at a time. The fault that is settled first
decides. -/
def highlightAll (h : Highlighter) (limit : Int) (schedule : Schedule) (jobs : List HighlightJob) :
    Except HighlightFault (List (Text × Text)) :=
  ((Pool.start jobs).follow h limit jobs (schedule ++ Schedule.inTurn jobs.length)).outcome jobs

end Docweave

/-!
# The sweeper

A sweeper has an owner and a worker, with a channel between them. The worker
comes to the channel, and unless it is told there to stop, it waits for one
interval; when the interval has passed it runs the task and comes back. To stop
it, the owner sends a signal down the channel, drops its end, and waits until
the worker has left. Both ends are given up by the first stop, so a later one
changes nothing. A sweeper that is given up is stopped first.

A stop may be called from within the task itself. It then does not wait, since
the worker cannot leave before the task has ended.

The machine below has one transition for each thing that the owner or the
worker can do next. A signal and the end of an interval can coincide: a worker
that was already waiting may still begin one more run. A worker that comes to
the channel after the signal leaves at once.
-/

namespace KafkaScript

/-- What the worker is doing. -/
inductive WorkerPhase where
  /-- It is about to look at the channel. -/
  | arriving
  /-- It waits for the interval to pass or for the signal. -/
  | waiting
  /-- It runs the task. -/
  | running
  /-- It has left its loop. -/
  | exited
deriving DecidableEq, Repr, Inhabited

/-- Who calls a stop: the owner from outside, or the task that is running. -/
inductive StopCaller where
  | outside
  | task
deriving DecidableEq, Repr, Inhabited

/-- A stop that has been called and has not returned: who called it, and whether
it has to wait for the worker to leave. -/
structure PendingStop where
  caller : StopCaller
  waits : Bool
deriving DecidableEq, Repr, Inhabited

/-- A sweeper: whether it has not been given up, which ends its owner still holds,
whether a signal was sent down the channel, what the worker is doing, how many runs
have begun, and the stop that is being carried out. -/
structure Sweeper where
  kept : Bool
  senderHeld : Bool
  workerHeld : Bool
  signalled : Bool
  worker : WorkerPhase
  runs : Nat
  pendingStop : Option PendingStop
deriving DecidableEq, Repr, Inhabited

/-- One thing that happens. -/
inductive SweeperAction where
  /-- The worker comes to the channel: it begins to wait, or leaves. -/
  | arrive
  /-- The interval has passed and a run of the task begins. -/
  | beginRun
  /-- The run of the task ends. -/
  | endRun
  /-- The signal reaches the worker while it waits. -/
  | leave
  /-- A stop is called. -/
  | callStop (caller : StopCaller)
  /-- The sweeper is given up, which calls a stop. -/
  | giveUp (caller : StopCaller)
  /-- The stop returns. -/
  | returnStop
deriving DecidableEq, Repr, Inhabited

namespace Sweeper

/-- A sweeper whose worker has just begun. -/
def spawn : Sweeper :=
  ⟨true, true, true, false, .arriving, 0, none⟩

/-- Whether the owner still holds a worker that has not left. -/
def isRunning (s : Sweeper) : Bool :=
  s.workerHeld && s.worker != .exited

/-- Whether the channel tells the worker to stop. -/
def stopVisible (s : Sweeper) : Bool :=
  s.signalled || !s.senderHeld

/-- The state when a stop has been called, if it can be. Only one stop is under way
at a time, and the task has to be running to call one. -/
def called? (s : Sweeper) (caller : StopCaller) : Option Sweeper :=
  if !s.kept ∨ s.pendingStop.isSome ∨ (caller = .task ∧ s.worker ≠ .running) then none
  else some { s with
    signalled := s.signalled || s.senderHeld
    senderHeld := false
    workerHeld := false
    pendingStop := some ⟨caller, s.workerHeld && caller == .outside⟩ }

/-- The state after an action, if the action can happen. -/
def step? (s : Sweeper) : SweeperAction → Option Sweeper
  | .arrive =>
    if s.worker = .arriving then
      some { s with worker := if s.stopVisible then .exited else .waiting }
    else none
  | .beginRun =>
    if s.worker = .waiting then some { s with worker := .running, runs := s.runs + 1 } else none
  | .endRun =>
    if s.worker = .running ∧ s.pendingStop.map (·.caller) ≠ some .task then
      some { s with worker := .arriving }
    else none
  | .leave =>
    if s.stopVisible ∧ s.worker = .waiting then some { s with worker := .exited } else none
  | .callStop caller => s.called? caller
  | .giveUp caller => (s.called? caller).map fun s => { s with kept := false }
  | .returnStop =>
    match s.pendingStop with
    | none => none
    | some stop =>
      if stop.waits ∧ s.worker ≠ .exited then none else some { s with pendingStop := none }

/-- The state after some actions in order, if all of them can happen. -/
def run? (s : Sweeper) : List SweeperAction → Option Sweeper
  | [] => some s
  | a :: as => (s.step? a).bind fun next => run? next as

/-- Runs of the task that take place in full, one after the other. -/
def fullRuns (n : Nat) : List SweeperAction :=
  (List.replicate n [SweeperAction.arrive, .beginRun, .endRun]).flatten

/-- A stop from outside that is obeyed at once. -/
def obeyedStop : List SweeperAction :=
  [.callStop .outside, .arrive, .returnStop]

end Sweeper

end KafkaScript

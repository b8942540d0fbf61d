import Mathlib.Data.List.Count
import KafkaScript.Cache.Sweeper

/-!
# No run after a stop

A stop called from outside returns only when the worker has left, and a worker that
has left begins no run (`Sweeper.Stopped`). Until then the worker may begin one more
run, if it was waiting when the signal was sent, but not a second one
(`Sweeper.count_beginRun_le`). A stop called by the task leaves the worker running, so
there the run that calls it is the last (`Sweeper.StopsForGood`).

What one action does is said once (`Sweeper.Moves`), and each invariant is a case
analysis of it.
-/

namespace KafkaScript

namespace SweeperAction

/-- Who calls a stop by the action, if it is the call of a stop. -/
def caller? : SweeperAction → Option StopCaller
  | .callStop caller | .giveUp caller => some caller
  | .arrive | .beginRun | .endRun | .leave | .returnStop => none

/-- No stop is called by the actions. -/
def Uncalled (actions : List SweeperAction) : Prop :=
  ∀ a ∈ actions, a.caller? = none

/-- Stops are called by the actions only from outside. -/
def CalledOutside (actions : List SweeperAction) : Prop :=
  ∀ a ∈ actions, a.caller? ≠ some .task

end SweeperAction

namespace Sweeper

/-! ## What an action does -/

/-- The state when a stop has been called. -/
def called (s : Sweeper) (caller : StopCaller) : Sweeper :=
  { s with
    signalled := s.signalled || s.senderHeld
    senderHeld := false
    workerHeld := false
    pendingStop := some ⟨caller, s.workerHeld && caller == .outside⟩ }

/-- Whether a stop can be called. -/
structure Callable (s : Sweeper) (caller : StopCaller) : Prop where
  kept : s.kept = true
  free : s.pendingStop = none
  running : caller = .task → s.worker = .running

theorem called?_eq_some_iff {s t : Sweeper} {caller : StopCaller} :
    s.called? caller = some t ↔ s.Callable caller ∧ t = s.called caller := by
  unfold called?
  split
  · next h =>
    simp only [reduceCtorEq, false_iff, not_and]
    rintro ⟨hkept, hfree, hrunning⟩ _
    rcases h with h | h | ⟨hcaller, hworker⟩
    · simp [hkept] at h
    · simp [hfree] at h
    · exact hworker (hrunning hcaller)
  · next h =>
    have hcallable : s.Callable caller := by
      obtain ⟨hkept, hfree, hrunning⟩ := not_or.mp h |>.imp id not_or.mp
      refine ⟨by simpa using hkept, by simpa using hfree, fun hcaller => ?_⟩
      exact not_not.mp fun hworker => hrunning ⟨hcaller, hworker⟩
    rw [Option.some.injEq, and_iff_right hcallable]
    exact eq_comm

/-- What an action does, and when it can happen. -/
inductive Moves (s : Sweeper) : SweeperAction → Sweeper → Prop where
  | wait : s.worker = .arriving → s.stopVisible = false → Moves s .arrive { s with worker := .waiting }
  | quit : s.worker = .arriving → s.stopVisible = true → Moves s .arrive { s with worker := .exited }
  | beginRun : s.worker = .waiting →
      Moves s .beginRun { s with worker := .running, runs := s.runs + 1 }
  | endRun : s.worker = .running → Moves s .endRun { s with worker := .arriving }
  | leave : s.worker = .waiting → s.stopVisible = true → Moves s .leave { s with worker := .exited }
  | callStop {caller} : s.Callable caller → Moves s (.callStop caller) (s.called caller)
  | giveUp {caller} : s.Callable caller →
      Moves s (.giveUp caller) { s.called caller with kept := false }
  | returnStop {stop} : s.pendingStop = some stop → (stop.waits = true → s.worker = .exited) →
      Moves s .returnStop { s with pendingStop := none }

theorem moves_of_step? {s t : Sweeper} {a : SweeperAction} (h : s.step? a = some t) :
    s.Moves a t := by
  cases a with
  | arrive =>
    simp only [step?, Option.ite_none_right_eq_some, Option.some.injEq] at h
    obtain ⟨hworker, rfl⟩ := h
    cases hvisible : s.stopVisible
    · exact .wait hworker hvisible
    · exact .quit hworker hvisible
  | beginRun =>
    simp only [step?, Option.ite_none_right_eq_some, Option.some.injEq] at h
    obtain ⟨hworker, rfl⟩ := h
    exact .beginRun hworker
  | endRun =>
    simp only [step?, Option.ite_none_right_eq_some, Option.some.injEq] at h
    obtain ⟨⟨hworker, -⟩, rfl⟩ := h
    exact .endRun hworker
  | leave =>
    simp only [step?, Option.ite_none_right_eq_some, Option.some.injEq] at h
    obtain ⟨⟨hvisible, hworker⟩, rfl⟩ := h
    exact .leave hworker hvisible
  | callStop caller =>
    obtain ⟨hcallable, rfl⟩ := called?_eq_some_iff.mp h
    exact .callStop hcallable
  | giveUp caller =>
    obtain ⟨_, hcalled, rfl⟩ := Option.map_eq_some_iff.mp h
    obtain ⟨hcallable, rfl⟩ := called?_eq_some_iff.mp hcalled
    exact .giveUp hcallable
  | returnStop =>
    rw [step?] at h
    split at h
    · contradiction
    · next stop hstop =>
      simp only [Option.ite_none_left_eq_some, Option.some.injEq] at h
      obtain ⟨hwaits, rfl⟩ := h
      exact .returnStop hstop fun hw => not_not.mp fun hworker => hwaits ⟨hw, hworker⟩

theorem run?_cons_eq_some {s t : Sweeper} {a : SweeperAction} {actions : List SweeperAction} :
    s.run? (a :: actions) = some t ↔ ∃ next, s.step? a = some next ∧ next.run? actions = some t := by
  rw [run?, Option.bind_eq_some_iff]

theorem run?_append (s : Sweeper) (before after : List SweeperAction) :
    s.run? (before ++ after) = (s.run? before).bind (·.run? after) := by
  induction before generalizing s with
  | nil => rfl
  | cons a before ih =>
    rw [List.cons_append, run?, run?]
    cases s.step? a with
    | none => rfl
    | some next => exact ih next

theorem run?_append_cons {s t : Sweeper} {a : SweeperAction} {before after : List SweeperAction}
    (h : s.run? (before ++ a :: after) = some t) :
    ∃ u v, s.run? before = some u ∧ u.step? a = some v ∧ v.run? after = some t := by
  rw [run?_append, Option.bind_eq_some_iff] at h
  obtain ⟨u, hbefore, hafter⟩ := h
  obtain ⟨v, hstep, hrest⟩ := run?_cons_eq_some.mp hafter
  exact ⟨u, v, hbefore, hstep, hrest⟩

/-- What actions of some kind preserve holds after a run of them. -/
theorem run?_preserves {P : Sweeper → Prop} {K : SweeperAction → Prop}
    (hmoves : ∀ s a t, P s → K a → s.Moves a t → P t) {s t : Sweeper} (h : P s)
    {actions : List SweeperAction} (hrun : s.run? actions = some t)
    (hkind : ∀ a ∈ actions, K a) : P t := by
  induction actions generalizing s with
  | nil =>
    obtain rfl := Option.some.inj hrun
    exact h
  | cons a actions ih =>
    obtain ⟨next, hstep, hrest⟩ := run?_cons_eq_some.mp hrun
    obtain ⟨ha, hkind⟩ := List.forall_mem_cons.mp hkind
    exact ih (hmoves s a next h ha (moves_of_step? hstep)) hrest hkind

/-- As long as no stop is called, the task is run again and again. -/
theorem run?_fullRuns (m n : Nat) :
    run? { spawn with runs := m } (fullRuns n) = some { spawn with runs := m + n } := by
  induction n generalizing m with
  | zero => rfl
  | succ n ih =>
    have hfirst : fullRuns (n + 1) = [.arrive, .beginRun, .endRun] ++ fullRuns n := by
      rw [fullRuns, List.replicate_succ, List.flatten_cons, fullRuns]
    have hround : run? { spawn with runs := m } [.arrive, .beginRun, .endRun] =
        some { spawn with runs := m + 1 } := rfl
    rw [hfirst, run?_append, hround, Option.bind_some, ih, Nat.add_assoc, Nat.add_comm 1]

/-! ## Once the channel tells the worker to stop -/

theorem Moves.stopVisible {s t : Sweeper} {a : SweeperAction} (h : s.Moves a t)
    (hvisible : s.stopVisible = true) : t.stopVisible = true := by
  cases h with
  | callStop | giveUp => simp [Sweeper.stopVisible, called]
  | _ => exact hvisible

/-- How many runs can still begin when the worker has been told to stop: one, if it is
waiting. -/
def lastRuns (s : Sweeper) : Nat :=
  if s.worker = .waiting then 1 else 0

theorem Moves.lastRuns_le {s t : Sweeper} {a : SweeperAction} (h : s.Moves a t)
    (hvisible : s.stopVisible = true) :
    [a].count .beginRun + t.lastRuns ≤ s.lastRuns := by
  cases h with
  | wait _ hsilent =>
    rw [hvisible] at hsilent
    contradiction
  | beginRun hworker => simp [lastRuns, hworker]
  | quit hworker | endRun hworker | leave hworker => simp [lastRuns, hworker]
  | callStop | giveUp | returnStop => exact Nat.le_of_eq (Nat.zero_add _)

/-- After the signal, as many runs begin as there are waiting workers. -/
theorem count_beginRun_le {s t : Sweeper} {actions : List SweeperAction}
    (h : s.run? actions = some t) (hvisible : s.stopVisible = true) :
    actions.count .beginRun ≤ s.lastRuns := by
  induction actions generalizing s with
  | nil => exact Nat.zero_le _
  | cons a actions ih =>
    obtain ⟨next, hstep, hrest⟩ := run?_cons_eq_some.mp h
    have hmoves := moves_of_step? hstep
    calc (a :: actions).count .beginRun
        = ([a] ++ actions).count .beginRun := rfl
      _ = [a].count .beginRun + actions.count .beginRun := List.count_append
      _ ≤ [a].count .beginRun + next.lastRuns :=
          Nat.add_le_add_left (ih hrest (hmoves.stopVisible hvisible)) _
      _ ≤ s.lastRuns := hmoves.lastRuns_le hvisible

theorem not_mem_beginRun {s t : Sweeper} {actions : List SweeperAction}
    (h : s.run? actions = some t) (hvisible : s.stopVisible = true) (hworker : s.worker ≠ .waiting) :
    .beginRun ∉ actions := by
  have hcount := count_beginRun_le h hvisible
  rw [lastRuns, if_neg hworker] at hcount
  exact List.count_eq_zero.mp (Nat.le_zero.mp hcount)

/-! ## Stops from outside -/

/-- The owner has both ends until it sends the signal, a stop that need not wait finds
the worker gone, and so does all that comes after a stop. -/
structure Served (s : Sweeper) : Prop where
  ends : s.workerHeld = s.senderHeld
  signal : s.signalled = !s.senderHeld
  calling : ∀ stop ∈ s.pendingStop, s.senderHeld = false ∧ (stop.waits = false → s.worker = .exited)
  done : s.pendingStop = none → s.senderHeld = false → s.worker = .exited

theorem served_spawn : spawn.Served :=
  ⟨rfl, rfl, nofun, nofun⟩

/-- While there is a worker it is waited for. -/
theorem Served.called {s : Sweeper} (h : s.Served) (hfree : s.pendingStop = none) :
    (s.called .outside).Served := by
  refine ⟨rfl, by simp [Sweeper.called, h.signal], ?_, nofun⟩
  rintro stop ⟨⟩
  refine ⟨rfl, fun hwaits => h.done hfree ?_⟩
  rw [← h.ends]
  simpa using hwaits

theorem Served.moves {s t : Sweeper} {a : SweeperAction} (h : s.Served) (hmoves : s.Moves a t)
    (hcaller : a.caller? ≠ some .task) : t.Served := by
  -- a worker that moves has not left, so no stop has returned and the one under way waits
  have hworking : s.worker ≠ .exited → ∀ worker runs,
      Served { s with worker := worker, runs := runs } := by
    intro hworker worker runs
    refine ⟨h.ends, h.signal, fun stop hstop => ⟨(h.calling stop hstop).1, fun hwaits => ?_⟩,
      fun hfree hsender => ?_⟩
    · exact absurd ((h.calling stop hstop).2 hwaits) hworker
    · exact absurd (h.done hfree hsender) hworker
  have houtside : ∀ caller, a.caller? = some caller → caller = .outside := by
    rintro (_ | _) heq
    · rfl
    · exact absurd heq hcaller
  cases hmoves with
  | wait hworker | quit hworker | beginRun hworker | endRun hworker | leave hworker =>
    exact hworking (by simp [hworker]) _ _
  | callStop hcallable =>
    obtain rfl := houtside _ rfl
    exact h.called hcallable.free
  | giveUp hcallable =>
    obtain rfl := houtside _ rfl
    obtain ⟨hends, hsignal, hcalling, hdone⟩ := h.called hcallable.free
    exact ⟨hends, hsignal, hcalling, hdone⟩
  | @returnStop stop hstop hwaits =>
    refine ⟨h.ends, h.signal, nofun, fun _ _ => ?_⟩
    cases hw : stop.waits
    · exact (h.calling stop hstop).2 hw
    · exact hwaits hw

/-- A stop has returned: the signal was sent, both ends are given up, and the worker has
left, so that no stop has to wait for it. -/
structure Stopped (s : Sweeper) : Prop where
  signal : s.signalled = true
  sender : s.senderHeld = false
  handle : s.workerHeld = false
  exited : s.worker = .exited
  calling : ∀ stop ∈ s.pendingStop, stop.waits = false

theorem Served.stopped {s t : Sweeper} (h : s.Served) (hmoves : s.Moves .returnStop t) :
    t.Stopped := by
  have hserved := h.moves hmoves (by simp [SweeperAction.caller?])
  cases hmoves with
  | returnStop hstop =>
    have hsender := (h.calling _ hstop).1
    refine ⟨?_, hsender, h.ends.trans hsender, hserved.done rfl hsender, nofun⟩
    show s.signalled = true
    rw [h.signal, hsender]
    rfl

/-- Once a stop has returned, all that changes is whether another one is under way and
whether the sweeper has been given up. -/
theorem Stopped.moves {s t : Sweeper} {a : SweeperAction} (h : s.Stopped) (hmoves : s.Moves a t) :
    t.Stopped ∧ t = { s with kept := t.kept, pendingStop := t.pendingStop } := by
  have hexited := h.exited
  cases hmoves with
  | wait hworker | quit hworker | beginRun hworker | endRun hworker | leave hworker =>
    rw [hexited] at hworker
    contradiction
  | callStop | giveUp =>
    refine ⟨⟨?_, rfl, rfl, hexited, ?_⟩, ?_⟩
    · simp [called, h.signal]
    · rintro stop ⟨⟩
      simp [h.handle]
    · simp [called, h.signal, h.sender, h.handle]
  | returnStop => exact ⟨⟨h.signal, h.sender, h.handle, hexited, nofun⟩, rfl⟩

theorem Stopped.run {s t : Sweeper} {actions : List SweeperAction} (h : s.Stopped)
    (hrun : s.run? actions = some t) :
    t.Stopped ∧ t = { s with kept := t.kept, pendingStop := t.pendingStop } := by
  let Same (u : Sweeper) : Prop :=
    u.Stopped ∧ u = { s with kept := u.kept, pendingStop := u.pendingStop }
  refine run?_preserves (P := Same) (K := fun _ => True) ?_ ⟨h, rfl⟩ hrun fun _ _ => trivial
  rintro u a v ⟨hstopped, heq⟩ - hmoves
  obtain ⟨hstopped', heq'⟩ := hstopped.moves hmoves
  refine ⟨hstopped', ?_⟩
  rw [heq', heq]

/-- A run in which a stop called from outside has returned leads to a sweeper that has
stopped. -/
theorem Served.run {s t : Sweeper} {actions : List SweeperAction} (h : s.Served)
    (hrun : s.run? actions = some t) (houtside : SweeperAction.CalledOutside actions)
    (hreturned : .returnStop ∈ actions) : t.Stopped := by
  obtain ⟨before, after, rfl⟩ := List.append_of_mem hreturned
  obtain ⟨u, v, hbefore, hreturn, hafter⟩ := run?_append_cons hrun
  have hserved : u.Served := run?_preserves (fun _ _ _ hs ha hmoves => hs.moves hmoves ha) h hbefore
    fun a ha => houtside a (List.mem_append_left _ ha)
  exact ((hserved.stopped (moves_of_step? hreturn)).run hafter).1

/-! ## Before any stop -/

/-- No stop has been called. -/
structure Untouched (s : Sweeper) : Prop where
  kept : s.kept = true
  sender : s.senderHeld = true
  free : s.pendingStop = none

theorem Untouched.moves {s t : Sweeper} {a : SweeperAction} (h : s.Untouched) (hmoves : s.Moves a t)
    (huncalled : a.caller? = none) : t.Untouched := by
  cases hmoves with
  | wait | quit | beginRun | endRun | leave => exact ⟨h.kept, h.sender, h.free⟩
  | callStop | giveUp => contradiction
  | returnStop => exact ⟨h.kept, h.sender, rfl⟩

theorem untouched_of_run? {s : Sweeper} {actions : List SweeperAction}
    (hrun : spawn.run? actions = some s) (huncalled : SweeperAction.Uncalled actions) :
    s.Untouched :=
  run?_preserves (fun _ _ _ hs ha hmoves => hs.moves hmoves ha) ⟨rfl, rfl, rfl⟩ hrun huncalled

/-! ## Stops that are under way -/

/-- A stop that has to wait was called from outside, and the worker has been told. -/
def Awaited (s : Sweeper) : Prop :=
  ∀ stop ∈ s.pendingStop, stop.waits = true → stop.caller = .outside ∧ s.stopVisible = true

theorem Awaited.moves {s t : Sweeper} {a : SweeperAction} (h : s.Awaited) (hmoves : s.Moves a t) :
    t.Awaited := by
  intro stop hstop hwaits
  cases hmoves with
  | wait | quit | beginRun | endRun | leave => exact h stop hstop hwaits
  | callStop | giveUp =>
    obtain rfl := Option.some.inj hstop
    refine ⟨?_, by simp [stopVisible, called]⟩
    simpa using (Bool.and_eq_true_iff.mp hwaits).2
  | returnStop => contradiction

theorem awaited_of_run? {s : Sweeper} {actions : List SweeperAction}
    (hrun : spawn.run? actions = some s) : s.Awaited := by
  have hspawn : spawn.Awaited := fun _ hstop => absurd hstop (Option.not_mem_none _)
  exact run?_preserves (K := fun _ => True) (fun _ _ _ hs _ hmoves => hs.moves hmoves) hspawn hrun
    fun _ _ => trivial

/-- What the worker has to do before a stop that waits for it can return. -/
def wayOut (s : Sweeper) : List SweeperAction :=
  match s.worker with
  | .arriving => [.arrive]
  | .waiting => [.leave]
  | .running => [.endRun, .arrive]
  | .exited => []

theorem Awaited.run?_wayOut {s : Sweeper} (h : s.Awaited) {stop : PendingStop}
    (hstop : s.pendingStop = some stop) (hwaits : stop.waits = true) :
    s.run? (s.wayOut ++ [.returnStop]) = some { s with worker := .exited, pendingStop := none } := by
  obtain ⟨hcaller, hvisible⟩ := h stop hstop hwaits
  have hvisible' : s.signalled = true ∨ s.senderHeld = false := by simpa [stopVisible] using hvisible
  rw [wayOut]
  cases hworker : s.worker
  · simp [run?, step?, stopVisible, hworker, hstop, hvisible']
  · simp [run?, step?, stopVisible, hworker, hstop, hvisible']
  · simp [run?, step?, stopVisible, hworker, hstop, hcaller, hvisible']
  · simp [run?, step?, hworker, hstop]

/-- Every stop that is under way can return, once the worker has done what it is about
to do. -/
theorem exists_return {s : Sweeper} {actions : List SweeperAction}
    (hrun : spawn.run? actions = some s) (hcalled : s.pendingStop.isSome = true) :
    ∃ more t, SweeperAction.Uncalled more ∧ s.run? (more ++ [.returnStop]) = some t := by
  obtain ⟨stop, hstop⟩ := Option.isSome_iff_exists.mp hcalled
  cases hwaits : stop.waits
  · refine ⟨[], { s with pendingStop := none }, nofun, ?_⟩
    simp [run?, step?, hstop, hwaits]
  · refine ⟨s.wayOut, _, ?_, (awaited_of_run? hrun).run?_wayOut hstop hwaits⟩
    rw [wayOut]
    cases s.worker <;> simp [SweeperAction.Uncalled, SweeperAction.caller?]

/-! ## Stops for good -/

/-- Nothing of a sweeper goes on: no run is in progress or ever begins, and whatever
happens, a further stop too, only ever concerns that stop and who keeps the sweeper. -/
structure Over (s : Sweeper) : Prop where
  idle : s.worker ≠ .running
  not_running : s.isRunning = false
  last : ∀ actions t, s.run? actions = some t → .beginRun ∉ actions ∧ t.isRunning = false
  unchanged : ∀ actions t, s.run? actions = some t →
    t = { s with kept := t.kept, pendingStop := t.pendingStop }
  /-- A further stop returns at once and leaves everything as it was. -/
  again : s.kept = true → s.pendingStop = none →
    s.run? [.callStop .outside, .returnStop] = some s

theorem Stopped.over {s : Sweeper} (h : s.Stopped) : s.Over where
  idle := by simp [h.exited]
  not_running := by simp [isRunning, h.handle]
  last := by
    intro actions t hrun
    refine ⟨not_mem_beginRun hrun (by simp [stopVisible, h.signal]) (by simp [h.exited]), ?_⟩
    simp [isRunning, (h.run hrun).1.handle]
  unchanged := fun _ _ hrun => (h.run hrun).2
  again := by
    intro hkept hfree
    obtain ⟨hsignal, hsender, hhandle, -, -⟩ := h
    obtain ⟨kept, senderHeld, workerHeld, signalled, worker, runs, pendingStop⟩ := s
    subst hkept hfree hsignal hsender hhandle
    rfl

/-- The state when the task that is running has called a stop: the stop can return while
the task still runs, and no other run begins. -/
structure LastRun (s : Sweeper) : Prop where
  running : s.worker = .running
  not_running : s.isRunning = false
  returns : s.step? .returnStop = some { s with pendingStop := none }
  last : ∀ actions t, s.run? actions = some t → .beginRun ∉ actions

theorem Untouched.exists_lastRun {s : Sweeper} (h : s.Untouched) (hworker : s.worker = .running)
    {call : SweeperAction} (hcall : call.caller? = some .task) :
    ∃ t, s.step? call = some t ∧ t.LastRun := by
  have hcallable : s.Callable .task := ⟨h.kept, h.free, fun _ => hworker⟩
  have hcalled : s.called? .task = some (s.called .task) := called?_eq_some_iff.mpr ⟨hcallable, rfl⟩
  have hlast : ∀ kept, LastRun { s.called .task with kept := kept } := by
    intro kept
    refine ⟨hworker, rfl, by simp [step?, called], fun actions t hrun => ?_⟩
    exact not_mem_beginRun hrun (by simp [stopVisible, called]) (by simp [called, hworker])
  cases call with
  | callStop caller =>
    obtain rfl := Option.some.inj hcall
    exact ⟨_, hcalled, hlast s.kept⟩
  | giveUp caller =>
    obtain rfl := Option.some.inj hcall
    exact ⟨_, congrArg (Option.map _) hcalled, hlast false⟩
  | _ => contradiction

/-- Whatever the worker is doing, a stop can be called from outside if none is under way,
and it can return; then it is over. -/
theorem exists_obeyedStop {s : Sweeper} {actions : List SweeperAction}
    (hrun : spawn.run? actions = some s) (houtside : SweeperAction.CalledOutside actions)
    (hkept : s.kept = true) (hfree : s.pendingStop = none) :
    ∃ more t, SweeperAction.Uncalled more ∧
      s.run? (.callStop .outside :: more ++ [.returnStop]) = some t ∧ t.Over := by
  have hcalled : s.step? (.callStop .outside) = some (s.called .outside) :=
    called?_eq_some_iff.mpr ⟨⟨hkept, hfree, nofun⟩, rfl⟩
  have hcall : spawn.run? (actions ++ [.callStop .outside]) = some (s.called .outside) := by
    rw [run?_append, hrun]
    exact run?_cons_eq_some.mpr ⟨_, hcalled, rfl⟩
  obtain ⟨more, t, hmore, hreturn⟩ := exists_return hcall rfl
  have hrest : s.run? (.callStop .outside :: more ++ [.returnStop]) = some t :=
    run?_cons_eq_some.mpr ⟨_, hcalled, hreturn⟩
  have hwhole : spawn.run? (actions ++ (.callStop .outside :: more ++ [.returnStop])) = some t := by
    rw [run?_append, hrun]
    exact hrest
  refine ⟨more, t, hmore, hrest, (served_spawn.run hwhole ?_ (by simp)).over⟩
  intro a ha
  rcases List.mem_append.mp ha with ha | ha
  · exact houtside a ha
  · rcases List.mem_append.mp ha with ha | ha
    · rcases List.mem_cons.mp ha with rfl | ha
      · exact nofun
      · rw [hmore a ha]
        exact nofun
    · rw [List.mem_singleton.mp ha]
      exact nofun

/-- What is asked of a new sweeper, however the ends of intervals, the runs of the task
and the calls of stops follow each other. To give it up is to call a stop. -/
structure StopsForGood (s : Sweeper) : Prop where
  /-- While stops are called from outside only, the first one that returns is the end. -/
  outside : ∀ actions t, s.run? actions = some t → SweeperAction.CalledOutside actions →
    .returnStop ∈ actions → t.Over
  /-- And one can be called and return, whatever the worker is doing. -/
  obeyed : ∀ actions t, s.run? actions = some t → SweeperAction.CalledOutside actions →
    t.kept = true → t.pendingStop = none →
      ∃ more u, SweeperAction.Uncalled more ∧
        t.run? (.callStop .outside :: more ++ [.returnStop]) = some u ∧ u.Over
  /-- The first stop may be called by the task; the run that does so is the last. -/
  task : ∀ actions t, s.run? actions = some t → SweeperAction.Uncalled actions →
    t.worker = .running → ∀ call : SweeperAction, call.caller? = some .task →
      ∃ u, t.step? call = some u ∧ u.LastRun
  /-- Between the signal and the return of the stop, at most one more run begins. -/
  race : ∀ actions t, s.run? actions = some t → t.stopVisible = true →
    ∀ more u, t.run? more = some u → more.count .beginRun ≤ 1
  /-- Every stop that is under way can return without another call. -/
  returns : ∀ actions t, s.run? actions = some t → t.pendingStop.isSome = true →
    ∃ more u, SweeperAction.Uncalled more ∧ t.run? (more ++ [.returnStop]) = some u

theorem lastRuns_le_one (s : Sweeper) : s.lastRuns ≤ 1 := by
  rw [lastRuns]
  split <;> simp

/-- **A sweeper that has been stopped does not run the task again.** -/
theorem stopsForGood_spawn : spawn.StopsForGood where
  outside := fun _ _ hrun houtside hreturned => (served_spawn.run hrun houtside hreturned).over
  obeyed := fun _ _ hrun houtside hkept hfree => exists_obeyedStop hrun houtside hkept hfree
  task := fun _ _ hrun huncalled hworker _ hcall =>
    (untouched_of_run? hrun huncalled).exists_lastRun hworker hcall
  race := fun _ t _ hvisible _ _ hmore =>
    Nat.le_trans (count_beginRun_le hmore hvisible) t.lastRuns_le_one
  returns := fun _ _ hrun hcalled => exists_return hrun hcalled

/-- A stop that is called after three runs, and one that is called during the first run:
that one cannot return before the run has ended and the worker has left. -/
theorem stopsForGood_spawn_obeyed :
    (∃ t, spawn.run? (fullRuns 3 ++ obeyedStop) = some t ∧ t.runs = 3 ∧ t.Over) ∧
      ∃ t u, spawn.run? [.arrive, .beginRun, .callStop .outside] = some t ∧
        t.worker = .running ∧ t.pendingStop = some ⟨.outside, true⟩ ∧
        t.step? .returnStop = none ∧ t.run? [.endRun, .arrive, .returnStop] = some u ∧ u.Over := by
  have hthree : spawn.run? (fullRuns 3 ++ obeyedStop) =
      some ⟨true, false, false, true, .exited, 3, none⟩ := by
    have hruns : spawn.run? (fullRuns 3) = some { spawn with runs := 3 } := run?_fullRuns 0 3
    rw [run?_append, hruns]
    rfl
  have hthreeOutside : SweeperAction.CalledOutside (fullRuns 3 ++ obeyedStop) := by
    unfold SweeperAction.CalledOutside
    decide
  have hlateOutside : SweeperAction.CalledOutside
      [.arrive, .beginRun, .callStop .outside, .endRun, .arrive, .returnStop] := by
    unfold SweeperAction.CalledOutside
    decide
  refine ⟨⟨_, hthree, rfl, stopsForGood_spawn.outside _ _ hthree hthreeOutside (by decide)⟩,
    _, _, rfl, rfl, rfl, rfl, rfl, ?_⟩
  exact stopsForGood_spawn.outside _ _ rfl hlateOutside (by decide)

end Sweeper

end KafkaScript

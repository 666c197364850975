import Unsend.Scheduler

/-!
# The tasks of an executor

The other half of the executor: `Executor::spawn`, the set `active` of
the wakers of the spawned tasks, and the tasks themselves, which call the
scheduler function when they are woken.

A task is a task of `async-task`: it has at most one Runnable, its future
is dropped when it is done, when it was cancelled and its Runnable is run
the next time, and when its Runnable is dropped. Woken, cancelled or
losing its last waker while nobody else refers to it, it calls the
scheduler function if it is neither scheduled nor running.

`Executor::spawn` wraps the future in an async block whose first
statement creates the guard that removes the task's entry from `active`:
there is no guard before the first poll. `active` is a slab: the key of
an entry is any vacant one, and the entries are in the order in which the
slab iterates over them.

`Tasks.system` is an executor with its tasks, its `tick()` and `run()`
futures and everything that is done to them while the executor lives.
-/

namespace Unsend

namespace Tasks

variable {W : Type}

abbrev TaskId := Nat

/-! ## One task -/

inductive FutureState where
  /-- The future has not been polled; there is no guard. -/
  | unpolled
  /-- The future is suspended, or being polled, and its guard is alive. -/
  | started
  /-- The future has completed or was dropped. -/
  | gone
  deriving DecidableEq

/-- What dropping a future does to another task: the destructors of what it
owns run, and who waits for its task is woken. -/
inductive Destructor where
  /-- A waker of the task is woken. -/
  | wake (i : TaskId)
  /-- The `Task` handle is dropped. -/
  | cancel (i : TaskId)
  /-- `Task::detach` is called. -/
  | detach (i : TaskId)
  /-- The last waker of the task is dropped, but for the one in `active`. -/
  | dropWaker (i : TaskId)
  deriving DecidableEq

structure Task where
  /-- Its key in `active`. -/
  key : Nat
  future : FutureState
  /-- There is a Runnable, or will be once the task stops running. -/
  scheduled : Bool
  running : Bool
  /-- The task was cancelled, or its Runnable was dropped. -/
  closed : Bool
  /-- The `Task` handle is gone. -/
  detached : Bool
  /-- Somebody besides `active` holds a waker. -/
  wakers : Bool
  /-- What dropping the future does to other tasks, in this order. -/
  onDrop : List Destructor
  deriving DecidableEq

namespace Task

/-- `Executor::spawn`, before the task is scheduled. -/
def spawned (key : Nat) (onDrop : List Destructor) : Task :=
  ⟨key, .unpolled, true, false, false, false, false, onDrop⟩

/-- The task waits for a wake-up. -/
def idle (t : Task) : Bool := t.future != .gone && !t.scheduled && !t.running

/-- A waker of the task is woken; does the task call the scheduler
function? -/
def wake (t : Task) : Task × Bool :=
  if t.future = .gone ∨ t.closed ∨ t.scheduled then (t, false)
  else ({ t with scheduled := true }, !t.running)

/-- The `Task` handle is dropped. -/
def cancel (t : Task) : Task × Bool :=
  if t.future = .gone ∨ t.closed then ({ t with detached := true }, false)
  else
    ({ t with detached := true, closed := true, scheduled := t.scheduled || !t.running },
      !t.scheduled && !t.running)

/-- The waker in `active` is dropped. -/
def dropWaker (t : Task) : Task × Bool :=
  if t.idle ∧ t.detached ∧ ¬ t.wakers ∧ ¬ t.closed then
    ({ t with closed := true, scheduled := true }, true)
  else (t, false)

/-- The Runnable is run: the future is polled, or dropped if the task was
cancelled. -/
def start (t : Task) : Task :=
  if t.closed then { t with scheduled := false, future := .gone }
  else { t with scheduled := false, running := true, future := .started }

/-- The poll returns `Ready` or `Pending`. -/
def finish (t : Task) (ready : Bool) (onDrop : List Destructor) : Task × Bool :=
  if ¬ t.running then (t, false)
  else if ready ∨ t.closed then
    ({ t with running := false, scheduled := false, future := .gone }, false)
  else ({ t with running := false, onDrop := onDrop }, t.scheduled)

/-- The Runnable is dropped. -/
def lose (t : Task) : Task := { t with closed := true, scheduled := false, future := .gone }

/-- The guard runs when a future that was polled goes away. -/
def guard (t t' : Task) : Bool := t.future == .started && t'.future == .gone

end Task

/-- `active.try_remove(key)`. -/
def tryRemove (active : List (Nat × TaskId)) (key : Nat) : List (Nat × TaskId) :=
  active.filter fun x => x.1 ≠ key

/-! ## The executor with its tasks -/

structure Sys (W : Type) where
  sched : Executor.Sys TaskId W
  tasks : TaskId → Option Task
  /-- Slab of tasks that are currently running. -/
  active : List (Nat × TaskId)
  /-- The tasks whose Runnables are being run, innermost first. -/
  running : List TaskId

/-- The steps of the tickers and of `try_tick`: all but a call of the
scheduler function and the return of a Runnable. -/
def isTick : Executor.Label TaskId W → Bool
  | .schedule _ _ | .ret => false
  | _ => true

inductive Label (W : Type) where
  | tick (l : Executor.Label TaskId W)
  /-- The slab puts the entry at `pos`; `id` is the calling thread's. -/
  | spawn (i : TaskId) (key pos : Nat) (onDrop : List Destructor) (id : Option Nat)
  | wake (i : TaskId) (id : Option Nat)
  | cancel (i : TaskId) (id : Option Nat)
  | detach (i : TaskId)
  /-- A waker of the task is cloned, or the last clone is dropped. -/
  | wakers (i : TaskId) (held : Bool)
  /-- The Runnable that runs innermost returns. -/
  | ret (ready : Bool) (onDrop : List Destructor) (id : Option Nat)

namespace Sys

def init (id : Option Nat) : Sys W := ⟨.init id, fun _ => none, [], []⟩

/-- The task `i` and its entry are created. -/
def insert (s : Sys W) (i : TaskId) (key pos : Nat) (onDrop : List Destructor) : Sys W :=
  { s with
    tasks := Function.update s.tasks i (some (.spawned key onDrop))
    active := s.active.insertIdx pos (key, i) }

/-- The task `i` is now `t'`. -/
def put (s : Sys W) (i : TaskId) (t t' : Task) : Sys W :=
  { s with
    tasks := Function.update s.tasks i (some t')
    active := if t.guard t' then tryRemove s.active t.key else s.active }

/-- The Runnable of `i` is run. -/
def start (s : Sys W) (i : TaskId) : Sys W :=
  match s.tasks i with
  | some t => { s.put i t t.start with running := i :: s.running }
  | none => s

/-- The Runnable of `i` is dropped. -/
def lose (s : Sys W) (i : TaskId) : Sys W :=
  match s.tasks i with
  | some t => s.put i t t.lose
  | none => s

/-- A step of the tickers: the Runnables it took out are run, those it
dropped are lost. -/
def advance (s : Sys W) (sched : Executor.Sys TaskId W) : Sys W :=
  let ran := sched.ranLocal.drop s.sched.ranLocal.length ++
    sched.ranMain.drop s.sched.ranMain.length
  let lost := sched.dropped.drop s.sched.dropped.length
  lost.foldl lose (ran.foldl start { s with sched })

variable [WillWake W]

/-- The task `i` calls the scheduler function, if `call` says so. -/
def schedule (s : Sys W) (id : Option Nat) (i : TaskId) (call : Bool) : Option (Sys W) :=
  if call then (s.sched.next (.schedule id i)).map fun sched => { s with sched }
  else some s

def next (s : Sys W) : Label W → Option (Sys W)
  | .tick l =>
      if isTick l then (s.sched.next l).map s.advance else none
  | .spawn i key pos onDrop id =>
      if s.sched.Free ∧ s.tasks i = none ∧ key ∉ s.active.map Prod.fst ∧
        pos ≤ s.active.length then
        (s.insert i key pos onDrop).schedule id i true
      else none
  | .wake i id =>
      match s.tasks i with
      | some t => if t.wakers then (s.put i t t.wake.1).schedule id i t.wake.2 else none
      | none => none
  | .cancel i id =>
      match s.tasks i with
      | some t => if t.detached then none else (s.put i t t.cancel.1).schedule id i t.cancel.2
      | none => none
  | .detach i =>
      match s.tasks i with
      | some t => if t.detached then none else some (s.put i t { t with detached := true })
      | none => none
  | .wakers i held =>
      match s.tasks i with
      | some t =>
          if t.wakers ∨ t.running then some (s.put i t { t with wakers := held }) else none
      | none => none
  | .ret ready onDrop id =>
      match s.running with
      | i :: running =>
          match s.tasks i with
          | some t =>
              let out := t.finish ready onDrop
              (({ s with running }.put i t out.1).schedule id i out.2).bind fun s =>
                (s.sched.next .ret).map fun sched => { s with sched }
          | none => none
      | [] => none

end Sys

/-- Every run of an executor whose origin thread is `id`. -/
def system [WillWake W] (id : Option Nat) : System (Sys W) (Label W) :=
  .ofNext (· = .init id) Sys.next

end Tasks

end Unsend

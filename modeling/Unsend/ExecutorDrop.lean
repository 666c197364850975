import Unsend.TaskCustody

/-!
# Dropping the executor

The model of `Executor::drop`. `thread_state` is a `RefCell`, and what
`drop` drops runs code that borrows it again: the scheduler function of a
task that is woken or cancelled or loses its last reference, and the
guard of a future that was polled. Every operation here is told whether an
outer borrow is held where it runs, and stops with the `BorrowMutError`
the source would panic with.

Nobody else uses the executor any more: it has no `run()` and `tick()`
futures, and no call is in progress. Nobody has left a waker in
`mainstream_waker` either (`mainstreamWaker_unused`), so that a push to
the mainstream queue wakes nobody.
-/

namespace Unsend

namespace Tasks

namespace Destructor

def task : Destructor → TaskId
  | wake i | cancel i | detach i | dropWaker i => i

/-- What the task does: its wakers in `active` are gone when the first
future is dropped. -/
def op : Destructor → Task → Task × Bool
  | wake _, t => t.wake
  | cancel _, t => t.cancel
  | detach _, t => { t with detached := true }.dropWaker
  | dropWaker _, t => { t with wakers := false }.dropWaker

end Destructor

/-- `already borrowed`. -/
structure BorrowMutError where
  deriving DecidableEq

/-- What `Executor::drop` works on: the state, the tasks, and the tasks
whose wakers in `active` it has woken. -/
structure Core (W : Type) where
  state : Executor.State TaskId W
  tasks : TaskId → Option Task
  active : List (Nat × TaskId)
  woken : List TaskId

namespace Core

variable {W : Type}

def localQueue (c : Core W) : List TaskId := c.state.threadState.taskQueue

def mainQueue (c : Core W) : List TaskId := c.state.taskQueue

def setLocal (c : Core W) (queue : List TaskId) : Core W :=
  { c with
    state := { c.state with threadState := { c.state.threadState with taskQueue := queue } } }

def setMain (c : Core W) (queue : List TaskId) : Core W :=
  { c with state := { c.state with taskQueue := queue } }

def setTask (c : Core W) (i : TaskId) (t : Task) : Core W :=
  { c with tasks := Function.update c.tasks i (some t) }

variable (id : Option Nat) (borrowed : Bool)

/-- The scheduler function is called where `thread_id.id()` is `id`. -/
def schedule (c : Core W) (i : TaskId) : Except BorrowMutError (Core W) :=
  if c.state.isOrigin id then
    if borrowed then .error {}
    else .ok { c with state := { c.state with threadState := (c.state.threadState.schedule i).1 } }
  else .ok { c.setMain (c.mainQueue ++ [i]) with
    state := (c.setMain (c.mainQueue ++ [i])).state.takeWaker }

/-- A waker or the handle of the task is woken or dropped. -/
def operate (op : Task → Task × Bool) (c : Core W) (i : TaskId) :
    Except BorrowMutError (Core W) :=
  match c.tasks i with
  | some t =>
      if (op t).2 then (c.setTask i (op t).1).schedule id borrowed i
      else .ok (c.setTask i (op t).1)
  | none => .ok c

def operateAll (c : Core W) :
    List (TaskId × (Task → Task × Bool)) → Except BorrowMutError (Core W)
  | [] => .ok c
  | (i, op) :: ops => do
      let c ← c.operate id borrowed op i
      operateAll c ops

/-- A Runnable is dropped, and with it the future of its task: first what
the future owns, then its guard. -/
def dropRunnable (c : Core W) (i : TaskId) : Except BorrowMutError (Core W) :=
  match c.tasks i with
  | some t => do
      let onDrop := if t.future = .gone then [] else t.onDrop
      let c ← (c.setTask i t.lose).operateAll id borrowed (onDrop.map fun d => (d.task, d.op))
      if t.guard t.lose then
        if borrowed then .error {} else .ok { c with active := tryRemove c.active t.key }
      else .ok c
  | none => .ok c

/-- The Runnables that are left in the local queue are dropped with it. -/
def dropLocal (c : Core W) : List TaskId → Except BorrowMutError (Core W)
  | [] => .ok c
  | i :: is => do
      let c ← (c.setLocal is).dropRunnable id true i
      dropLocal c is

/-- Wake all tasks. A round takes the first waker out of the slab, drops
the others with the `Drain`, and releases the borrow before the wake. -/
def wakeTasks : Nat → Core W → Except BorrowMutError (Option (Core W))
  | 0, _ => .ok none
  | n + 1, c =>
      match c.active with
      | [] => .ok (some c)
      | x :: rest => do
          let c ← { c with active := [] }.operateAll id true
            ((rest.map Prod.snd).map (·, Task.dropWaker))
          let c ← c.operate id false Task.wake x.2
          wakeTasks n { c with woken := c.woken ++ [x.2] }

/-- Drain the queues. The Runnable of the mainstream queue is dropped when
its operand of `&&` is done, that of the local queue before the borrow it
was popped with. -/
def drainQueues : Nat → Core W → Except BorrowMutError (Option (Core W))
  | 0, _ => .ok none
  | n + 1, c =>
      match c.mainQueue with
      | [] => .ok (some c)
      | i :: rest => do
          let c ← (c.setMain rest).dropRunnable id false i
          match c.localQueue with
          | [] => .ok (some c)
          | j :: rest => do
              let c ← (c.setLocal rest).dropRunnable id true j
              drainQueues n c

/-- Destroy the thread state, while it is borrowed. -/
def destroy (c : Core W) : Except BorrowMutError (Core W) := do
  let c ← c.dropLocal id c.localQueue
  { c with active := [] }.operateAll id true ((c.active.map Prod.snd).map (·, Task.dropWaker))

/-- The queues and the thread state. -/
def clear (n : Nat) (c : Core W) : Except BorrowMutError (Option (Core W)) := do
  match ← c.drainQueues id n with
  | some c => do
      let c ← c.destroy id
      .ok (some c)
  | none => .ok none

/-- `Executor::drop`, its two loops taking at most `n` rounds each. -/
def drop (n : Nat) (c : Core W) : Except BorrowMutError (Option (Core W)) := do
  match ← c.wakeTasks id n with
  | some c => c.clear id n
  | none => .ok none

end Core

namespace Sys

variable {W : Type}

/-- The executor can be dropped: nobody borrows it. -/
def Unused (s : Sys W) : Prop :=
  (∀ k, s.sched.tickers k = none) ∧ s.sched.stack = [] ∧ s.running = []

def core (s : Sys W) : Core W := ⟨s.sched.state, s.tasks, s.active, []⟩

/-- `Executor::drop` returns, every waker in `active` has been woken, and
no task has its future any more. -/
def CancelsAll (s : Sys W) (id : Option Nat) : Prop :=
  ∃ n c, s.core.drop id n = .ok (some c) ∧ (∀ x ∈ s.active, x.2 ∈ c.woken) ∧
    ∀ i t, c.tasks i = some t → t.future = .gone

end Sys

end Tasks

end Unsend

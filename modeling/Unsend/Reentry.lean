import Unsend.ActiveTasks
import Unsend.ExecutorDrop

/-!
# Waking under a borrow

The executor with its tasks, in which a waker that is woken runs. The
waker of a `tick()` or `run()` future that is polled by a task of the same
executor is the waker of that task: woken while the task is idle, it calls
the scheduler function.

`schedule`, `tick`, `try_tick` and the drop of a `Ticker` notify
`thread_waker` while they hold the borrow of `thread_state`, and a
notification wakes while it holds the borrow of the event. The scheduler
function, called on the origin thread, borrows both: first `thread_state`,
then the event. So whatever calls it from there stops, with the error the
source would panic with, and no chain of wakes goes further. What is woken
through `mainstream_waker` is woken without a borrow.

The drop of a listener passes its notification on, or drops the Runnable
it holds, while it holds the borrow of the event alone. The destructors of
the future that is dropped then are any code: they are steps like others,
between the step that drops the listener and the one that goes on with the
drop of the ticker. Meanwhile whatever uses the event stops.

The steps are those of `Tasks.system`; here each is told what the ID of
its thread is, which a scheduler that a waker calls looks at. Wakers that
are not those of a task of this executor do nothing to it.
-/

namespace Unsend

namespace Reentry

open Tasks (TaskId Task BorrowMutError)

/-- A waker that a `tick()` or `run()` future is polled with. -/
inductive TaskWaker where
  | task (i : TaskId)
  | other (n : Nat)
  deriving DecidableEq

instance : WillWake TaskWaker := ⟨fun w w' => decide (w = w')⟩

inductive Label where
  | task (l : Tasks.Label TaskWaker)
  | tick (id : Option Nat) (l : Executor.Label TaskId TaskWaker)
  /-- The future at `k` is dropped, up to the Runnable that its listener
  holds. -/
  | drop (id : Option Nat) (k : Ptr)
  /-- The Runnable has been dropped, and the ticker is dropped. -/
  | dropped (id : Option Nat)

/-- What `thread_id.id()` says where a task calls the scheduler function. -/
def threadOf : Tasks.Label TaskWaker → Option Nat
  | .spawn _ _ _ _ id | .wake _ id | .cancel _ id | .ret _ _ id => id
  | _ => none

abbrev Sys := Tasks.Sys TaskWaker

/-- A Runnable is being dropped with the listener that holds it. -/
structure Dropping where
  /-- The ticker of the listener, which is dropped next. -/
  ticker : Executor.Ticker
  /-- How many calls were in progress when this began. -/
  depth : Nat
  /-- The key of the guard of the future that is dropped, if it was polled. -/
  guard : Option Nat

structure State where
  sys : Sys
  dropping : Option Dropping

abbrev Outcome := Except BorrowMutError Sys

abbrev Result := Except BorrowMutError State

/-! ## Wakers that run -/

namespace Sys

/-- One after the other. -/
def each {α : Type} (f : Sys → α → Outcome) : List α → Sys → Outcome
  | [], s => .ok s
  | x :: xs, s => do
      let s ← f s x
      each f xs s

/-- A push to the mainstream queue, with the wake that follows it. -/
def pushNow (s : Sys) (i : TaskId) : Sys :=
  { s with
    sched := { (s.sched.push i).wakeMain with pendingWakes := s.sched.pendingWakes } }

/-- The scheduler function is called off the origin thread. The waker it
wakes may call it again, and finds no other one then. -/
def callMain (s : Sys) (i : TaskId) : Sys :=
  match s.sched.state.mainstreamWaker with
  | some (.task j) =>
      match s.tasks j with
      | some t =>
          let s := (s.pushNow i).put j t t.wake.1
          if t.wake.2 then pushNow s j else s
      | none => s.pushNow i
  | _ => s.pushNow i

variable (id : Option Nat)

/-- A waker is woken where the event is borrowed. -/
def wakeHeld (s : Sys) : TaskWaker → Outcome
  | .task i =>
      match s.tasks i with
      | some t =>
          let s := s.put i t t.wake.1
          if t.wake.2 then
            if s.sched.state.isOrigin id then .error {} else .ok (callMain s i)
          else .ok s
      | none => .ok s
  | .other _ => .ok s

/-- The wakers that were woken between two states. -/
def wokenSince (s : Sys) (sched : Executor.Sys TaskId TaskWaker) : List TaskWaker :=
  sched.woken.drop s.sched.woken.length

/-- The scheduler function is called where nothing is borrowed. -/
def call (s : Sys) (i : TaskId) : Outcome :=
  if s.sched.state.isOrigin id then
    let sched := s.sched.schedule i
    each (wakeHeld id) (s.wokenSince sched) { s with sched }
  else .ok { s with sched := s.sched.push i }

/-- A waker is woken where nothing is borrowed. -/
def wakeFree (s : Sys) : TaskWaker → Outcome
  | .task i =>
      match s.tasks i with
      | some t =>
          let s := s.put i t t.wake.1
          if t.wake.2 then call id s i else .ok s
      | none => .ok s
  | .other _ => .ok s

/-! ## Steps of the tasks and the tickers -/

/-- A step of a task, and the wakers that its call of the scheduler
function wakes. That call stops if the event is `held`. -/
def task (held : Bool) (s : Sys) (l : Tasks.Label TaskWaker) : Option Outcome :=
  (s.next l).map fun s' =>
    if held ∧ s.sched.scheduledLocal.length < s'.sched.scheduledLocal.length then .error {}
    else each (wakeHeld (threadOf l)) (s.wokenSince s'.sched) s'

/-- The step wakes the mainstream waker, which nothing is borrowed for. -/
def wakesMain (s : Sys) : Executor.Label TaskId TaskWaker → Bool
  | .wake => true
  | .step =>
      match s.sched.stack with
      | .tryTick .wake :: _ => true
      | _ => false
  | _ => false

/-- The innermost call has popped a Runnable from the mainstream queue, and
wakes or takes the mainstream waker before it runs it. -/
def holds (s : Executor.Sys TaskId TaskWaker) : Bool :=
  match s.stack with
  | .ticker k _ :: _ => (s.tickers k).any (·.pc = .mainTake)
  | .tryTick pc :: _ => pc = .wake
  | [] => false

/-- The Runnables that are run after the step between two states. -/
def begun (old sched : Executor.Sys TaskId TaskWaker) : List TaskId :=
  if holds sched then []
  else if holds old then sched.ranMain.getLast?.toList
  else sched.ranLocal.drop old.ranLocal.length ++ sched.ranMain.drop old.ranMain.length

/-- The ticker notifies, polls its listener or drops it from the list. -/
def usesEvent (t : Executor.Ticker) (k : Ptr) (s : Executor.State TaskId TaskWaker) : Bool :=
  match t.pc with
  | .loopHead => !s.threadState.taskQueue.isEmpty
  | .listen | .pollOnce => true
  | .finish => k ∈ s.queue.ids ∨ t.oneShot ∧ t.isMainstream
  | _ => false

/-- The step of `try_tick` or of a ticker uses the event. -/
def tickUses (s : Executor.Sys TaskId TaskWaker) : Executor.Label TaskId TaskWaker → Bool
  | .tryTick => !s.state.threadState.taskQueue.isEmpty
  | .step =>
      match s.stack with
      | .ticker k _ :: _ => (s.tickers k).any fun t => usesEvent t k s.state
      | _ => false
  | _ => false

/-- A step of the tickers and of `try_tick`: the wakers are woken before
the Runnable is run. -/
def tick (held : Bool) (s : Sys) (l : Executor.Label TaskId TaskWaker) : Option Outcome :=
  (s.sched.next l).map fun sched =>
    if held ∧ tickUses s.sched l then .error {}
    else do
      let wake :=
        if s.wakesMain l ∧ ¬ (held ∧ s.sched.state.isOrigin id) then wakeFree id
        else wakeHeld id
      let s' ← each wake (s.wokenSince sched) { s with sched }
      .ok ((begun s.sched sched).foldl Tasks.Sys.start s')

/-! ## The drop of a ticker -/

/-- The listener at `k` is dropped, and its ticker is not there any more. -/
def dropListener (k : Ptr) (s : Executor.State TaskId TaskWaker) :
    Executor.TickOut TaskId TaskWaker :=
  let out := s.threadState.threadWaker.drop k
  ⟨{ s with threadState := { s.threadState with threadWaker := out.event } },
    none, [], [], out.woken, out.discarded.join⟩

/-- `Ticker::drop`. -/
def release (s : Sys) (t : Executor.Ticker) : Outcome :=
  let out := t.drop s.sched.state
  each (wakeHeld id) out.2
    { s with sched := { s.sched with state := out.1, woken := s.sched.woken ++ out.2 } }

/-- The drop of the Runnable begins. -/
def discard (s : Sys) (t : Executor.Ticker) (runnable : TaskId) : State :=
  match s.tasks runnable with
  | some u =>
      ⟨{ s with tasks := Function.update s.tasks runnable (some u.lose) },
        some ⟨t, s.sched.stack.length, if u.guard u.lose then some u.key else none⟩⟩
  | none => ⟨s, some ⟨t, s.sched.stack.length, none⟩⟩

/-- The future at `k` is dropped: first its listener, then the ticker. -/
def drop (s : Sys) (k : Ptr) : Option Result :=
  match s.sched.tickers k with
  | some t =>
      if s.sched.Free ∧ t.pc.active = false then
        let out := dropListener k s.sched.state
        some do
          let s ← each (wakeHeld id) out.woken
            { s with sched := s.sched.settle k s.sched.stack out }
          match out.dropped with
          | some runnable => .ok (discard s t runnable)
          | none => do
              let s ← release id s t
              .ok ⟨s, none⟩
      else none
  | none => none

/-- The future at `k` is dropped where the event is borrowed. -/
def dropHeld (s : Sys) (k : Ptr) : Option Outcome :=
  (s.sched.next (.drop k)).map fun sched =>
    if k ∈ s.sched.state.queue.ids ∨ (s.sched.tickers k).any (·.isMainstream) then .error {}
    else .ok { s with sched }

end Sys

/-! ## Steps -/

namespace State

/-- The event is borrowed. -/
def held (s : State) : Bool := s.dropping.isSome

/-- The Runnable that runs innermost was running before the other one was
dropped, and does not return before that is done. -/
def waits (s : State) : Tasks.Label TaskWaker → Bool
  | .ret _ _ _ => s.dropping.any fun d => s.sys.sched.stack.length = d.depth
  | _ => false

/-- What is left of a step that neither begins nor ends a drop. -/
def after (s : State) (x : Outcome) : Result := x.map fun sys => { s with sys }

/-- The guard of the future that was dropped, then `Ticker::drop`. -/
def finish (s : State) (id : Option Nat) (d : Dropping) : Result := do
  let active := match d.guard with
    | some key => Tasks.tryRemove s.sys.active key
    | none => s.sys.active
  let sys ← Sys.release id { s.sys with active } d.ticker
  .ok ⟨sys, none⟩

/-- A scheduler on another thread wakes the mainstream waker itself. -/
def step (s : State) : Label → Option Result
  | .task (.tick _) => none
  | .task l => if s.waits l then none else (s.sys.task s.held l).map s.after
  | .tick _ (.schedule _ _) | .tick _ .ret | .tick _ (.drop _) => none
  | .tick id .wake =>
      if s.sys.sched.state.isOrigin id then none else (s.sys.tick id s.held .wake).map s.after
  | .tick id l => (s.sys.tick id s.held l).map s.after
  | .drop id k =>
      match s.dropping with
      | none => s.sys.drop id k
      | some _ => (s.sys.dropHeld k).map s.after
  | .dropped id =>
      match s.dropping with
      | some d =>
          if s.sys.sched.Free ∧ s.sys.sched.stack.length = d.depth then some (s.finish id d)
          else none
      | none => none

end State

/-- After an error there is no step. -/
def next : Result → Label → Option Result
  | .ok s, l => s.step l
  | .error _, _ => none

/-- Every run of an executor whose origin thread is `id`, up to the first
error. -/
def system (id : Option Nat) : System Result Label := .ofNext (· = .ok ⟨.init id, none⟩) next

/-! ## When a wake re-enters -/

namespace Sys

/-- The task waits for a wake-up: woken or cancelled, it calls the
scheduler function. -/
def Idle (s : Sys) (i : TaskId) : Prop :=
  ∃ t, s.tasks i = some t ∧ t.idle = true ∧ t.closed = false

/-- A waker of an idle task of this executor. -/
def Rouses (s : Sys) : TaskWaker → Prop
  | .task i => s.Idle i
  | .other _ => False

/-- The scheduler function, called for the task `i`, hands the Runnable
to nobody who was polled by another task that is idle. -/
def Quiet (s : Sys) (i : TaskId) : Prop :=
  ∀ w ∈ s.sched.state.queue.nextWoken, w ≠ .task i → ¬ s.Rouses w

/-- The step calls the scheduler function for the task `i`. -/
def Schedules (s : Sys) (i : TaskId) : Tasks.Label TaskWaker → Prop
  | .spawn j _ _ _ _ => j = i
  | .wake j _ | .cancel j _ => j = i ∧ s.Idle i
  | .ret ready _ _ => s.running.head? = some i ∧ ready = false ∧
      ∃ t, s.tasks i = some t ∧ t.running = true ∧ t.closed = false ∧ t.scheduled = true
  | _ => False

/-- The innermost call takes a step. A ticker wakes up another runner before
it runs the Runnable it has popped, and when it is dropped as the mainstream
runner; it also uses the event when it polls its listener and drops it from
the list. `try_tick` wakes the mainstream runner. -/
def KeepsTop (s : Sys) (id : Option Nat) (held : Bool) : List (Executor.Frame TaskWaker) → Prop
  | .ticker k _ :: _ => ∀ t, s.sched.tickers k = some t →
      match t.pc with
      | .loopHead => s.sched.state.threadState.taskQueue ≠ [] →
          held = false ∧ (s.sched.state.isOrigin id = true →
            ∀ w ∈ s.sched.state.queue.nextWoken, ¬ s.Rouses w)
      | .listen | .pollOnce => held = false
      | .finish => (k ∈ s.sched.state.queue.ids → held = false) ∧
          (t.oneShot = true → t.isMainstream = true →
            held = false ∧ (s.sched.state.isOrigin id = true →
              ∀ w ∈ (s.sched.state.queue.erase k).nextWoken, ¬ s.Rouses w))
      | _ => True
  | .tryTick .wake :: _ => s.sched.state.isOrigin id = true →
      ∀ i, s.sched.state.mainstreamWaker = some (.task i) → s.Idle i →
        held = false ∧ s.Quiet i
  | _ => True

def KeepsTick (s : Sys) (id : Option Nat) (held : Bool) :
    Executor.Label TaskId TaskWaker → Prop
  | .tryTick => s.sched.state.threadState.taskQueue ≠ [] →
      held = false ∧ (s.sched.state.isOrigin id = true →
        ∀ w ∈ s.sched.state.queue.nextWoken, ¬ s.Rouses w)
  | .step => s.KeepsTop id held s.sched.stack
  | _ => True

end Sys

/-- Whoever the step wakes under a borrow does not call the scheduler
function on the origin thread, and nothing uses the event while a Runnable
is dropped under its borrow. -/
def State.KeepsBorrows (s : State) : Label → Prop
  | .task l => ∀ i, s.sys.Schedules i l → s.sys.sched.state.isOrigin (threadOf l) = true →
      s.held = false ∧ s.sys.Quiet i
  | .tick id l => s.sys.KeepsTick id s.held l
  | .drop id k => ∀ t, s.sys.sched.tickers k = some t →
      (k ∈ s.sys.sched.state.queue.ids ∨ t.isMainstream = true → s.held = false) ∧
      (s.sys.sched.state.isOrigin id = true →
        (t.isMainstream = true ∨
          ∃ tag b, s.sys.sched.state.queue.stateOf k = some (.notified tag b)) →
        ∀ w ∈ (s.sys.sched.state.queue.erase k).nextWoken, ¬ s.sys.Rouses w)
  | .dropped id => ∀ d, s.dropping = some d → d.ticker.isMainstream = true →
      s.sys.sched.state.isOrigin id = true →
      ∀ w ∈ s.sys.sched.state.queue.nextWoken, ¬ s.sys.Rouses w

end Reentry

end Unsend

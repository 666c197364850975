import Unsend.EventHandOver
import Unsend.Runs

/-!
# The scheduling half of the executor

The model of `Executor::schedule`, `try_tick`, `tick` and `run` in
`executor.rs`: a thread-local and a mainstream queue of Runnables, an
event through which a Runnable may be handed directly to a ticker that
waits, and the mainstream role, whose owner also listens to the other
threads.

The tickers run on the origin thread. Running a Runnable runs any code
of that thread - more schedules, polls and drops of other tickers,
`try_tick` - so the polls in progress form a stack, and such code runs
when the stack is empty or its top frame runs a Runnable. Schedules from
other threads, and the wakes that follow them, happen between any two
steps; that is why the atomic operations of `Ticker::tick` on the
mainstream queue and waker are steps of their own.

A Runnable is its task's name or anything else that tells Runnables
apart; a step that takes one out of a queue or a tag in order to run it
logs it. The wakers of the tickers are the callers' own: waking one is
logged, and does not itself run code of this executor.
-/

namespace Unsend

namespace Executor

variable {R W : Type}

/-- The fields of `ThreadState` that scheduling uses. -/
structure ThreadState (R W : Type) where
  /-- Thread-local queue of tasks. -/
  taskQueue : List R
  /-- Waker for the thread-local queue. -/
  threadWaker : Event (Option R) W
  /-- Is someone listening to the mainstream queue? -/
  isMainstreamListening : Bool

structure State (R W : Type) where
  /-- Mainstream queue of tasks. -/
  taskQueue : List R
  /-- Waker for the mainstream queue. -/
  mainstreamWaker : Option W
  /-- The thread ID of the origin thread. -/
  originThread : Option Nat
  threadState : ThreadState R W

/-- `Executor::with_thread_id`, `id` being what `thread_id.id()` says. -/
def State.new (id : Option Nat) : State R W := ⟨[], none, id, [], .new, false⟩

namespace ThreadState

/-- The origin thread's branch of the scheduler function. -/
def schedule (ts : ThreadState R W) (runnable : R) : ThreadState R W × List W :=
  -- Try to send the runnable directly.
  let out := ts.threadWaker.notify handOver (some runnable)
  match out.producer with
  | some runnable =>
      ({ ts with threadWaker := out.event, taskQueue := ts.taskQueue ++ [runnable] }, out.woken)
  | none => ({ ts with threadWaker := out.event }, out.woken)

/-- Wake up another runner. -/
def wakeRunner (ts : ThreadState R W) : ThreadState R W × List W :=
  let out := ts.threadWaker.notify wakeOne ()
  ({ ts with threadWaker := out.event }, out.woken)

end ThreadState

namespace State

def queue (s : State R W) : Queue (Option R) W := s.threadState.threadWaker.queue

theorem nodup (s : State R W) : s.queue.ids.Nodup := s.threadState.threadWaker.nodup

/-- Is the scheduler function called on the origin thread, as far as the
thread IDs tell? -/
def isOrigin (s : State R W) (id : Option Nat) : Bool :=
  match s.originThread, id with
  | some originId, some ourId => originId == ourId
  | _, _ => false

/-- `self.mainstream_waker.take()`; `wake` also wakes what it takes. -/
def takeWaker (s : State R W) : State R W := { s with mainstreamWaker := none }

end State

/-! ## Tickers -/

/-- Where a `tick()` future, or the `tick()` inside a `run()` future, is. -/
inductive Pc where
  /-- The future has not been polled. -/
  | fresh
  /-- At the top of the loop. -/
  | loopHead
  /-- Polling the listener. -/
  | listen
  /-- Popping from the mainstream queue. -/
  | mainPop
  /-- Registering the waker for the mainstream queue. -/
  | mainRegister
  /-- Popping again. -/
  | mainPopAgain
  /-- Removing the waker, after the second pop took a Runnable. -/
  | mainTake
  /-- The future is suspended. -/
  | parked
  /-- Running a Runnable of the thread-local queue. -/
  | runPopped
  /-- Running a Runnable that the wait came back with. -/
  | runAwaited
  /-- Polling the listener once more. -/
  | pollOnce
  /-- Running the Runnable that this poll came back with. -/
  | runLast
  /-- `tick` is about to return. -/
  | finish
  deriving DecidableEq

namespace Pc

/-- A Runnable is running. -/
def running : Pc → Bool
  | runPopped | runAwaited | runLast => true
  | _ => false

/-- The future is being polled. -/
def active : Pc → Bool
  | fresh | parked => false
  | _ => true

end Pc

/-- A `Ticker`: it belongs to a `tick()` future, which returns after one
tick, or to a `run()` future, which ticks again. -/
structure Ticker where
  oneShot : Bool
  /-- Are we the mainstream runner? -/
  isMainstream : Bool
  pc : Pc
  deriving DecidableEq

/-- What a step of a ticker leaves behind: no ticker if its future is
done, the Runnables it took out of the thread-local queue or the
listener and of the mainstream queue in order to run them, the wakers it
woke and the Runnable that was dropped. -/
structure TickOut (R W : Type) where
  state : State R W
  ticker : Option Ticker
  tookLocal : List R
  tookMain : List R
  woken : List W
  dropped : Option R

namespace Ticker

/-- A step that only moves on. -/
def goto (t : Ticker) (s : State R W) (pc : Pc) : TickOut R W :=
  ⟨s, some { t with pc }, [], [], [], none⟩

/-- `Ticker::drop`. -/
def drop (t : Ticker) (s : State R W) : State R W × List W :=
  if t.isMainstream then
    let s := s.takeWaker
    let ts := { s.threadState with isMainstreamListening := false }
    let out := ts.wakeRunner
    ({ s with threadState := out.1 }, out.2)
  else (s, [])

/-- The listener at `k` is dropped, and the ticker ticks again. -/
def again (t : Ticker) (k : Ptr) (s : State R W) : TickOut R W :=
  let out := s.threadState.threadWaker.drop k
  ⟨{ s with threadState := { s.threadState with threadWaker := out.event } },
    some { t with pc := .loopHead }, [], [], out.woken, out.discarded.join⟩

/-- The listener at `k` is dropped, and the ticker with it. -/
def dropFuture (t : Ticker) (k : Ptr) (s : State R W) : TickOut R W :=
  let out := s.threadState.threadWaker.drop k
  let s := { s with threadState := { s.threadState with threadWaker := out.event } }
  let last := t.drop s
  ⟨last.1, none, [], [], out.woken ++ last.2, out.discarded.join⟩

/-- The top of the loop of `tick`. -/
def loopHead (t : Ticker) (s : State R W) : TickOut R W :=
  match s.threadState.taskQueue with
  | runnable :: rest =>
      let out := { s.threadState with taskQueue := rest }.wakeRunner
      ⟨{ s with threadState := out.1 }, some { t with pc := .runPopped }, [runnable], [],
        out.2, none⟩
  | [] =>
      if s.threadState.isMainstreamListening then t.goto s .listen
      else
        { t with isMainstream := true }.goto
          { s with threadState := { s.threadState with isMainstreamListening := true } } .listen

section Poll

variable [WillWake W]

/-- Poll the listener, in the wait or by `poll_once`: a Runnable is run at
`run`, `None` leads to `other` and `Pending` to `wait`. -/
def pollListener (t : Ticker) (k : Ptr) (cx : W) (s : State R W) (run other wait : Pc) :
    TickOut R W :=
  let out := s.threadState.threadWaker.poll k cx
  let s := { s with threadState := { s.threadState with threadWaker := out.1 } }
  match out.2 with
  | .ready (some runnable) => ⟨s, some { t with pc := run }, [runnable], [], [], none⟩
  | .ready none => t.goto s other
  | .pending => t.goto s wait

/-- Pop from the mainstream queue: a Runnable leads to `found`. -/
def popMain (t : Ticker) (s : State R W) (found empty : Pc) : TickOut R W :=
  match s.taskQueue with
  | runnable :: rest =>
      ⟨{ s with taskQueue := rest }, some { t with pc := found }, [], [runnable], [], none⟩
  | [] => t.goto s empty

/-- One step of the poll of the future at `k`, whose waker is `cx`. There
is none while a Runnable runs or the future is not being polled. -/
def step (t : Ticker) (k : Ptr) (cx : W) (s : State R W) : Option (TickOut R W) :=
  match t.pc with
  | .loopHead => some (t.loopHead s)
  | .listen =>
      -- If we are the mainstream, wait in tandem.
      some (t.pollListener k cx s .runAwaited .loopHead
        (if t.isMainstream then .mainPop else .parked))
  | .mainPop => some (t.popMain s .runAwaited .mainRegister)
  | .mainRegister => some (t.goto { s with mainstreamWaker := some cx } .mainPopAgain)
  | .mainPopAgain => some (t.popMain s .mainTake .parked)
  | .mainTake => some (t.goto s.takeWaker .runAwaited)
  | .pollOnce => some (t.pollListener k cx s .runLast .finish .finish)
  | .finish =>
      some (if t.oneShot then t.dropFuture k s else t.again k s)
  | _ => none

end Poll

/-- Where a ticker goes on once its Runnable has returned. -/
def afterRun (t : Ticker) : Ticker :=
  { t with pc := match t.pc with
      | .runAwaited => .pollOnce
      | _ => .finish }

end Ticker

/-! ## The executor and its callers -/

/-- Where a call of `try_tick` is, once its pop from the thread-local
queue is done. -/
inductive TryPc where
  | popMain
  /-- The mainstream runner is woken up. -/
  | wake
  | running
  deriving DecidableEq

/-- A call in progress on the origin thread. -/
inductive Frame (W : Type) where
  /-- The future at `k` is being polled with the waker `cx`. -/
  | ticker (k : Ptr) (cx : W)
  | tryTick (pc : TryPc)

namespace Frame

/-- The future that is being polled. -/
def key : Frame W → Option Ptr
  | ticker k _ => some k
  | tryTick _ => none

/-- The call runs a Runnable. -/
def Runs (tickers : Ptr → Option Ticker) : Frame W → Prop
  | ticker k _ => (tickers k).any (·.pc.running) = true
  | tryTick pc => pc = .running

instance (tickers : Ptr → Option Ticker) (f : Frame W) : Decidable (f.Runs tickers) :=
  match f with
  | ticker k _ => inferInstanceAs (Decidable ((tickers k).any (·.pc.running) = true))
  | tryTick pc => inferInstanceAs (Decidable (pc = .running))

end Frame

/-- An executor with its `tick()` and `run()` futures, the calls in
progress, innermost first, and the number of schedulers that have pushed
to the mainstream queue and not yet woken its waker. -/
structure Sys (R W : Type) where
  state : State R W
  tickers : Ptr → Option Ticker
  stack : List (Frame W)
  pendingWakes : Nat
  /-- The Runnables scheduled on the origin thread. -/
  scheduledLocal : List R
  /-- The Runnables pushed to the mainstream queue. -/
  scheduledMain : List R
  ranLocal : List R
  ranMain : List R
  /-- The Runnables that were dropped without being run. -/
  dropped : List R
  woken : List W

inductive Label (R W : Type) where
  /-- The scheduler function is called where `thread_id.id()` is `id`. -/
  | schedule (id : Option Nat) (runnable : R)
  /-- A scheduler that has pushed wakes the mainstream waker. -/
  | wake
  /-- `tick()` or `run()` is called; the future is at `k`. -/
  | create (k : Ptr) (oneShot : Bool)
  | poll (k : Ptr) (waker : W)
  /-- The future is dropped; a `run()` future also when its main future is
  done. -/
  | drop (k : Ptr)
  | tryTick
  /-- The innermost call takes a step. -/
  | step
  /-- The Runnable that the innermost call runs returns. -/
  | ret

namespace Sys

def init (id : Option Nat) : Sys R W := ⟨.new id, fun _ => none, [], 0, [], [], [], [], [], []⟩

/-- The origin thread runs code of its own. -/
def Free (s : Sys R W) : Prop := ∀ f ∈ s.stack.head?, f.Runs s.tickers

instance (s : Sys R W) : Decidable s.Free :=
  inferInstanceAs (Decidable (∀ f ∈ s.stack.head?, f.Runs s.tickers))

def schedule (s : Sys R W) (runnable : R) : Sys R W :=
  let out := s.state.threadState.schedule runnable
  { s with
    state := { s.state with threadState := out.1 }
    scheduledLocal := s.scheduledLocal ++ [runnable]
    woken := s.woken ++ out.2 }

def push (s : Sys R W) (runnable : R) : Sys R W :=
  { s with
    state := { s.state with taskQueue := s.state.taskQueue ++ [runnable] }
    scheduledMain := s.scheduledMain ++ [runnable]
    pendingWakes := s.pendingWakes + 1 }

/-- `self.mainstream_waker.wake()`. -/
def wakeMain (s : Sys R W) : Sys R W :=
  { s with
    state := s.state.takeWaker
    woken := s.woken ++ s.state.mainstreamWaker.toList }

/-- `try_tick` up to its pop from the thread-local queue. -/
def tryTick (s : Sys R W) : Sys R W :=
  match s.state.threadState.taskQueue with
  | runnable :: rest =>
      let out := { s.state.threadState with taskQueue := rest }.wakeRunner
      { s with
        state := { s.state with threadState := out.1 }
        stack := .tryTick .running :: s.stack
        ranLocal := s.ranLocal ++ [runnable]
        woken := s.woken ++ out.2 }
  | [] => { s with stack := .tryTick .popMain :: s.stack }

/-- What is left of a step of the ticker at `k`. -/
def settle (s : Sys R W) (k : Ptr) (stack : List (Frame W)) (out : TickOut R W) : Sys R W :=
  { s with
    state := out.state
    tickers := Function.update s.tickers k out.ticker
    stack := stack
    ranLocal := s.ranLocal ++ out.tookLocal
    ranMain := s.ranMain ++ out.tookMain
    dropped := s.dropped ++ out.dropped.toList
    woken := s.woken ++ out.woken }

/-- The poll goes on unless its future is now suspended or done. -/
def unwind (k : Ptr) (cx : W) (rest : List (Frame W)) : Option Ticker → List (Frame W)
  | some t => if t.pc = .parked then rest else .ticker k cx :: rest
  | none => rest

/-- A step of the innermost call. -/
def step [WillWake W] (s : Sys R W) : Option (Sys R W) :=
  match s.stack with
  | .ticker k cx :: rest =>
      match s.tickers k with
      | some t => (t.step k cx s.state).map fun out =>
          s.settle k (unwind k cx rest out.ticker) out
      | none => none
  | .tryTick .popMain :: rest =>
      match s.state.taskQueue with
      | runnable :: queue =>
          some { s with
            state := { s.state with taskQueue := queue }
            stack := .tryTick .wake :: rest
            ranMain := s.ranMain ++ [runnable] }
      | [] => some { s with stack := rest }
  | .tryTick .wake :: rest => some { s.wakeMain with stack := .tryTick .running :: rest }
  | .tryTick .running :: _ => none
  | [] => none

/-- The innermost call goes on after the Runnable it ran. -/
def ret (s : Sys R W) : Option (Sys R W) :=
  match s.stack with
  | .ticker k _ :: _ =>
      match s.tickers k with
      | some t =>
          if t.pc.running then
            some { s with tickers := Function.update s.tickers k (some t.afterRun) }
          else none
      | none => none
  | .tryTick .running :: rest => some { s with stack := rest }
  | _ => none

/-- The poll of the future at `k` begins. -/
def enter (s : Sys R W) (k : Ptr) (cx : W) (t : Ticker) (pc : Pc) : Sys R W :=
  { s with
    tickers := Function.update s.tickers k (some { t with pc })
    stack := .ticker k cx :: s.stack }

def next [WillWake W] (s : Sys R W) : Label R W → Option (Sys R W)
  | .schedule id runnable =>
      if s.state.isOrigin id then if s.Free then some (s.schedule runnable) else none
      else some (s.push runnable)
  | .wake =>
      if 0 < s.pendingWakes then some { s.wakeMain with pendingWakes := s.pendingWakes - 1 }
      else none
  | .create k oneShot =>
      match s.tickers k with
      | some _ => none
      | none =>
          if s.Free then
            some { s with
              tickers := Function.update s.tickers k (some ⟨oneShot, false, .fresh⟩) }
          else none
  | .poll k w =>
      match s.tickers k with
      | some t =>
          if s.Free then
            match t.pc with
            | .fresh => some (s.enter k w t .loopHead)
            | .parked => some (s.enter k w t .listen)
            | _ => none
          else none
      | none => none
  | .drop k =>
      match s.tickers k with
      | some t =>
          if s.Free ∧ t.pc.active = false then
            some (s.settle k s.stack (t.dropFuture k s.state))
          else none
      | none => none
  | .tryTick => if s.Free then some s.tryTick else none
  | .step => s.step
  | .ret => s.ret

end Sys

/-- Every run of an executor whose origin thread is `id`. -/
def system [WillWake W] (id : Option Nat) : System (Sys R W) (Label R W) :=
  .ofNext (· = .init id) Sys.next

end Executor

end Unsend

import Unsend.Runs
import Unsend.WaitLoop

/-!
# The once cell

The model of `lock/once_cell.rs`: the data, the flag of the call that is
writing it, and two events - `active` for the calls that would write the
cell themselves, `passive` for those that only wait.

`get_or_try_init` is a waiting loop up to its turn to write
(`WaitLoop`, whose listener is out of the list when it is left), then an
`await` of the setter under the guard `UnwriteOnDrop`. `get_or_init` and
`set` are the same call with setters of their own: that of `set` is done
as soon as it is polled.

`OnceCell.system` is a cell with any number of calls. A setter is polled
by its call, and its result is a step of its own, so that everybody else
may take steps while it is running.
-/

namespace Unsend

structure OnceCell (T W : Type) where
  active : Event Unit W
  passive : Event Unit W
  writing : Bool
  data : Option T

namespace OnceCell

variable {T E W : Type}

/-- `new`, or `From<T>` with a value. -/
def new (data : Option T) : OnceCell T W := ⟨.new, .new, false, data⟩

/-- What the loops look at. -/
structure Cells (T : Type) where
  writing : Bool
  data : Option T

def cells (c : OnceCell T W) : Cells T := ⟨c.writing, c.data⟩

/-- How the loop of `get_or_try_init` is left. -/
inductive Turn (T : Type) where
  | found (value : T)
  /-- The flag is set: it is our turn to write. -/
  | write

/-- The loop of `get_or_try_init`, up to `let guard`. -/
def getOrTryInit : WaitLoop (Cells T) (Turn T) Unit where
  attempt c :=
    match c.data with
    | some value => some (.found value, c)
    | none => if c.writing then none else some (.write, { c with writing := true })
  accept _ := none

/-- The loop of `wait`. -/
def wait : WaitLoop (Cells T) Unit Unit where
  attempt c := if c.data.isNone then none else some ((), c)
  accept _ := none

/-- `UnwriteOnDrop::drop`. -/
def unwrite (c : OnceCell T W) : OnceCell T W × List W :=
  let out := c.active.notify (Notify 1) ()
  ({ c with writing := false, active := out.event }, out.woken)

/-- Store the data and wake up all listeners. -/
def store [Target] (c : OnceCell T W) (data : T) : OnceCell T W × List W :=
  let passive := c.passive.notify (Notify usizeMax).additional ()
  let active := c.active.notify (Notify usizeMax).additional ()
  ({ c with data := some data, passive := passive.event, active := active.event },
    passive.woken ++ active.woken)

/-- What a call does with the result of its setter; the guard goes last. -/
def complete [Target] (c : OnceCell T W) : Except E T → OnceCell T W × List W
  | .ok data =>
      let (c, woken) := c.store data
      let (c, woken') := c.unwrite
      (c, woken ++ woken')
  | .error _ => c.unwrite

/-! ## The calls -/

inductive Call (T : Type) where
  | set (value : T)
  | getOrInit
  | getOrTryInit
  | wait

/-- The value a call of `set` was given. -/
def Call.given : Call T → Option T
  | .set value => some value
  | _ => none

/-- What a call returns. -/
inductive Return (T E : Type) where
  | set (given : T) (result : Except T Unit)
  | getOrInit (value : T)
  | getOrTryInit (result : Except E T)
  | wait

/-- Where a future is suspended. -/
inductive Site where
  | active
  | passive
  | setter
  deriving DecidableEq

/-- A future with its locals. -/
structure Fut (T : Type) where
  call : Call T
  site : Site
  /-- The local `setter` is not taken yet. -/
  setter : Bool
  /-- The local `value` of `set`. -/
  value : Option T

def Fut.new (call : Call T) : Fut T where
  call := call
  site := match call with
    | .wait => .passive
    | _ => .active
  setter := true
  value := call.given

/-- `setter.take().unwrap()`. -/
def Fut.takeSetter (fut : Fut T) : Except Fault (Fut T) :=
  if fut.setter then .ok { fut with setter := false } else .error .unwrapNone

/-- `value.take().unwrap()`, the setter of `set`. -/
def Fut.takeValue (fut : Fut T) : Except Fault (T × Fut T) :=
  match fut.value with
  | some value => .ok (value, { fut with value := none })
  | none => .error .unwrapNone

/-- What the call makes of the result of `get_or_try_init`; the setter of
`get_or_init` cannot fail. -/
def Fut.answer (fut : Fut T) (result : Except E T) : Option (Return T E) :=
  match fut.call, result with
  | .set given, _ =>
      some (.set given (match fut.value with
        | some value => .error value
        | none => .ok ()))
  | .getOrInit, .ok value => some (.getOrInit value)
  | .getOrTryInit, result => some (.getOrTryInit result)
  | _, _ => none

/-! ## All calls together -/

/-- A cell with the futures of its calls; `live` are those that are not
dropped yet. -/
structure Sys (T E W : Type) where
  cell : OnceCell T W
  futs : Futures (Fut T)
  live : List Ptr
  returned : List (Return T E)
  woken : List W

inductive Label (T E W : Type) where
  /-- The call is made; its future is at `f`. -/
  | call (f : Ptr) (call : Call T)
  | poll (f : Ptr) (waker : W)
  /-- The setter of the call, which is polled, returns. -/
  | setter (f : Ptr) (result : Except E T)
  /-- The future is dropped. -/
  | cancel (f : Ptr)
  /-- `take`, with nobody borrowing the cell. -/
  | take

namespace Sys

def init (data : Option T) : Sys T E W := ⟨.new data, fun _ => none, [], [], []⟩

/-- The future `f` is now `fut`, left at `stage`. -/
def put (s : Sys T E W) (f : Ptr) (fut : Fut T) (stage : Stage) : Sys T E W :=
  { s with futs := Function.update s.futs f (some (fut, stage)) }

/-- The call returns. -/
def answer (s : Sys T E W) (f : Ptr) (fut : Fut T) (result : Except E T) : Option (Sys T E W) :=
  (fut.answer result).map fun r =>
    { s.put f fut .returned with returned := s.returned ++ [r] }

variable [Target]

/-- The setter has returned, and so does the call. -/
def complete (s : Sys T E W) (f : Ptr) (fut : Fut T) (result : Except E T) :
    Option (Sys T E W) :=
  let out := s.cell.complete result
  { s with cell := out.1, woken := s.woken ++ out.2 }.answer f fut result

/-- Our turn to write: the setter is taken and polled. -/
def write (s : Sys T E W) (f : Ptr) (fut : Fut T) : Except Fault (Option (Sys T E W)) := do
  let fut ← fut.takeSetter
  match fut.call with
  | .set _ =>
      let (value, fut) ← fut.takeValue
      .ok (s.complete f fut (.ok value))
  | _ => .ok (some (s.put f { fut with site := .setter } .suspended))

/-- What is left of one poll of the loop of `get_or_try_init`. -/
def settle (s : Sys T E W) (f : Ptr) (fut : Fut T) (out : WaitOut (Cells T) (Turn T) Unit W) :
    Except Fault (Option (Sys T E W)) :=
  let s := { s with
    cell := { s.cell with
      active := out.event
      writing := out.shared.writing
      data := out.shared.data }
    woken := s.woken ++ out.woken }
  match out.result with
  | .pending => .ok (some (s.put f fut .suspended))
  | .ready (.found value) => .ok (s.answer f fut (.ok value))
  | .ready .write => s.write f fut

/-- What is left of one poll of `wait`. -/
def settleWait (s : Sys T E W) (f : Ptr) (fut : Fut T) (out : WaitOut (Cells T) Unit Unit W) :
    Sys T E W :=
  let s := { s with
    cell := { s.cell with passive := out.event }
    woken := s.woken ++ out.woken }
  match out.result with
  | .pending => s.put f fut .suspended
  | .ready () => { s.put f fut .returned with returned := s.returned ++ [.wait] }

section Next

variable [WillWake W]

/-- A future that has not returned is polled; a setter is pending. -/
def pollFuture (s : Sys T E W) (f : Ptr) (fut : Fut T) (stage : Stage) (w : W) :
    Except Fault (Option (Sys T E W)) :=
  match fut.site with
  | .active => s.settle f fut (getOrTryInit.poll f w stage s.cell.active s.cell.cells)
  | .passive => .ok (some (s.settleWait f fut (wait.poll f w stage s.cell.passive s.cell.cells)))
  | .setter => .ok (some s)

/-- The future `f` is gone. -/
def forget (s : Sys T E W) (f : Ptr) : Sys T E W :=
  { s with futs := Function.update s.futs f none, live := s.live.erase f }

/-- What a suspended future drops: its listener, or its setter with the
guard. -/
def cancelAt (s : Sys T E W) (f : Ptr) : Site → Sys T E W
  | .active =>
      let out := s.cell.active.drop f
      { s with cell := { s.cell with active := out.event }, woken := s.woken ++ out.woken }
  | .passive =>
      let out := s.cell.passive.drop f
      { s with cell := { s.cell with passive := out.event }, woken := s.woken ++ out.woken }
  | .setter =>
      let out := s.cell.unwrite
      { s with cell := out.1, woken := s.woken ++ out.2 }

/-- A step, or the panic it ends with; `none` if it is not possible. -/
def attempt (s : Sys T E W) : Label T E W → Except Fault (Option (Sys T E W))
  | .call f call =>
      match s.futs f with
      | none =>
          if IsAddress f then .ok (some { s.put f (.new call) .unresumed with live := f :: s.live })
          else .ok none
      | some _ => .ok none
  | .poll f w =>
      match s.futs f with
      | some (fut, .unresumed) => s.pollFuture f fut .unresumed w
      | some (fut, .suspended) => s.pollFuture f fut .suspended w
      | _ => .ok none
  | .setter f result =>
      match s.futs f with
      | some (fut, .suspended) =>
          if fut.site = .setter then .ok (s.complete f fut result) else .ok none
      | _ => .ok none
  | .cancel f =>
      match s.futs f with
      | none => .ok none
      | some (fut, .suspended) => .ok (some ((s.cancelAt f fut.site).forget f))
      | some _ => .ok (some (s.forget f))
  | .take =>
      if s.live = [] then .ok (some { s with cell := { s.cell with data := none } })
      else .ok none

def next (s : Sys T E W) (l : Label T E W) : Option (Sys T E W) :=
  match s.attempt l with
  | .ok s' => s'
  | .error _ => none

end Next

end Sys

/-- Every run of a cell that starts with `data`. -/
def system [Target] [WillWake W] (data : Option T) : System (Sys T E W) (Label T E W) :=
  .ofNext (· = .init data) Sys.next

end OnceCell

end Unsend

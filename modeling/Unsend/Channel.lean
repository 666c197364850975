import Unsend.EventHandOver
import Unsend.Runs
import Unsend.WaitLoop

/-!
# The channel

The model of `channel.rs`: a queue of items, a flag, the counters of the
two kinds of handles, and an event whose tags carry an item from a
sender directly to a receiver that waits; the tag `None` says that the
channel has been closed.

`Handles` are the counters with the handles alive, so their decrements
cannot underflow. `Channel.system` is a channel with any number of
handles and `recv()` futures. A future borrows the receiver it was made
from: that receiver cannot be dropped before it.

The system records the items that were accepted and those that were
returned. What may go wrong with the others is the subject of
`ChannelItems`.
-/

namespace Unsend

structure ChannelClosed where
  deriving DecidableEq

inductive TryRecvError where
  | closed
  | empty
  deriving DecidableEq

/-! ## The counters of the handles -/

/-- `senders` and `receivers`, with the handles that are alive. -/
structure Handles where
  senders : Nat
  receivers : Nat
  /-- How many `Sender`s are alive. -/
  tx : Nat
  /-- The `Receiver`s that are alive. -/
  rx : List Ptr
  senders_eq : senders = tx
  receivers_eq : receivers = rx.length

namespace Handles

/-- The first receiver's address is given. -/
def new (r : Ptr) : Handles := ⟨1, 1, 1, [r], rfl, rfl⟩

def cloneSender (h : Handles) : Handles :=
  { h with senders := h.senders + 1, tx := h.tx + 1, senders_eq := by rw [h.senders_eq] }

theorem checkedPred_eq {n : Nat} (h : 0 < n) : checkedPred n = .ok (n - 1) := by
  cases n with
  | zero => omega
  | succ n => rfl

def dropSender (h : Handles) (hp : 0 < h.tx) : Handles :=
  { h with
    senders := Event.value (checkedPred h.senders) ⟨_, checkedPred_eq (h.senders_eq ▸ hp)⟩
    tx := h.tx - 1
    senders_eq := by
      rw [Event.value_eq (checkedPred_eq (h.senders_eq ▸ hp)), h.senders_eq] }

/-- A receiver is cloned to this address. -/
def cloneReceiver (h : Handles) (r : Ptr) : Handles :=
  { h with
    receivers := h.receivers + 1
    rx := r :: h.rx
    receivers_eq := by rw [h.receivers_eq]; rfl }

theorem receivers_pos {h : Handles} {r : Ptr} (hr : r ∈ h.rx) : 0 < h.receivers := by
  rw [h.receivers_eq]
  exact List.length_pos_of_mem hr

def dropReceiver (h : Handles) (r : Ptr) (hr : r ∈ h.rx) : Handles :=
  { h with
    receivers := Event.value (checkedPred h.receivers) ⟨_, checkedPred_eq (receivers_pos hr)⟩
    rx := h.rx.erase r
    receivers_eq := by
      rw [Event.value_eq (checkedPred_eq (receivers_pos hr)), h.receivers_eq,
        List.length_erase_of_mem hr] }

end Handles

/-! ## The operations -/

structure Channel (T W : Type) where
  data : List T
  closed : Bool
  handles : Handles
  event : Event (Option T) W

namespace Channel

variable {T W : Type}

def new (r : Ptr) : Channel T W := ⟨[], false, .new r, .new⟩

/-- `usize::MAX.tag_with(|| None)`. -/
def closing [Target] : Notification Unit (Option T) :=
  (Notify usizeMax).tagWith fun _ => (none, ())

def send (c : Channel T W) (item : T) : Channel T W × Except ChannelClosed Unit × List W :=
  if c.closed then (c, .error {}, [])
  else
    let out := c.event.notify handOver (some item)
    match out.producer with
    | some item => ({ c with event := out.event, data := c.data ++ [item] }, .ok (), out.woken)
    | none => ({ c with event := out.event }, .ok (), out.woken)

/-- What the drop of the last handle of a kind does. -/
def close [Target] (c : Channel T W) : Channel T W × List W :=
  let out := c.event.notify closing ()
  ({ c with closed := true, event := out.event }, out.woken)

/-- `Sender::drop`. -/
def dropSender [Target] (c : Channel T W) (h : 0 < c.handles.tx) : Channel T W × List W :=
  let c := { c with handles := c.handles.dropSender h }
  if c.handles.senders = 0 then c.close else (c, [])

/-- `Receiver::drop`. -/
def dropReceiver [Target] (c : Channel T W) (r : Ptr) (h : r ∈ c.handles.rx) :
    Channel T W × List W :=
  let c := { c with handles := c.handles.dropReceiver r h }
  if c.handles.receivers = 0 then c.close else (c, [])

def tryRecv (c : Channel T W) : Channel T W × Except TryRecvError T :=
  match c.data with
  | item :: data => ({ c with data }, .ok item)
  | [] => (c, .error (if c.closed then .closed else .empty))

/-- What `recv` works on besides the event. -/
structure Buffer (T : Type) where
  data : List T
  closed : Bool

/-- The waiting loop of `recv`. -/
def recv : WaitLoop (Buffer T) (Except ChannelClosed T) (Option T) where
  attempt b :=
    match b.data with
    | item :: data => some (.ok item, { b with data })
    | [] => if b.closed then some (.error {}, b) else none
  accept tag := tag.map .ok

/-! ## All handles and futures together -/

/-- A channel with the `recv()` futures, each with the receiver it
borrows; the futures that borrow each receiver; the items accepted and
returned and the wakers woken so far. -/
structure Sys (T W : Type) where
  chan : Channel T W
  futs : Futures Ptr
  borrowers : Ptr → List Ptr
  accepted : List T
  returned : List T
  woken : List W

inductive Label (T W : Type) where
  | send (item : T)
  | cloneSender
  | dropSender
  | cloneReceiver (r r' : Ptr)
  | dropReceiver (r : Ptr)
  | tryRecv (r : Ptr)
  /-- `recv()` is called on the receiver `r`; the future is at `f`. -/
  | call (r f : Ptr)
  | poll (f : Ptr) (waker : W)
  /-- The future is dropped. -/
  | cancel (f : Ptr)

/-- The item a call has returned, if any. -/
def returned {E : Type} : Poll (Except E T) → List T
  | .ready (.ok item) => [item]
  | _ => []

namespace Sys

variable [Target]

def init (r : Ptr) : Sys T W := ⟨.new r, fun _ => none, fun _ => [], [], [], []⟩

def send (s : Sys T W) (item : T) : Sys T W :=
  let out := s.chan.send item
  { s with
    chan := out.1
    accepted := match out.2.1 with
      | .ok () => s.accepted ++ [item]
      | .error _ => s.accepted
    woken := s.woken ++ out.2.2 }

/-- What is left of one poll of a future. -/
def settle (s : Sys T W) (f r : Ptr)
    (out : WaitOut (Buffer T) (Except ChannelClosed T) (Option T) W) : Sys T W :=
  { s with
    chan := { s.chan with
      data := out.shared.data
      closed := out.shared.closed
      event := out.event }
    futs := Function.update s.futs f (some (r, out.result.stage))
    returned := s.returned ++ Channel.returned out.result
    woken := s.woken ++ out.woken }

def pollFuture [WillWake W] (s : Sys T W) (f r : Ptr) (stage : Stage) (w : W) : Sys T W :=
  s.settle f r (recv.poll f w stage s.chan.event ⟨s.chan.data, s.chan.closed⟩)

/-- The future `f` is gone, and with it the borrow of its receiver. -/
def forget (s : Sys T W) (f r : Ptr) : Sys T W :=
  { s with
    futs := Function.update s.futs f none
    borrowers := Function.update s.borrowers r ((s.borrowers r).filter (· ≠ f)) }

def next [WillWake W] (s : Sys T W) : Label T W → Option (Sys T W)
  | .send item => if 0 < s.chan.handles.tx then some (s.send item) else none
  | .cloneSender =>
      if 0 < s.chan.handles.tx then
        some { s with chan := { s.chan with handles := s.chan.handles.cloneSender } }
      else none
  | .dropSender =>
      if h : 0 < s.chan.handles.tx then
        let out := s.chan.dropSender h
        some { s with chan := out.1, woken := s.woken ++ out.2 }
      else none
  | .cloneReceiver r r' =>
      if r ∈ s.chan.handles.rx ∧ r' ∉ s.chan.handles.rx then
        some { s with chan := { s.chan with handles := s.chan.handles.cloneReceiver r' } }
      else none
  | .dropReceiver r =>
      if h : r ∈ s.chan.handles.rx then
        match s.borrowers r with
        | [] =>
            let out := s.chan.dropReceiver r h
            some { s with chan := out.1, woken := s.woken ++ out.2 }
        | _ :: _ => none
      else none
  | .tryRecv r =>
      if r ∈ s.chan.handles.rx then
        let out := s.chan.tryRecv
        some { s with chan := out.1, returned := s.returned ++ Channel.returned (.ready out.2) }
      else none
  | .call r f =>
      match s.futs f with
      | some _ => none
      | none =>
          if r ∈ s.chan.handles.rx ∧ IsAddress f then
            some { s with
              futs := Function.update s.futs f (some (r, .unresumed))
              borrowers := Function.update s.borrowers r (f :: s.borrowers r) }
          else none
  | .poll f w =>
      match s.futs f with
      | some (r, .unresumed) => some (s.pollFuture f r .unresumed w)
      | some (r, .suspended) => some (s.pollFuture f r .suspended w)
      | _ => none
  | .cancel f =>
      match s.futs f with
      | none => none
      | some (r, .suspended) =>
          let out := s.chan.event.drop f
          some ({ s with
            chan := { s.chan with event := out.event }
            woken := s.woken ++ out.woken }.forget f r)
      | some (r, _) => some (s.forget f r)

end Sys

/-- Every run of a channel whose first receiver is at `r`. -/
def system [Target] [WillWake W] (r : Ptr) : System (Sys T W) (Label T W) :=
  .ofNext (· = .init r) Sys.next

end Channel

end Unsend

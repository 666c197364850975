import Mathlib.Algebra.Group.Nat.Defs
import Mathlib.Logic.Function.Basic

/-!
# The event: listeners, pointers and notifications

The model of `event.rs`. An `Event<T>` is an intrusive doubly linked list
of listener entries with three shared cursors (`head`, `tail`, `first`)
and two counters (`notified`, `len`); the entries live in the listeners
themselves, so a `Heap` is the `Inner` of one event together with the
memory of the listeners, addressed by `Ptr`.

Every operation is the source's sequence of pointer writes. What would
be a panic in the source - a counter underflow, an `unwrap` of `None` -
is a `Fault`. `usize` counters are natural numbers: they count listeners
that exist at the same time, and `-= 1` is the only step that could
leave the range.

A listener that is not in the list is indistinguishable from a new one
(`remove` resets its entry), so an address can be used again after its
listener was dropped. Wakers are of any type with a `will_wake` test;
the wakers an operation wakes and the tag it drops are part of its
result.
-/

namespace Unsend

/-- The address of a listener's entry (`NonNull<Entry<T>>`). -/
abbrev Ptr := Nat

/-- `Waker::will_wake`. -/
class WillWake (W : Type) where
  willWake : W → W → Bool

export WillWake (willWake)

/-- Wakers told apart by the number of their task. -/
instance : WillWake Nat := ⟨fun a b => a == b⟩

/-- The width of a pointer of the target in bits. -/
class Target where
  pointerWidth : Nat
  supported : pointerWidth = 16 ∨ pointerWidth = 32 ∨ pointerWidth = 64

/-- A target with pointers of 64 bits. -/
abbrev Target.bits64 : Target := ⟨64, .inr (.inr rfl)⟩

/-- `usize::MAX`. -/
def usizeMax [Target] : Nat := 2 ^ Target.pointerWidth - 1

/-- `isize::MAX`. -/
def isizeMax [Target] : Nat := 2 ^ (Target.pointerWidth - 1) - 1

/-- A `NonNull` pointer holds such an address. -/
def IsAddress [Target] (p : Ptr) : Prop := 0 < p ∧ p ≤ usizeMax

instance [Target] (p : Ptr) : Decidable (IsAddress p) := inferInstanceAs (Decidable (_ ∧ _))

theorem isizeMax_pos [Target] : 0 < isizeMax := by
  unfold isizeMax
  rcases Target.supported with h | h | h <;> rw [h] <;> decide

theorem isizeMax_lt_usizeMax [Target] : isizeMax < usizeMax := by
  unfold isizeMax usizeMax
  rcases Target.supported with h | h | h <;> rw [h] <;> decide

/-- A panic of the source. -/
inductive Fault where
  | underflow
  | unwrapNone
  | alreadyBorrowed
  | tooManyReaders
  | tooFewReaders
  deriving DecidableEq

@[simp] theorem ok_bind {ε α β : Type} (a : α) (f : α → Except ε β) :
    ((Except.ok a : Except ε α) >>= f) = f a := rfl

@[simp] theorem error_bind {ε α β : Type} (e : ε) (f : α → Except ε β) :
    ((Except.error e : Except ε α) >>= f) = .error e := rfl

/-- What goes through goes through one part after the other. -/
theorem of_bind_ok {ε α β : Type} {x : Except ε α} {f : α → Except ε β} {b : β}
    (h : x >>= f = .ok b) : ∃ a, x = .ok a ∧ f a = .ok b := by
  cases x with
  | error e => cases h
  | ok a => exact ⟨a, rfl, h⟩

/-- `n - 1` on a `usize`. -/
def checkedPred : Nat → Except Fault Nat
  | 0 => .error .underflow
  | n + 1 => .ok n

/-! ## Entries and listeners -/

inductive State (T W : Type) where
  /-- The entry was just created. -/
  | created
  /-- The entry is waiting for an event. -/
  | waiting (task : W)
  /-- The entry has been notified with this tag. -/
  | notified (tag : T) (additional : Bool)
  deriving DecidableEq

structure Entry (T W : Type) where
  next : Option Ptr
  prev : Option Ptr
  state : State T W

structure Listener (T W : Type) where
  inList : Bool
  entry : Entry T W

def Entry.blank {T W : Type} : Entry T W := ⟨none, none, .created⟩

def Listener.new {T W : Type} : Listener T W := ⟨false, .blank⟩

/-- The `Inner` of an event and the listeners that refer to it. -/
structure Heap (T W : Type) where
  head : Option Ptr
  tail : Option Ptr
  /-- The first non-notified entry in the linked list. -/
  first : Option Ptr
  notified : Nat
  len : Nat
  listeners : Ptr → Listener T W

/-! ## Notifications -/

/-- The sealed trait: `count`, `is_additional` and the stateful
`next_tag`, whose state is threaded explicitly. -/
structure NotificationSealed (σ T : Type) where
  count : Nat
  isAdditional : Bool
  nextTag : σ → Except Fault (T × σ)

/-- A notification whose tag producer never panics. -/
structure Notification (σ T : Type) extends NotificationSealed σ T where
  total : ∀ s, ∃ r, nextTag s = .ok r

/-- `Notify(n)`: what an integer becomes. -/
def Notify (n : Nat) : Notification Unit Unit where
  count := n
  isAdditional := false
  nextTag _ := .ok ((), ())
  total _ := ⟨_, rfl⟩

namespace Notification

variable {σ ρ S T : Type}

/-- `Additional<N>`. -/
def additional (n : Notification σ T) : Notification σ T where
  count := n.count
  isAdditional := true
  nextTag := n.nextTag
  total := n.total

/-- `Tag<N, T>`: the inner notification's tags are never asked for. -/
def tag (n : Notification σ S) (t : T) : Notification Unit T where
  count := n.count
  isAdditional := n.isAdditional
  nextTag _ := .ok (t, ())
  total _ := ⟨_, rfl⟩

/-- `TagWith<N, F>`, the state being what the closure has captured. -/
def tagWith (n : Notification σ S) (tagFn : ρ → T × ρ) : Notification ρ T where
  count := n.count
  isAdditional := n.isAdditional
  nextTag s := .ok (tagFn s)
  total _ := ⟨_, rfl⟩

end Notification

/-- `SingleNotify`, the state being its `tag`: `self.tag.take().unwrap()`. -/
def SingleNotify (T : Type) (additional : Bool) : NotificationSealed (Option T) T where
  count := 1
  isAdditional := additional
  nextTag
    | none => .error .unwrapNone
    | some tag => .ok (tag, none)

/-! ## Results

Shared by the operations on a heap, on an abstract queue and on a
certified event. -/

/-- What `notify` leaves behind: the tag producer's state, the number it
returns and the wakers it woke, in order. -/
structure NotifyOut (E σ W : Type) where
  event : E
  producer : σ
  count : Nat
  woken : List W

/-- What `remove` leaves behind: the tag it returns, the wakers it woke
and the tag that was dropped with a `SingleNotify` nobody took. -/
structure RemoveOut (E T W : Type) where
  event : E
  tag : Option T
  woken : List W
  discarded : Option T

inductive Poll (T : Type) where
  | ready (value : T)
  | pending
  deriving DecidableEq

def State.wakers {T W : Type} : State T W → List W
  | .waiting task => [task]
  | _ => []

namespace Heap

variable {σ T W : Type}

/-- `Event::new`. -/
def new : Heap T W := ⟨none, none, none, 0, 0, fun _ => .new⟩

/-! ## Pointer writes -/

def setEntry (h : Heap T W) (p : Ptr) (entry : Entry T W) : Heap T W :=
  { h with listeners := Function.update h.listeners p { h.listeners p with entry } }

def setNext (h : Heap T W) (p : Ptr) (next : Option Ptr) : Heap T W :=
  h.setEntry p { (h.listeners p).entry with next }

def setPrev (h : Heap T W) (p : Ptr) (prev : Option Ptr) : Heap T W :=
  h.setEntry p { (h.listeners p).entry with prev }

def setState (h : Heap T W) (p : Ptr) (state : State T W) : Heap T W :=
  h.setEntry p { (h.listeners p).entry with state }

def setInList (h : Heap T W) (p : Ptr) (inList : Bool) : Heap T W :=
  { h with listeners := Function.update h.listeners p { h.listeners p with inList } }

/-! ## `Inner::notify` -/

/-- `self.first = entry.next.get()`. -/
def advance (h : Heap T W) (e : Ptr) : Heap T W :=
  { h with first := (h.listeners e).entry.next }

/-- `self.notified += 1`. -/
def bump (h : Heap T W) : Heap T W := { h with notified := h.notified + 1 }

/-- The `while count > 0` loop. -/
def notifyLoop (n : NotificationSealed σ T) :
    Nat → Heap T W → σ → Except Fault (NotifyOut (Heap T W) σ W)
  | 0, h, s => .ok ⟨h, s, 0, []⟩
  | count + 1, h, s =>
      match h.first with
      | none => .ok ⟨h, s, 0, []⟩
      | some e => do
          let state := (h.listeners e).entry.state
          let h := h.advance e
          let (tag, s) ← n.nextTag s
          let h := h.setState e (.notified tag n.isAdditional)
          let out ← notifyLoop n count h.bump s
          .ok ⟨out.event, out.producer, out.count + 1, state.wakers ++ out.woken⟩

/-- `Inner::notify`. -/
def notifyInner (h : Heap T W) (n : NotificationSealed σ T) (s : σ) :
    Except Fault (NotifyOut (Heap T W) σ W) :=
  if n.isAdditional then notifyLoop n n.count h s
  else if n.count ≤ h.notified then .ok ⟨h, s, 0, []⟩
  else notifyLoop n (n.count - h.notified) h s

/-- `Event::notify`, with its two early returns. -/
def notify (h : Heap T W) (n : NotificationSealed σ T) (s : σ) :
    Except Fault (NotifyOut (Heap T W) σ W) :=
  if n.isAdditional then
    if h.len = 0 then .ok ⟨h, s, 0, []⟩ else h.notifyInner n s
  else
    if h.notified > n.count then .ok ⟨h, s, 0, []⟩ else h.notifyInner n s

/-! ## `Listener::insert` and `Listener::remove` -/

def insert (h : Heap T W) (p : Ptr) : Heap T W :=
  let h := h.setEntry p { next := none, prev := h.tail, state := .created }
  let tail := h.tail
  let h := { h with tail := some p }
  let h : Heap T W := match tail with
    | none => { h with head := some p }
    | some t => h.setNext t (some p)
  let h := if h.first = none then { h with first := h.tail } else h
  let h := { h with len := h.len + 1 }
  h.setInList p true

/-- The unlinking half of `remove`: both neighbours, then `first`. -/
def unlink (h : Heap T W) (p : Ptr) : Heap T W :=
  let prev := (h.listeners p).entry.prev
  let next := (h.listeners p).entry.next
  let h : Heap T W := match prev with
    | none => { h with head := next }
    | some q => h.setNext q next
  let h : Heap T W := match next with
    | none => { h with tail := prev }
    | some q => h.setPrev q prev
  if h.first = some p then { h with first := next } else h

/-- The entry is now unlinked, so it can be taken out. -/
def takeOut (h : Heap T W) (p : Ptr) : Except Fault (Heap T W × State T W) := do
  let h := h.unlink p
  let state := (h.listeners p).entry.state
  let h := h.setEntry p .blank
  let len ← checkedPred h.len
  .ok ({ h with len := len }.setInList p false, state)

def remove (h : Heap T W) (p : Ptr) (propagate : Bool) :
    Except Fault (RemoveOut (Heap T W) T W) := do
  let (h, state) ← h.takeOut p
  match state with
  | .notified tag additional =>
      let notified ← checkedPred h.notified
      let h := { h with notified := notified }
      if propagate then
        let out ← h.notifyInner (SingleNotify T additional) (some tag)
        .ok ⟨out.event, none, out.woken, out.producer⟩
      else .ok ⟨h, some tag, [], none⟩
  | _ => .ok ⟨h, none, [], none⟩

/-! ## The public operations of a listener -/

/-- `EventListener::listen`. -/
def listen (h : Heap T W) (p : Ptr) : Heap T W :=
  if (h.listeners p).inList then h else h.insert p

/-- `Listener::register`, its `RegisterResult` read as a `Poll`. -/
def register [WillWake W] (h : Heap T W) (p : Ptr) (waker : W) :
    Except Fault (Heap T W × Poll T) :=
  match (h.listeners p).entry.state with
  | .notified _ _ => do
      let out ← h.remove p false
      match out.tag with
      | some tag => .ok (out.event, .ready tag)
      | none => .error .unwrapNone
  | .waiting task =>
      .ok (h.setState p (.waiting (if willWake task waker then task else waker)), .pending)
  | .created => .ok (h.setState p (.waiting waker), .pending)

/-- `Listener::poll`. -/
def poll [WillWake W] (h : Heap T W) (p : Ptr) (waker : W) :
    Except Fault (Heap T W × Poll T) :=
  (h.listen p).register p waker

/-- `Listener::drop`. -/
def drop (h : Heap T W) (p : Ptr) : Except Fault (RemoveOut (Heap T W) T W) :=
  if (h.listeners p).inList then h.remove p true else .ok ⟨h, none, [], none⟩

end Heap

end Unsend

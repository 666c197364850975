import Unsend.EventRefine

/-!
# Runs of one event

Any sequence of operations on one event, by any number of listeners and
in any order: the heap never faults, it shows its users what the queue
shows them, and after each operation its pointers, cursors and counters
are those of the queue (`heap_run_lists`).

`Event` is the certified event the other modules build on: a heap
together with the proof that it represents a queue. Its operations are
those of the heap, which cannot fault there, and each comes with the
equation for what it does to the queue.
-/

namespace Unsend

open Links

/-! ## Operations as labels -/

/-- One operation on an event. A notification carries its tag producer
and that producer's state. -/
inductive Op (T W : Type) : Type 1
  | listen (p : Ptr)
  | poll (p : Ptr) (waker : W)
  | notify {σ : Type} (n : Notification σ T) (s : σ)
  | drop (p : Ptr)

/-- What an operation shows its caller and the wakers it woke. -/
inductive Seen (T W : Type) where
  | listened
  | polled (result : Poll T)
  | notified (count : Nat) (woken : List W)
  | dropped (woken : List W) (discarded : Option T)

section Run

variable {T W : Type} [WillWake W]

def Heap.apply (h : Heap T W) : Op T W → Except Fault (Heap T W × Seen T W)
  | .listen p => .ok (h.listen p, .listened)
  | .poll p w => do
      let (h, r) ← h.poll p w
      .ok (h, .polled r)
  | .notify n s => do
      let out ← h.notify n.toNotificationSealed s
      .ok (out.event, .notified out.count out.woken)
  | .drop p => do
      let out ← h.drop p
      .ok (out.event, .dropped out.woken out.discarded)

def Heap.run (h : Heap T W) : List (Op T W) → Except Fault (Heap T W × List (Seen T W))
  | [] => .ok (h, [])
  | op :: ops => do
      let (h, seen) ← h.apply op
      let (h, rest) ← h.run ops
      .ok (h, seen :: rest)

def Queue.apply (q : Queue T W) : Op T W → Queue T W × Seen T W
  | .listen p => (q.listen p, .listened)
  | .poll p w => ((q.poll p w).1, .polled (q.poll p w).2)
  | .notify n s =>
      ((q.notify n s).event, .notified (q.notify n s).count (q.notify n s).woken)
  | .drop p => ((q.drop p).event, .dropped (q.drop p).woken (q.drop p).discarded)

def Queue.run (q : Queue T W) : List (Op T W) → Queue T W × List (Seen T W)
  | [] => (q, [])
  | op :: ops =>
      let rest := (q.apply op).1.run ops
      (rest.1, (q.apply op).2 :: rest.2)

/-- One operation on both levels. -/
theorem repr_apply {h : Heap T W} {q : Queue T W} (hr : Repr h q) (op : Op T W) :
    ∃ h', h.apply op = .ok (h', (q.apply op).2) ∧ Repr h' (q.apply op).1 := by
  cases op with
  | listen p => exact ⟨_, rfl, repr_listen hr p⟩
  | poll p w =>
      obtain ⟨h', hp, hr'⟩ := repr_poll hr p w
      exact ⟨h', by simp [Heap.apply, Queue.apply, hp], hr'⟩
  | notify n s =>
      obtain ⟨h', hn, hr'⟩ := repr_notify hr n s
      exact ⟨h', by simp [Heap.apply, Queue.apply, hn], hr'⟩
  | drop p =>
      obtain ⟨h', hd, hr'⟩ := repr_drop hr p
      exact ⟨h', by simp [Heap.apply, Queue.apply, hd], hr'⟩

theorem repr_run {h : Heap T W} {q : Queue T W} (hr : Repr h q) (ops : List (Op T W)) :
    ∃ h', h.run ops = .ok (h', (q.run ops).2) ∧ Repr h' (q.run ops).1 := by
  induction ops generalizing h q with
  | nil => exact ⟨h, rfl, hr⟩
  | cons op ops ih =>
      obtain ⟨h1, hop, hr1⟩ := repr_apply hr op
      obtain ⟨h2, hops, hr2⟩ := ih hr1
      exact ⟨h2, by simp [Heap.run, Queue.run, hop, hops], hr2⟩

end Run

/-! ## What representation says, read off the pointers -/

/-- The pointer structure `h` lists the entries of `q`. -/
structure Heap.Lists {T W : Type} (h : Heap T W) (q : Queue T W) : Prop where
  /-- Following `next` from `head` visits the entries of `q` and stops. -/
  visits : ∀ n, h.len ≤ n → walk h.nextOf n h.head = q.ids
  once : q.ids.Nodup
  inList : ∀ p, (h.listeners p).inList = true ↔ p ∈ q.ids
  ends : h.tail = q.ids.getLast?
  inverse : ∀ p r, (p ∈ q.ids ∧ h.nextOf p = some r) ↔ (r ∈ q.ids ∧ h.prevOf r = some p)
  len : h.len = q.ids.length
  states : ∀ p st, (p, st) ∈ q → h.stateOf p = st
  notifiedPrefix : q.NotifiedPrefix
  notified : h.notified = q.numNotified
  first : h.first = q.firstWaiting

section Lists

variable {T W : Type} {h : Heap T W} {q : Queue T W}

theorem Queue.length_ids (q : Queue T W) : q.ids.length = q.length := List.length_map ..

theorem Repr.lists (hr : Repr h q) : h.Lists q where
  visits n hn := by
    rw [hr.head]
    exact walk_eq hr.seg (by rw [Queue.length_ids, ← hr.len]; exact hn)
  once := hr.nodup
  inList := hr.inList
  ends := hr.tail
  inverse _ _ := seg_next_prev hr.seg
  len := by rw [hr.len, Queue.length_ids]
  states := hr.state
  notifiedPrefix := hr.notifiedPrefix
  notified := hr.notified
  first := hr.first

/-- Every run of one event refines the run of the queue: no counter
underflows and no `unwrap` fails, the callers see the same results and
the same wakers woken, and the pointers list the entries of the queue. -/
theorem heap_run_lists [WillWake W] (ops : List (Op T W)) :
    ∃ h : Heap T W, Heap.new.run ops = .ok (h, (Queue.run [] ops).2) ∧
      h.Lists (Queue.run [] ops).1 := by
  obtain ⟨h, hrun, hr⟩ := repr_run repr_new ops
  exact ⟨h, hrun, hr.lists⟩

/-! ## The certified event -/

/-- The queue a heap represents, read off its pointers. -/
def Heap.view (h : Heap T W) : Queue T W :=
  (walk h.nextOf h.len h.head).map fun p => (p, h.stateOf p)

theorem Repr.view_eq (hr : Repr h q) : h.view = q := by
  unfold Heap.view
  rw [hr.lists.visits h.len (Nat.le_refl _), Queue.ids, List.map_map]
  refine (List.map_congr_left fun x hx => ?_).trans (List.map_id q)
  exact Prod.ext rfl (hr.state x.1 x.2 hx)

end Lists

/-- An event whose pointer structure represents a queue. -/
structure Event (T W : Type) where
  heap : Heap T W
  repr : Repr heap heap.view

namespace Event

variable {σ T W : Type}

/-- The listeners in insertion order. -/
def queue (e : Event T W) : Queue T W := e.heap.view

def ofRepr {h : Heap T W} {q : Queue T W} (hr : Repr h q) : Event T W :=
  ⟨h, hr.view_eq.symm ▸ hr⟩

@[simp] theorem queue_ofRepr {h : Heap T W} {q : Queue T W} (hr : Repr h q) :
    (ofRepr hr).queue = q := hr.view_eq

/-- The value of an operation that does not fault. -/
def value {α : Type} : (r : Except Fault α) → (∃ a, r = .ok a) → α
  | .ok a, _ => a
  | .error _, h => absurd h (by simp)

theorem value_eq {α : Type} {r : Except Fault α} {a : α} (h : r = .ok a) :
    value r ⟨a, h⟩ = a := by subst h; rfl

def new : Event T W := ofRepr repr_new

def listen (e : Event T W) (p : Ptr) : Event T W := ofRepr (repr_listen e.repr p)

section Ops

variable [WillWake W]

theorem poll_ok (e : Event T W) (p : Ptr) (w : W) : ∃ r, e.heap.poll p w = .ok r :=
  let ⟨_, h, _⟩ := repr_poll e.repr p w
  ⟨_, h⟩

theorem poll_repr (e : Event T W) (p : Ptr) (w : W) :
    Repr (value _ (e.poll_ok p w)).1 (e.queue.poll p w).1 ∧
      (value _ (e.poll_ok p w)).2 = (e.queue.poll p w).2 := by
  obtain ⟨h', h, hr⟩ := repr_poll e.repr p w
  rw [value_eq h]
  exact ⟨hr, rfl⟩

def poll (e : Event T W) (p : Ptr) (w : W) : Event T W × Poll T :=
  (ofRepr (e.poll_repr p w).1, (value _ (e.poll_ok p w)).2)

@[simp] theorem queue_poll (e : Event T W) (p : Ptr) (w : W) :
    (e.poll p w).1.queue = (e.queue.poll p w).1 :=
  queue_ofRepr (e.poll_repr p w).1

@[simp] theorem poll_result (e : Event T W) (p : Ptr) (w : W) :
    (e.poll p w).2 = (e.queue.poll p w).2 := (e.poll_repr p w).2

end Ops

theorem notify_ok (e : Event T W) (n : Notification σ T) (s : σ) :
    ∃ r, e.heap.notify n.toNotificationSealed s = .ok r :=
  let ⟨_, h, _⟩ := repr_notify e.repr n s
  ⟨_, h⟩

theorem notify_repr (e : Event T W) (n : Notification σ T) (s : σ) :
    let out := value _ (e.notify_ok n s)
    Repr out.event (e.queue.notify n s).event ∧
      out.producer = (e.queue.notify n s).producer ∧
      out.count = (e.queue.notify n s).count ∧ out.woken = (e.queue.notify n s).woken := by
  obtain ⟨h', h, hr⟩ := repr_notify e.repr n s
  rw [value_eq h]
  exact ⟨hr, rfl, rfl, rfl⟩

def notify (e : Event T W) (n : Notification σ T) (s : σ) : NotifyOut (Event T W) σ W :=
  let out := value _ (e.notify_ok n s)
  ⟨ofRepr (e.notify_repr n s).1, out.producer, out.count, out.woken⟩

theorem drop_ok (e : Event T W) (p : Ptr) : ∃ r, e.heap.drop p = .ok r :=
  let ⟨_, h, _⟩ := repr_drop e.repr p
  ⟨_, h⟩

theorem drop_repr (e : Event T W) (p : Ptr) :
    let out := value _ (e.drop_ok p)
    Repr out.event (e.queue.drop p).event ∧ out.tag = (e.queue.drop p).tag ∧
      out.woken = (e.queue.drop p).woken ∧ out.discarded = (e.queue.drop p).discarded := by
  obtain ⟨h', h, hr⟩ := repr_drop e.repr p
  rw [value_eq h]
  exact ⟨hr, rfl, rfl, rfl⟩

def drop (e : Event T W) (p : Ptr) : RemoveOut (Event T W) T W :=
  let out := value _ (e.drop_ok p)
  ⟨ofRepr (e.drop_repr p).1, out.tag, out.woken, out.discarded⟩

section Queue

variable (e : Event T W) (p : Ptr) (n : Notification σ T) (s : σ)

@[simp] theorem queue_new : (new : Event T W).queue = [] := queue_ofRepr _

@[simp] theorem queue_listen : (e.listen p).queue = e.queue.listen p := queue_ofRepr _

@[simp] theorem queue_notify :
    (e.notify n s).event.queue = (e.queue.notify n s).event :=
  queue_ofRepr (e.notify_repr n s).1

@[simp] theorem notify_producer :
    (e.notify n s).producer = (e.queue.notify n s).producer := (e.notify_repr n s).2.1

@[simp] theorem notify_count : (e.notify n s).count = (e.queue.notify n s).count :=
  (e.notify_repr n s).2.2.1

@[simp] theorem notify_woken :
    (e.notify n s).woken = (e.queue.notify n s).woken := (e.notify_repr n s).2.2.2

@[simp] theorem queue_drop : (e.drop p).event.queue = (e.queue.drop p).event :=
  queue_ofRepr (e.drop_repr p).1

@[simp] theorem drop_woken : (e.drop p).woken = (e.queue.drop p).woken :=
  (e.drop_repr p).2.2.1

@[simp] theorem drop_discarded : (e.drop p).discarded = (e.queue.drop p).discarded :=
  (e.drop_repr p).2.2.2

end Queue

theorem nodup (e : Event T W) : e.queue.ids.Nodup := e.repr.nodup

theorem notifiedPrefix (e : Event T W) : e.queue.NotifiedPrefix := e.repr.notifiedPrefix

end Event

end Unsend

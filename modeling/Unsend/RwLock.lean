import Unsend.Runs
import Unsend.WaitLoop

/-!
# The read/write lock

The model of `lock/rwlock.rs`: the borrow flag of the `RefCell` that
holds the data, a counter of readers beside it, and two events. Readers
wait on `no_writers`, writers on `no_readers`; a dropped write guard
notifies one listener of the former, the last read guard one of the
latter.

`Cells` are the two counters with the proof that they agree with the
guards alive, so the two `expect`s of the source have nothing to catch;
`RwLock.system` is a lock with any number of callers.

Two defects show here, each with the exact way into it:

- a writer that sleeps behind another writer waits on `no_readers`, which
  the other writer's guard never signals (`writersServed_run_iff`,
  `writeThenWrite_strands`);
- a released writer wakes one reader although all may enter, and that
  reader wakes nobody (`readersServed_run_iff`,
  `oneReaderWoken_strands`).
-/

namespace Unsend

/-! ## The borrow flag -/

/-- The borrow flag of a `RefCell`: so many shared borrows, or a mutable one. -/
inductive Borrow where
  | shared (readers : Nat)
  | exclusive
  deriving DecidableEq

/-- `RefCell::try_borrow`: no more than `isize::MAX` shared borrows. -/
def Borrow.tryBorrow [Target] : Borrow → Option Borrow
  | .shared n => if n < isizeMax then some (.shared (n + 1)) else none
  | .exclusive => none

/-- `RefCell::try_borrow_mut`. -/
def Borrow.tryBorrowMut : Borrow → Option Borrow
  | .shared 0 => some .exclusive
  | _ => none

/-- A shared borrow ends. -/
def Borrow.release : Borrow → Borrow
  | .shared n => .shared (n - 1)
  | .exclusive => .exclusive

/-! ## The counters of a lock -/

/-- `readers` and the borrow flag of `data`. -/
structure RawCells where
  readers : Nat
  data : Borrow

namespace RawCells

/-- The body of `try_read`. -/
def tryRead [Target] (c : RawCells) : Except Fault (Option RawCells) :=
  match c.data.tryBorrow with
  | none => .ok none
  | some data =>
      if c.readers + 1 ≤ usizeMax then .ok (some ⟨c.readers + 1, data⟩)
      else .error .tooManyReaders

/-- The body of `try_write`. -/
def tryWrite (c : RawCells) : Option RawCells :=
  c.data.tryBorrowMut.map fun data => { c with data }

/-- `RwLockReadGuard::drop`, then the drop of its `Ref`. -/
def dropRead (c : RawCells) : Except Fault RawCells :=
  match c.readers with
  | 0 => .error .tooFewReaders
  | n + 1 => .ok ⟨n, c.data.release⟩

/-- The drop of the `RefMut` of a write guard. -/
def dropWrite (c : RawCells) : RawCells := { c with data := .shared 0 }

end RawCells

/-- The counters with the guards that are alive. -/
structure Cells [Target] where
  raw : RawCells
  readGuards : Nat
  writeGuards : Nat
  readers_eq : raw.readers = readGuards
  agree : (writeGuards = 0 ∧ raw.data = .shared readGuards) ∨
    (writeGuards = 1 ∧ readGuards = 0 ∧ raw.data = .exclusive)
  bound : readGuards ≤ isizeMax

namespace Cells

variable [Target]

def new : Cells := ⟨⟨0, .shared 0⟩, 0, 0, rfl, .inl ⟨rfl, rfl⟩, Nat.zero_le _⟩

/-- `try_read` returns without a panic, with one more guard or without. -/
theorem tryRead_raw (c : Cells) : c.raw.tryRead = .ok
    (if c.writeGuards = 0 ∧ c.readGuards < isizeMax
      then some ⟨c.readGuards + 1, .shared (c.readGuards + 1)⟩ else none) := by
  have hlt := isizeMax_lt_usizeMax
  unfold RawCells.tryRead
  rcases c.agree with ⟨h0, hd⟩ | ⟨h1, -, hd⟩
  · rw [hd, Borrow.tryBorrow, c.readers_eq]
    by_cases hb : c.readGuards < isizeMax
    · simp only [hb, h0, if_true, and_self]
      rw [if_pos (by omega)]
    · simp [hb]
  · simp [hd, Borrow.tryBorrow, h1]

/-- `try_write` succeeds exactly where no guard is alive. -/
theorem tryWrite_raw (c : Cells) : c.raw.tryWrite =
    if c.writeGuards = 0 ∧ c.readGuards = 0 then some ⟨0, .exclusive⟩ else none := by
  have hr := c.readers_eq
  unfold RawCells.tryWrite
  rcases c.agree with ⟨h0, hd⟩ | ⟨h1, -, hd⟩
  · rw [hd]
    cases hg : c.readGuards with
    | zero => simp [Borrow.tryBorrowMut, h0, hr, hg]
    | succ n => simp [Borrow.tryBorrowMut]
  · simp [hd, Borrow.tryBorrowMut, h1]

def tryRead (c : Cells) : Option Cells :=
  match h : c.raw.tryRead with
  | .ok (some raw) => some
      { raw := raw
        readGuards := c.readGuards + 1
        writeGuards := c.writeGuards
        readers_eq := by
          rw [c.tryRead_raw] at h
          split at h <;> cases h
          rfl
        agree := by
          rw [c.tryRead_raw] at h
          split at h <;> cases h
          rename_i hc
          exact .inl ⟨hc.1, rfl⟩
        bound := by
          rw [c.tryRead_raw] at h
          split at h <;> cases h
          rename_i hc
          exact hc.2 }
  | _ => none

def tryWrite (c : Cells) : Option Cells :=
  match h : c.raw.tryWrite with
  | some raw => some
      { raw := raw
        readGuards := 0
        writeGuards := 1
        readers_eq := by
          rw [c.tryWrite_raw] at h
          split at h <;> cases h
          rfl
        agree := by
          rw [c.tryWrite_raw] at h
          split at h <;> cases h
          exact .inr ⟨rfl, rfl, rfl⟩
        bound := Nat.zero_le _ }
  | none => none

theorem writeGuards_of_reading (c : Cells) (h : 0 < c.readGuards) : c.writeGuards = 0 := by
  rcases c.agree with ⟨h0, -⟩ | ⟨-, h0, -⟩
  · exact h0
  · omega

/-- The drop of a read guard does not panic. -/
theorem dropRead_raw (c : Cells) (h : 0 < c.readGuards) :
    c.raw.dropRead = .ok ⟨c.readGuards - 1, .shared (c.readGuards - 1)⟩ := by
  have hr := c.readers_eq
  rcases c.agree with ⟨-, hd⟩ | ⟨-, h0, -⟩
  · unfold RawCells.dropRead
    cases hn : c.raw.readers with
    | zero => omega
    | succ n =>
        obtain rfl : n = c.readGuards - 1 := by omega
        rw [hd, Borrow.release]
  · omega

def dropRead (c : Cells) (h : 0 < c.readGuards) : Cells where
  raw := Event.value c.raw.dropRead ⟨_, c.dropRead_raw h⟩
  readGuards := c.readGuards - 1
  writeGuards := c.writeGuards
  readers_eq := by rw [Event.value_eq (c.dropRead_raw h)]
  agree := by
    rw [Event.value_eq (c.dropRead_raw h)]
    exact .inl ⟨c.writeGuards_of_reading h, rfl⟩
  bound := Nat.le_trans (Nat.sub_le ..) c.bound

theorem readGuards_of_writing (c : Cells) (h : 0 < c.writeGuards) : c.readGuards = 0 := by
  rcases c.agree with ⟨h0, -⟩ | ⟨-, h0, -⟩
  · omega
  · exact h0

def dropWrite (c : Cells) (h : 0 < c.writeGuards) : Cells where
  raw := c.raw.dropWrite
  readGuards := c.readGuards
  writeGuards := 0
  readers_eq := c.readers_eq
  agree := .inl ⟨rfl, by rw [c.readGuards_of_writing h]; rfl⟩
  bound := c.bound

/-! ### What the operations do to the guards -/

theorem tryRead_some {c c' : Cells} (h : c.tryRead = some c') :
    c.writeGuards = 0 ∧ c.readGuards < isizeMax ∧ c'.writeGuards = 0 ∧
      c'.readGuards = c.readGuards + 1 := by
  unfold tryRead at h
  split at h
  · rename_i raw hraw
    cases h
    rw [c.tryRead_raw] at hraw
    split at hraw
    · rename_i hc
      exact ⟨hc.1, hc.2, hc.1, rfl⟩
    · cases hraw
  · cases h

theorem tryRead_none {c : Cells} (h : c.tryRead = none) :
    c.writeGuards = 1 ∨ (c.writeGuards = 0 ∧ c.readGuards = isizeMax) := by
  have hb := c.bound
  unfold tryRead at h
  split at h
  · cases h
  · rename_i hraw
    rw [c.tryRead_raw] at hraw
    split at hraw
    · exact (hraw _ rfl).elim
    · rename_i hc
      rcases c.agree with ⟨h0, -⟩ | ⟨h1, -⟩
      · omega
      · exact .inl h1

theorem tryWrite_some {c c' : Cells} (h : c.tryWrite = some c') : c'.writeGuards = 1 := by
  unfold tryWrite at h
  split at h
  · cases h
    rfl
  · cases h

theorem tryWrite_none {c : Cells} (h : c.tryWrite = none) :
    c.writeGuards = 1 ∨ (c.writeGuards = 0 ∧ 0 < c.readGuards) := by
  unfold tryWrite at h
  split at h
  · cases h
  · rename_i hraw
    rw [c.tryWrite_raw] at hraw
    split at hraw
    · cases hraw
    · rename_i hc
      rcases c.agree with ⟨h0, -⟩ | ⟨h1, -⟩
      · omega
      · exact .inl h1

end Cells

/-! ## The lock -/

/-- What a future or a guard is for. -/
inductive Mode where
  | read
  | write
  deriving DecidableEq

structure RwLock [Target] (W : Type) where
  noReaders : Event Unit W
  noWriters : Event Unit W
  cells : Cells

namespace RwLock

variable [Target] {W : Type}

def new : RwLock W := ⟨.new, .new, .new⟩

def tryRead (l : RwLock W) : Option (RwLock W) :=
  l.cells.tryRead.map fun cells => { l with cells }

def tryWrite (l : RwLock W) : Option (RwLock W) :=
  l.cells.tryWrite.map fun cells => { l with cells }

/-- The waiting loop of `read`. -/
def read : WaitLoop Cells Unit Unit where
  attempt c := c.tryRead.map fun c => ((), c)
  accept _ := none

/-- The waiting loop of `write`. -/
def write : WaitLoop Cells Unit Unit where
  attempt c := c.tryWrite.map fun c => ((), c)
  accept _ := none

/-- `RwLockReadGuard::drop`: the last reader notifies a writer. -/
def dropRead (l : RwLock W) (h : 0 < l.cells.readGuards) : RwLock W × List W :=
  let cells := l.cells.dropRead h
  if cells.raw.readers = 0 then
    let out := l.noReaders.notify (Notify 1) ()
    ({ l with cells, noReaders := out.event }, out.woken)
  else ({ l with cells }, [])

/-- `RwLockWriteGuard::drop`. -/
def dropWrite (l : RwLock W) (h : 0 < l.cells.writeGuards) : RwLock W × List W :=
  let out := l.noWriters.notify (Notify 1) ()
  ({ l with cells := l.cells.dropWrite h, noWriters := out.event }, out.woken)

/-- The loop a future of this mode runs. -/
def loopOf : Mode → WaitLoop Cells Unit Unit
  | .read => read
  | .write => write

/-- The event a future of this mode waits on. -/
def site (l : RwLock W) : Mode → Event Unit W
  | .read => l.noWriters
  | .write => l.noReaders

def setSite (l : RwLock W) (mode : Mode) (event : Event Unit W) : RwLock W :=
  match mode with
  | .read => { l with noWriters := event }
  | .write => { l with noReaders := event }

/-! ## All callers together -/

/-- A lock with the futures of its callers, the wakers woken so far and,
for each future, the waker of its latest poll with the number of wakers
that had been woken by then. -/
structure Sys (W : Type) where
  lock : RwLock W
  futs : Futures Mode
  latest : Ptr → Option (W × Nat)
  woken : List W

inductive Label (W : Type) where
  /-- `read()` or `write()` is called at this address. -/
  | call (mode : Mode) (f : Ptr)
  | poll (f : Ptr) (waker : W)
  /-- The future is dropped. -/
  | cancel (f : Ptr)
  | tryRead
  | tryWrite
  | dropRead
  | dropWrite

def Sys.init : Sys W := ⟨.new, fun _ => none, fun _ => none, []⟩

/-- What is left of one poll of a future. -/
def Sys.settle (s : Sys W) (f : Ptr) (mode : Mode) (w : W)
    (out : WaitOut Cells Unit Unit W) : Sys W where
  lock := { s.lock.setSite mode out.event with cells := out.shared }
  futs := Function.update s.futs f (some (mode, out.result.stage))
  latest := Function.update s.latest f (some (w, s.woken.length))
  woken := s.woken ++ out.woken

section System

variable [WillWake W]

def Sys.pollFuture (s : Sys W) (f : Ptr) (mode : Mode) (stage : Stage) (w : W) : Sys W :=
  s.settle f mode w ((loopOf mode).poll f w stage (s.lock.site mode) s.lock.cells)

def Sys.next (s : Sys W) : Label W → Option (Sys W)
  | .call mode f =>
      match s.futs f with
      | none => some { s with futs := Function.update s.futs f (some (mode, .unresumed)) }
      | some _ => none
  | .poll f w =>
      match s.futs f with
      | some (mode, .unresumed) => some (s.pollFuture f mode .unresumed w)
      | some (mode, .suspended) => some (s.pollFuture f mode .suspended w)
      | _ => none
  | .cancel f =>
      match s.futs f with
      | none => none
      | some (mode, .suspended) =>
          let out := (s.lock.site mode).drop f
          some { s with
            lock := s.lock.setSite mode out.event
            futs := Function.update s.futs f none
            woken := s.woken ++ out.woken }
      | some _ => some { s with futs := Function.update s.futs f none }
  | .tryRead => some { s with lock := s.lock.tryRead.getD s.lock }
  | .tryWrite => some { s with lock := s.lock.tryWrite.getD s.lock }
  | .dropRead =>
      if h : 0 < s.lock.cells.readGuards then
        let out := s.lock.dropRead h
        some { s with lock := out.1, woken := s.woken ++ out.2 }
      else none
  | .dropWrite =>
      if h : 0 < s.lock.cells.writeGuards then
        let out := s.lock.dropWrite h
        some { s with lock := out.1, woken := s.woken ++ out.2 }
      else none

/-- Every run of a lock. -/
def system : System (Sys W) (Label W) := .ofNext (· = .init) Sys.next

end System

namespace Sys

/-- The listeners of the futures of this mode. -/
def queue (s : Sys W) (mode : Mode) : Queue Unit W := (s.lock.site mode).queue

theorem nodup (s : Sys W) (mode : Mode) : (s.queue mode).ids.Nodup := (s.lock.site mode).nodup

/-- The future `f` of this mode is waiting. -/
def Waits (s : Sys W) (mode : Mode) (f : Ptr) : Prop := s.futs f = some (mode, .suspended)

/-- The waiting future `f` of this mode is in the notified state. -/
def Notified (s : Sys W) (mode : Mode) (f : Ptr) : Prop :=
  s.Waits mode f ∧ ∃ t b, (s.queue mode).stateOf f = some (.notified t b)

/-- The task that polled `f` last has been woken since. -/
def Woken [WillWake W] (s : Sys W) (f : Ptr) : Prop :=
  ∃ w n, s.latest f = some (w, n) ∧ Queue.WokenSince s.woken n w

/-- On a free lock with a waiting writer somebody has been notified and woken. -/
def WritersServed [WillWake W] (s : Sys W) : Prop :=
  s.lock.cells.readGuards = 0 → s.lock.cells.writeGuards = 0 → (∃ f, s.Waits .write f) →
    ∃ mode f, s.Notified mode f ∧ s.Woken f

/-- Where no write guard is alive, a reader that is not notified waits
only beside one that is. -/
def ReadersServed (s : Sys W) : Prop :=
  s.lock.cells.writeGuards = 0 →
    (∃ f, s.Waits .read f ∧ ¬ s.Notified .read f) → ∃ f, s.Notified .read f

/-- What holds in every reachable state. -/
structure Inv [WillWake W] (s : Sys W) : Prop where
  seated : ∀ mode, Seated s.futs (· = mode) (s.queue mode)
  plain : ∀ mode, (s.queue mode).Plain
  tracked : ∀ mode, (s.queue mode).Tracked s.woken s.latest

/-! ### The same in numbers -/

/-- `WritersServed` in numbers. -/
def WritersCount (s : Sys W) : Prop :=
  s.lock.cells.readGuards = 0 → s.lock.cells.writeGuards = 0 → 0 < (s.queue .write).length →
    0 < (s.queue .write).numNotified ∨ 0 < (s.queue .read).numNotified

/-- `ReadersServed` in numbers. -/
def ReadersCount (s : Sys W) : Prop :=
  s.lock.cells.writeGuards = 0 → 0 < (s.queue .read).numWaiting →
    0 < (s.queue .read).numNotified

section Count

variable [WillWake W] {s : Sys W}

theorem some_waits (hi : s.Inv) (mode : Mode) :
    (∃ f, s.Waits mode f) ↔ 0 < (s.queue mode).length := by
  rw [← (hi.seated mode).some_suspended]
  constructor
  · rintro ⟨f, hf⟩
    exact ⟨f, mode, rfl, hf⟩
  · rintro ⟨f, _, rfl, hf⟩
    exact ⟨f, hf⟩

/-- A notified future has been woken. -/
theorem some_notified (hi : s.Inv) {mode : Mode} (h : 0 < (s.queue mode).numNotified) :
    ∃ f, s.Notified mode f ∧ s.Woken f := by
  obtain ⟨f, t, b, w, n, hm, hl, hw⟩ := (hi.tracked mode).woken h
  obtain ⟨_, rfl, hf⟩ := (hi.seated mode f).mp (Queue.mem_ids_of_mem hm)
  exact ⟨f, ⟨hf, t, b, (Queue.stateOf_eq_some (s.nodup _)).mpr hm⟩, w, n, hl, hw⟩

omit [WillWake W] in
theorem notified_pos {mode : Mode} {f : Ptr} (h : s.Notified mode f) :
    0 < (s.queue mode).numNotified := by
  obtain ⟨-, t, b, hst⟩ := h
  exact List.countP_pos_iff.mpr ⟨_, (Queue.stateOf_eq_some (s.nodup mode)).mp hst, rfl⟩

theorem some_waiting (hi : s.Inv) (mode : Mode) :
    (∃ f, s.Waits mode f ∧ ¬ s.Notified mode f) ↔ 0 < (s.queue mode).numWaiting := by
  rw [← (hi.seated mode).some_waiting (s.nodup mode)]
  constructor
  · rintro ⟨f, hf, hn⟩
    exact ⟨f, mode, rfl, hf, fun t b hst => hn ⟨hf, t, b, hst⟩⟩
  · rintro ⟨f, _, rfl, hf, hn⟩
    exact ⟨f, hf, fun ⟨_, t, b, hst⟩ => hn t b hst⟩

theorem writersServed_iff (hi : s.Inv) : s.WritersServed ↔ s.WritersCount := by
  unfold WritersServed WritersCount
  rw [some_waits hi]
  constructor
  · intro h hr hw hl
    obtain ⟨mode, f, hf, -⟩ := h hr hw hl
    cases mode with
    | read => exact .inr (notified_pos hf)
    | write => exact .inl (notified_pos hf)
  · intro h hr hw hl
    rcases h hr hw hl with hn | hn
    · exact ⟨.write, some_notified hi hn⟩
    · exact ⟨.read, some_notified hi hn⟩

theorem readersServed_iff (hi : s.Inv) : s.ReadersServed ↔ s.ReadersCount := by
  unfold ReadersServed ReadersCount
  rw [some_waiting hi]
  constructor
  · intro h hw hn
    obtain ⟨f, hf⟩ := h hw hn
    exact notified_pos hf
  · intro h hw hn
    obtain ⟨f, hf, -⟩ := some_notified hi (h hw hn)
    exact ⟨f, hf⟩

end Count

end Sys

/-! ## What one step does -/

section Steps

variable [WillWake W] {s s' : Sys W} {f : Ptr} {mode : Mode} {w : W}

/-- Only the event of one mode is touched. -/
theorem Sys.Inv.of_site (mode : Mode)
    (hrest : ∀ m, m ≠ mode →
      s'.queue m = s.queue m ∧ Seated s'.futs (· = m) (s.queue m) ∧
      (s.queue m).Plain ∧ (s.queue m).Tracked s'.woken s'.latest)
    (h1 : Seated s'.futs (· = mode) (s'.queue mode)) (h2 : (s'.queue mode).Plain)
    (h3 : (s'.queue mode).Tracked s'.woken s'.latest) : s'.Inv := by
  refine ⟨fun m => ?_, fun m => ?_, fun m => ?_⟩
  · by_cases hm : m = mode
    · exact hm ▸ h1
    · rw [(hrest m hm).1]
      exact (hrest m hm).2.1
  · by_cases hm : m = mode
    · exact hm ▸ h2
    · rw [(hrest m hm).1]
      exact (hrest m hm).2.2.1
  · by_cases hm : m = mode
    · exact hm ▸ h3
    · rw [(hrest m hm).1]
      exact (hrest m hm).2.2.2

omit [WillWake W] in
theorem queue_setSite_self (l : RwLock W) (mode : Mode) (e : Event Unit W) :
    (l.setSite mode e).site mode = e := by
  cases mode with
  | read => rfl
  | write => rfl

omit [WillWake W] in
theorem queue_setSite_ne (l : RwLock W) {mode m : Mode} (hm : m ≠ mode) (e : Event Unit W) :
    (l.setSite mode e).site m = l.site m := by
  cases mode with
  | read =>
      cases m with
      | read => exact (hm rfl).elim
      | write => rfl
  | write =>
      cases m with
      | read => rfl
      | write => exact (hm rfl).elim

omit [WillWake W] in
theorem cells_setSite (l : RwLock W) (mode : Mode) (e : Event Unit W) :
    (l.setSite mode e).cells = l.cells := by
  cases mode with
  | read => rfl
  | write => rfl

theorem next_poll (h : s.next (.poll f w) = some s') :
    ∃ mode stage, s.futs f = some (mode, stage) ∧ stage ≠ .returned ∧
      s' = s.pollFuture f mode stage w := by
  rw [Sys.next] at h
  split at h
  · rename_i mode hf
    exact ⟨mode, _, hf, by simp, (Option.some.inj h).symm⟩
  · rename_i mode hf
    exact ⟨mode, _, hf, by simp, (Option.some.inj h).symm⟩
  · cases h

omit [WillWake W] in
theorem settle_queue (s : Sys W) (f : Ptr) (mode : Mode) (w : W)
    (out : WaitOut Cells Unit Unit W) :
    (s.settle f mode w out).queue mode = out.view.1 ∧
      ∀ m, m ≠ mode → (s.settle f mode w out).queue m = s.queue m := by
  refine ⟨?_, fun m hm => ?_⟩
  · cases mode with
    | read => rfl
    | write => rfl
  · exact congrArg Event.queue (queue_setSite_ne s.lock hm out.event)

/-- One poll of a future that has not returned: the invariant, and the
event it does not wait on. -/
theorem poll_inv {stage : Stage} (hi : s.Inv) (hf : s.futs f = some (mode, stage))
    (hst : stage ≠ .returned) :
    (s.pollFuture f mode stage w).Inv ∧
      ∀ m, m ≠ mode → (s.pollFuture f mode stage w).queue m = s.queue m := by
  have hs := (hi.seated mode).canPoll rfl hf hst
  have hout : ∀ m, m ≠ mode → ∀ k, k = m → s.futs f ≠ some (k, .suspended) := by
    rintro m hm _ rfl he
    rw [hf] at he
    cases he
    exact hm rfl
  obtain ⟨hq, hrest⟩ := settle_queue s f mode w
    ((loopOf mode).poll f w stage (s.lock.site mode) s.lock.cells)
  have hwoken : ((loopOf mode).poll f w stage (s.lock.site mode) s.lock.cells).woken = [] :=
    WaitLoop.poll_woken hs
  have hlog : (s.pollFuture f mode stage w).woken = s.woken := by
    show s.woken ++ _ = _
    rw [hwoken, List.append_nil]
  refine ⟨.of_site mode (fun m hm => ⟨hrest m hm, ?_, hi.plain m, ?_⟩) ?_ ?_ ?_, hrest⟩
  · refine (hi.seated m).elsewhere (hout m hm) ?_
    rintro _ rfl he
    exact hm (congrArg Prod.fst (Option.some.inj he)).symm
  · rw [hlog]
    exact (hi.tracked m).elsewhere ((hi.seated m).absent (hout m hm)) _
  · rw [show (s.pollFuture f mode stage w).queue mode = _ from hq]
    exact (hi.seated mode).poll rfl (WaitLoop.mem_ids_poll hs)
  · rw [show (s.pollFuture f mode stage w).queue mode = _ from hq]
    exact (hi.plain mode).polled (WaitLoop.polled hs)
  · rw [show (s.pollFuture f mode stage w).queue mode = _ from hq, hlog]
    exact (hi.tracked mode).polled (WaitLoop.polled hs)

/-- A future is made, or dropped where it does not wait. -/
theorem inv_elsewhere {fut : Option (Mode × Stage)} (hi : s.Inv)
    (hold : ∀ k, s.futs f ≠ some (k, .suspended)) (hnew : ∀ k, fut ≠ some (k, .suspended)) :
    ({ s with futs := Function.update s.futs f fut } : Sys W).Inv :=
  ⟨fun m => (hi.seated m).elsewhere (fun k _ => hold k) fun k _ => hnew k, hi.plain, hi.tracked⟩

theorem next_call (hi : s.Inv) (h : s.next (.call mode f) = some s') :
    s'.Inv ∧ s'.lock = s.lock := by
  rw [Sys.next] at h
  split at h
  · rename_i hf
    cases h
    exact ⟨inv_elsewhere hi (fun k => by rw [hf]; simp) (fun k => by simp), rfl⟩
  · cases h

/-- A future is dropped. -/
theorem next_cancel (hi : s.Inv) (h : s.next (.cancel f) = some s') :
    s'.Inv ∧ s'.lock.cells = s.lock.cells ∧
      ((s'.lock = s.lock ∧ ∀ m, ¬ s.Waits m f) ∨
        ∃ mode, s.Waits mode f ∧ (∀ m, m ≠ mode → s'.queue m = s.queue m) ∧
          s'.queue mode = ((s.queue mode).drop f).event) := by
  rw [Sys.next] at h
  split at h
  · cases h
  · rename_i mode hf
    cases h
    have hrest : ∀ m, m ≠ mode →
        ((s.lock.setSite mode ((s.lock.site mode).drop f).event).site m).queue = s.queue m :=
      fun m hm => congrArg Event.queue (queue_setSite_ne _ hm _)
    have hq : ((s.lock.setSite mode ((s.lock.site mode).drop f).event).site mode).queue =
        ((s.queue mode).drop f).event := by
      rw [queue_setSite_self]
      exact Event.queue_drop ..
    refine ⟨.of_site (s := s) mode (fun m hm => ⟨hrest m hm, ?_, hi.plain m, ?_⟩) ?_ ?_ ?_,
      cells_setSite .., .inr ⟨mode, hf, hrest, hq⟩⟩
    · refine (hi.seated m).elsewhere ?_ (fun k _ => by simp)
      rintro k rfl he
      rw [hf] at he
      cases he
      exact hm rfl
    · exact (hi.tracked m).mono (fun _ => id) _
    · show Seated _ _ ((s.lock.setSite mode _).site mode).queue
      rw [hq]
      exact (hi.seated mode).drop f
    · show ((s.lock.setSite mode _).site mode).queue.Plain
      rw [hq]
      exact (hi.plain mode).drop (s.nodup mode) f
    · show ((s.lock.setSite mode _).site mode).queue.Tracked
        (s.woken ++ ((s.lock.site mode).drop f).woken) _
      rw [hq, Event.drop_woken]
      exact (hi.tracked mode).drop f
  · rename_i hnot hf
    cases h
    have hw : ∀ m, ¬ s.Waits m f := fun m hm => hnot m (Option.some.inj (hf.symm.trans hm))
    exact ⟨inv_elsewhere hi hw (fun k => by simp), rfl, .inl ⟨rfl, hw⟩⟩

omit [WillWake W] in
theorem queue_cells (cells : Cells) (m : Mode) :
    ({ s with lock := { s.lock with cells } } : Sys W).queue m = s.queue m := by
  cases m with
  | read => rfl
  | write => rfl

/-- Nobody's listener is touched. -/
theorem inv_congr (hi : s.Inv) (hq : ∀ m, s'.queue m = s.queue m) (hf : s'.futs = s.futs)
    (hl : s'.latest = s.latest) {more : List W} (hw : s'.woken = s.woken ++ more) : s'.Inv := by
  refine ⟨fun m => ?_, fun m => ?_, fun m => ?_⟩
  · rw [hq, hf]
    exact hi.seated m
  · rw [hq]
    exact hi.plain m
  · rw [hq, hl, hw]
    exact (hi.tracked m).mono (fun _ => id) more

/-- The event of one mode is notified once. -/
theorem inv_notify (mode : Mode) (hi : s.Inv) (hf : s'.futs = s.futs) (hl : s'.latest = s.latest)
    (hw : s'.woken = s.woken ++ ((s.queue mode).notify (Notify 1) ()).woken)
    (hq : s'.queue mode = ((s.queue mode).notify (Notify 1) ()).event)
    (hrest : ∀ m, m ≠ mode → s'.queue m = s.queue m) : s'.Inv := by
  refine .of_site (s := s) mode (fun m hm => ⟨hrest m hm, ?_, hi.plain m, ?_⟩) ?_ ?_ ?_
  · rw [hf]
    exact hi.seated m
  · rw [hl, hw]
    exact (hi.tracked m).mono (fun _ => id) _
  · rw [hq, hf]
    exact (hi.seated mode).congr (Queue.ids_notify ..)
  · rw [hq]
    exact (hi.plain mode).notify rfl ()
  · rw [hq, hl, hw]
    exact (hi.tracked mode).notify (Notify 1) ()

/-- `try_read` and `try_write` leave the lock as it was, or guarded. -/
theorem next_try {l : Label W} (hl : l = .tryRead ∨ l = .tryWrite) (hi : s.Inv)
    (h : s.next l = some s') :
    s'.Inv ∧ (∀ m, s'.queue m = s.queue m) ∧ (s'.lock.cells = s.lock.cells ∨
      (s.lock.cells.writeGuards = 0 ∧ 0 < s'.lock.cells.readGuards) ∨
      s'.lock.cells.writeGuards = 1) := by
  rcases hl with rfl | rfl
  · cases h
    unfold RwLock.tryRead
    cases hc : s.lock.cells.tryRead with
    | none => exact ⟨hi, fun _ => rfl, .inl rfl⟩
    | some c =>
        obtain ⟨h1, -, -, h2⟩ := Cells.tryRead_some hc
        have hpos : 0 < c.readGuards := by omega
        exact ⟨inv_congr hi (queue_cells c) rfl rfl (List.append_nil _).symm, queue_cells c,
          .inr (.inl ⟨h1, hpos⟩)⟩
  · cases h
    unfold RwLock.tryWrite
    cases hc : s.lock.cells.tryWrite with
    | none => exact ⟨hi, fun _ => rfl, .inl rfl⟩
    | some c =>
        exact ⟨inv_congr hi (queue_cells c) rfl rfl (List.append_nil _).symm, queue_cells c,
          .inr (.inr (Cells.tryWrite_some hc))⟩

omit [WillWake W] in
theorem dropRead_spec (l : RwLock W) (h : 0 < l.cells.readGuards) :
    (l.dropRead h).1.cells = l.cells.dropRead h ∧ (l.dropRead h).1.noWriters = l.noWriters ∧
      ((l.cells.readGuards = 1 ∧
          (l.dropRead h).1.noReaders = (l.noReaders.notify (Notify 1) ()).event ∧
          (l.dropRead h).2 = (l.noReaders.notify (Notify 1) ()).woken) ∨
        (1 < l.cells.readGuards ∧ (l.dropRead h).1.noReaders = l.noReaders ∧
          (l.dropRead h).2 = [])) := by
  have hraw : (l.cells.dropRead h).raw.readers = l.cells.readGuards - 1 :=
    (l.cells.dropRead h).readers_eq
  simp only [RwLock.dropRead]
  split
  · exact ⟨rfl, rfl, .inl ⟨by omega, rfl, rfl⟩⟩
  · exact ⟨rfl, rfl, .inr ⟨by omega, rfl, rfl⟩⟩

/-- A read guard is dropped; the last one notifies a writer. -/
theorem next_dropRead (hi : s.Inv) (h : s.next .dropRead = some s') :
    s'.Inv ∧ s'.lock.cells.writeGuards = 0 ∧
      s.lock.cells.readGuards = s'.lock.cells.readGuards + 1 ∧
      s'.queue .read = s.queue .read ∧
      ((s'.lock.cells.readGuards = 0 ∧
          s'.queue .write = ((s.queue .write).notify (Notify 1) ()).event) ∨
        (0 < s'.lock.cells.readGuards ∧ s'.queue .write = s.queue .write)) := by
  rw [Sys.next] at h
  split at h
  · rename_i hpos
    obtain ⟨hc, hw, hcases⟩ := dropRead_spec s.lock hpos
    obtain rfl := Option.some.inj h
    have hg : (s.lock.dropRead hpos).1.cells.readGuards = s.lock.cells.readGuards - 1 := by
      rw [hc]
      rfl
    have hw0 : (s.lock.dropRead hpos).1.cells.writeGuards = 0 := by
      rw [hc]
      exact s.lock.cells.writeGuards_of_reading hpos
    have hread : ((s.lock.dropRead hpos).1.site .read).queue = s.queue .read :=
      congrArg Event.queue hw
    rcases hcases with ⟨h1, h2, h3⟩ | ⟨h1, h2, h3⟩
    · have hwrite : ((s.lock.dropRead hpos).1.site .write).queue =
          ((s.queue .write).notify (Notify 1) ()).event :=
        (congrArg Event.queue h2).trans (Event.queue_notify ..)
      refine ⟨inv_notify .write hi rfl rfl ?_ hwrite fun m hm => ?_, hw0, ?_, hread,
        .inl ⟨?_, hwrite⟩⟩
      · show s.woken ++ _ = _
        rw [h3, Event.notify_woken]
        rfl
      · cases m with
        | read => exact hread
        | write => exact (hm rfl).elim
      · show _ = (s.lock.dropRead hpos).1.cells.readGuards + 1
        omega
      · show (s.lock.dropRead hpos).1.cells.readGuards = 0
        omega
    · have hwrite : ((s.lock.dropRead hpos).1.site .write).queue = s.queue .write :=
        congrArg Event.queue h2
      refine ⟨inv_congr hi (fun m => ?_) rfl rfl rfl, hw0, ?_, hread, .inr ⟨?_, hwrite⟩⟩
      · cases m with
        | read => exact hread
        | write => exact hwrite
      · show _ = (s.lock.dropRead hpos).1.cells.readGuards + 1
        omega
      · show 0 < (s.lock.dropRead hpos).1.cells.readGuards
        omega
  · cases h

/-- A write guard is dropped and notifies a reader. -/
theorem next_dropWrite (hi : s.Inv) (h : s.next .dropWrite = some s') :
    s'.Inv ∧ s'.lock.cells.writeGuards = 0 ∧ s'.lock.cells.readGuards = 0 ∧
      s'.queue .write = s.queue .write ∧
      s'.queue .read = ((s.queue .read).notify (Notify 1) ()).event := by
  rw [Sys.next] at h
  split at h
  · rename_i hpos
    obtain rfl := Option.some.inj h
    have hread : ((s.lock.dropWrite hpos).1.site .read).queue =
        ((s.queue .read).notify (Notify 1) ()).event := Event.queue_notify ..
    refine ⟨inv_notify .read hi rfl rfl ?_ hread fun m hm => ?_, rfl,
      s.lock.cells.readGuards_of_writing hpos, rfl, hread⟩
    · show s.woken ++ (s.lock.noWriters.notify (Notify 1) ()).woken = _
      rw [Event.notify_woken]
      rfl
    · cases m with
      | read => exact (hm rfl).elim
      | write => rfl
  · cases h

end Steps

end RwLock

end Unsend

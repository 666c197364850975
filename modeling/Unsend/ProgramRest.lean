import Unsend.BarrierPast
import Unsend.Parts

/-!
# Programs asleep

The tasks of a program share any number of mutexes, semaphores, locks for
readers and a writer, once cells, barriers and channels, and its executor
is driven by `run()` futures. `asleep_stuck`: when all of those sleep, no
future that a task is suspended in could go on if it were polled again. A
task that waits for a mutex waits for a guard that is alive, one that
waits for an item waits beside an empty queue, and so on: a program stops
only for a reason that is to be found in the program.

The semaphore, the lock and the channel may strand their waiters by
themselves; of them this holds in the runs that do not.
-/

namespace Unsend

/-! ## Who waits has a reason -/

/-- The future at this address is suspended, and is for this. -/
def Futures.Suspends {K : Type} (futs : Futures K) (p : Ptr) (k : K) : Prop :=
  futs p = some (k, .suspended)

namespace Mutex

variable {W : Type} [WillWake W] {s : Sys W} {f : Ptr} {k : Unit}

theorem stuck (h : system.Reachable s) (hn : s.queue.numNotified = 0)
    (hf : s.futs.Suspends f k) : tryBorrowMut s.mutex.borrowed = none := by
  have hi := inv_reachable h
  have hlen := hi.seated.some_suspended.mp ⟨f, k, trivial, hf⟩
  cases hb : s.mutex.borrowed with
  | true => rfl
  | false =>
      have := hi.served hb hlen
      omega

end Mutex

namespace Semaphore

variable {W : Type} [WillWake W] {s : Sys W} {f : Ptr} {guard : GuardKind} {permits : Nat}
  {tr : List (Sys W × Label W)}

theorem stuck (h : (system permits).Run tr s) (hk : ∀ x ∈ tr, x.1.Spares x.2)
    (hn : s.queue.numNotified = 0) (hf : s.futs.Suspends f guard) :
    takePermit guard s.sem.permits = none := by
  have hserved : s.Served := by
    refine System.Reachable.of_restrict (P := Sys.Served) ?_ (fun s l s' hr hs hstep hc => ?_)
      (h.restrict hk).reachable.2
    · rintro s rfl - -
      show Queue.numWaiting (Event.queue .new) = 0
      rw [Event.queue_new]
      rfl
    · exact (served_next_iff (inv_reachable hr) hs hstep).mpr hc
  have hlen := (inv_reachable ⟨tr, h⟩).seated.some_suspended.mp ⟨f, guard, trivial, hf⟩
  have hsum := s.queue.length_eq_add
  refine if_neg fun hp => ?_
  have := hserved hp hn
  omega

end Semaphore

namespace RwLock

variable [Target] {W : Type} [WillWake W] {s : Sys W} {f : Ptr} {mode : Mode}
  {tr : List (Sys W × Label W)}

omit [WillWake W] in
theorem attempt_write {c : Cells} (h : 0 < c.readGuards ∨ 0 < c.writeGuards) :
    (loopOf .write).attempt c = none := by
  have htry : c.tryWrite = none := by
    unfold Cells.tryWrite
    split
    · rename_i raw hraw
      rw [c.tryWrite_raw, if_neg (by omega)] at hraw
      cases hraw
    · rfl
  simp [loopOf, write, htry]

theorem stuck (h : system.Run tr s) (hw : ∀ x ∈ tr, x.1.KeepsWriters x.2)
    (hr : ∀ x ∈ tr, x.1.KeepsReaders x.2) (hn : ∀ mode, (s.queue mode).numNotified = 0)
    (hf : s.futs.Suspends f mode) : (loopOf mode).attempt s.lock.cells = none := by
  have hi := inv_reachable ⟨tr, h⟩
  have hlen := ((hi.seated mode).some_suspended).mp ⟨f, mode, rfl, hf⟩
  have hsum := (s.queue mode).length_eq_add
  have hempty : ∀ mode, (Sys.init : Sys W).queue mode = [] := fun mode => by
    cases mode with
    | read => exact Event.queue_new
    | write => exact Event.queue_new
  cases mode with
  | write =>
      have hcount : s.WritersCount := by
        refine System.Reachable.of_restrict (P := Sys.WritersCount) ?_
          (fun s l s' hr hs hstep hc => ?_) (h.restrict hw).reachable.2
        · rintro s rfl - - hpos
          rw [hempty] at hpos
          cases hpos
        · exact (writersCount_next_iff (inv_reachable hr) hs hstep).mpr hc
      refine attempt_write ?_
      by_contra hno
      have hfree : s.lock.cells.readGuards = 0 ∧ s.lock.cells.writeGuards = 0 := by omega
      have h0 := hn .read
      have h1 := hn .write
      rcases hcount hfree.1 hfree.2 hlen with h | h
      · omega
      · omega
  | read =>
      have hcount : s.ReadersCount := by
        refine System.Reachable.of_restrict (P := Sys.ReadersCount) ?_
          (fun s l s' hr hs hstep hc => ?_) (h.restrict hr).reachable.2
        · rintro s rfl - hpos
          rw [hempty] at hpos
          cases hpos
        · exact (readersCount_next_iff (inv_reachable hr) hs hstep).mpr hc
      have h0 := hn .read
      rcases attempt_cases .read s.lock.cells with ⟨a, c', -, ⟨-, hfree, -⟩ |
        ⟨hmode, -⟩⟩ | ⟨hno, -⟩
      · have := hcount hfree (by omega)
        omega
      · cases hmode
      · exact hno

end RwLock

namespace OnceCell

variable [Target] {T E W : Type} [WillWake W] {s : Sys T E W} {f : Ptr} {fut : Fut T}
  {data : Option T}

/-- Where the future waits, its loop would go around once more. -/
def Fut.Stuck (fut : Fut T) (c : OnceCell T W) : Prop :=
  match fut.site with
  | .active => getOrTryInit.attempt c.cells = none
  | .passive => wait.attempt c.cells = none
  | .setter => True

theorem stuck (h : (system data).Reachable s) (ha : s.cell.active.queue.numNotified = 0)
    (hp : s.cell.passive.queue.numNotified = 0) (hf : s.futs.Suspends f fut) :
    fut.Stuck s.cell := by
  have hi := inv_reachable h
  have hsum := s.cell.active.queue.length_eq_add
  have hsum' := s.cell.passive.queue.length_eq_add
  unfold Fut.Stuck
  cases hsite : fut.site with
  | active =>
      have hlen := hi.lists.active.some_suspended.mp ⟨f, fut, hsite, hf⟩
      have hdata : s.cell.data = none := by
        by_contra hd
        have := (hi.lists.full hd).1
        omega
      have hwriting : s.cell.writing = true := by
        by_contra hw
        have := hi.lists.served hdata (by simpa using hw) hlen
        omega
      simp [getOrTryInit, OnceCell.cells, hdata, hwriting]
  | passive =>
      have hlen := hi.lists.passive.some_suspended.mp ⟨f, fut, hsite, hf⟩
      refine if_pos ?_
      show s.cell.data.isNone = true
      cases hd : s.cell.data with
      | none => rfl
      | some v =>
          have := (hi.lists.full (by rw [hd]; simp)).2
          omega
  | setter => trivial

end OnceCell

namespace Channel

variable [Target] {T W : Type} [WillWake W] {s : Sys T W} {f r r₀ : Ptr}
  {tr : List (Sys T W × Label T W)}

theorem stuck (h : (system r₀).Run tr s) (hk : ∀ x ∈ tr, x.1.KeepsReceivers x.2)
    (hn : s.queue.numNotified = 0) (hf : s.futs.Suspends f r) :
    recv.attempt ⟨s.chan.data, s.chan.closed⟩ = none := by
  have hserved : s.Served := by
    refine System.Reachable.of_restrict (P := Sys.Served) ?_ (fun s l s' hr hs hstep hc => ?_)
      (h.restrict hk).reachable.2
    · rintro s rfl hd
      exact (hd rfl).elim
    · exact (served_next_iff (inv_reachable hr) hs hstep).mpr hc
  have hi := inv_reachable ⟨tr, h⟩
  have hlen := hi.seated.some_suspended.mp ⟨f, r, trivial, hf⟩
  have hsum := s.queue.length_eq_add
  have hdata : s.chan.data = [] := by
    by_contra hd
    have := hserved hd hn
    omega
  have hopen : s.chan.closed = false := by
    rw [Bool.eq_false_iff]
    intro hc
    have := (closing_reachable ⟨tr, h⟩).reached hc
    omega
  unfold recv
  dsimp only
  rw [hdata, hopen]
  rfl

end Channel

namespace Barrier

variable [Target] {W : Type} [WillWake W] {s : Sys W} {n : Nat} {f : Ptr} {x : Option Arrived}

theorem stuck (h : (system n).Reachable s) (hn : s.queue.numNotified = 0)
    (hf : s.futs.Suspends f x) :
    ∃ a, x = some a ∧ (waiting n a.localGen).attempt s.barrier.cells = none := by
  obtain ⟨tr, hr⟩ := h
  have hc := counted_run hr
  obtain ⟨a, rfl, -⟩ := hc.known f x hf
  obtain ⟨st, hst⟩ := Queue.mem_ids.mp (hc.seated.present trivial hf)
  refine ⟨a, rfl, attempt_of_mem ⟨tr, hr⟩ hst ?_ hf⟩
  exact Queue.numNotified_eq_zero.mp hn _ hst

end Barrier

/-! ## The kinds of components -/

namespace Program

open Tasks (TaskId)

/-- What tasks may share; a channel carries items of type `T`, and a cell
stores them. -/
inductive Kind (T : Type) where
  | mutex
  | semaphore (permits : Nat)
  | rwLock
  | onceCell (data : Option T)
  | barrier (n : Nat)
  | channel (r : Ptr)
  deriving DecidableEq

namespace Kind

variable [Target] {T : Type}

/-- The setters of a cell fail with an `E`. -/
def part (E : Type) : Kind T → Part
  | mutex => Mutex.part
  | semaphore permits => Semaphore.part permits
  | rwLock => RwLock.part
  | onceCell data => OnceCell.part E data
  | barrier n => Barrier.part n
  | channel r => Channel.part T r

variable {E : Type}

/-- No future that is suspended in the component could go on. -/
def Stuck : (k : Kind T) → (k.part E).State → Prop
  | mutex, (s : Mutex.Sys TaskId) =>
      ∀ f k, s.futs.Suspends f k → Mutex.tryBorrowMut s.mutex.borrowed = none
  | semaphore _, (s : Semaphore.Sys TaskId) =>
      ∀ f guard, s.futs.Suspends f guard → Semaphore.takePermit guard s.sem.permits = none
  | rwLock, (s : RwLock.Sys TaskId) =>
      ∀ f mode, s.futs.Suspends f mode → (RwLock.loopOf mode).attempt s.lock.cells = none
  | onceCell _, (s : OnceCell.Sys T E TaskId) => ∀ f fut, s.futs.Suspends f fut →
      fut.Stuck s.cell
  | barrier n, (s : Barrier.Sys TaskId) => ∀ f x, s.futs.Suspends f x →
      ∃ a, x = some a ∧ (Barrier.waiting n a.localGen).attempt s.barrier.cells = none
  | channel _, (s : Channel.Sys T TaskId) =>
      ∀ f r, s.futs.Suspends f r → Channel.recv.attempt ⟨s.chan.data, s.chan.closed⟩ = none

/-- The steps that do not strand anybody. -/
def Spares : (k : Kind T) → (k.part E).State → (k.part E).Label → Prop
  | semaphore _, (s : Semaphore.Sys TaskId), l => s.Spares l
  | rwLock, (s : RwLock.Sys TaskId), l => s.KeepsWriters l ∧ s.KeepsReaders l
  | channel _, (s : Channel.Sys T TaskId), l => s.KeepsReceivers l
  | _, _, _ => True

/-- Where nobody who waits has been woken, nobody waits without a reason. -/
theorem stuck_of_unheard {k : Kind T} {tr : List ((k.part E).State × (k.part E).Label)}
    {s : (k.part E).State} (h : (k.part E).system.Run tr s) (hk : ∀ x ∈ tr, k.Spares x.1 x.2)
    (hu : (k.part E).Unheard tr s) : k.Stuck s := by
  cases k with
  | mutex => exact fun f k => Mutex.stuck ⟨tr, h⟩ (hu.none_notified h ())
  | semaphore permits => exact fun f guard => Semaphore.stuck h hk (hu.none_notified h ())
  | rwLock =>
      exact fun f mode => RwLock.stuck h (fun x hx => (hk x hx).1) (fun x hx => (hk x hx).2)
        (hu.none_notified h)
  | onceCell data =>
      exact fun f fut => OnceCell.stuck ⟨tr, h⟩ (hu.none_notified h .active)
        (hu.none_notified h .passive)
  | barrier n => exact fun f x => Barrier.stuck ⟨tr, h⟩ (hu.none_notified h ())
  | channel r => exact fun f r => Channel.stuck h hk (hu.none_notified h ())

end Kind

/-! ## Asleep -/

/-- Any number of components of each kind. -/
abbrev parts [Target] (T E : Type) : Kind T × Nat → Part := fun c => c.1.part E

/-- The futures that drive the executor are `run()` futures. -/
def Sys.RunsOnly {ι W : Type} {P : ι → Part} (s : Sys P W) : Label P W → Prop
  | .exec l => s.exec.RunsOnly l
  | .part _ _ => True

section Asleep

variable {ι W : Type} {P : ι → Part} [DecidableEq ι] [WillWake W] {s : Sys P W}
  {tr : List (Sys P W × Label P W)} {id : Option Nat}

/-- No wake-up is lost between the components of a program and its
executor. A listener waits with the waker of the task that polled its
future last. Once it is notified, that task is running, or it will be: it is
scheduled, if it has not been cancelled. -/
theorem notified_scheduled [Target] {T E : Type} [DecidableEq T] {s : Sys (parts T E) W}
    {tr : List (Sys (parts T E) W × Label (parts T E) W)}
    (h : (system (parts T E) id).Run tr s) (hk : ∀ x ∈ tr, x.1.Keeps x.2) {c : Kind T × Nat}
    {site : (parts T E c).Site} {p : Ptr} {st : State (parts T E c).Tag TaskId}
    (hm : (p, st) ∈ (parts T E c).listeners (s.parts c) site) :
    ∃ i n, s.latest c p = some (i, n) ∧ (∀ w, st = .waiting w → w = i) ∧
      (st.isNotified = true → i ∈ s.exec.running ∨
        ∃ t, s.exec.tasks i = some t ∧ t.future ≠ .gone ∧
          (t.closed = false → t.scheduled = true)) := by
  obtain ⟨i, n, hlatest, -, hst⟩ := Part.tracked_run (part_run h) site p st hm
  rw [← latest_run h c] at hlatest
  refine ⟨i, n, hlatest, ?_, fun hnotified => ?_⟩
  · rintro w rfl
    rcases hst with rfl | he
    · rfl
    · exact beq_iff_eq.mp he
  · rcases fresh_run h hk c p i n ⟨site, Queue.mem_ids_of_mem hm⟩ hlatest with
      hrun | ⟨t, ht, hg, hle⟩
    · exact .inl hrun
    · refine .inr ⟨t, ht, hg, fun hc => ?_⟩
      cases st with
      | created => cases hnotified
      | waiting w => cases hnotified
      | notified tag b =>
          obtain ⟨w, hw, he⟩ := hst
          obtain rfl : w = i := by
            rcases he with rfl | he
            · rfl
            · exact beq_iff_eq.mp he
          exact answered_reachable ⟨tr, h⟩ w t ht ⟨hg, hc⟩ c
            (List.drop_subset_drop_left _ hle hw)

omit [DecidableEq ι] in
theorem execSteps_runsOnly {l : Label P W} {l' : Tasks.Label W} {e : Tasks.Sys W}
    (h : s.RunsOnly l) (hl : l' ∈ execSteps id s l) : e.RunsOnly l' := by
  cases l with
  | exec l =>
      obtain rfl := List.mem_singleton.mp hl
      cases l' with
      | tick l =>
          cases l with
          | create k oneShot => exact h
          | _ => trivial
      | _ => trivial
  | part c l =>
      rw [execSteps] at hl
      cases hnext : (P c).next (s.parts c) l with
      | none =>
          rw [hnext] at hl
          cases hl
      | some st =>
          rw [hnext] at hl
          rcases List.mem_append.mp hl with hl | hl
          · obtain ⟨x, -, rfl⟩ := List.mem_map.mp hl
            trivial
          · obtain ⟨i, -, rfl⟩ := List.mem_map.mp hl
            trivial

omit [DecidableEq ι] in
theorem execRun_runsOnly (h : ∀ x ∈ tr, x.1.RunsOnly x.2) :
    ∀ x ∈ execRun id tr, x.1.RunsOnly x.2 := by
  intro x hx
  obtain ⟨y, hy, hx⟩ := List.mem_flatMap.mp hx
  exact execSteps_runsOnly (h y hy) (label_mem_of_execTrace hx)

/-- Where the executor of a program sleeps, and no scheduler is between its
push and its wake, every future that a task is suspended in waits for a
reason. -/
theorem asleep_stuck [Target] {T E : Type} [DecidableEq T] {s : Sys (parts T E) W}
    {tr : List (Sys (parts T E) W × Label (parts T E) W)}
    (h : (system (parts T E) id).Run tr s) (hk : ∀ x ∈ tr, x.1.Keeps x.2)
    (hruns : ∀ x ∈ tr, x.1.RunsOnly x.2)
    (ha : Executor.Sys.Asleep (Tasks.schedTrace (execRun id tr)) s.exec.sched)
    (hp : s.exec.sched.pendingWakes = 0) (c : Kind T × Nat)
    (hspares : ∀ x ∈ partRun c tr, c.1.Spares x.1 x.2) : c.1.Stuck (s.parts c) := by
  have hrest := Tasks.atRest_of_asleep (exec_run h) (execRun_runsOnly hruns) ha hp
  exact Kind.stuck_of_unheard (part_run h) hspares (rest_unheard h hk hrest c)

omit [WillWake W] in
theorem mem_of_partRun {c : ι} {y : (P c).State × (P c).Label} (h : y ∈ partRun c tr) :
    ∃ x ∈ tr, x.2 = .part c y.2 := by
  obtain ⟨⟨s, l⟩, hx, hy⟩ := List.mem_filterMap.mp h
  refine ⟨(s, l), hx, ?_⟩
  cases l with
  | exec l => cases hy
  | part c' l =>
      change (if h : c' = c then some (s.parts c, h ▸ l) else none) = some y at hy
      by_cases hc : c' = c
      · subst hc
        obtain rfl := Option.some.inj ((dif_pos rfl).symm.trans hy)
        rfl
      · cases (dif_neg hc).symm.trans hy

/-- Where the latest poll of a future is known, it has been polled. -/
theorem polled_run (h : (system P id).Run tr s) {c : ι} {p : Ptr} {i : TaskId} {n : Nat}
    (hn : s.latest c p = some (i, n)) :
    ∃ x ∈ tr, ∃ l, x.2 = .part c l ∧ (P c).polls l = some (p, i) := by
  rw [latest_run h] at hn
  obtain ⟨y, hy, hpoll⟩ := System.mem_of_latest hn
  obtain ⟨x, hx, hl⟩ := mem_of_partRun hy
  refine ⟨x, hx, y.2, hl, ?_⟩
  obtain ⟨z, hz, he⟩ := Option.bind_eq_some_iff.mp hpoll
  split at he
  · rename_i hp
    rw [hz, ← hp]
    cases he
    rfl
  · cases he

end Asleep

/-- Somebody has the mutex, and a task is spawned that waits for it; then
the `run()` future is suspended. -/
def lockThenSleep [Target] : List (Label (parts Nat Unit) Nat) :=
  [.part (.mutex, 0) .tryLock, .exec (.spawn 0 0 0 [] (some 7)), .exec (.tick (.create 1 false)),
    .exec (.tick (.poll 1 10)), .exec (.tick .step), .part (.mutex, 0) (.call 5),
    .part (.mutex, 0) (.poll 5 0), .exec (.ret false [] (some 7)), .exec (.tick .step),
    .exec (.tick .step), .exec (.tick .step), .exec (.tick .step), .exec (.tick .step),
    .exec (.tick .step)]

/-- The `lock()` future at address 5. -/
def lockFut [Target] (s : Sys (parts Nat Unit) Nat) : Option (Unit × Stage) :=
  (show Mutex.Sys TaskId from s.parts (.mutex, 0)).futs 5

/-- Then the guard is dropped. -/
def lockThenUnlock [Target] : List (Label (parts Nat Unit) Nat) :=
  lockThenSleep ++ [.part (.mutex, 0) .dropGuard]

/-- What the executor is told to do in that run. -/
theorem tick_lockThenUnlock [Target] {l : Executor.Label TaskId Nat}
    (h : .exec (.tick l) ∈ lockThenUnlock) :
    l = .create 1 false ∨ l = .poll 1 10 ∨ l = .step := by
  simpa [lockThenUnlock, lockThenSleep] using h

/-- The mutex is the only component that is polled. -/
theorem polls_lockThenUnlock [Target] {c : Kind Nat × Nat} {l : (parts Nat Unit c).Label} {p : Ptr}
    {i : TaskId} (h : .part c l ∈ lockThenUnlock)
    (hp : (parts Nat Unit c).polls l = some (p, i)) :
    c = (.mutex, 0) ∧ i = 0 := by
  simp only [lockThenUnlock, lockThenSleep, List.mem_append, List.mem_cons, List.not_mem_nil,
    reduceCtorEq, or_false, false_or] at h
  rcases h with (h | h | h) | h
  · cases h
    cases hp
  · cases h
    cases hp
  · cases h
    cases hp
    exact ⟨rfl, rfl⟩
  · cases h
    cases hp

theorem exec_lockThenSleep :
    letI := Target.bits64
    (exec (Sys.next (some 7)) (.init (parts Nat Unit) (some 7)) lockThenSleep).map (fun s =>
      (s.exec.sched.stack.length, s.exec.sched.tickers 1, s.exec.sched.pendingWakes,
        s.exec.sched.woken, (lockFut s).map Prod.snd)) =
      some (0, some ⟨false, true, .parked⟩, 0, [], some .suspended) := by
  decide

theorem exec_lockThenUnlock :
    letI := Target.bits64
    (exec (Sys.next (some 7)) (.init (parts Nat Unit) (some 7)) lockThenUnlock).map (fun s =>
      ((show Mutex.Sys TaskId from s.parts (.mutex, 0)).queue, s.exec.running)) =
      some ([(5, .notified () false)], []) := by
  decide

theorem seen_lockThenUnlock :
    letI := Target.bits64
    ∀ x ∈ execTrace (Sys.next (some 7)) (.init (parts Nat Unit) (some 7)) lockThenUnlock,
      x.1.began (.mutex, 0) 0 = 0 ∧
        ((x.1.exec.tasks 0).all fun t => t.future != .gone && !t.closed) = true := by
  decide

theorem keeps_lockThenUnlock :
    letI := Target.bits64
    ∀ x ∈ execTrace (Sys.next (some 7)) (.init (parts Nat Unit) (some 7)) lockThenUnlock,
      x.1.Keeps x.2 := by
  let _ : Target := .bits64
  obtain ⟨s, hrun, -⟩ := run_of_observe _ _ _ exec_lockThenUnlock
  have hrun : (system (parts Nat Unit) (some 7)).Run _ s := hrun
  rintro ⟨s0, l⟩ hx
  have hl := label_mem_of_execTrace hx
  obtain ⟨hbegan, htask⟩ := seen_lockThenUnlock _ hx
  cases l with
  | part c l => trivial
  | exec l =>
      cases l with
      | tick l =>
          rcases tick_lockThenUnlock hl with rfl | rfl | rfl
          · rfl
          · rfl
          · rfl
      | ret ready onDrop id =>
          intro i t hrunning ht c p n _ hlatest
          obtain ⟨tr, hsub, hbefore⟩ := hrun.before hx
          obtain ⟨y, hy, l, hyl, hpoll⟩ := polled_run hbefore hlatest
          have hpolled := label_mem_of_execTrace (hsub hy)
          rw [hyl] at hpolled
          obtain ⟨rfl, rfl⟩ := polls_lockThenUnlock hpolled hpoll
          refine ⟨?_, hbegan.trans_le (Nat.zero_le n)⟩
          obtain rfl : ready = false := by
            have : ready = false ∧ onDrop = [] ∧ id = some 7 := by
              simpa [lockThenUnlock, lockThenSleep] using hl
            exact this.1
          have htask := (Option.all_eq_true ..).mp htask t ht
          simp only [Bool.and_eq_true, bne_iff_ne, Bool.not_eq_true'] at htask
          unfold Tasks.Task.finish
          split
          · exact htask.1
          · simp [htask.1, htask.2]
      | _ => trivial

theorem scheduled_lockThenUnlock :
    letI := Target.bits64
    ∃ (s : Sys (parts Nat Unit) Nat) (i : TaskId) (n : Nat),
      s.latest (.mutex, 0) 5 = some (i, n) ∧
      (i ∈ s.exec.running ∨ ∃ t, s.exec.tasks i = some t ∧ t.future ≠ .gone ∧
        (t.closed = false → t.scheduled = true)) := by
  let _ : Target := .bits64
  obtain ⟨s, hrun, hobs⟩ := run_of_observe _ _ _ exec_lockThenUnlock
  have hm : (5, .notified () false) ∈
      (parts Nat Unit (.mutex, 0)).listeners (s.parts (.mutex, 0)) () := by
    show _ ∈ (show Mutex.Sys TaskId from s.parts (.mutex, 0)).queue
    rw [(Prod.mk.inj hobs).1]
    exact List.mem_singleton_self _
  obtain ⟨i, n, hlatest, -, hnotified⟩ := notified_scheduled hrun keeps_lockThenUnlock hm
  exact ⟨s, i, n, hlatest, hnotified rfl⟩

theorem stuck_lockThenSleep :
    letI := Target.bits64
    ∃ s : Sys (parts Nat Unit) Nat, (lockFut s).map Prod.snd = some .suspended ∧
      Kind.Stuck (E := Unit) Kind.mutex (s.parts (.mutex, 0)) := by
  let _ : Target := .bits64
  obtain ⟨s, hrun, hobs⟩ := run_of_observe _ _ _ exec_lockThenSleep
  simp only [Prod.mk.injEq] at hobs
  obtain ⟨hstack, hk, hp, hwoken, hlock⟩ := hobs
  have hrun : (system (parts Nat Unit) (some 7)).Run _ s := hrun
  refine ⟨s, hlock, asleep_stuck hrun (fun x hx => ?_) (fun x hx => ?_)
    ⟨List.length_eq_zero_iff.mp hstack, ⟨1, _, hk, rfl⟩, ?_⟩ hp (.mutex, 0)
      fun _ _ => trivial⟩
  · exact keeps_lockThenUnlock x (execTrace_append hx)
  · obtain ⟨s0, l⟩ := x
    have hl := label_mem_of_execTrace (execTrace_append hx : _ ∈ execTrace _ _ lockThenUnlock)
    cases l with
    | part c l => trivial
    | exec l =>
        cases l with
        | tick l =>
            rcases tick_lockThenUnlock hl with rfl | rfl | rfl
            · rfl
            · trivial
            · trivial
        | _ => trivial
  · rintro k w n - - ⟨w', hm, -⟩
    rw [hwoken] at hm
    simp at hm

end Program

end Unsend

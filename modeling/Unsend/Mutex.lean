import Unsend.Runs
import Unsend.WaitLoop

/-!
# The mutex

The model of `lock/mutex.rs`: a `RefCell`, whose mutable borrow is the
lock, and the event its lockers wait on. `lock` is a waiting loop around
`try_lock`, and the drop of a guard notifies one waiter.

Whoever takes the lock notifies nobody, and nobody needs to be notified
while the lock is taken: `lock_served` says that a free mutex with lockers
in its list always has one among them that was notified and woken.
-/

namespace Unsend

structure Mutex (W : Type) where
  unlocked : Event Unit W
  /-- The data is mutably borrowed. -/
  borrowed : Bool

namespace Mutex

variable {W : Type}

def new : Mutex W := ⟨.new, false⟩

/-- `RefCell::try_borrow_mut`. -/
def tryBorrowMut (borrowed : Bool) : Option (Unit × Bool) :=
  if borrowed then none else some ((), true)

def tryLock (m : Mutex W) : Option (Mutex W) :=
  (tryBorrowMut m.borrowed).map fun r => { m with borrowed := r.2 }

/-- The waiting loop of `lock`. -/
def lock : WaitLoop Bool Unit Unit where
  attempt := tryBorrowMut
  accept _ := none

/-- `MutexGuard::drop`: the waiter is notified, then the borrow ends. -/
def unlock (m : Mutex W) : NotifyOut (Mutex W) Unit W :=
  let out := m.unlocked.notify (Notify 1) ()
  ⟨⟨out.event, false⟩, out.producer, out.count, out.woken⟩

/-! ## All callers together -/

/-- A mutex with the `lock()` futures and the guards of its callers, the
wakers woken so far and, for each future, the waker of its latest poll
with the number of wakers that had been woken by then. -/
structure Sys (W : Type) where
  mutex : Mutex W
  futs : Futures Unit
  guards : Nat
  latest : Ptr → Option (W × Nat)
  woken : List W

inductive Label (W : Type) where
  /-- `lock()` is called at this address. -/
  | call (f : Ptr)
  | poll (f : Ptr) (waker : W)
  /-- The future is dropped. -/
  | cancel (f : Ptr)
  | tryLock
  | dropGuard

def Sys.init : Sys W := ⟨.new, fun _ => none, 0, fun _ => none, []⟩

section System

variable [WillWake W]

/-- What is left of one poll of a future: a guard goes to the caller. -/
def Sys.settle (s : Sys W) (f : Ptr) (w : W) (out : WaitOut Bool Unit Unit W) : Sys W where
  mutex := ⟨out.event, out.shared⟩
  futs := Function.update s.futs f (some ((), out.result.stage))
  guards := match out.result with
    | .pending => s.guards
    | .ready _ => s.guards + 1
  latest := Function.update s.latest f (some (w, s.woken.length))
  woken := s.woken ++ out.woken

def Sys.pollFuture (s : Sys W) (f : Ptr) (stage : Stage) (w : W) : Sys W :=
  s.settle f w (lock.poll f w stage s.mutex.unlocked s.mutex.borrowed)

def Sys.next (s : Sys W) : Label W → Option (Sys W)
  | .call f =>
      match s.futs f with
      | none => some { s with futs := Function.update s.futs f (some ((), .unresumed)) }
      | some _ => none
  | .poll f w =>
      match s.futs f with
      | some (_, .unresumed) => some (s.pollFuture f .unresumed w)
      | some (_, .suspended) => some (s.pollFuture f .suspended w)
      | _ => none
  | .cancel f =>
      match s.futs f with
      | none => none
      | some (_, .suspended) =>
          let out := s.mutex.unlocked.drop f
          some { s with
            mutex := { s.mutex with unlocked := out.event }
            futs := Function.update s.futs f none
            woken := s.woken ++ out.woken }
      | some _ => some { s with futs := Function.update s.futs f none }
  | .tryLock =>
      match s.mutex.tryLock with
      | none => some s
      | some mutex => some { s with mutex, guards := s.guards + 1 }
  | .dropGuard =>
      match s.guards with
      | 0 => none
      | n + 1 =>
          let out := s.mutex.unlock
          some { s with mutex := out.event, guards := n, woken := s.woken ++ out.woken }

/-- Every run of a mutex. -/
def system : System (Sys W) (Label W) := .ofNext (· = .init) Sys.next

end System

namespace Sys

def queue (s : Sys W) : Queue Unit W := s.mutex.unlocked.queue

theorem nodup (s : Sys W) : s.queue.ids.Nodup := s.mutex.unlocked.nodup

/-- The listener of the `lock()` future `f` is in the notified state. -/
def Notified (s : Sys W) (f : Ptr) : Prop := ∃ t b, s.queue.stateOf f = some (.notified t b)

/-- The task that polled `f` last has been woken since. -/
def Woken [WillWake W] (s : Sys W) (f : Ptr) : Prop :=
  ∃ w n, s.latest f = some (w, n) ∧ Queue.WokenSince s.woken n w

/-- Beside a free mutex with futures in its list, one of them has been
notified and woken. -/
def LockersServed [WillWake W] (s : Sys W) : Prop :=
  s.guards = 0 → (∃ f, f ∈ s.queue.ids) →
    ∃ f, f ∈ s.queue.ids ∧ s.Notified f ∧ s.Woken f

/-- What holds in every reachable state. -/
structure Inv [WillWake W] (s : Sys W) : Prop where
  seated : Seated s.futs (fun _ => True) s.queue
  plain : s.queue.Plain
  tracked : s.queue.Tracked s.woken s.latest
  guards : s.guards = if s.mutex.borrowed then 1 else 0
  served : s.mutex.borrowed = false → 0 < s.queue.length → 0 < s.queue.numNotified

end Sys

/-! ## What one step does -/

section Steps

variable [WillWake W] {s s' : Sys W} {f : Ptr} {stage : Stage} {w : W}

theorem tryBorrowMut_some {borrowed : Bool} {r : Unit × Bool}
    (h : tryBorrowMut borrowed = some r) : borrowed = false ∧ r.2 = true := by
  cases borrowed with
  | true => cases h
  | false =>
      cases h
      exact ⟨rfl, rfl⟩

theorem tryBorrowMut_none {borrowed : Bool} (h : tryBorrowMut borrowed = none) :
    borrowed = true := by
  cases borrowed with
  | true => rfl
  | false => cases h

/-- One poll of a future that has not returned: whoever is polled as
notified, or for the first time, finds the mutex free and takes it, or
waits for whoever has it. -/
theorem inv_poll (hi : s.Inv) (hf : s.futs f = some ((), stage)) (hst : stage ≠ .returned) :
    (s.pollFuture f stage w).Inv := by
  have hs := hi.seated.canPoll trivial hf hst
  have hwoken : (lock.poll f w stage s.mutex.unlocked s.mutex.borrowed).woken = [] :=
    WaitLoop.poll_woken hs
  refine ⟨?_, ?_, ?_, ?_, ?_⟩
  · exact hi.seated.poll trivial (WaitLoop.mem_ids_poll hs)
  · exact hi.plain.polled (WaitLoop.polled hs)
  · show Queue.Tracked _ (s.woken ++ _) _
    rw [hwoken, List.append_nil]
    exact hi.tracked.polled (WaitLoop.polled hs)
  · have hg := hi.guards
    show (match (lock.poll f w stage s.mutex.unlocked s.mutex.borrowed).view.2.2.1 with
      | .pending => s.guards
      | .ready _ => s.guards + 1) =
        if (lock.poll f w stage s.mutex.unlocked s.mutex.borrowed).view.2.1 then 1 else 0
    rcases WaitLoop.poll_attempt (b := lock) (w := w) (s := s.mutex.borrowed) (fun _ => rfl) hs with
      ⟨h1, h2⟩ | ⟨a, ha, h1⟩
    · rw [h1, h2]
      exact hg
    · obtain ⟨h2, h3⟩ := tryBorrowMut_some ha
      rw [h2] at hg
      rw [h1, hg]
      simp only at h3
      rw [h3]
      rfl
  · intro hfree hlen
    have hsum := (s.pollFuture f stage w).queue.length_eq_add
    rcases WaitLoop.poll_counts (b := lock) (w := w) (s := s.mutex.borrowed) (fun _ => rfl) hs with
      ⟨-, -, h1, h2, h3⟩ | ⟨-, ⟨a, ha, -⟩ | ⟨ha, h1, -⟩⟩
    · have hsum' := s.queue.length_eq_add
      have hb : s.mutex.borrowed = false := h1.symm.trans hfree
      have hn : (s.pollFuture f stage w).queue.numNotified = s.queue.numNotified := h2
      have hw : (s.pollFuture f stage w).queue.numWaiting = s.queue.numWaiting := h3
      rw [hn]
      exact hi.served hb (by omega)
    · have := (tryBorrowMut_some ha).2
      cases hfree.symm.trans this
    · have := h1.trans (tryBorrowMut_none ha)
      cases hfree.symm.trans this

/-- The future is dropped. -/
theorem inv_cancel (hi : s.Inv) (h : s.next (.cancel f) = some s') : s'.Inv := by
  rw [Sys.next] at h
  split at h
  · cases h
  · obtain rfl := Option.some.inj h
    have hq : (s.mutex.unlocked.drop f).event.queue = (s.queue.drop f).event := Event.queue_drop ..
    refine ⟨?_, ?_, ?_, hi.guards, fun hfree => ?_⟩
    · show Seated _ _ (s.mutex.unlocked.drop f).event.queue
      rw [hq]
      exact hi.seated.drop f
    · show (s.mutex.unlocked.drop f).event.queue.Plain
      rw [hq]
      exact hi.plain.drop s.nodup f
    · show Queue.Tracked (s.mutex.unlocked.drop f).event.queue (s.woken ++ _) _
      rw [hq, Event.drop_woken]
      exact hi.tracked.drop f
    · show 0 < (s.mutex.unlocked.drop f).event.queue.length →
        0 < (s.mutex.unlocked.drop f).event.queue.numNotified
      rw [hq]
      exact hi.plain.served_drop s.nodup f (hi.served hfree)
  · rename_i hnot hf
    obtain rfl := Option.some.inj h
    refine ⟨hi.seated.elsewhere (fun k _ hk => ?_) fun k _ => by simp, hi.plain, hi.tracked,
      hi.guards, hi.served⟩
    exact hnot k (Option.some.inj (hf.symm.trans hk))

/-- A guard is dropped: somebody who waits is notified, unless somebody is
already. -/
theorem inv_unlock (hi : s.Inv) {n : Nat} (hg : s.guards = n + 1) :
    ({ s with mutex := s.mutex.unlock.event, guards := n,
              woken := s.woken ++ s.mutex.unlock.woken } : Sys W).Inv := by
  have hq : s.mutex.unlock.event.unlocked.queue = (s.queue.notify (Notify 1) ()).event :=
    Event.queue_notify ..
  have hn : n = 0 := by
    have hguards := hi.guards
    split at hguards
    · omega
    · omega
  refine ⟨?_, ?_, ?_, hn, fun _ => ?_⟩
  · show Seated _ _ s.mutex.unlock.event.unlocked.queue
    rw [hq]
    exact hi.seated.congr (Queue.ids_notify ..)
  · show s.mutex.unlock.event.unlocked.queue.Plain
    rw [hq]
    exact hi.plain.notify rfl ()
  · show Queue.Tracked s.mutex.unlock.event.unlocked.queue
      (s.woken ++ (s.mutex.unlocked.notify (Notify 1) ()).woken) _
    rw [hq, Event.notify_woken]
    exact hi.tracked.notify (Notify 1) ()
  · show 0 < s.mutex.unlock.event.unlocked.queue.length →
      0 < s.mutex.unlock.event.unlocked.queue.numNotified
    rw [hq, Queue.length_notify]
    exact (s.queue.notify_one_pos () rfl rfl).mpr

theorem inv_next {l : Label W} (hi : s.Inv) (h : s.next l = some s') : s'.Inv := by
  cases l with
  | call f =>
      rw [Sys.next] at h
      split at h
      · rename_i hf
        obtain rfl := Option.some.inj h
        refine ⟨hi.seated.elsewhere (fun k _ => ?_) fun k _ => by simp, hi.plain, hi.tracked,
          hi.guards, hi.served⟩
        rw [hf]
        simp
      · cases h
  | poll f w =>
      rw [Sys.next] at h
      split at h
      · rename_i hf
        obtain rfl := Option.some.inj h
        exact inv_poll hi hf (by simp)
      · rename_i hf
        obtain rfl := Option.some.inj h
        exact inv_poll hi hf (by simp)
      · cases h
  | cancel f => exact inv_cancel hi h
  | tryLock =>
      rw [Sys.next] at h
      split at h
      · obtain rfl := Option.some.inj h
        exact hi
      · rename_i mutex hl
        obtain rfl := Option.some.inj h
        obtain ⟨r, hr, rfl⟩ := Option.map_eq_some_iff.mp hl
        obtain ⟨h1, h2⟩ := tryBorrowMut_some hr
        have hg := hi.guards
        rw [h1] at hg
        refine ⟨hi.seated, hi.plain, hi.tracked, ?_, fun hfree => ?_⟩
        · show s.guards + 1 = if r.2 then 1 else 0
          rw [hg, h2]
          rfl
        · cases h2.symm.trans hfree
  | dropGuard =>
      rw [Sys.next] at h
      split at h
      · cases h
      · rename_i n hg
        obtain rfl := Option.some.inj h
        exact inv_unlock hi hg

theorem inv_reachable (h : system.Reachable s) : s.Inv := by
  refine h.invariant (I := Sys.Inv) ?_ fun s l s' hi hs => inv_next hi hs
  rintro s rfl
  have hq : (Sys.init : Sys W).queue = [] := Event.queue_new
  refine ⟨hq ▸ seated_nil, hq ▸ Queue.plain_nil, hq ▸ Queue.tracked_nil, rfl,
    fun _ hlen => ?_⟩
  rw [hq] at hlen
  cases hlen

end Steps

/-! ## No wake-up is lost -/

/-- At most one guard is alive, and no locker waits beside a free mutex
without one of them having been woken. -/
theorem lock_served [WillWake W] {s : Sys W} (h : system.Reachable s) :
    s.guards ≤ 1 ∧ s.LockersServed := by
  have hi := inv_reachable h
  have hg := hi.guards
  refine ⟨?_, fun hfree hwait => ?_⟩
  · rw [hg]
    split
    · exact Nat.le_refl 1
    · exact Nat.zero_le 1
  · have hb : s.mutex.borrowed = false := by
      by_contra hb
      rw [if_pos (eq_true_of_ne_false hb)] at hg
      omega
    obtain ⟨f, hf⟩ := hwait
    have hlen : 0 < s.queue.length := by
      rw [← Queue.length_ids]
      exact List.length_pos_of_mem hf
    obtain ⟨p, t, b, w, n, hm, hl, hw⟩ := hi.tracked.woken (hi.served hb hlen)
    exact ⟨p, Queue.mem_ids_of_mem hm, ⟨t, b, (Queue.stateOf_eq_some s.nodup).mpr hm⟩,
      w, n, hl, hw⟩

/-- Two lockers wait; the guard is dropped, and the notified one is
cancelled. -/
def notifiedCancelled : List (Label Nat) :=
  [.tryLock, .call 0, .poll 0 10, .call 1, .poll 1 11, .dropGuard, .cancel 0]

theorem exec_notifiedCancelled :
    (exec Sys.next .init notifiedCancelled).map
      (fun s => (s.guards, s.queue.numNotified, s.woken)) = some (0, 1, [10, 11]) := by decide

theorem lock_notifiedCancelled : ∃ s : Sys Nat, s.woken = [10, 11] ∧
    s.guards ≤ 1 ∧ s.LockersServed := by
  obtain ⟨s, hrun, hobs⟩ := run_of_observe _ _ _ exec_notifiedCancelled
  simp only [Prod.mk.injEq] at hobs
  exact ⟨s, hobs.2.2, lock_served ⟨_, hrun⟩⟩

end Mutex

end Unsend

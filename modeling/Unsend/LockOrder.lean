import Unsend.Line
import Unsend.Mutex
import Unsend.Semaphore

/-!
# First come, first served

The mutex and the semaphore serve those who wait in the order in which they
began to wait, as long as nobody takes the mutex, or a permit, past them:
`Mutex.lock_in_line` and `Semaphore.acquire_in_line`. Spurious polls and
futures that are dropped, notified or not, do not disturb the order.
-/

namespace Unsend

/-! ## The mutex -/

namespace Mutex

variable {W : Type}

namespace Sys

/-- Nobody takes the mutex past those who wait. -/
def Queues (s : Sys W) : Label W → Prop
  | .poll f _ => s.futs f = some ((), .unresumed) → s.mutex.borrowed = false → s.queue = []
  | .tryLock => s.mutex.borrowed = false → s.queue = []
  | _ => True

end Sys

section Order

variable [WillWake W] {s s' : Sys W} {f : Ptr} {w : W} {l : Line} {tr : List (Sys W × Label W)}

/-- What a step means to those who wait. -/
def lineMove (x : Sys W × Label W) : Line.Move :=
  match x.2 with
  | .poll f w =>
      match x.1.next (.poll f w) with
      | some s' => x.1.futs.move f s'.futs
      | none => .stays
  | _ => .stays

/-- Who has waited for the mutex in a run, in order. -/
def line (tr : List (Sys W × Label W)) : Line := .after lineMove tr

/-- The line is kept while the mutex is `free`. -/
def Sys.InLine (l : Line) (s : Sys W) : Prop := l.Kept (· = false) s.queue s.mutex.borrowed

theorem inLine_poll {stage : Stage} (hi : s.Inv) (hl : s.InLine l)
    (hf : s.futs f = some ((), stage)) (hst : stage ≠ .returned)
    (hq : stage = .unresumed → s.mutex.borrowed = false → s.queue = []) :
    (s.pollFuture f stage w).InLine (l.move (s.futs.move f (s.pollFuture f stage w).futs)) := by
  have hfree : ∀ borrowed, (lock.attempt borrowed).isSome = true ↔ borrowed = false := by decide
  have hmove : s.futs.move f (s.pollFuture f stage w).futs = stage.move f
      (lock.poll f w stage s.mutex.unlocked s.mutex.borrowed).view.2.2.1.stage := by
    unfold Futures.move
    rw [hf, show (s.pollFuture f stage w).futs f = some ((), _) from Function.update_self ..]
    rfl
  rw [hmove]
  exact hl.poll (fun _ => rfl) hfree (hi.seated.canPoll trivial hf hst) hq

theorem inLine_next {label : Label W} (hi : s.Inv) (hl : s.InLine l) (hq : s.Queues label)
    (h : s.next label = some s') : s'.InLine (l.move (lineMove (s, label))) := by
  cases label with
  | call f =>
      rw [Sys.next] at h
      split at h
      · obtain rfl := Option.some.inj h
        exact hl
      · cases h
  | poll f w =>
      have hmove : lineMove (s, .poll f w) = s.futs.move f s'.futs := by simp only [lineMove, h]
      rw [hmove]
      rw [Sys.next] at h
      split at h
      · rename_i hf
        obtain rfl := Option.some.inj h
        exact inLine_poll hi hl hf (by simp) fun _ => hq hf
      · rename_i hf
        obtain rfl := Option.some.inj h
        exact inLine_poll hi hl hf (by simp) fun he => by cases he
      · cases h
  | cancel f =>
      rw [Sys.next] at h
      split at h
      · cases h
      · obtain rfl := Option.some.inj h
        have hd : (s.mutex.unlocked.drop f).event.queue = (s.queue.drop f).event :=
          Event.queue_drop ..
        show l.Kept (· = false) (s.mutex.unlocked.drop f).event.queue s.mutex.borrowed
        rw [hd]
        exact hl.drop s.nodup hi.plain f
      · obtain rfl := Option.some.inj h
        exact hl
  | tryLock =>
      rw [Sys.next] at h
      split at h
      · obtain rfl := Option.some.inj h
        exact hl
      · rename_i mutex hm
        obtain rfl := Option.some.inj h
        obtain ⟨r, hr, rfl⟩ := Option.map_eq_some_iff.mp hm
        exact Line.Kept.take hl (hq (tryBorrowMut_some hr).1)
  | dropGuard =>
      rw [Sys.next] at h
      split at h
      · cases h
      · obtain rfl := Option.some.inj h
        have hn : s.mutex.unlock.event.unlocked.queue = (s.queue.notify (Notify 1) ()).event :=
          Event.queue_notify ..
        show l.Kept (· = false) s.mutex.unlock.event.unlocked.queue false
        rw [hn]
        exact hl.notify _ rfl rfl rfl

/-- In a run of a mutex in which nobody takes it past those who wait, they
get it in the order in which they began to wait. -/
theorem lock_in_line (h : system.Run tr s) (hq : ∀ x ∈ tr, x.1.Queues x.2) :
    (line tr).InOrder s.queue.ids := by
  have hkept : s.InLine (line tr) := by
    refine (h.restrict hq).history (I := fun tr s => s.InLine (line tr)) ?_ ?_
    · rintro s rfl
      show Line.new.Kept (· = false) (Event.queue .new) false
      rw [Event.queue_new]
      exact Line.kept_nil false
    · rintro tr s l s' hr hl ⟨hs, hc⟩
      rw [line, Line.after_append]
      exact inLine_next (inv_reachable hr.reachable.2.unrestrict) hl hc hs
  exact hkept.inOrder

end Order

/-- Three futures wait while a guard is alive; the first one is dropped when
it has been notified, and the third one is polled before its turn. -/
def threeInLine : List (Label Nat) :=
  [.tryLock, .call 0, .poll 0 10, .call 1, .poll 1 11, .call 2, .poll 2 12, .dropGuard, .cancel 0,
    .poll 2 12, .poll 1 11, .dropGuard, .poll 2 12]

instance (s : Sys Nat) : DecidablePred s.Queues := fun l =>
  match l with
  | .poll f _ => inferInstanceAs
      (Decidable (s.futs f = some ((), .unresumed) → s.mutex.borrowed = false → s.queue = []))
  | .tryLock => inferInstanceAs (Decidable (s.mutex.borrowed = false → s.queue = []))
  | .call _ | .cancel _ | .dropGuard => inferInstanceAs (Decidable True)

theorem exec_threeInLine : (exec Sys.next .init threeInLine).map (fun s => s.queue.ids) =
    some [] := by
  decide

theorem queues_threeInLine : ∀ x ∈ execTrace Sys.next .init threeInLine, x.1.Queues x.2 := by
  decide

theorem lock_in_line_threeInLine :
    (line (execTrace Sys.next .init threeInLine)).served = [1, 2] ∧
      (line (execTrace Sys.next .init threeInLine)).InOrder [] := by
  obtain ⟨s, hrun, hobs⟩ := run_of_observe _ _ _ exec_threeInLine
  exact ⟨by decide, hobs ▸ lock_in_line hrun queues_threeInLine⟩

end Mutex

/-! ## The semaphore -/

namespace Semaphore

variable {W : Type}

namespace Sys

/-- Nobody takes a permit past those who wait. -/
def Queues (s : Sys W) : Label W → Prop
  | .poll f _ => (s.futs f).map Prod.snd = some .unresumed → 0 < s.sem.permits → s.queue = []
  | .tryAcquire _ => 0 < s.sem.permits → s.queue = []
  | _ => True

end Sys

section Order

variable [WillWake W] {s s' : Sys W} {f : Ptr} {w : W} {l : Line} {guard : GuardKind}
  {permits : Nat} {tr : List (Sys W × Label W)}

/-- What a step means to those who wait. -/
def lineMove (x : Sys W × Label W) : Line.Move :=
  match x.2 with
  | .poll f w =>
      match x.1.next (.poll f w) with
      | some s' => x.1.futs.move f s'.futs
      | none => .stays
  | _ => .stays

/-- Who has waited for a permit in a run, in order. -/
def line (tr : List (Sys W × Label W)) : Line := .after lineMove tr

/-- The line is kept while a permit is free. -/
def Sys.InLine (l : Line) (s : Sys W) : Prop := l.Kept (0 < ·) s.queue s.sem.permits

theorem inLine_poll {stage : Stage} (hi : s.Inv) (hl : s.InLine l)
    (hf : s.futs f = some (guard, stage)) (hst : stage ≠ .returned)
    (hq : stage = .unresumed → 0 < s.sem.permits → s.queue = []) :
    (s.pollFuture f guard stage w).InLine
      (l.move (s.futs.move f (s.pollFuture f guard stage w).futs)) := by
  have hfree : ∀ n, ((acquireWith guard).attempt n).isSome = true ↔ 0 < n := by
    intro n
    show (takePermit guard n).isSome = true ↔ 0 < n
    unfold takePermit
    split <;> simp_all
  obtain ⟨hqueue, hpermits, hfuts⟩ := settle_fields s f guard
    ((acquireWith guard).poll f w stage s.sem.event s.sem.permits)
  have hmove : ∀ stage' : Stage,
      s.futs.move f (Function.update s.futs f (some (guard, stage'))) = stage.move f stage' := by
    intro stage'
    unfold Futures.move
    rw [hf, Function.update_self]
  unfold Sys.InLine Sys.pollFuture
  rw [hqueue, hpermits, hfuts, hmove]
  exact hl.poll (fun _ => rfl) hfree (hi.seated.canPoll trivial hf hst) hq

theorem inLine_next {label : Label W} (hi : s.Inv) (hl : s.InLine l) (hq : s.Queues label)
    (h : s.next label = some s') : s'.InLine (l.move (lineMove (s, label))) := by
  cases label with
  | call guard f =>
      rw [Sys.next] at h
      split at h
      · obtain rfl := Option.some.inj h
        exact hl
      · cases h
  | poll f w =>
      have hmove : lineMove (s, .poll f w) = s.futs.move f s'.futs := by simp only [lineMove, h]
      rw [hmove]
      obtain ⟨guard, stage, hf, hst, rfl⟩ := next_poll h
      refine inLine_poll hi hl hf hst fun he => hq ?_
      rw [hf, he]
      rfl
  | cancel f =>
      rw [Sys.next] at h
      split at h
      · cases h
      · obtain rfl := Option.some.inj h
        have hd : (s.sem.event.drop f).event.queue = (s.queue.drop f).event :=
          Event.queue_drop ..
        show l.Kept (0 < ·) (s.sem.event.drop f).event.queue s.sem.permits
        rw [hd]
        exact hl.drop s.nodup hi.plain f
      · obtain rfl := Option.some.inj h
        exact hl
  | tryAcquire guard =>
      rw [Sys.next] at h
      split at h
      · obtain rfl := Option.some.inj h
        exact hl
      · rename_i g sem hm
        obtain rfl := Option.some.inj h
        obtain ⟨r, hr, hsem⟩ := Option.map_eq_some_iff.mp hm
        cases hsem
        exact Line.Kept.take hl (hq (takePermit_some hr).1)
  | dropGuard guard =>
      rw [Sys.next] at h
      split at h
      · cases h
      · obtain rfl := Option.some.inj h
        have hn : s.sem.release.event.event.queue = (s.queue.notify (Notify 1) ()).event :=
          Event.queue_notify ..
        show l.Kept (0 < ·) s.sem.release.event.event.queue (s.sem.permits + 1)
        rw [hn]
        exact hl.notify _ rfl rfl (Nat.succ_pos _)

/-- In a run of a semaphore in which nobody takes a permit past those who
wait, they get one in the order in which they began to wait. -/
theorem acquire_in_line (h : (system permits).Run tr s) (hq : ∀ x ∈ tr, x.1.Queues x.2) :
    (line tr).InOrder s.queue.ids := by
  have hkept : s.InLine (line tr) := by
    refine (h.restrict hq).history (I := fun tr s => s.InLine (line tr)) ?_ ?_
    · rintro s rfl
      show Line.new.Kept (0 < ·) (Event.queue .new) permits
      rw [Event.queue_new]
      exact Line.kept_nil permits
    · rintro tr s l s' hr hl ⟨hs, hc⟩
      rw [line, Line.after_append]
      exact inLine_next (inv_reachable hr.reachable.2.unrestrict) hl hc hs
  exact hkept.inOrder

end Order

/-- Two futures wait for two permits, and a third one comes while the second
permit is on its way. -/
def twoAtOnce : List (Label Nat) :=
  [.tryAcquire .ref, .tryAcquire .rc, .call .ref 0, .poll 0 10, .call .rc 1, .poll 1 11,
    .dropGuard .ref, .poll 0 10, .dropGuard .rc, .call .ref 2, .poll 1 11, .poll 2 12,
    .dropGuard .ref, .poll 2 12]

instance (s : Sys Nat) : DecidablePred s.Queues := fun l =>
  match l with
  | .poll f _ => inferInstanceAs (Decidable
      ((s.futs f).map Prod.snd = some .unresumed → 0 < s.sem.permits → s.queue = []))
  | .tryAcquire _ => inferInstanceAs (Decidable (0 < s.sem.permits → s.queue = []))
  | .call _ _ | .cancel _ | .dropGuard _ => inferInstanceAs (Decidable True)

theorem exec_twoAtOnce : (exec Sys.next (.init 2) twoAtOnce).map (fun s => s.queue.ids) =
    some [] := by
  decide

theorem queues_twoAtOnce : ∀ x ∈ execTrace Sys.next (.init 2) twoAtOnce, x.1.Queues x.2 := by
  decide

theorem acquire_in_line_twoAtOnce :
    (line (execTrace Sys.next (.init 2) twoAtOnce)).served = [0, 1, 2] ∧
      (line (execTrace Sys.next (.init 2) twoAtOnce)).InOrder [] := by
  obtain ⟨s, hrun, hobs⟩ := run_of_observe _ _ _ exec_twoAtOnce
  exact ⟨by decide, hobs ▸ acquire_in_line hrun queues_twoAtOnce⟩

end Semaphore

end Unsend

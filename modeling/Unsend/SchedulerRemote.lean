import Unsend.ReentrySteps
import Unsend.SchedulerEmpty

/-!
# Executors without hand-over

An executor with `NoThreadId` never knows that the scheduler function is
called on its origin thread, and one whose tasks are woken by other threads
only is in the same position: every Runnable goes through the mainstream
queue. There nothing is handed to a listener that may be dropped, so what
fails in general holds here without a condition (`remote_exact`): no
Runnable is lost, whoever ticks runs them in the order in which they were
scheduled, and `is_empty` and `try_tick` see all of them.
-/

namespace Unsend

namespace Executor

variable {R W : Type}

/-- The scheduler function is not called on the origin thread, as far as
the thread IDs tell. -/
def Sys.Remote (s : Sys R W) : Label R W → Prop
  | .schedule id _ => s.state.isOrigin id = false
  | _ => True

section Remote

variable [WillWake W] {s s' : Sys R W} {tr : List (Sys R W × Label R W)} {id : Option Nat}

theorem scheduledLocal_next {l : Label R W} (hr : s.Remote l) (h : s.next l = some s') :
    s'.scheduledLocal = s.scheduledLocal := by
  cases l with
  | schedule id runnable =>
      obtain ⟨horigin, -, -⟩ | ⟨-, rfl⟩ := next_schedule h
      · cases horigin.symm.trans hr
      · rfl
  | wake =>
      obtain ⟨-, rfl⟩ := next_wake h
      rfl
  | create k oneShot =>
      obtain ⟨-, -, rfl⟩ := next_create h
      rfl
  | poll k w =>
      obtain ⟨-, t, -, ⟨-, rfl⟩ | ⟨-, rfl⟩⟩ := next_poll h
      · rfl
      · rfl
  | drop k =>
      obtain ⟨-, t, -, -, rfl⟩ := next_drop h
      rfl
  | tryTick =>
      obtain ⟨-, rfl⟩ := next_tryTick h
      unfold Sys.tryTick
      split
      · rfl
      · rfl
  | step =>
      rcases next_step h with ⟨k, cx, rest, t, out, -, -, -, rfl⟩ | htry
      · rfl
      · exact htry.onOrigin.1
  | ret =>
      rcases next_ret h with ⟨k, cx, rest, t, -, -, -, rfl⟩ | htry
      · rfl
      · exact htry.onOrigin.1

/-- The origin thread is what it was at the start. -/
theorem origin_reachable (h : (system id).Reachable s) : s.state.originThread = id := by
  refine h.invariant (I := fun s => s.state.originThread = id) ?_ fun s l s' hid hs => ?_
  · rintro s rfl
    rfl
  · exact (origin_next hs).trans hid

/-- Without a thread id every call of the scheduler function counts as one
from elsewhere. -/
theorem remote_of_none (h : (system none).Reachable s) (l : Label R W) : s.Remote l := by
  cases l with
  | schedule id runnable =>
      show s.state.isOrigin id = false
      unfold State.isOrigin
      rw [origin_reachable h]
  | _ => trivial

/-- Where the scheduler function has only been called from elsewhere, the
mainstream queue is the only place where Runnables wait. -/
theorem scheduledLocal_nil (h : (system id).Run tr s) (hr : ∀ x ∈ tr, x.1.Remote x.2) :
    s.scheduledLocal = [] := by
  refine System.Reachable.of_restrict (P := fun s => s.scheduledLocal = []) ?_
    (fun s l s' _ hn hs hc => ?_) (h.restrict hr).reachable.2
  · rintro s rfl
    rfl
  · exact (scheduledLocal_next hc hs).trans hn

omit [WillWake W] in
theorem nothing_local (hi : s.Inv) (hn : s.scheduledLocal = []) :
    s.ranLocal = [] ∧ s.state.threadState.taskQueue = [] ∧ s.state.queue.held = [] ∧
      s.dropped = [] := by
  have horigin := hi.onOrigin
  rw [hn, Multiset.coe_add, Multiset.coe_add, Multiset.coe_add, eq_comm, Multiset.coe_nil,
    Multiset.coe_eq_zero] at horigin
  simpa [and_assoc] using horigin

/-- In a run of an executor that has no thread id, or that is only called
from elsewhere, no Runnable is dropped, they are run in the order in which
they were scheduled, whichever of the tickers and `try_tick` calls runs
them, and `is_empty` and `try_tick` see all that wait. -/
theorem remote_exact (h : (system id).Run tr s)
    (hr : id = none ∨ ∀ x ∈ tr, x.1.Remote x.2) :
    s.dropped = [] ∧ s.scheduledLocal = [] ∧
      s.scheduledMain = s.ranMain ++ s.state.taskQueue ∧ s.ranLocal = [] ∧ s.SeesAll := by
  have hremote : ∀ x ∈ tr, x.1.Remote x.2 := by
    rcases hr with rfl | hr
    · exact fun x hx => remote_of_none (h.reachable.1 x hx) x.2
    · exact hr
  have hi := inv_reachable ⟨tr, h⟩
  have hlocal := scheduledLocal_nil h hremote
  obtain ⟨hran, -, hheld, hdropped⟩ := nothing_local hi hlocal
  exact ⟨hdropped, hlocal, hi.onMain, hran, (seesAll_iff ⟨tr, h⟩).mpr fun _ => hheld⟩

end Remote

/-- A `run()` future is suspended and dropped, with a Runnable scheduled in
between; another one runs it. -/
def dropBetween : List (Label Nat Nat) :=
  [.create 1 false, .poll 1 10, .step, .step, .step, .step, .step, .schedule (some 7) 5, .wake,
    .drop 1, .create 2 false, .poll 2 11, .step, .step, .step, .ret]

theorem exec_dropBetween :
    (exec Sys.next (.init none) dropBetween).map (fun s => (s.ranMain, s.scheduledMain)) =
      some ([5], [5]) := by
  decide

theorem remote_dropBetween :
    ∃ s : Sys Nat Nat, s.scheduledMain = [5] ∧ s.dropped = [] ∧ s.SeesAll := by
  obtain ⟨s, hrun, hobs⟩ := run_of_observe _ _ _ exec_dropBetween
  have hrun : (system none).Run _ s := hrun
  obtain ⟨hdropped, -, -, -, hsees⟩ := remote_exact hrun (.inl rfl)
  exact ⟨s, (Prod.mk.inj hobs).2, hdropped, hsees⟩

end Executor

end Unsend

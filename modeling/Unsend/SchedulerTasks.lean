import Unsend.SchedulerSteps

/-!
# Where the scheduled tasks are

A property of whole runs of the scheduling half of the executor,
`tasksKept_run_iff`: every Runnable handed to the scheduler function is in
a queue, in the tag of a notified ticker or was taken out to be run, until
a ticker is dropped that holds a Runnable while another one is notified
or none waits: there the event discards the Runnable.
-/

namespace Unsend

namespace Executor

variable {R W : Type}

namespace Sys

/-- The listener of the future at `k` has been notified with this tag. -/
def NotifiedWith (s : Sys R W) (k : Ptr) (tag : Option R) : Prop :=
  ∃ b, s.state.queue.stateOf k = some (.notified tag b)

/-- Every Runnable handed to the scheduler function was taken out to be
run, or is in exactly one place: the local queue, the mainstream queue or
the tag of one notified listener, whose future is alive. None was dropped
un-run. -/
def Kept (s : Sys R W) : Prop :=
  (s.scheduledLocal ++ s.scheduledMain).Perm
    ((s.ranLocal ++ s.ranMain) ++
      (s.state.threadState.taskQueue ++ s.state.taskQueue ++ s.state.queue.held)) ∧
  s.dropped = [] ∧ ∀ k tag, s.NotifiedWith k tag → (s.tickers k).isSome = true

/-- A future whose listener holds a Runnable is dropped only where it can
be passed on: no other listener is notified, and another one waits. -/
def KeepsTasks (s : Sys R W) : Label R W → Prop
  | .drop k => ∀ runnable, s.NotifiedWith k (some runnable) →
      s.state.queue.numNotified = 1 ∧ 0 < s.state.queue.numWaiting
  | _ => True

theorem kept_iff {s : Sys R W} (hi : s.Inv) : s.Kept ↔ s.dropped = [] := by
  constructor
  · exact fun h => h.2.1
  · intro hd
    refine ⟨?_, hd, ?_⟩
    · have hbal := hi.onOrigin
      rw [hd, Multiset.coe_nil, add_zero] at hbal
      rw [← Multiset.coe_eq_coe, ← Multiset.coe_add, hbal, hi.onMain]
      simp only [← Multiset.coe_add]
      abel
    · rintro k tag ⟨b, hn⟩
      by_contra hnone
      exact hi.absent (Option.not_isSome_iff_eq_none.mp hnone) (Queue.stateOf_mem_ids hn)

end Sys

/-! ## No Runnable is lost -/

section Kept

variable {s s' : Sys R W}

theorem dropped_settle (s : Sys R W) (k : Ptr) (stack : List (Frame W)) (out : TickOut R W) :
    (s.settle k stack out).dropped = s.dropped ++ out.dropped.toList := rfl

theorem dropped_tryTick (s : Sys R W) : s.tryTick.dropped = s.dropped := by
  unfold Sys.tryTick
  split
  · rfl
  · rfl

variable [WillWake W]

/-- Only the drop of a future drops a Runnable. -/
theorem dropped_next {l : Label R W} (hi : s.Inv) (h : s.next l = some s')
    (hl : ∀ k, l ≠ .drop k) : s'.dropped = s.dropped := by
  cases l with
  | schedule id runnable =>
      obtain ⟨-, -, rfl⟩ | ⟨-, rfl⟩ := next_schedule h
      · rfl
      · rfl
  | wake =>
      obtain ⟨-, rfl⟩ := next_wake h
      rfl
  | create k oneShot =>
      obtain ⟨-, -, rfl⟩ := next_create h
      rfl
  | poll k w =>
      obtain ⟨-, t, -, ⟨-, rfl⟩ | ⟨-, rfl⟩⟩ := next_poll h
      · rfl
      · rfl
  | drop k => exact (hl k rfl).elim
  | tryTick =>
      obtain ⟨-, rfl⟩ := next_tryTick h
      exact dropped_tryTick s
  | step =>
      rcases next_step h with ⟨k, cx, rest, t, out, -, hk, hout, rfl⟩ | htry
      · rw [dropped_settle, (custody_step hi.plain (hi.seat hk rfl) hout).2]
        exact List.append_nil _
      · exact htry.dropped
  | ret =>
      rcases next_ret h with ⟨k, cx, rest, t, -, -, -, rfl⟩ | htry
      · rfl
      · exact htry.dropped

/-- From a state that has lost no Runnable, a step loses one exactly if it
is not one that `KeepsTasks` allows. -/
theorem dropped_next_iff {l : Label R W} (hi : s.Inv) (hd : s.dropped = [])
    (h : s.next l = some s') : s'.dropped = [] ↔ s.KeepsTasks l := by
  cases l with
  | drop k =>
      obtain ⟨-, t, -, -, rfl⟩ := next_drop h
      rw [dropped_settle, hd, List.nil_append, (view_dropFuture t k s.state).2,
        Option.toList_eq_nil_iff, (Queue.drop_handed s.state.nodup hi.plain k).2]
      exact ⟨fun h runnable ⟨b, hn⟩ => h runnable b hn, fun h runnable b hn =>
        h runnable ⟨b, hn⟩⟩
  | _ => exact iff_of_true ((dropped_next hi h (by simp)).trans hd) trivial

end Kept

/-- In a run of the executor every scheduled Runnable stays in exactly one
place until it is run exactly if every step is one that `KeepsTasks`
allows. -/
theorem tasksKept_run_iff [WillWake W] (id : Option Nat) {tr : List (Sys R W × Label R W)}
    {s : Sys R W} (h : (system id).Run tr s) :
    ((∀ x ∈ tr, x.1.Kept) ∧ s.Kept) ↔ ∀ x ∈ tr, x.1.KeepsTasks x.2 := by
  refine h.always_iff ?_ ?_
  · intro s hs
    rw [Sys.kept_iff (inv_reachable (.start hs))]
    obtain rfl := hs
    rfl
  · intro s l s' hr hk hstep
    have hi := inv_reachable hr
    rw [Sys.kept_iff (inv_next hi hstep)]
    exact dropped_next_iff hi ((Sys.kept_iff hi).mp hk) hstep

/-- The only ticker is handed a Runnable and dropped. -/
def tickerDropped : List (Label Nat Nat) :=
  [.create 1 true, .poll 1 10, .step, .step, .step, .step, .step, .schedule (some 7) 5, .drop 1]

theorem exec_tickerDropped :
    (exec Sys.next (.init (some 7)) tickerDropped).map
      (fun s => (s.scheduledLocal, s.ranLocal, s.dropped)) = some ([5], [], [5]) := by
  decide

theorem tasksKept_tickerDropped :
    ∃ s : Sys Nat Nat,
      (((∀ x ∈ execTrace Sys.next (.init (some 7)) tickerDropped, x.1.Kept) ∧ s.Kept) ↔
        ∀ x ∈ execTrace Sys.next (.init (some 7)) tickerDropped, x.1.KeepsTasks x.2) := by
  obtain ⟨s, hrun, -⟩ := run_of_observe _ _ _ exec_tickerDropped
  exact ⟨s, tasksKept_run_iff (some 7) hrun⟩

/-- The Runnable is dropped un-run, although the executor lives. -/
theorem tickerDropped_loses :
    ¬ ∀ (id : Option Nat) (s : Sys Nat Nat), (system id).Reachable s → s.Kept := by
  intro h
  obtain ⟨s, hrun, hobs⟩ := run_of_observe _ _ _ exec_tickerDropped
  obtain ⟨-, hd, -⟩ := h (some 7) s ⟨_, hrun⟩
  simp only [Prod.mk.injEq] at hobs
  rw [hobs.2.2] at hd
  cases hd

end Executor

end Unsend

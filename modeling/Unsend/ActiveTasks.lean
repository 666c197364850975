import Unsend.SchedulerTasks
import Unsend.TaskCustody

/-!
# The set of active tasks

`active` should hold one waker for each unfinished task, under the key of
the task, and nothing else. The entry of a task is removed by a guard
that lives in the task's future and is created when the future is polled
for the first time.

`activeExact_run_iff`: it does, until a task that was cancelled before its
first poll is run, which drops its future, or the Runnable of such a task
is dropped with a ticker. There is no guard then, and the entry stays
behind.
-/

namespace Unsend

/-! ## The Runnables a step takes out -/

namespace Executor

variable {R W : Type}

/-- The Runnable the listener at `k` holds. -/
def Sys.heldBy (s : Sys R W) (k : Ptr) : Option R :=
  match s.state.queue.stateOf k with
  | some (.notified (some runnable) _) => some runnable
  | _ => none

/-- The Runnable a ticker at `pc` takes out of a queue or its listener. -/
def Sys.takesAt (s : Sys R W) (k : Ptr) : Pc → Option R
  | .loopHead => s.state.threadState.taskQueue.head?
  | .listen | .pollOnce => s.heldBy k
  | .mainPop | .mainPopAgain => s.state.taskQueue.head?
  | _ => none

/-- The Runnable the innermost call takes out. -/
def Sys.takesTop (s : Sys R W) : List (Frame W) → Option R
  | .ticker k _ :: _ => (s.tickers k).bind fun t => s.takesAt k t.pc
  | .tryTick .popMain :: _ => s.state.taskQueue.head?
  | _ => none

/-- The Runnable a step takes out in order to run it. -/
def Sys.takes (s : Sys R W) : Label R W → Option R
  | .tryTick => s.state.threadState.taskQueue.head?
  | .step => s.takesTop s.stack
  | _ => none

/-- The Runnable that is dropped un-run with a ticker: its listener holds
it, and it cannot be passed on. -/
def Sys.drops (s : Sys R W) : Label R W → Option R
  | .drop k =>
      if s.state.queue.numNotified = 1 ∧ 0 < s.state.queue.numWaiting then none else s.heldBy k
  | _ => none

section Takes

variable {s s' : Sys R W} {k : Ptr} {cx : W} {t : Ticker}

/-- What a drop of the listener at `k` discards. -/
theorem discarded_eq (hi : s.Inv) (k : Ptr) :
    (s.state.queue.drop k).discarded.join =
      if s.state.queue.numNotified = 1 ∧ 0 < s.state.queue.numWaiting then none
      else s.heldBy k := by
  unfold Sys.heldBy
  rcases Queue.drop_cases s.state.nodup hi.plain k with
    ⟨hno, -, -, -, hd⟩ | ⟨tag, hst, ⟨h1, h2, -, -, -, hd⟩ | ⟨h1, -, -, -, hd⟩⟩
  · rw [hd]
    split
    · rfl
    · split
      · rename_i hst
        exact (hno _ _ hst).elim
      · rfl
  · rw [hd, if_pos ⟨h1, h2⟩]
    rfl
  · rw [hd, if_neg fun ⟨h2, h3⟩ => by have := h1 h2; omega, hst]
    cases tag with
    | none => rfl
    | some runnable => rfl

theorem tookMain_popMain (t : Ticker) (s : State R W) (found empty : Pc) :
    (t.popMain s found empty).tookLocal = [] ∧
      (t.popMain s found empty).tookMain = s.taskQueue.head?.toList := by
  unfold Ticker.popMain
  cases s.taskQueue with
  | nil => exact ⟨rfl, rfl⟩
  | cons runnable rest => exact ⟨rfl, rfl⟩

variable [WillWake W]

theorem took_pollListener (t : Ticker) (k : Ptr) (cx : W) (s : Sys R W) (run other wait : Pc) :
    let out := t.pollListener k cx s.state run other wait
    out.tookLocal = (s.heldBy k).toList ∧ out.tookMain = [] := by
  obtain ⟨hmain, -, hcases⟩ := view_pollListener t k cx s.state run other wait
  refine ⟨?_, hmain⟩
  unfold Sys.heldBy
  rcases hcases with ⟨hno, -, -, -, -, -, htook, -⟩ | ⟨tag, b, hst, -, -, htook, -⟩
  · rw [htook]
    split
    · rename_i hst
      exact (hno _ _ hst).elim
    · rfl
  · rw [htook, hst]
    cases tag with
    | none => rfl
    | some runnable => rfl

/-- A step of a ticker takes out at most one Runnable. -/
theorem took_step {out : TickOut R W} (h : t.step k cx s.state = some out) :
    out.tookLocal ++ out.tookMain = (s.takesAt k t.pc).toList := by
  unfold Ticker.step at h
  cases hpc : t.pc with
  | loopHead =>
      rw [hpc] at h
      obtain rfl := Option.some.inj h
      show _ = s.state.threadState.taskQueue.head?.toList
      rcases view_loopHead t s.state with ⟨hL, -, h1, h2, -⟩ |
        ⟨runnable, rest, hL, -, h1, h2, -⟩
      · rw [hL, h1, h2]
        rfl
      · rw [hL, h1, h2]
        rfl
  | listen | pollOnce =>
      rw [hpc] at h
      obtain rfl := Option.some.inj h
      obtain ⟨h1, h2⟩ := took_pollListener t k cx s _ _ _
      rw [h1, h2]
      exact List.append_nil _
  | mainPop | mainPopAgain =>
      rw [hpc] at h
      obtain rfl := Option.some.inj h
      obtain ⟨h1, h2⟩ := tookMain_popMain t s.state _ _
      rw [h1, h2]
      rfl
  | mainRegister | mainTake =>
      rw [hpc] at h
      obtain rfl := Option.some.inj h
      rfl
  | finish =>
      rw [hpc] at h
      obtain rfl := Option.some.inj h
      split
      · rfl
      · rfl
  | fresh | parked | runPopped | runAwaited | runLast =>
      rw [hpc] at h
      cases h

/-- What a step takes out and drops, as the logs have it. -/
structure Moved (s s' : Sys R W) (l : Label R W) : Prop where
  ran : ∃ ranLocal ranMain, s'.ranLocal = s.ranLocal ++ ranLocal ∧
    s'.ranMain = s.ranMain ++ ranMain ∧ ranLocal ++ ranMain = (s.takes l).toList
  dropped : s'.dropped = s.dropped ++ (s.drops l).toList

theorem moved_step (hi : s.Inv) (h : s.next .step = some s') : Moved s s' .step := by
  refine ⟨?_, (dropped_next hi h (by simp)).trans (List.append_nil _).symm⟩
  show ∃ ranLocal ranMain, _ ∧ _ ∧ _ = (s.takesTop s.stack).toList
  rcases innermost_cases h with ⟨k, cx, rest, t, out, hst, hk, hout, rfl⟩ |
    ⟨rest, runnable, queue, hst, hM, rfl⟩ | ⟨rest, hst, hM, rfl⟩ | ⟨rest, hst, rfl⟩
  · refine ⟨out.tookLocal, out.tookMain, rfl, rfl, ?_⟩
    rw [took_step hout, hst, Sys.takesTop, hk]
    rfl
  · exact ⟨[], [runnable], (List.append_nil _).symm, rfl, by rw [hst, Sys.takesTop, hM]; rfl⟩
  · exact ⟨[], [], (List.append_nil _).symm, (List.append_nil _).symm,
      by rw [hst, Sys.takesTop, hM]; rfl⟩
  · exact ⟨[], [], (List.append_nil _).symm, (List.append_nil _).symm, by rw [hst]; rfl⟩

theorem moved_next {l : Label R W} (hi : s.Inv) (h : s.next l = some s') : Moved s s' l := by
  have hnone : s'.ranLocal = s.ranLocal → s'.ranMain = s.ranMain → s.takes l = none →
      ∃ ranLocal ranMain, s'.ranLocal = s.ranLocal ++ ranLocal ∧
        s'.ranMain = s.ranMain ++ ranMain ∧ ranLocal ++ ranMain = (s.takes l).toList := by
    intro h1 h2 h3
    exact ⟨[], [], by rw [h1, List.append_nil], by rw [h2, List.append_nil], by rw [h3]; rfl⟩
  cases l with
  | schedule id runnable =>
      refine ⟨?_, (dropped_next hi h (by simp)).trans (List.append_nil _).symm⟩
      have hlogs := logs_schedule h
      exact hnone (hlogs.ranLocal.trans (List.append_nil _))
        (hlogs.ranMain.trans (List.append_nil _)) rfl
  | wake =>
      refine ⟨?_, (dropped_next hi h (by simp)).trans (List.append_nil _).symm⟩
      obtain ⟨-, rfl⟩ := next_wake h
      exact hnone rfl rfl rfl
  | create k oneShot =>
      refine ⟨?_, (dropped_next hi h (by simp)).trans (List.append_nil _).symm⟩
      obtain ⟨-, -, rfl⟩ := next_create h
      exact hnone rfl rfl rfl
  | poll k w =>
      refine ⟨?_, (dropped_next hi h (by simp)).trans (List.append_nil _).symm⟩
      obtain ⟨-, t, -, ⟨-, rfl⟩ | ⟨-, rfl⟩⟩ := next_poll h
      · exact hnone rfl rfl rfl
      · exact hnone rfl rfl rfl
  | drop k =>
      obtain ⟨-, t, -, -, rfl⟩ := next_drop h
      refine ⟨hnone (List.append_nil _) (List.append_nil _) rfl, ?_⟩
      rw [dropped_settle, (view_dropFuture t k s.state).2, discarded_eq hi]
      rfl
  | tryTick =>
      refine ⟨?_, (dropped_next hi h (by simp)).trans (List.append_nil _).symm⟩
      obtain ⟨-, rfl⟩ := next_tryTick h
      unfold Sys.tryTick
      show ∃ ranLocal ranMain, _ ∧ _ ∧ _ = s.state.threadState.taskQueue.head?.toList
      split
      · rename_i runnable rest hL
        exact ⟨[runnable], [], rfl, (List.append_nil _).symm, by rw [hL]; rfl⟩
      · rename_i hL
        exact ⟨[], [], (List.append_nil _).symm, (List.append_nil _).symm, by rw [hL]; rfl⟩
  | step => exact moved_step hi h
  | ret =>
      refine ⟨?_, (dropped_next hi h (by simp)).trans (List.append_nil _).symm⟩
      have hlogs := logs_ret h
      exact hnone (hlogs.ranLocal.trans (List.append_nil _))
        (hlogs.ranMain.trans (List.append_nil _)) rfl

end Takes

end Executor

namespace Tasks

variable {W : Type}

/-! ## The entries and the tasks -/

namespace Sys

/-- `active` holds the waker of every unfinished task under the task's key,
and nothing else; the guard of a task would remove the entry of this
task, not of another one. -/
structure ActiveExact (s : Sys W) : Prop where
  entries : ∀ key i, (key, i) ∈ s.active ↔
    ∃ t, s.tasks i = some t ∧ t.key = key ∧ t.future ≠ .gone
  once : (s.active.map Prod.fst).Nodup
  guards : ∀ i t, s.tasks i = some t → t.future = .started →
    tryRemove s.active t.key = s.active.erase (t.key, i)

/-- No entry is of a task that is done. -/
def NoStale (s : Sys W) : Prop :=
  ∀ x ∈ s.active, ∀ t, s.tasks x.2 = some t → t.future ≠ .gone

/-- The task has not been polled. -/
def Unpolled (s : Sys W) (i : TaskId) : Prop := ∃ t, s.tasks i = some t ∧ t.future = .unpolled

/-- The task was cancelled before its first poll. -/
def CancelledUnpolled (s : Sys W) (i : TaskId) : Prop :=
  ∃ t, s.tasks i = some t ∧ t.future = .unpolled ∧ t.closed = true

/-- The Runnable of a task that was cancelled before its first poll is not
taken out to be run, and that of a task that has not been polled is not
dropped with a ticker. -/
def KeepsEntries (s : Sys W) : Label W → Prop
  | .tick l => (∀ i, s.sched.takes l = some i → ¬ s.CancelledUnpolled i) ∧
      ∀ i, s.sched.drops l = some i → ¬ s.Unpolled i
  | _ => True

end Sys

section Entries

variable {s s' : Sys W} {q : Multiset TaskId} {i : TaskId} {t t' : Task}

/-- The guard of a task finds the task's own entry. -/
theorem tryRemove_eq (h : s.Owns q) (hi : s.tasks i = some t) (hg : t.future ≠ .gone) :
    tryRemove s.active t.key = s.active.erase (t.key, i) := by
  have hnd := List.Nodup.of_map _ h.keys
  rw [hnd.erase_eq_filter]
  refine List.filter_congr fun x hx => ?_
  have hown := h.unfinished i t hi hg
  by_cases hk : x.1 = t.key
  · have : x = (t.key, i) := List.inj_on_of_nodup_map h.keys hx hown hk
    simp [this]
  · have hne : x ≠ (t.key, i) := fun he => hk (congrArg Prod.fst he)
    simp [hk, hne]

theorem activeExact_iff (h : s.Owns q) : s.ActiveExact ↔ s.NoStale := by
  constructor
  · intro he x hx t ht
    obtain ⟨t', ht', -, hg⟩ := (he.entries x.1 x.2).mp hx
    cases ht.symm.trans ht'
    exact hg
  · intro hs
    refine ⟨fun key i => ⟨fun hm => ?_, ?_⟩, h.keys, fun i t hi hst => ?_⟩
    · obtain ⟨t, ht, hk⟩ := h.entry _ hm
      exact ⟨t, ht, hk, hs _ hm t ht⟩
    · rintro ⟨t, ht, rfl, hg⟩
      exact h.unfinished i t ht hg
    · exact tryRemove_eq h hi (by rw [hst]; simp)

/-- A task changes: its entry is stale afterwards exactly if its future went
away without ever having been polled. -/
theorem noStale_put (h : s.Owns q) (hi : s.tasks i = some t) (hs : s.NoStale)
    (running : List TaskId) :
    Sys.NoStale { s.put i t t' with running := running } ↔
      ¬ (t.future = .unpolled ∧ t'.future = .gone) := by
  have hself : Function.update s.tasks i (some t') i = some t' := Function.update_self ..
  have hother : ∀ {j}, j ≠ i → Function.update s.tasks i (some t') j = s.tasks j :=
    fun hj => Function.update_of_ne hj ..
  constructor
  · rintro hs' ⟨hun, hg⟩
    have hmem : (t.key, i) ∈ (s.put i t t').active := by
      show _ ∈ (if t.guard t' then tryRemove s.active t.key else s.active)
      rw [if_neg (by simp [Task.guard, hun])]
      exact h.unfinished i t hi (by rw [hun]; simp)
    exact hs' _ hmem t' hself hg
  · intro hno x hx u hu hg
    change x ∈ (if t.guard t' then tryRemove s.active t.key else s.active) at hx
    change Function.update s.tasks i (some t') x.2 = some u at hu
    have hx' : x ∈ s.active := by
      split at hx
      · exact (List.mem_filter.mp hx).1
      · exact hx
    by_cases hj : x.2 = i
    · rw [hj, hself] at hu
      cases hu
      obtain ⟨t₀, ht₀, hk⟩ := h.entry x hx'
      rw [hj, hi] at ht₀
      cases ht₀
      cases hf : t.future with
      | unpolled => exact hno ⟨hf, hg⟩
      | gone => exact hs x hx' t (hj ▸ hi) hf
      | started =>
          rw [if_pos (by simp [Task.guard, hf, hg])] at hx
          have := (List.mem_filter.mp hx).2
          simp [hk] at this
    · rw [hother hj] at hu
      exact hs x hx' u hu hg

theorem noStale_start (h : s.Owns q) (hs : s.NoStale) :
    (s.start i).NoStale ↔ ¬ s.CancelledUnpolled i := by
  unfold Sys.start Sys.CancelledUnpolled
  cases hi : s.tasks i with
  | none => exact iff_of_true hs (by simp)
  | some t =>
      refine (noStale_put h hi hs _).trans (not_congr ?_)
      unfold Task.start
      cases hc : t.closed with
      | true => simp [hc]
      | false => simp [hc]

theorem noStale_lose (h : s.Owns q) (hs : s.NoStale) :
    (s.lose i).NoStale ↔ ¬ s.Unpolled i := by
  unfold Sys.lose Sys.Unpolled
  cases hi : s.tasks i with
  | none => exact iff_of_true hs (by simp)
  | some t =>
      refine (noStale_put h hi hs s.running).trans (not_congr ?_)
      simp [Task.lose]

theorem noStale_congr (ht : s'.tasks = s.tasks) (ha : s'.active = s.active) :
    s'.NoStale ↔ s.NoStale := by
  unfold Sys.NoStale
  rw [ht, ha]

end Entries

/-! ## Steps -/

section Next

variable [WillWake W] {s s' : Sys W} {i : TaskId} {id : Option Nat} {t : Task}

/-- A call of the scheduler function leaves the tasks alone. -/
theorem noStale_schedule {call : Bool} (h : s.schedule id i call = some s') :
    s'.NoStale ↔ s.NoStale := by
  unfold Sys.schedule at h
  split at h
  · obtain ⟨sched, -, rfl⟩ := Option.map_eq_some_iff.mp h
    exact noStale_congr rfl rfl
  · obtain rfl := Option.some.inj h
    exact Iff.rfl

/-- An operation on a task that does not drop its future before the first
poll. -/
theorem noStale_keeps (hi : s.Inv) (ht : s.tasks i = some t) (hs : s.NoStale)
    (running : List TaskId) {out : Task × Bool}
    (hout : t.future = .unpolled → out.1.future ≠ .gone)
    (h : Sys.schedule { s.put i t out.1 with running := running } id i out.2 = some s') :
    s'.NoStale :=
  (noStale_schedule h).mpr
    ((noStale_put hi.owns ht hs running).mpr fun ⟨hun, hg⟩ => hout hun hg)

theorem noStale_advance (hi : s.Inv) (hs : s.NoStale) {l : Executor.Label TaskId W}
    {sched : Executor.Sys TaskId W} (h : s.sched.next l = some sched) :
    (s.advance sched).NoStale ↔ s.KeepsEntries (.tick l) := by
  obtain ⟨⟨ranLocal, ranMain, hrl, hrm, hran⟩, hdropped⟩ := Executor.moved_next hi.sched h
  have hadv : s.advance sched = (s.sched.drops l).toList.foldl Sys.lose
      ((s.sched.takes l).toList.foldl Sys.start { s with sched }) := by
    unfold Sys.advance
    rw [hrl, hrm, hdropped, List.drop_left, List.drop_left, List.drop_left, hran]
  have howns : Sys.Owns { s with sched } s.sched.queued :=
    ⟨hi.owns.absent, hi.owns.ok, hi.owns.unfinished, hi.owns.entry, hi.owns.keys,
      hi.owns.running⟩
  have hs' : Sys.NoStale { s with sched } := hs
  rw [hadv]
  show _ ↔ (∀ i, s.sched.takes l = some i → ¬ s.CancelledUnpolled i) ∧
    ∀ i, s.sched.drops l = some i → ¬ s.Unpolled i
  -- a step drops a Runnable or takes one out, not both
  cases hd : s.sched.drops l with
  | some i =>
      have htakes : s.sched.takes l = none := by
        cases l with
        | drop k => rfl
        | _ => cases hd
      rw [htakes]
      refine (noStale_lose howns hs').trans ⟨fun h => ⟨nofun, fun j hj => ?_⟩,
        fun h => h.2 i rfl⟩
      cases hj
      exact h
  | none =>
      cases ht : s.sched.takes l with
      | none => exact iff_of_true hs' ⟨nofun, nofun⟩
      | some i =>
          refine (noStale_start howns hs').trans ⟨fun h => ⟨fun j hj => ?_, nofun⟩,
            fun h => h.1 i rfl⟩
          cases hj
          exact h

/-- From a state without stale entries a step leads to one exactly if it
does not drop a future that was never polled. -/
theorem noStale_next_iff {l : Label W} (hi : s.Inv) (hs : s.NoStale) (h : s.next l = some s') :
    s'.NoStale ↔ s.KeepsEntries l := by
  cases l with
  | tick l =>
      obtain ⟨-, sched, hnext, rfl⟩ := next_tick h
      exact noStale_advance hi hs hnext
  | spawn i key pos onDrop id =>
      obtain ⟨⟨-, hnone, -, hpos⟩, h⟩ := next_spawn h
      refine iff_of_true ((noStale_schedule h).mpr fun x hx t ht => ?_) trivial
      change Function.update s.tasks i _ x.2 = some t at ht
      rcases List.mem_cons.mp ((List.perm_insertIdx (key, i) s.active hpos).mem_iff.mp hx)
        with rfl | hx
      · rw [Function.update_self] at ht
        cases ht
        simp [Task.spawned]
      · obtain ⟨u, hu, -⟩ := hi.owns.entry x hx
        have hne : x.2 ≠ i := fun he => by rw [he, hnone] at hu; cases hu
        rw [Function.update_of_ne hne] at ht
        exact hs x hx t ht
  | wake i id =>
      obtain ⟨t, ht, -, h⟩ := next_wake h
      refine iff_of_true (noStale_keeps hi ht hs s.running (fun hun => ?_) h) trivial
      unfold Task.wake
      split
      · rw [hun]; simp
      · rw [hun]; simp
  | cancel i id =>
      obtain ⟨t, ht, -, h⟩ := next_cancel h
      refine iff_of_true (noStale_keeps hi ht hs s.running (fun hun => ?_) h) trivial
      unfold Task.cancel
      split
      · rw [hun]; simp
      · rw [hun]; simp
  | detach i =>
      obtain ⟨t, ht, -, rfl⟩ := next_detach h
      refine iff_of_true ((noStale_put hi.owns ht hs s.running).mpr ?_) trivial
      rintro ⟨hun, hg⟩
      cases hun.symm.trans hg
  | wakers i held =>
      obtain ⟨t, ht, -, rfl⟩ := next_wakers h
      refine iff_of_true ((noStale_put hi.owns ht hs s.running).mpr ?_) trivial
      rintro ⟨hun, hg⟩
      cases hun.symm.trans hg
  | ret ready onDrop id =>
      obtain ⟨i, running, t, s1, sched, hrun, ht, h1, -, rfl⟩ := next_ret h
      refine iff_of_true ?_ trivial
      refine (noStale_congr (s := s1) rfl rfl).mpr (noStale_keeps hi ht hs running ?_ h1)
      -- a task that runs has been polled
      intro hun
      have hr := ((hi.owns.ok i t ht).unpolled hun).2
      unfold Task.finish
      rw [if_pos (by rw [hr]; simp), hun]
      simp

end Next

/-! ## Runs -/

/-- In a run of a live executor `active` holds the wakers of exactly the
unfinished tasks exactly if every step is one that `KeepsEntries` allows. -/
theorem activeExact_run_iff [WillWake W] (id : Option Nat) {tr : List (Sys W × Label W)}
    {s : Sys W} (h : (system id).Run tr s) :
    ((∀ x ∈ tr, x.1.ActiveExact) ∧ s.ActiveExact) ↔ ∀ x ∈ tr, x.1.KeepsEntries x.2 := by
  refine h.always_iff ?_ ?_
  · intro s hs
    rw [activeExact_iff (inv_reachable (.start hs)).owns]
    obtain rfl := hs
    intro x hx
    cases hx
  · intro s l s' hr hs hstep
    have hi := inv_reachable hr
    rw [activeExact_iff (inv_next hi hstep).owns]
    exact noStale_next_iff hi ((activeExact_iff hi.owns).mp hs) hstep

/-- A task is cancelled before its first poll, and run. -/
def cancelledUnpolled : List (Label Nat) :=
  [.spawn 0 0 0 [] (some 7), .cancel 0 (some 7), .tick .tryTick]

theorem exec_cancelledUnpolled :
    (exec Sys.next (.init (some 7)) cancelledUnpolled).map
      (fun s => (s.active, (s.tasks 0).map Task.future)) = some ([(0, 0)], some .gone) := by
  decide

theorem activeExact_cancelledUnpolled :
    ∃ s : Sys Nat,
      (((∀ x ∈ execTrace Sys.next (.init (some 7)) cancelledUnpolled, x.1.ActiveExact) ∧
          s.ActiveExact) ↔
        ∀ x ∈ execTrace Sys.next (.init (some 7)) cancelledUnpolled, x.1.KeepsEntries x.2) := by
  obtain ⟨s, hrun, -⟩ := run_of_observe _ _ _ exec_cancelledUnpolled
  exact ⟨s, activeExact_run_iff (some 7) hrun⟩

/-- Its entry stays, although its future is gone. -/
theorem cancelledUnpolled_stays :
    ¬ ∀ (id : Option Nat) (s : Sys Nat), (system id).Reachable s → s.ActiveExact := by
  intro h
  obtain ⟨s, hrun, hobs⟩ := run_of_observe _ _ _ exec_cancelledUnpolled
  simp only [Prod.mk.injEq] at hobs
  obtain ⟨hactive, htask⟩ := hobs
  have hmem : ((0, 0) : Nat × TaskId) ∈ s.active := by
    rw [hactive]
    exact List.mem_cons_self ..
  obtain ⟨t, ht, -, hg⟩ := ((h (some 7) s ⟨_, hrun⟩).entries 0 0).mp hmem
  rw [ht] at htask
  exact hg (Option.some.inj htask)

end Tasks

end Unsend

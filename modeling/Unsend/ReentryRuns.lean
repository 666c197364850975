import Unsend.ReentrySteps
import Unsend.TaskCustody

/-!
# No wake re-enters a borrow

From a state that some run reaches, each step goes through exactly if
`KeepsBorrows` allows it (`step_ok_iff`). `noReentry_run_iff` is the same
of whole runs.

What a step is told about the listeners rests on the invariants of the
scheduling half, `Executor.Sys.Inv`. They survive every step here as well:
a waker that runs off the origin thread pushes to the mainstream queue at
most (`Pushes`), and on the origin thread it runs where the innermost call
runs a Runnable.
-/

namespace Unsend

namespace Reentry

open Tasks (TaskId Task)

/-! ## The scheduling half -/

section Inv

variable {s s' : Sys} {id : Option Nat} {i : TaskId} {w : TaskWaker}

theorem Pushes.inv {sched sched' : Executor.Sys TaskId TaskWaker} (h : Pushes sched sched')
    (hi : sched.Inv) : sched'.Inv := by
  have hq : sched'.state.queue = sched.state.queue :=
    congrArg (fun ts => ts.threadWaker.queue) h.threadState
  obtain ⟨hstack, htickers⟩ := h.calls
  obtain ⟨hscheduled, hran, hdropped⟩ := h.onOrigin
  constructor
  · rw [hq]
    exact hi.plain
  · rw [hstack, htickers]
    exact hi.stacked
  · rw [hq, htickers]
    exact hi.seats
  · rw [hscheduled, hran, hdropped, hq, h.threadState]
    exact hi.onOrigin
  · exact h.onMain hi.onMain

theorem Pushes.free {sched sched' : Executor.Sys TaskId TaskWaker} (h : Pushes sched sched')
    (hfree : sched.Free) : sched'.Free := by
  unfold Executor.Sys.Free
  rw [h.calls.1, h.calls.2]
  exact hfree

theorem pushes_push (sched : Executor.Sys TaskId TaskWaker) (i : TaskId) :
    Pushes sched (sched.push i) :=
  ⟨rfl, rfl, ⟨rfl, rfl⟩, ⟨rfl, rfl, rfl⟩, fun hm => by
    show sched.scheduledMain ++ [i] = sched.ranMain ++ (sched.state.taskQueue ++ [i])
    rw [hm, List.append_assoc]⟩

theorem inv_call (hi : s.sched.Inv) (hfree : s.sched.state.isOrigin id = true → s.sched.Free)
    (h : s.call id i = .ok s') : s'.sched.Inv := by
  unfold Sys.call at h
  split at h
  · rename_i ho
    exact (pushes_wakeAll h).inv (Executor.inv_schedule hi (hfree ho) i)
  · obtain rfl := Except.ok.inj h
    exact (pushes_push s.sched i).inv hi

theorem inv_wakeFree (hi : s.sched.Inv)
    (hfree : s.sched.state.isOrigin id = true → s.sched.Free) (h : s.wakeFree id w = .ok s') :
    s'.sched.Inv := by
  cases w with
  | other n =>
      obtain rfl := Except.ok.inj h
      exact hi
  | task i =>
      cases ht : s.tasks i with
      | none =>
          simp only [Sys.wakeFree, ht] at h
          obtain rfl := Except.ok.inj h
          exact hi
      | some t =>
          simp only [Sys.wakeFree, ht] at h
          split at h
          · exact inv_call (s := s.put i t t.wake.1) hi hfree h
          · obtain rfl := Except.ok.inj h
            exact hi

/-! ### Steps of the tasks -/

theorem inv_schedule {call : Bool} (hi : s.sched.Inv) (h : s.schedule id i call = some s') :
    s'.sched.Inv := by
  cases call with
  | false =>
      obtain rfl := Option.some.inj h
      exact hi
  | true =>
      obtain ⟨sched, hnext, rfl⟩ := Option.map_eq_some_iff.mp h
      exact Executor.inv_next hi hnext

theorem inv_taskNext {l : Tasks.Label TaskWaker} (hl : ∀ l', l ≠ .tick l') (hi : s.sched.Inv)
    (h : s.next l = some s') : s'.sched.Inv := by
  cases l with
  | tick l => exact (hl l rfl).elim
  | spawn i key pos onDrop id =>
      obtain ⟨-, hs⟩ := Tasks.next_spawn h
      exact inv_schedule (s := s.insert i key pos onDrop) hi hs
  | wake i id =>
      obtain ⟨t, -, -, hs⟩ := Tasks.next_wake h
      exact inv_schedule (s := s.put i t t.wake.1) hi hs
  | cancel i id =>
      obtain ⟨t, -, -, hs⟩ := Tasks.next_cancel h
      exact inv_schedule (s := s.put i t t.cancel.1) hi hs
  | detach i =>
      obtain ⟨t, -, -, rfl⟩ := Tasks.next_detach h
      exact hi
  | wakers i held =>
      obtain ⟨t, -, -, rfl⟩ := Tasks.next_wakers h
      exact hi
  | ret ready onDrop id =>
      obtain ⟨i, running, t, s1, sched, -, -, hs, hret, rfl⟩ := Tasks.next_ret h
      have hi1 : s1.sched.Inv := inv_schedule
        (s := Tasks.Sys.put { s with running } i t (t.finish ready onDrop).1) hi hs
      exact Executor.inv_next hi1 hret

theorem inv_task {held : Bool} {l : Tasks.Label TaskWaker} (hl : ∀ l', l ≠ .tick l')
    (hi : s.sched.Inv) (h : s.task held l = some (.ok s')) : s'.sched.Inv := by
  obtain ⟨s1, hnext, hwake⟩ := Option.map_eq_some_iff.mp h
  split at hwake
  · cases hwake
  · exact (pushes_wakeAll hwake).inv (inv_taskNext hl hi hnext)

/-! ### Steps of the tickers -/

/-- Whoever wakes the mainstream waker wakes nobody else, and on the origin
thread runs code of its own next. -/
theorem wakesMain_cases {l : Executor.Label TaskId TaskWaker}
    {sched : Executor.Sys TaskId TaskWaker} (hl : s.wakesMain l = true)
    (hnext : s.sched.next l = some sched) :
    s.wokenSince sched = s.sched.state.mainstreamWaker.toList ∧ (l = .wake ∨ sched.Free) := by
  cases l with
  | wake =>
      obtain ⟨-, rfl⟩ := Executor.next_wake hnext
      exact ⟨List.drop_left, .inl rfl⟩
  | step =>
      unfold Sys.wakesMain at hl
      rcases Executor.innermost_cases hnext with ⟨k, cx, rest, t, out, hst, -⟩ |
        ⟨rest, runnable, queue, hst, -⟩ | ⟨rest, hst, -⟩ | ⟨rest, -, rfl⟩
      · rw [hst] at hl
        cases hl
      · rw [hst] at hl
        cases hl
      · rw [hst] at hl
        cases hl
      · refine ⟨List.drop_left, .inr fun f hf => ?_⟩
        obtain rfl := Option.some.inj hf
        rfl
  | _ => cases hl

/-- The mainstream waker is woken where nothing is borrowed. -/
theorem inv_mainWake {main : Option TaskWaker} (hi : s.sched.Inv)
    (hfree : s.sched.state.isOrigin id = true → s.sched.Free)
    (h : Sys.each (Sys.wakeFree id) main.toList s = .ok s') : s'.sched.Inv := by
  cases main with
  | none =>
      obtain rfl := Except.ok.inj h
      exact hi
  | some w =>
      obtain ⟨s1, hone, hlast⟩ := of_bind_ok h
      obtain rfl := Except.ok.inj hlast
      exact inv_wakeFree hi hfree hone

theorem inv_tick {held : Bool} {l : Executor.Label TaskId TaskWaker} (hi : s.sched.Inv)
    (hwake : l = .wake → s.sched.state.isOrigin id = false)
    (h : s.tick id held l = some (.ok s')) : s'.sched.Inv := by
  obtain ⟨sched, hnext, h⟩ := Option.map_eq_some_iff.mp h
  split at h
  · cases h
  · obtain ⟨u, hwoken, h⟩ := of_bind_ok h
    obtain rfl := Except.ok.inj h
    rw [Tasks.sched_start_all]
    have hi1 : sched.Inv := Executor.inv_next hi hnext
    split at hwoken
    · rename_i hl
      obtain ⟨hsince, hlast⟩ := wakesMain_cases hl.1 hnext
      rw [hsince] at hwoken
      refine inv_mainWake hi1 (fun ho => ?_) hwoken
      rcases hlast with rfl | hfree
      · have horigin := (hwake rfl).symm.trans
          (Executor.isOrigin_congr (Executor.origin_next hnext) id).symm
        cases horigin.trans ho
      · exact hfree
    · exact (pushes_wakeAll hwoken).inv hi1

/-! ### The drop of a ticker -/

theorem inv_release {t : Executor.Ticker} (hi : s.sched.Inv) (hfree : s.sched.Free)
    (h : s.release id t = .ok s') : s'.sched.Inv := by
  refine (pushes_wakeAll h).inv ?_
  obtain ⟨hq, hlocal, hmain⟩ := Executor.view_drop t s.sched.state
  refine ⟨?_, hi.stacked, ?_, ?_, ?_⟩
  · rw [hq]
    split
    · exact hi.plain.notify rfl ()
    · exact hi.plain
  · refine hi.seats.congr ?_ (hi.no_finish hfree)
    rw [hq]
    split
    · exact Queue.ids_notify ..
    · rfl
  · rw [hlocal, hq]
    split
    · rw [Queue.held_wakeOne]
      exact hi.onOrigin
    · exact hi.onOrigin
  · rw [hmain]
    exact hi.onMain

theorem inv_drop {k : Ptr} {x : State} (hi : s.sched.Inv) (h : s.drop id k = some (.ok x)) :
    x.sys.sched.Inv := by
  obtain ⟨t, hk, hfree, hoff, he⟩ := drop_eq h
  obtain ⟨u, hwoken, h⟩ := of_bind_ok he.symm
  have hp := pushes_wakeAll hwoken
  have hnot : k ∉ Executor.keys s.sched.stack := hi.stacked.notMem hfree fun t' ht' => by
    cases hk.symm.trans ht'
    exact hoff
  have hout : Sys.dropListener k s.sched.state =
      (⟨false, false, .fresh⟩ : Executor.Ticker).dropFuture k s.sched.state := by
    unfold Sys.dropListener Executor.Ticker.dropFuture Executor.Ticker.drop
    simp
  have hi1 : (s.sched.settle k s.sched.stack (Sys.dropListener k s.sched.state)).Inv := by
    rw [hout]
    refine Executor.inv_settle hi (Executor.custody_dropFuture hi.plain _)
      (fun k' _ => hi.no_finish hfree k') (hi.stacked.elsewhere hnot fun t' ht' => ?_)
    cases ht'
  have hfree1 : (s.sched.settle k s.sched.stack (Sys.dropListener k s.sched.state)).Free :=
    Executor.head_runs hi hfree hnot none
  split at h
  · obtain rfl := Except.ok.inj h
    unfold Sys.discard
    split
    · exact hp.inv hi1
    · exact hp.inv hi1
  · obtain ⟨v, hv, h⟩ := of_bind_ok h
    obtain rfl := Except.ok.inj h
    exact inv_release (hp.inv hi1) (hp.free hfree1) hv

theorem inv_dropHeld {k : Ptr} (hi : s.sched.Inv) (h : s.dropHeld k = some (.ok s')) :
    s'.sched.Inv := by
  obtain ⟨sched, hnext, h⟩ := Option.map_eq_some_iff.mp h
  split at h
  · cases h
  · obtain rfl := Except.ok.inj h
    exact Executor.inv_next hi hnext

end Inv

/-! ## Runs -/

section Runs

variable {s s' : State} {id : Option Nat}

theorem after_ok {x : Outcome} (h : s.after x = .ok s') : x = .ok s'.sys := by
  cases x with
  | error e => cases h
  | ok u =>
      obtain rfl := Except.ok.inj h
      rfl

theorem inv_step {l : Label} (hi : s.sys.sched.Inv) (h : s.step l = some (.ok s')) :
    s'.sys.sched.Inv := by
  rcases step_cases h with ⟨l', x, -, hl, hx, he⟩ | ⟨id, l', x, -, -, -, hwake, hx, he⟩ |
    ⟨id, k, -, -, hx⟩ | ⟨id, k, x, -, -, hx, he⟩ | ⟨id, d, -, -, hfree, he⟩
  · rw [after_ok he.symm] at hx
    exact inv_task hl hi hx
  · rw [after_ok he.symm] at hx
    exact inv_tick hi hwake hx
  · exact inv_drop hi hx
  · rw [after_ok he.symm] at hx
    exact inv_dropHeld hi hx
  · obtain ⟨u, hu, hok⟩ := of_bind_ok he.symm
    obtain rfl := Except.ok.inj hok
    exact inv_release (by exact hi) (by exact hfree) hu

theorem inv_reachable (h : (system id).Reachable (.ok s)) : s.sys.sched.Inv := by
  refine h.invariant (I := fun x => ∀ s, x = .ok s → s.sys.sched.Inv) ?_ ?_ s rfl
  · rintro x rfl s hs
    obtain rfl := Except.ok.inj hs
    have hinit : (Executor.system id).Reachable (Tasks.Sys.init id : Sys).sched := .start rfl
    exact Executor.inv_reachable hinit
  · intro x l x' hI hs s' hx
    cases x with
    | error e => cases hs
    | ok s1 =>
        rw [hx] at hs
        exact inv_step (hI s1 rfl) hs

/-- A run never borrows what is borrowed exactly if each of its steps keeps
the borrows. -/
theorem noReentry_run_iff (id : Option Nat) {tr : List (Result × Label)} {x : Result}
    (h : (system id).Run tr x) : ((∀ y ∈ tr, y.1 ≠ .error {}) ∧ x ≠ .error {}) ↔
      ∀ y ∈ tr, ∀ s, y.1 = .ok s → s.KeepsBorrows y.2 := by
  refine System.Run.always_iff (C := fun x l => ∀ s, x = .ok s → s.KeepsBorrows l)
    (P := fun x => x ≠ .error {}) ?_ ?_ h
  · rintro x rfl
    simp
  · intro x l x' hr _ hs
    cases x with
    | error e => cases hs
    | ok s =>
        have hstep := step_ok_iff (inv_reachable hr) hs
        constructor
        · intro hne s1 he
          obtain rfl := Except.ok.inj he
          refine hstep.mp ?_
          cases x' with
          | error e => exact (hne rfl).elim
          | ok s' => exact ⟨s', rfl⟩
        · intro hkeeps he
          obtain ⟨s', hok⟩ := hstep.mpr (hkeeps s rfl)
          cases he.symm.trans hok

/-- A step is only taken where nothing went wrong before. -/
theorem going_of_run {tr : List (Result × Label)} {x : Result} (h : (system id).Run tr x) :
    ∀ y ∈ tr, y.1 ≠ .error {} := by
  induction h with
  | start _ => simp
  | @step tr x x' l _ hs ih =>
      intro y hy
      rcases List.mem_append.mp hy with hy | hy
      · exact ih y hy
      · obtain rfl := List.mem_singleton.mp hy
        rintro rfl
        cases hs

end Runs

/-! ## Without wakers of its own tasks -/

section Plain

variable {s s' : Sys} {id : Option Nat}

theorem each_other {f : Sys → TaskWaker → Outcome} (hf : ∀ s n, f s (.other n) = .ok s)
    {ws : List TaskWaker} (h : ∀ w ∈ ws, ∃ n, w = .other n) (s : Sys) :
    Sys.each f ws s = .ok s := by
  induction ws with
  | nil => rfl
  | cons w ws ih =>
      obtain ⟨hw, hws⟩ := List.forall_mem_cons.mp h
      obtain ⟨n, rfl⟩ := hw
      rw [Sys.each, hf, ok_bind]
      exact ih hws

/-- A step that wakes no task of this executor and drops no Runnable is
that of the tasks. -/
theorem task_plain {l : Tasks.Label TaskWaker} (hnext : s.next l = some s')
    (h : ∀ w ∈ s.wokenSince s'.sched, ∃ n, w = .other n) :
    s.task false l = some (.ok s') := by
  rw [Sys.task, hnext, Option.map_some, if_neg (by simp)]
  exact congrArg some (each_other (fun _ _ => rfl) h s')

/-- The same of the tickers, unless a Runnable waits for the mainstream
waker to be woken. -/
theorem tick_plain {l : Executor.Label TaskId TaskWaker} (hl : Tasks.isTick l = true)
    {sched : Executor.Sys TaskId TaskWaker} (hnext : s.sched.next l = some sched)
    (hkeep : sched.dropped = s.sched.dropped)
    (hold : Sys.holds s.sched = false ∧ Sys.holds sched = false)
    (h : ∀ w ∈ s.wokenSince sched, ∃ n, w = .other n) :
    ∃ s', s.next (.tick l) = some s' ∧ s.tick id false l = some (.ok s') := by
  refine ⟨s.advance sched, ?_, ?_⟩
  · rw [Tasks.Sys.next, if_pos hl, hnext]
    rfl
  · have hwake : ∀ wake, wake = Sys.wakeFree id ∨ wake = Sys.wakeHeld id →
        Sys.each wake (s.wokenSince sched) { s with sched } = .ok { s with sched } := by
      rintro wake (rfl | rfl)
      · exact each_other (fun _ _ => rfl) h _
      · exact each_other (fun _ _ => rfl) h _
    have hadvance : s.advance sched =
        (Sys.begun s.sched sched).foldl Tasks.Sys.start { s with sched } := by
      unfold Tasks.Sys.advance Sys.begun
      rw [hkeep, List.drop_length, hold.1, hold.2]
      rfl
    rw [Sys.tick, hnext, Option.map_some, if_neg (by simp), hadvance]
    dsimp only
    split
    · rw [hwake _ (.inl rfl)]
      rfl
    · rw [hwake _ (.inr rfl)]
      rfl

end Plain

/-! ## A task that ticks its own executor -/

/-- A task polls `tick()`, which waits. -/
def tickedByTask : List Label :=
  [.task (.spawn 1 0 0 [] (some 7)), .tick (some 7) .tryTick, .tick (some 7) (.create 1 true),
    .tick (some 7) (.poll 1 (.task 1)), .tick (some 7) .step, .tick (some 7) .step,
    .tick (some 7) .step, .tick (some 7) .step, .tick (some 7) .step]

/-- Another one is spawned while the task still runs. -/
def wokenRunning : List Label :=
  tickedByTask ++ [.task (.spawn 2 1 1 [] (some 7)), .task (.ret false [] (some 7))]

/-- Another one is spawned once the task has returned. -/
def wokenIdle : List Label :=
  tickedByTask ++ [.task (.ret false [] (some 7)), .task (.spawn 2 1 1 [] (some 7))]

theorem exec_wokenRunning :
    (exec next (.ok ⟨.init (some 7), none⟩) wokenRunning).map
      (fun x => x.toOption.map fun s => (s.sys.sched.woken, s.sys.sched.scheduledLocal)) =
      some (some ([.task 1], [1, 2, 1])) := by
  decide

theorem exec_wokenIdle :
    (exec next (.ok ⟨.init (some 7), none⟩) wokenIdle).map Except.isOk = some false := by
  decide

/-- The task is woken while it runs: it calls the scheduler function only
when it returns, and every step of the run keeps the borrows. -/
theorem noReentry_wokenRunning :
    ∃ s : State, (system (some 7)).Run
        (execTrace next (.ok ⟨.init (some 7), none⟩) wokenRunning) (.ok s) ∧
      s.sys.sched.woken = [.task 1] ∧ s.sys.sched.scheduledLocal = [1, 2, 1] ∧
      ∀ y ∈ execTrace next (.ok ⟨.init (some 7), none⟩) wokenRunning,
        ∀ s, y.1 = .ok s → s.KeepsBorrows y.2 := by
  obtain ⟨x, hrun, hobs⟩ := run_of_observe _ _ _ exec_wokenRunning
  cases x with
  | error e => cases hobs
  | ok s =>
      obtain ⟨hwoken, hlocal⟩ := Prod.ext_iff.mp (Option.some.inj hobs)
      exact ⟨s, hrun, hwoken, hlocal,
        (noReentry_run_iff (some 7) hrun).mp ⟨going_of_run hrun, by simp⟩⟩

/-- The scheduler function wakes the first task where it holds both
borrows, and that calls it again. -/
theorem wokenIdle_reenters :
    ¬ ∀ (id : Option Nat) (x : Result), (system id).Reachable x → x ≠ .error {} := by
  intro h
  obtain ⟨x, hrun, hobs⟩ := run_of_observe _ _ _ exec_wokenIdle
  refine h (some 7) x ⟨_, hrun⟩ ?_
  cases x with
  | ok s => cases hobs
  | error e => rfl

end Reentry

end Unsend

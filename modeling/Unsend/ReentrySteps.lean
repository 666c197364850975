import Unsend.Reentry
import Unsend.SchedulerWake

/-!
# When a step goes through

What each step of the executor with its tasks wakes under a borrow, and
when that goes through: a wake of an idle task calls the scheduler
function, which stops on the origin thread (`wakeHeld_ok_iff`). A step
wakes at most one waker, that of the first listener if none is notified
(`Queue.nextWoken`).

`task_ok_iff`, `tick_ok_iff`, `drop_ok_iff` and `finish_ok_iff` say the
same of each kind of step: it goes through exactly if `KeepsBorrows`
allows it.
-/

namespace Unsend

namespace Executor

variable {R W : Type} {s s' : State R W}

/-! ## The origin thread stays -/

theorem origin_dropFuture (t : Ticker) (k : Ptr) (s : State R W) :
    (t.dropFuture k s).state.originThread = s.originThread := by
  unfold Ticker.dropFuture Ticker.drop
  cases t.isMainstream with
  | true => rfl
  | false => rfl

theorem origin_step [WillWake W] {t : Ticker} {k : Ptr} {cx : W} {out : TickOut R W}
    (h : t.step k cx s = some out) : out.state.originThread = s.originThread := by
  have hpop : ∀ found empty, (t.popMain s found empty).state.originThread = s.originThread := by
    intro found empty
    unfold Ticker.popMain
    split
    · rfl
    · rfl
  unfold Ticker.step at h
  cases hpc : t.pc with
  | loopHead =>
      rw [hpc] at h
      obtain rfl := Option.some.inj h
      unfold Ticker.loopHead
      split
      · rfl
      · split
        · rfl
        · rfl
  | listen | pollOnce =>
      rw [hpc] at h
      obtain rfl := Option.some.inj h
      exact (frame_pollListener ..).1
  | mainPop | mainPopAgain =>
      rw [hpc] at h
      obtain rfl := Option.some.inj h
      exact hpop ..
  | mainRegister | mainTake =>
      rw [hpc] at h
      obtain rfl := Option.some.inj h
      rfl
  | finish =>
      rw [hpc] at h
      obtain rfl := Option.some.inj h
      split
      · exact origin_dropFuture t k s
      · rfl
  | fresh | parked | runPopped | runAwaited | runLast =>
      rw [hpc] at h
      cases h

theorem origin_next [WillWake W] {s s' : Sys R W} {l : Label R W} (h : s.next l = some s') :
    s'.state.originThread = s.state.originThread := by
  cases l with
  | schedule id runnable =>
      obtain ⟨-, -, rfl⟩ | ⟨-, rfl⟩ := next_schedule h
      · rfl
      · rfl
  | wake =>
      obtain ⟨-, rfl⟩ := next_wake h
      rfl
  | create k oneShot =>
      obtain ⟨-, -, rfl⟩ := next_create h
      rfl
  | poll k w =>
      obtain ⟨-, t, -, ⟨-, rfl⟩ | ⟨-, rfl⟩⟩ := next_poll h
      · rfl
      · rfl
  | drop k =>
      obtain ⟨-, t, -, -, rfl⟩ := next_drop h
      exact origin_dropFuture t k s.state
  | tryTick =>
      obtain ⟨-, rfl⟩ := next_tryTick h
      unfold Sys.tryTick
      split
      · rfl
      · rfl
  | step =>
      rcases innermost_cases h with ⟨k, cx, rest, t, out, -, -, hout, rfl⟩ |
        ⟨rest, runnable, queue, -, -, rfl⟩ | ⟨rest, -, -, rfl⟩ | ⟨rest, -, rfl⟩
      · exact origin_step hout
      · rfl
      · rfl
      · rfl
  | ret => exact congrArg State.originThread (ret_keeps h).1

theorem isOrigin_congr {s s' : State R W} (h : s'.originThread = s.originThread)
    (id : Option Nat) : s'.isOrigin id = s.isOrigin id := by
  unfold State.isOrigin
  rw [h]

end Executor

namespace Reentry

open Tasks (TaskId Task Destructor BorrowMutError)

section Rouse

variable {s s' : Sys} {id : Option Nat} {held : Bool} {i j : TaskId} {w : TaskWaker}
  {op : Task → Task × Bool}

theorem error_not_ok {α : Type} {e : BorrowMutError} :
    ¬ ∃ a : α, Except.error e = Except.ok a := by
  rintro ⟨a, ha⟩
  cases ha

/-! ## Operations on a task -/

/-- The operation calls the scheduler function for a task that waits, and
leaves no task waiting. -/
structure Rousing (op : Task → Task × Bool) : Prop where
  calls : ∀ t, (op t).2 = true ↔ t.idle = true ∧ t.closed = false
  settles : ∀ t, ¬ ((op t).1.idle = true ∧ (op t).1.closed = false)

theorem rousing_wake : Rousing Task.wake where
  calls t := by
    unfold Task.wake Task.idle
    cases t.future <;> cases t.scheduled <;> cases t.running <;> cases t.closed <;> simp
  settles t := by
    unfold Task.wake
    split
    · rename_i h
      rintro ⟨hidle, hopen⟩
      rcases h with h | h | h
      · simp [Task.idle, h] at hidle
      · rw [h] at hopen
        cases hopen
      · simp [Task.idle, h] at hidle
    · simp [Task.idle]

theorem rousing_cancel : Rousing Task.cancel where
  calls t := by
    unfold Task.cancel Task.idle
    cases t.future <;> cases t.scheduled <;> cases t.running <;> cases t.closed <;> simp
  settles t := by
    unfold Task.cancel
    split
    · rename_i h
      rintro ⟨hidle, hopen⟩
      rcases h with h | h
      · simp [Task.idle, h] at hidle
      · rw [show t.closed = false from hopen] at h
        cases h
    · simp

/-- An operation on a task calls the scheduler function exactly if the
task waits. -/
theorem calls_iff (hop : Rousing op) {t : Task} (hi : s.tasks i = some t) :
    (op t).2 = true ↔ s.Idle i := by
  rw [hop.calls]
  exact ⟨fun hw => ⟨t, hi, hw⟩, fun ⟨t', ht', hw⟩ =>
    by cases hi.symm.trans ht'; exact hw⟩

/-- One task is changed, and does not wait any more. -/
theorem idle_update {t : Task} (h : s'.tasks = Function.update s.tasks i (some t))
    (ht : ¬ (t.idle = true ∧ t.closed = false)) : s'.Idle j ↔ j ≠ i ∧ s.Idle j := by
  unfold Sys.Idle
  rw [h]
  by_cases he : j = i
  · rw [he, Function.update_self]
    refine iff_of_false ?_ fun h => h.1 rfl
    rintro ⟨t', ht', hw⟩
    cases ht'
    exact ht hw
  · rw [Function.update_of_ne he]
    exact (and_iff_right he).symm

theorem rouses_update {t : Task} (h : s'.tasks = Function.update s.tasks i (some t))
    (ht : ¬ (t.idle = true ∧ t.closed = false)) :
    s'.Rouses w ↔ w ≠ .task i ∧ s.Rouses w := by
  cases w with
  | task j =>
      refine (idle_update h ht).trans (and_congr_left' ?_)
      exact not_congr ⟨fun he => by rw [he], fun he => by cases he; rfl⟩
  | other n => exact iff_of_false (fun h => h) fun h => h.2

/-! ## Wakers that are woken -/

/-- The scheduler function off the origin thread leaves `thread_state`. -/
structure Pushes (s s' : Executor.Sys TaskId TaskWaker) : Prop where
  threadState : s'.state.threadState = s.state.threadState
  originThread : s'.state.originThread = s.state.originThread
  calls : s'.stack = s.stack ∧ s'.tickers = s.tickers
  onOrigin : s'.scheduledLocal = s.scheduledLocal ∧ s'.ranLocal = s.ranLocal ∧
    s'.dropped = s.dropped
  onMain : s.scheduledMain = s.ranMain ++ s.state.taskQueue →
    s'.scheduledMain = s'.ranMain ++ s'.state.taskQueue

theorem Pushes.refl (s : Executor.Sys TaskId TaskWaker) : Pushes s s :=
  ⟨rfl, rfl, ⟨rfl, rfl⟩, ⟨rfl, rfl, rfl⟩, fun h => h⟩

theorem Pushes.trans {s s' s'' : Executor.Sys TaskId TaskWaker} (h : Pushes s s')
    (h' : Pushes s' s'') : Pushes s s'' where
  threadState := h'.threadState.trans h.threadState
  originThread := h'.originThread.trans h.originThread
  calls := ⟨h'.calls.1.trans h.calls.1, h'.calls.2.trans h.calls.2⟩
  onOrigin := ⟨h'.onOrigin.1.trans h.onOrigin.1, h'.onOrigin.2.1.trans h.onOrigin.2.1,
    h'.onOrigin.2.2.trans h.onOrigin.2.2⟩
  onMain hm := h'.onMain (h.onMain hm)

theorem pushes_now (s : Sys) (i : TaskId) : Pushes s.sched (s.pushNow i).sched :=
  ⟨rfl, rfl, ⟨rfl, rfl⟩, ⟨rfl, rfl, rfl⟩, fun hm => by
    show s.sched.scheduledMain ++ [i] = s.sched.ranMain ++ (s.sched.state.taskQueue ++ [i])
    rw [hm, List.append_assoc]⟩

theorem pushes_main (s : Sys) (i : TaskId) : Pushes s.sched (s.callMain i).sched := by
  unfold Sys.callMain
  split
  · split
    · dsimp only
      split
      · exact (pushes_now s i).trans (pushes_now ..)
      · exact pushes_now s i
    · exact pushes_now s i
  · exact pushes_now s i

theorem wakeHeld_task {t : Task} (hi : s.tasks i = some t) : s.wakeHeld id (.task i) =
    if t.wake.2 then
      if s.sched.state.isOrigin id then .error {}
      else .ok (Sys.callMain (s.put i t t.wake.1) i)
    else .ok (s.put i t t.wake.1) := by
  simp only [Sys.wakeHeld, hi]
  rfl

/-- What a wake does where the event is borrowed. -/
theorem wakeHeld_cases (s : Sys) (id : Option Nat) (w : TaskWaker) :
    (s.Rouses w ∧ s.sched.state.isOrigin id = true ∧ s.wakeHeld id w = .error {}) ∨
    ((s.sched.state.isOrigin id = true → ¬ s.Rouses w) ∧
      ∃ s', s.wakeHeld id w = .ok s' ∧ Pushes s.sched s'.sched) := by
  cases w with
  | other n => exact .inr ⟨fun _ hr => hr, s, rfl, Pushes.refl _⟩
  | task i =>
      cases hi : s.tasks i with
      | none =>
          refine .inr ⟨fun _ => ?_, s, by simp only [Sys.wakeHeld, hi], Pushes.refl _⟩
          rintro ⟨t, ht, -⟩
          cases hi.symm.trans ht
      | some t =>
          have hidle : s.Rouses (.task i) ↔ t.wake.2 = true := (calls_iff rousing_wake hi).symm
          rw [hidle, wakeHeld_task hi]
          cases hcall : t.wake.2 with
          | false => exact .inr ⟨by simp, _, rfl, Pushes.refl _⟩
          | true =>
              cases horigin : s.sched.state.isOrigin id with
              | true => exact .inl ⟨rfl, rfl, rfl⟩
              | false =>
                  exact .inr ⟨by simp, _, rfl, pushes_main (Tasks.Sys.put s i t t.wake.1) i⟩

theorem wakeHeld_ok_iff :
    (∃ s', s.wakeHeld id w = .ok s') ↔
    (s.sched.state.isOrigin id = true → ¬ s.Rouses w) := by
  rcases wakeHeld_cases s id w with ⟨hr, ho, he⟩ | ⟨hn, s1, hok, -⟩
  · rw [he]
    exact iff_of_false error_not_ok fun h => h ho hr
  · exact iff_of_true ⟨s1, hok⟩ hn

/-- At most one waker. -/
theorem each_short {α : Type} {f : Sys → α → Outcome} {xs : List α} (h : xs.length ≤ 1) :
    (∃ s', Sys.each f xs s = .ok s') ↔ ∀ x ∈ xs, ∃ s', f s x = .ok s' := by
  cases xs with
  | nil => exact iff_of_true ⟨s, rfl⟩ nofun
  | cons x rest =>
      cases rest with
      | nil =>
          rw [List.forall_mem_singleton]
          show (∃ s', (f s x >>= fun s => .ok s) = .ok s') ↔ _
          cases f s x with
          | error e => exact iff_of_false error_not_ok error_not_ok
          | ok s1 => exact iff_of_true ⟨s1, rfl⟩ ⟨s1, rfl⟩
      | cons y rest =>
          simp only [List.length_cons] at h
          omega

/-- At most one waker is woken where the event is borrowed. -/
theorem wakeAll_ok_iff {ws : List TaskWaker} (h : ws.length ≤ 1) :
    (∃ s', Sys.each (Sys.wakeHeld id) ws s = .ok s') ↔
      (s.sched.state.isOrigin id = true → ∀ w ∈ ws, ¬ s.Rouses w) := by
  rw [each_short h]
  refine (forall₂_congr fun w _ => wakeHeld_ok_iff).trans ?_
  exact ⟨fun h ho w hw => h w hw ho, fun h w hw ho => h ho w hw⟩

/-- What is woken where the event is borrowed pushes to the mainstream queue
at most. -/
theorem pushes_wakeAll {ws : List TaskWaker} : ∀ {s s' : Sys},
    Sys.each (Sys.wakeHeld id) ws s = .ok s' → Pushes s.sched s'.sched := by
  induction ws with
  | nil =>
      intro s s' h
      obtain rfl := Except.ok.inj h
      exact Pushes.refl _
  | cons w ws ih =>
      intro s s' h
      obtain ⟨s1, h1, h⟩ := of_bind_ok h
      rcases wakeHeld_cases s id w with ⟨-, -, he⟩ | ⟨-, u, hu, hp⟩
      · cases he.symm.trans h1
      · obtain rfl := Except.ok.inj (hu.symm.trans h1)
        exact hp.trans (ih h)

/-! ## The scheduler function -/

/-- A Runnable that is scheduled on the origin thread wakes the listener
it is handed to. -/
theorem woken_schedule (sched : Executor.Sys TaskId TaskWaker) (runnable : TaskId) :
    (sched.schedule runnable).woken = sched.woken ++ sched.state.queue.nextWoken := by
  have hwoken : (sched.state.threadState.schedule runnable).2 = sched.state.queue.nextWoken := by
    have hone := sched.state.queue.woken_notify_one (n := handOver) (some runnable) rfl rfl
    refine Eq.trans ?_ ((Event.notify_woken ..).trans hone)
    unfold Executor.ThreadState.schedule
    dsimp only
    split
    · rfl
    · rfl
  exact congrArg (sched.woken ++ ·) hwoken

theorem wokenSince_schedule {s : Sys} (runnable : TaskId) :
    s.wokenSince (s.sched.schedule runnable) = s.sched.state.queue.nextWoken := by
  rw [Sys.wokenSince, woken_schedule, List.drop_left]

theorem call_ok_iff : (∃ s', s.call id i = .ok s') ↔
    (s.sched.state.isOrigin id = true →
      ∀ w ∈ s.sched.state.queue.nextWoken, ¬ s.Rouses w) := by
  unfold Sys.call
  cases horigin : s.sched.state.isOrigin id with
  | true =>
      simp only [if_true]
      rw [wokenSince_schedule, wakeAll_ok_iff (Queue.length_nextWoken _)]
      show (s.sched.state.isOrigin id = true → _) ↔ _
      rw [horigin]
      exact ⟨fun h _ => h rfl, fun h _ => h trivial⟩
  | false => exact iff_of_true ⟨_, rfl⟩ nofun

/-- The waker of the mainstream runner is woken. -/
theorem wakeFree_ok_iff : (∃ s', s.wakeFree id w = .ok s') ↔
    (s.sched.state.isOrigin id = true → ∀ i, w = .task i → s.Idle i → s.Quiet i) := by
  cases w with
  | other n => exact iff_of_true ⟨s, rfl⟩ nofun
  | task i =>
      unfold Sys.wakeFree
      cases hi : s.tasks i with
      | none =>
          simp only [hi]
          refine iff_of_true ⟨s, rfl⟩ ?_
          rintro - _ ⟨⟩ ⟨t, ht, -⟩
          cases hi.symm.trans ht
      | some t =>
          have hidle := (calls_iff rousing_wake hi).symm
          cases hcall : t.wake.2 with
          | false =>
              simp only [hi, hcall, Bool.false_eq_true, if_false]
              refine iff_of_true ⟨_, rfl⟩ ?_
              rintro - _ ⟨⟩ hi'
              cases hcall.symm.trans (hidle.mp hi')
          | true =>
              simp only [hi, hcall, if_true]
              rw [call_ok_iff]
              refine imp_congr_right fun _ => ?_
              constructor
              · rintro h _ ⟨⟩ _ w hw hne hr
                exact h w hw ((rouses_update rfl (rousing_wake.settles t)).mpr ⟨hne, hr⟩)
              · intro h w hw hr
                obtain ⟨hne, hr⟩ := (rouses_update rfl (rousing_wake.settles t)).mp hr
                exact h i rfl (hidle.mpr hcall) w hw hne hr

/-! ## Steps of the tasks -/

/-- A step that wakes nobody. -/
theorem each_none {s u : Sys} {sched : Executor.Sys TaskId TaskWaker}
    {f : Sys → TaskWaker → Outcome}
    (h : sched.woken = s.sched.woken) : Sys.each f (s.wokenSince sched) u = .ok u := by
  rw [Sys.wokenSince, h, List.drop_length]
  rfl

/-- The scheduler function grows the log of the origin thread exactly where
it takes that path. -/
theorem local_schedule {s1 s2 : Sys} {call : Bool} (h : s1.schedule id i call = some s2) :
    s1.sched.scheduledLocal.length < s2.sched.scheduledLocal.length ↔
      call = true ∧ s1.sched.state.isOrigin id = true := by
  cases call with
  | false =>
      obtain rfl := Option.some.inj h
      simp
  | true =>
      obtain ⟨sched, hnext, rfl⟩ := Option.map_eq_some_iff.mp h
      obtain ⟨ho, -, rfl⟩ | ⟨ho, rfl⟩ := Executor.next_schedule hnext
      · refine iff_of_true ?_ ⟨rfl, ho⟩
        show _ < (s1.sched.scheduledLocal ++ [i]).length
        simp
      · refine iff_of_false (Nat.lt_irrefl _) fun h => ?_
        rw [ho] at h
        cases h.2

/-- The wakers that a step of the task `i` wakes. -/
theorem taskWakes_ok_iff (s : Sys) (held : Bool) {s1 s2 u : Sys} {call : Bool} {t : Task}
    (h : s1.schedule id i call = some s2) (hsched : s1.sched = s.sched)
    (htasks : s1.tasks = Function.update s.tasks i (some t))
    (ht : call = true → ¬ (t.idle = true ∧ t.closed = false))
    (hwoken : u.sched.woken = s2.sched.woken)
    (horigin : u.sched.state.originThread = s2.sched.state.originThread)
    (hlocal : u.sched.scheduledLocal = s2.sched.scheduledLocal) (htasks' : u.tasks = s2.tasks) :
    (∃ r, (if held = true ∧ s.sched.scheduledLocal.length < u.sched.scheduledLocal.length
        then .error {}
        else Sys.each (Sys.wakeHeld id) (s.wokenSince u.sched) u) = Except.ok r) ↔
      (call = true → s.sched.state.isOrigin id = true → held = false ∧ s.Quiet i) := by
  have hgrows := local_schedule h
  rw [hsched, ← hlocal] at hgrows
  cases call with
  | false =>
      obtain rfl := Option.some.inj h
      rw [if_neg fun h => by cases (hgrows.mp h.2).1]
      exact iff_of_true ⟨u, each_none (hwoken.trans (by rw [hsched]))⟩ (by simp)
  | true =>
      obtain ⟨sched, hnext, rfl⟩ := Option.map_eq_some_iff.mp h
      rw [hsched] at hnext
      obtain ⟨ho, -, rfl⟩ | ⟨ho, rfl⟩ := Executor.next_schedule hnext
      · cases held with
        | true =>
            rw [if_pos ⟨rfl, hgrows.mpr ⟨rfl, ho⟩⟩]
            exact iff_of_false error_not_ok fun h => by cases (h rfl ho).1
        | false =>
            rw [if_neg (by simp)]
            have ho' : u.sched.state.isOrigin id = true :=
              (Executor.isOrigin_congr horigin id).trans ho
            have hsince : s.wokenSince u.sched = s.sched.state.queue.nextWoken :=
              (congrArg (List.drop _) hwoken).trans (wokenSince_schedule i)
            rw [hsince, wakeAll_ok_iff (Queue.length_nextWoken _), ho']
            have hr : ∀ w, u.Rouses w ↔ w ≠ .task i ∧ s.Rouses w := fun w =>
              rouses_update (htasks'.trans htasks) (ht rfl)
            constructor
            · exact fun h _ _ =>
                ⟨rfl, fun w hw hne hrw => h rfl w hw ((hr w).mpr ⟨hne, hrw⟩)⟩
            · exact fun h _ w hw hrw =>
                (h rfl ho).2 w hw ((hr w).mp hrw).1 ((hr w).mp hrw).2
      · rw [if_neg fun h => by cases ho.symm.trans (hgrows.mp h.2).2]
        refine iff_of_true ⟨u, each_none hwoken⟩ fun _ ho' => ?_
        rw [ho] at ho'
        cases ho'

theorem not_idle_spawned (key : Nat) (onDrop : List Destructor) :
    ¬ ((Task.spawned key onDrop).idle = true ∧ (Task.spawned key onDrop).closed = false) :=
  fun h => by cases h.1

theorem finish_calls (t : Task) (ready : Bool) (onDrop : List Destructor) :
    ((t.finish ready onDrop).2 = true ↔
      ready = false ∧ t.running = true ∧ t.closed = false ∧ t.scheduled = true) ∧
    ((t.finish ready onDrop).2 = true →
      ¬ ((t.finish ready onDrop).1.idle = true ∧ (t.finish ready onDrop).1.closed = false)) := by
  unfold Task.finish Task.idle
  cases t.running <;> cases ready <;> cases t.closed <;> cases t.scheduled <;> simp

theorem ret_local {sched sched' : Executor.Sys TaskId TaskWaker} (h : sched.ret = some sched') :
    sched'.scheduledLocal = sched.scheduledLocal := by
  rcases Executor.ret_cases h with ⟨k, cx, rest, t, -, -, -, rfl⟩ | ⟨rest, -, rfl⟩
  · rfl
  · rfl

/-- A step of a task. -/
theorem task_ok_iff {l : Tasks.Label TaskWaker} {r : Outcome} (hl : ∀ l', l ≠ .tick l')
    (h : s.task held l = some r) : (∃ s', r = .ok s') ↔
      ∀ i, s.Schedules i l → s.sched.state.isOrigin (threadOf l) = true →
        held = false ∧ s.Quiet i := by
  obtain ⟨s', hnext, rfl⟩ := Option.map_eq_some_iff.mp h
  cases l with
  | tick l => exact (hl l rfl).elim
  | spawn i key pos onDrop id =>
      obtain ⟨-, hs⟩ := Tasks.next_spawn hnext
      refine (taskWakes_ok_iff s held hs rfl rfl (fun _ => not_idle_spawned key onDrop)
        rfl rfl rfl rfl).trans ?_
      exact ⟨fun h j hj => hj ▸ h rfl, fun h _ => h i rfl⟩
  | wake i id =>
      obtain ⟨t, ht, -, hs⟩ := Tasks.next_wake hnext
      refine (taskWakes_ok_iff s held hs rfl rfl (fun _ => rousing_wake.settles t)
        rfl rfl rfl rfl).trans ?_
      rw [calls_iff rousing_wake ht]
      exact ⟨fun h j hj => hj.1 ▸ h (hj.1 ▸ hj.2), fun h hi => h i ⟨rfl, hi⟩⟩
  | cancel i id =>
      obtain ⟨t, ht, -, hs⟩ := Tasks.next_cancel hnext
      refine (taskWakes_ok_iff s held hs rfl rfl (fun _ => rousing_cancel.settles t)
        rfl rfl rfl rfl).trans ?_
      rw [calls_iff rousing_cancel ht]
      exact ⟨fun h j hj => hj.1 ▸ h (hj.1 ▸ hj.2), fun h hi => h i ⟨rfl, hi⟩⟩
  | detach i =>
      obtain ⟨t, -, -, rfl⟩ := Tasks.next_detach hnext
      refine iff_of_true ⟨_, (if_neg fun h => Nat.lt_irrefl _ h.2).trans (each_none rfl)⟩ ?_
      exact fun i hi => hi.elim
  | wakers i held' =>
      obtain ⟨t, -, -, rfl⟩ := Tasks.next_wakers hnext
      refine iff_of_true ⟨_, (if_neg fun h => Nat.lt_irrefl _ h.2).trans (each_none rfl)⟩ ?_
      exact fun i hi => hi.elim
  | ret ready onDrop id =>
      obtain ⟨i, running, t, s1, sched, hrun, ht, hs, hret, rfl⟩ := Tasks.next_ret hnext
      obtain ⟨hstate, -, hwoken, -⟩ := Executor.ret_keeps hret
      obtain ⟨hcalls, hsettles⟩ := finish_calls t ready onDrop
      refine (taskWakes_ok_iff (u := { s1 with sched }) s held hs rfl rfl hsettles hwoken
        (congrArg Executor.State.originThread hstate) (ret_local hret) rfl).trans ?_
      rw [hcalls]
      constructor
      · rintro h j ⟨hj, hready, t', ht', hw⟩
        rw [hrun] at hj
        cases hj
        cases ht.symm.trans ht'
        exact h ⟨hready, hw⟩
      · rintro h ⟨hready, hw⟩
        exact h i ⟨by rw [hrun]; rfl, hready, t, ht, hw⟩

end Rouse

/-! ## Steps of the tickers -/

section Ticks

open Executor

variable {s : Executor.State TaskId TaskWaker} {t : Ticker} {k : Ptr} {cx : TaskWaker}
  {out : TickOut TaskId TaskWaker}

theorem woken_wakeRunner (ts : ThreadState TaskId TaskWaker) :
    ts.wakeRunner.2 = ts.threadWaker.queue.nextWoken :=
  (Event.notify_woken ..).trans (Queue.woken_notify_one (n := wakeOne) _ () rfl rfl)

/-- The drop of the listener wakes first, then that of the ticker. -/
theorem woken_dropFuture (t : Ticker) (k : Ptr) (s : Executor.State TaskId TaskWaker) :
    (t.dropFuture k s).woken = (s.queue.drop k).woken ++
      if t.isMainstream then (s.queue.drop k).event.nextWoken else [] := by
  unfold Ticker.dropFuture Ticker.drop
  have hdrop : (s.threadState.threadWaker.drop k).woken = (s.queue.drop k).woken :=
    Event.drop_woken ..
  have hqueue : (s.threadState.threadWaker.drop k).event.queue = (s.queue.drop k).event :=
    Event.queue_drop ..
  cases t.isMainstream with
  | true =>
      refine congrArg₂ (· ++ ·) hdrop ((woken_wakeRunner _).trans ?_)
      exact congrArg Queue.nextWoken hqueue
  | false => exact congrArg (· ++ []) hdrop

/-- A ticker wakes another one before it runs what it has popped, and
when it is dropped as the mainstream runner. -/
theorem woken_step (hpl : s.queue.Plain) (hk : Seat s.queue k (some t.pc))
    (h : t.step k cx s = some out) :
    (t.pc = .loopHead ∧ s.threadState.taskQueue ≠ [] ∧ out.woken = s.queue.nextWoken) ∨
    (t.pc = .finish ∧ t.oneShot = true ∧ t.isMainstream = true ∧
      out.woken = (s.queue.erase k).nextWoken) ∨
    ((t.pc = .loopHead → s.threadState.taskQueue = []) ∧
      (t.pc = .finish → t.oneShot = true → t.isMainstream = false) ∧ out.woken = []) := by
  unfold Ticker.step at h
  cases hpc : t.pc with
  | loopHead =>
      rw [hpc] at h
      obtain rfl := Option.some.inj h
      unfold Ticker.loopHead
      cases hL : s.threadState.taskQueue with
      | nil =>
          refine .inr (.inr ⟨fun _ => rfl, nofun, ?_⟩)
          dsimp only
          split
          · rfl
          · rfl
      | cons runnable rest => exact .inl ⟨rfl, List.cons_ne_nil _ _, woken_wakeRunner _⟩
  | listen | pollOnce =>
      rw [hpc] at h
      obtain rfl := Option.some.inj h
      exact .inr (.inr ⟨nofun, nofun, (frame_pollListener ..).2.2.2.1⟩)
  | mainPop | mainPopAgain =>
      rw [hpc] at h
      obtain rfl := Option.some.inj h
      exact .inr (.inr ⟨nofun, nofun, (popMain_cases ..).2.1⟩)
  | mainRegister | mainTake =>
      rw [hpc] at h
      obtain rfl := Option.some.inj h
      exact .inr (.inr ⟨nofun, nofun, rfl⟩)
  | finish =>
      rw [hpc] at h hk
      obtain rfl := Option.some.inj h
      -- its listener is not notified
      rcases Queue.woken_drop s.nodup hpl k with ⟨⟨tag, b, hst⟩, -⟩ |
        ⟨-, hwoken, herase, -⟩
      · exact (hk tag b hst).elim
      · cases hone : t.oneShot with
        | false =>
            refine .inr (.inr ⟨nofun, nofun, ?_⟩)
            exact (Event.drop_woken ..).trans hwoken
        | true =>
            have hd := woken_dropFuture t k s
            rw [hwoken, List.nil_append, herase] at hd
            cases hmain : t.isMainstream with
            | true => exact .inr (.inl ⟨rfl, rfl, rfl, hd.trans (if_pos hmain)⟩)
            | false =>
                refine .inr (.inr ⟨nofun, fun _ _ => rfl, hd.trans (if_neg ?_)⟩)
                rw [hmain]
                exact Bool.false_ne_true
  | fresh | parked | runPopped | runAwaited | runLast =>
      rw [hpc] at h
      cases h

end Ticks

section Tick

variable {s s' : Sys} {id : Option Nat} {held : Bool} {k : Ptr}
  {l : Executor.Label TaskId TaskWaker} {r : Outcome} {sched : Executor.Sys TaskId TaskWaker}

theorem bind_ok_iff {α β : Type} {x : Except BorrowMutError α} {f : α → β} :
    (∃ b, (x >>= fun a => Except.ok (f a)) = Except.ok b) ↔ ∃ a, x = .ok a := by
  cases x with
  | error e => exact iff_of_false error_not_ok error_not_ok
  | ok a => exact iff_of_true ⟨f a, rfl⟩ ⟨a, rfl⟩

/-- A step that uses the event where it is borrowed. -/
theorem tick_uses (h : s.tick id held l = some r) (hheld : held = true)
    (huse : Sys.tickUses s.sched l = true) : ¬ ∃ s', r = .ok s' := by
  obtain ⟨sched, -, rfl⟩ := Option.map_eq_some_iff.mp h
  rw [if_pos ⟨hheld, huse⟩]
  exact error_not_ok

/-- The wakers of another step. -/
theorem tick_wakes (h : s.tick id held l = some r) (hnext : s.sched.next l = some sched)
    (huse : ¬ (held = true ∧ Sys.tickUses s.sched l = true)) :
    (∃ s', r = .ok s') ↔ ∃ s', Sys.each
      (if s.wakesMain l ∧ ¬ (held ∧ s.sched.state.isOrigin id) then Sys.wakeFree id
        else Sys.wakeHeld id) (s.wokenSince sched) { s with sched } = .ok s' := by
  obtain ⟨sched', hnext', rfl⟩ := Option.map_eq_some_iff.mp h
  cases hnext.symm.trans hnext'
  rw [if_neg huse]
  exact bind_ok_iff

/-- The wakers of a step that wakes where the event is borrowed. -/
theorem tickHeld_ok_iff (h : s.tick id held l = some r)
    (hl : ¬ (s.wakesMain l = true ∧ ¬ (held = true ∧ s.sched.state.isOrigin id = true)))
    (huse : ¬ (held = true ∧ Sys.tickUses s.sched l = true))
    (hnext : s.sched.next l = some sched) {ws : List TaskWaker}
    (hwoken : sched.woken = s.sched.woken ++ ws) (hlen : ws.length ≤ 1) :
    (∃ s', r = .ok s') ↔
    (s.sched.state.isOrigin id = true → ∀ w ∈ ws, ¬ s.Rouses w) := by
  rw [tick_wakes h hnext huse, if_neg hl, Sys.wokenSince, hwoken, List.drop_left,
    wakeAll_ok_iff hlen, Executor.isOrigin_congr (Executor.origin_next hnext)]
  exact Iff.rfl

/-- A step that wakes nobody goes through. -/
theorem tick_ok_of_none (h : s.tick id held l = some r) (hl : s.wakesMain l = false)
    (huse : ¬ (held = true ∧ Sys.tickUses s.sched l = true))
    (hnext : s.sched.next l = some sched) (hwoken : sched.woken = s.sched.woken) :
    ∃ s', r = .ok s' := by
  have hnil : sched.woken = s.sched.woken ++ [] := by rw [hwoken, List.append_nil]
  rw [tickHeld_ok_iff h (by simp [hl]) huse hnext hnil (Nat.zero_le _)]
  exact fun _ => List.forall_mem_nil _

/-- The waker of a step that wakes where nothing else is borrowed. -/
theorem mainWake_ok_iff (h : s.tick id held l = some r) (hl : s.wakesMain l = true)
    (huse : Sys.tickUses s.sched l = false) (hnext : s.sched.next l = some sched)
    (hwoken : sched.woken = s.sched.woken ++ s.sched.state.mainstreamWaker.toList)
    (hqueue : sched.state.queue = s.sched.state.queue) :
    (∃ s', r = .ok s') ↔ (s.sched.state.isOrigin id = true →
      ∀ i, s.sched.state.mainstreamWaker = some (.task i) → s.Idle i →
        held = false ∧ s.Quiet i) := by
  have hnot : ¬ (held = true ∧ Sys.tickUses s.sched l = true) := by simp [huse]
  have hlen : s.sched.state.mainstreamWaker.toList.length ≤ 1 := by
    cases s.sched.state.mainstreamWaker <;> simp
  by_cases hheld : held = true ∧ s.sched.state.isOrigin id = true
  · rw [tickHeld_ok_iff h (fun h => h.2 hheld) hnot hnext hwoken hlen]
    refine imp_congr_right fun _ => ⟨fun h i hslot hidle => ?_, fun h w hw hr => ?_⟩
    · exact (h (.task i) (by rw [hslot]; exact List.mem_singleton_self _) hidle).elim
    · cases w with
      | other n => exact hr
      | task i => cases hheld.1.symm.trans (h i (Option.mem_toList.mp hw) hr).1
  · have hquiet : ∀ i, Sys.Quiet { s with sched } i ↔ s.Quiet i := fun i => by
      unfold Sys.Quiet
      rw [show ({ s with sched } : Sys).sched.state.queue = s.sched.state.queue from hqueue]
      exact Iff.rfl
    rw [tick_wakes h hnext hnot, if_pos ⟨hl, hheld⟩, Sys.wokenSince, hwoken, List.drop_left,
      each_short hlen]
    refine (forall₂_congr fun w _ => wakeFree_ok_iff).trans ?_
    rw [Executor.isOrigin_congr (Executor.origin_next hnext)]
    constructor
    · intro h ho i hslot hidle
      refine ⟨eq_false_of_ne_true fun hh => hheld ⟨hh, ho⟩, (hquiet i).mp ?_⟩
      refine h (.task i) ?_ ho i rfl hidle
      rw [hslot]
      exact List.mem_singleton_self _
    · rintro h w hw ho i rfl hidle
      exact (hquiet i).mpr (h ho i (Option.mem_toList.mp hw) hidle).2

/-- A step of the ticker that is polled innermost. -/
theorem ticker_ok_iff {cx : TaskWaker} {rest : List (Executor.Frame TaskWaker)}
    (hi : s.sched.Inv) (h : s.tick id held .step = some r)
    (hst : s.sched.stack = .ticker k cx :: rest) :
    (∃ s', r = .ok s') ↔ s.KeepsTop id held s.sched.stack := by
  obtain ⟨sched, hnext, -⟩ := Option.map_eq_some_iff.mp h
  have hstep := hnext
  simp only [Executor.Sys.next, Executor.Sys.step, hst] at hstep
  rw [hst]
  cases hk : s.sched.tickers k with
  | none =>
      rw [hk] at hstep
      cases hstep
  | some t =>
      rw [hk] at hstep
      obtain ⟨out, hout, rfl⟩ := Option.map_eq_some_iff.mp hstep
      have hl : s.wakesMain .step = false := by
        rw [Sys.wakesMain, hst]
      have huses : Sys.tickUses s.sched .step = Sys.usesEvent t k s.sched.state := by
        rw [Sys.tickUses, hst]
        simp only [hk, Option.any_some]
      have htop : s.KeepsTop id held (.ticker k cx :: rest) ↔ _ :=
        ⟨fun h => h t hk, fun h t' ht' => by cases hk.symm.trans ht'; exact h⟩
      rw [htop]
      -- the event is borrowed, or this step may use it
      by_cases hbad : held = true ∧ Sys.usesEvent t k s.sched.state = true
      · obtain ⟨rfl, huse⟩ := hbad
        refine iff_of_false (tick_uses h rfl (huses.trans huse)) fun hkeeps => ?_
        unfold Sys.usesEvent at huse
        split at huse
        · rename_i hpc
          rw [hpc] at hkeeps
          have hne : s.sched.state.threadState.taskQueue ≠ [] := by
            rintro hL
            rw [hL] at huse
            cases huse
          cases (hkeeps hne).1
        · rename_i hpc
          rw [hpc] at hkeeps
          cases hkeeps
        · rename_i hpc
          rw [hpc] at hkeeps
          cases hkeeps
        · rename_i hpc
          rw [hpc] at hkeeps
          rcases of_decide_eq_true huse with hmem | ⟨hone, hmain⟩
          · cases hkeeps.1 hmem
          · cases (hkeeps.2 hone hmain).1
        · cases huse
      · have hnot : ¬ (held = true ∧ Sys.tickUses s.sched .step = true) := by rwa [huses]
        have hfalse : Sys.usesEvent t k s.sched.state = true → held = false := fun hu =>
          eq_false_of_ne_true fun hh => hbad ⟨hh, hu⟩
        have hpass : ∀ {ws : List TaskWaker}, out.woken = ws → ws.length ≤ 1 →
            ((∃ s', r = .ok s') ↔
              (s.sched.state.isOrigin id = true → ∀ w ∈ ws, ¬ s.Rouses w)) := fun hw hlen =>
          tickHeld_ok_iff h (by simp [hl]) hnot hnext (congrArg (s.sched.woken ++ ·) hw) hlen
        rcases woken_step hi.plain (hi.seat hk rfl) hout with
          ⟨hpc, hL, hwoken⟩ | ⟨hpc, hone, hmain, hwoken⟩ | ⟨hhead, hfinish, hwoken⟩
        · rw [hpass hwoken (Queue.length_nextWoken _), hpc]
          have huse : Sys.usesEvent t k s.sched.state = true := by
            rw [Sys.usesEvent, hpc]
            simpa using hL
          exact ⟨fun h _ => ⟨hfalse huse, h⟩, fun h => (h hL).2⟩
        · rw [hpass hwoken (Queue.length_nextWoken _), hpc]
          have huse : Sys.usesEvent t k s.sched.state = true := by
            rw [Sys.usesEvent, hpc]
            exact decide_eq_true (.inr ⟨hone, hmain⟩)
          exact ⟨fun h => ⟨fun _ => hfalse huse, fun _ _ => ⟨hfalse huse, h⟩⟩,
            fun h => (h.2 hone hmain).2⟩
        · refine iff_of_true ((hpass hwoken (Nat.zero_le _)).mpr fun _ =>
            List.forall_mem_nil _) ?_
          cases hpc : t.pc with
          | loopHead => exact fun hne => (hne (hhead hpc)).elim
          | listen | pollOnce => exact hfalse (by rw [Sys.usesEvent, hpc])
          | finish =>
              refine ⟨fun hmem => hfalse ?_, fun hone hmain => ?_⟩
              · rw [Sys.usesEvent, hpc]
                exact decide_eq_true (.inl hmem)
              · cases hmain.symm.trans (hfinish hpc hone)
          | _ => trivial

/-- A step of `try_tick` after its pop from the thread-local queue. -/
theorem tryTick_ok_iff {pc : Executor.TryPc} {rest : List (Executor.Frame TaskWaker)}
    (h : s.tick id held .step = some r) (hst : s.sched.stack = .tryTick pc :: rest) :
    (∃ s', r = .ok s') ↔ s.KeepsTop id held s.sched.stack := by
  obtain ⟨sched, hnext, -⟩ := Option.map_eq_some_iff.mp h
  have hstep := hnext
  simp only [Executor.Sys.next, Executor.Sys.step, hst] at hstep
  have huse : Sys.tickUses s.sched .step = false := by
    rw [Sys.tickUses, hst]
  have hnot : ¬ (held = true ∧ Sys.tickUses s.sched .step = true) := by simp [huse]
  rw [hst]
  cases pc with
  | popMain =>
      have hl : s.wakesMain .step = false := by
        rw [Sys.wakesMain, hst]
      dsimp only at hstep
      split at hstep
      · obtain rfl := Option.some.inj hstep
        exact iff_of_true (tick_ok_of_none h hl hnot hnext rfl) trivial
      · obtain rfl := Option.some.inj hstep
        exact iff_of_true (tick_ok_of_none h hl hnot hnext rfl) trivial
  | wake =>
      obtain rfl := Option.some.inj hstep
      exact mainWake_ok_iff h (by rw [Sys.wakesMain, hst]) huse hnext rfl rfl
  | running => cases hstep

/-- A step of `try_tick` or of a ticker. -/
theorem tick_ok_iff (hi : s.sched.Inv) (h : s.tick id held l = some r)
    (hl : Tasks.isTick l = true) (hdrop : ∀ k, l ≠ .drop k)
    (hwake : l = .wake → s.sched.state.isOrigin id = false) :
    (∃ s', r = .ok s') ↔ s.KeepsTick id held l := by
  obtain ⟨sched, hnext, -⟩ := Option.map_eq_some_iff.mp h
  cases l with
  | schedule id' runnable => cases hl
  | ret => cases hl
  | drop k => exact (hdrop k rfl).elim
  | wake =>
      obtain ⟨-, rfl⟩ := Executor.next_wake hnext
      rw [mainWake_ok_iff h rfl rfl hnext rfl rfl]
      exact iff_of_true (fun ho => by cases ho.symm.trans (hwake rfl)) trivial
  | create k oneShot =>
      obtain ⟨-, -, rfl⟩ := Executor.next_create hnext
      exact iff_of_true (tick_ok_of_none h rfl (by simp [Sys.tickUses]) hnext rfl) trivial
  | poll k w =>
      have hnot : ¬ (held = true ∧ Sys.tickUses s.sched (.poll k w) = true) := by
        simp [Sys.tickUses]
      obtain ⟨-, t, -, ⟨-, rfl⟩ | ⟨-, rfl⟩⟩ := Executor.next_poll hnext
      · exact iff_of_true (tick_ok_of_none h rfl hnot hnext rfl) trivial
      · exact iff_of_true (tick_ok_of_none h rfl hnot hnext rfl) trivial
  | tryTick =>
      obtain ⟨-, rfl⟩ := Executor.next_tryTick hnext
      unfold Sys.KeepsTick
      cases hL : s.sched.state.threadState.taskQueue with
      | nil =>
          have hwoken : s.sched.tryTick.woken = s.sched.woken := by
            unfold Executor.Sys.tryTick
            rw [hL]
          exact iff_of_true (tick_ok_of_none h rfl (by simp [Sys.tickUses, hL]) hnext hwoken)
            fun hne => (hne rfl).elim
      | cons runnable rest =>
          have hwoken : s.sched.tryTick.woken =
              s.sched.woken ++ s.sched.state.queue.nextWoken := by
            unfold Executor.Sys.tryTick
            rw [hL]
            exact congrArg (s.sched.woken ++ ·) (woken_wakeRunner _)
          have huse : Sys.tickUses s.sched .tryTick = true := by simp [Sys.tickUses, hL]
          cases held with
          | true =>
              refine iff_of_false (tick_uses h rfl huse) fun hkeeps => ?_
              cases (hkeeps (List.cons_ne_nil _ _)).1
          | false =>
              rw [tickHeld_ok_iff h (by simp [Sys.wakesMain]) (by simp) hnext hwoken
                (Queue.length_nextWoken _)]
              exact ⟨fun h _ => ⟨rfl, h⟩, fun h => (h (List.cons_ne_nil _ _)).2⟩
  | step =>
      show _ ↔ s.KeepsTop id held s.sched.stack
      cases hst : s.sched.stack with
      | nil =>
          simp only [Executor.Sys.next, Executor.Sys.step, hst] at hnext
          cases hnext
      | cons frame rest =>
          rw [← hst]
          cases frame with
          | ticker k cx => exact ticker_ok_iff hi h hst
          | tryTick pc => exact tryTick_ok_iff h hst

end Tick

/-! ## The drop of a ticker -/

section Drop

variable {s s' : Sys} {id : Option Nat} {k : Ptr} {t : Executor.Ticker}

theorem woken_drop (t : Executor.Ticker) (s : Executor.State TaskId TaskWaker) :
    (t.drop s).2 = if t.isMainstream then s.queue.nextWoken else [] := by
  unfold Executor.Ticker.drop
  cases t.isMainstream with
  | true => exact woken_wakeRunner _
  | false => rfl

theorem origin_drop (t : Executor.Ticker) (s : Executor.State TaskId TaskWaker) :
    (t.drop s).1.originThread = s.originThread := by
  unfold Executor.Ticker.drop
  cases t.isMainstream with
  | true => rfl
  | false => rfl

/-- `Ticker::drop` wakes another runner. -/
theorem release_ok_iff : (∃ s', s.release id t = .ok s') ↔
    (t.isMainstream = true → s.sched.state.isOrigin id = true →
      ∀ w ∈ s.sched.state.queue.nextWoken, ¬ s.Rouses w) := by
  have horigin := Executor.isOrigin_congr (origin_drop t s.sched.state) id
  unfold Sys.release
  dsimp only
  rw [woken_drop]
  cases t.isMainstream with
  | true =>
      rw [if_pos rfl, wakeAll_ok_iff (Queue.length_nextWoken _)]
      show (Executor.State.isOrigin (t.drop s.sched.state).1 id = true → _) ↔ _
      rw [horigin]
      exact ⟨fun h _ => h, fun h => h rfl⟩
  | false => exact iff_of_true ⟨_, rfl⟩ (by simp)

theorem bind_ok_of {α β : Type} {x : Except BorrowMutError α}
    {f : α → Except BorrowMutError β}
    (hf : ∀ a, x = .ok a → ∃ b, f a = .ok b) : (∃ b, (x >>= f) = .ok b) ↔
      ∃ a, x = .ok a := by
  cases x with
  | error e => exact iff_of_false error_not_ok error_not_ok
  | ok a => exact iff_of_true (hf a rfl) ⟨a, rfl⟩

theorem drop_eq {r : Result} (h : s.drop id k = some r) :
    ∃ t, s.sched.tickers k = some t ∧ s.sched.Free ∧ t.pc.active = false ∧
      r = Sys.each (Sys.wakeHeld id) (Sys.dropListener k s.sched.state).woken { s with
          sched := s.sched.settle k s.sched.stack (Sys.dropListener k s.sched.state) } >>=
        fun u => match (Sys.dropListener k s.sched.state).dropped with
          | some runnable => .ok (u.discard t runnable)
          | none => u.release id t >>= fun u => .ok ⟨u, none⟩ := by
  unfold Sys.drop at h
  split at h
  · rename_i t hk
    split at h
    · rename_i hc
      exact ⟨t, hk, hc.1, hc.2, (Option.some.inj h).symm⟩
    · cases h
  · cases h

/-- The drop of a future where nothing is borrowed. -/
theorem drop_ok_iff {r : Result} (hi : s.sched.Inv) (h : s.drop id k = some r) :
    (∃ s', r = .ok s') ↔
      ∀ t, s.sched.tickers k = some t → s.sched.state.isOrigin id = true →
      (t.isMainstream = true ∨
        ∃ tag b, s.sched.state.queue.stateOf k = some (.notified tag b)) →
      ∀ w ∈ (s.sched.state.queue.erase k).nextWoken, ¬ s.Rouses w := by
  obtain ⟨t, hk, -, -, rfl⟩ := drop_eq h
  have hwoken : (Sys.dropListener k s.sched.state).woken = (s.sched.state.queue.drop k).woken :=
    Event.drop_woken ..
  have hdropped : (Sys.dropListener k s.sched.state).dropped =
      (s.sched.state.queue.drop k).discarded.join := congrArg Option.join (Event.drop_discarded ..)
  have hqueue : (Sys.dropListener k s.sched.state).state.queue =
      (s.sched.state.queue.drop k).event := Event.queue_drop ..
  have hkeeps : (∀ t', s.sched.tickers k = some t' → s.sched.state.isOrigin id = true →
      (t'.isMainstream = true ∨
        ∃ tag b, s.sched.state.queue.stateOf k = some (.notified tag b)) →
      ∀ w ∈ (s.sched.state.queue.erase k).nextWoken, ¬ s.Rouses w) ↔ _ :=
    ⟨fun h => h t hk, fun h t' ht' => by cases hk.symm.trans ht'; exact h⟩
  rw [hkeeps, hwoken, hdropped]
  rcases Queue.woken_drop s.sched.state.nodup hi.plain k with
    ⟨hst, hfirst, hlater, -⟩ | ⟨hst, hfirst, herase, hnone⟩
  · -- the notification is passed on, and nobody is left to be woken
    rw [hfirst, bind_ok_of, wakeAll_ok_iff (Queue.length_nextWoken _)]
    · exact ⟨fun h ho _ => h ho, fun h ho => h ho (.inr hst)⟩
    · intro u hu
      have hnext : u.sched.state.queue.nextWoken = [] := by
        have hq : u.sched.state.queue = (Sys.dropListener k s.sched.state).state.queue :=
          congrArg (fun ts => ts.threadWaker.queue) (pushes_wakeAll hu).threadState
        rw [hq, hqueue, hlater]
      split
      · exact ⟨_, rfl⟩
      · refine bind_ok_iff.mpr (release_ok_iff.mpr fun _ _ => ?_)
        rw [hnext]
        exact List.forall_mem_nil _
  · rw [hfirst, hnone]
    refine (bind_ok_iff.trans release_ok_iff).trans ?_
    have hnext : (s.sched.settle k s.sched.stack (Sys.dropListener k s.sched.state)).state.queue =
        s.sched.state.queue.erase k := hqueue.trans herase
    rw [hnext]
    constructor
    · rintro h ho (hmain | ⟨tag, b, hn⟩)
      · exact h hmain ho
      · exact (hst tag b hn).elim
    · exact fun h hmain ho => h ho (.inl hmain)

/-- The drop of a future where the event is borrowed. -/
theorem dropHeld_ok_iff {r : Outcome} (h : s.dropHeld k = some r) :
    (∃ s', r = .ok s') ↔ ∀ t, s.sched.tickers k = some t →
      ¬ (k ∈ s.sched.state.queue.ids ∨ t.isMainstream = true) := by
  obtain ⟨sched, hnext, rfl⟩ := Option.map_eq_some_iff.mp h
  obtain ⟨-, t, hk, -, -⟩ := Executor.next_drop hnext
  rw [hk]
  simp only [Option.any_some, Option.some.injEq, forall_eq']
  split
  · rename_i hbad
    exact iff_of_false error_not_ok fun h => h hbad
  · rename_i hgood
    exact iff_of_true ⟨_, rfl⟩ hgood

/-- The guard of the future that was dropped, then `Ticker::drop`. -/
theorem finish_ok_iff {s : State} {d : Dropping} : (∃ s', s.finish id d = .ok s') ↔
    (d.ticker.isMainstream = true → s.sys.sched.state.isOrigin id = true →
      ∀ w ∈ s.sys.sched.state.queue.nextWoken, ¬ s.sys.Rouses w) :=
  bind_ok_iff.trans release_ok_iff

/-! ## Every step -/

theorem after_ok_iff {s : State} {x : Outcome} :
    (∃ s', s.after x = .ok s') ↔ ∃ u, x = .ok u := by
  cases x with
  | error e => exact iff_of_false error_not_ok error_not_ok
  | ok u => exact iff_of_true ⟨_, rfl⟩ ⟨u, rfl⟩

/-- A step is one of a task or of a ticker, or it begins, is part of or
ends the drop of a future. -/
theorem step_cases {s : State} {l : Label} {r : Result} (h : s.step l = some r) :
    (∃ l' x, l = .task l' ∧ (∀ l'', l' ≠ .tick l'') ∧ s.sys.task s.held l' = some x ∧
      r = s.after x) ∨
    (∃ id l' x, l = .tick id l' ∧ Tasks.isTick l' = true ∧ (∀ k, l' ≠ .drop k) ∧
      (l' = .wake → s.sys.sched.state.isOrigin id = false) ∧
      s.sys.tick id s.held l' = some x ∧ r = s.after x) ∨
    (∃ id k, l = .drop id k ∧ s.held = false ∧ s.sys.drop id k = some r) ∨
    (∃ id k x, l = .drop id k ∧ s.held = true ∧ s.sys.dropHeld k = some x ∧
      r = s.after x) ∨
    (∃ id d, l = .dropped id ∧ s.dropping = some d ∧ s.sys.sched.Free ∧
      r = s.finish id d) := by
  cases l with
  | task l =>
      have htask : (∀ l', l ≠ .tick l') → s.step (.task l) =
          if s.waits l then none else (s.sys.task s.held l).map s.after := by
        intro hl
        cases l with
        | tick l' => exact (hl l' rfl).elim
        | _ => rfl
      have hl : ∀ l', l ≠ .tick l' := by
        rintro l' rfl
        cases h
      rw [htask hl] at h
      split at h
      · cases h
      · obtain ⟨x, hx, rfl⟩ := Option.map_eq_some_iff.mp h
        exact .inl ⟨l, x, rfl, hl, hx, rfl⟩
  | tick id l =>
      have htick : Tasks.isTick l = true ∧ (∀ k, l ≠ .drop k) ∧
          (l = .wake → s.sys.sched.state.isOrigin id = false) ∧
          (s.sys.tick id s.held l).map s.after = some r := by
        cases l with
        | schedule id' runnable => cases h
        | ret => cases h
        | drop k => cases h
        | wake =>
            rw [State.step] at h
            split at h
            · cases h
            · rename_i ho
              exact ⟨rfl, by simp, fun _ => eq_false_of_ne_true ho, h⟩
        | create | poll | tryTick | step => exact ⟨rfl, by simp, by simp, h⟩
      obtain ⟨hl, hdrop, hwake, h⟩ := htick
      obtain ⟨x, hx, rfl⟩ := Option.map_eq_some_iff.mp h
      exact .inr (.inl ⟨id, l, x, rfl, hl, hdrop, hwake, hx, rfl⟩)
  | drop id k =>
      rw [State.step] at h
      split at h
      · rename_i hd
        exact .inr (.inr (.inl ⟨id, k, rfl, by rw [State.held, hd]; rfl, h⟩))
      · rename_i d hd
        obtain ⟨x, hx, rfl⟩ := Option.map_eq_some_iff.mp h
        exact .inr (.inr (.inr (.inl ⟨id, k, x, rfl, by rw [State.held, hd]; rfl, hx, rfl⟩)))
  | dropped id =>
      rw [State.step] at h
      split at h
      · rename_i d hd
        split at h
        · rename_i hc
          exact .inr (.inr (.inr (.inr ⟨id, d, rfl, hd, hc.1, (Option.some.inj h).symm⟩)))
        · cases h
      · cases h

/-- A step goes through exactly if it keeps the borrows. -/
theorem step_ok_iff {s : State} {l : Label} {r : Result} (hi : s.sys.sched.Inv)
    (h : s.step l = some r) : (∃ s', r = .ok s') ↔ s.KeepsBorrows l := by
  rcases step_cases h with ⟨l', x, rfl, hl, hx, rfl⟩ |
    ⟨id, l', x, rfl, hl, hdrop, hwake, hx, rfl⟩ | ⟨id, k, rfl, hheld, hx⟩ |
    ⟨id, k, x, rfl, hheld, hx, rfl⟩ | ⟨id, d, rfl, hd, -, rfl⟩
  · exact after_ok_iff.trans (task_ok_iff hl hx)
  · exact after_ok_iff.trans (tick_ok_iff hi hx hl hdrop hwake)
  · rw [drop_ok_iff hi hx]
    exact forall₂_congr fun t _ => (and_iff_right fun _ => hheld).symm
  · rw [after_ok_iff, dropHeld_ok_iff hx]
    refine forall₂_congr fun t _ =>
      ⟨fun hn => ⟨fun hb => (hn hb).elim, ?_⟩, fun h hb => ?_⟩
    · rintro - (hmain | ⟨tag, b, hst⟩)
      · exact (hn (.inr hmain)).elim
      · exact (hn (.inl (Queue.stateOf_mem_ids hst))).elim
    · cases hheld.symm.trans (h.1 hb)
  · rw [finish_ok_iff]
    exact ⟨fun h d' hd' => by cases hd.symm.trans hd'; exact h, fun h => h d hd⟩

end Drop

end Reentry

end Unsend

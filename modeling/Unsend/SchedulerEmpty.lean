import Unsend.SchedulerSteps

/-!
# What `is_empty` and `try_tick` see

`is_empty` looks at the two queues and `try_tick` pops from them. A
Runnable that the scheduler function has handed to a suspended ticker is
in neither of them: it is in the tag of the ticker's listener until the
ticker is polled.

`seesAll_run_iff` is the property of whole runs: `is_empty` is true and
`try_tick` returns false only where every Runnable was run or dropped
exactly as long as a hand-over is made only while a Runnable is queued,
and the last queued Runnable is taken only while no listener holds one.
-/

namespace Unsend

namespace Executor

variable {R W : Type}

/-- `Executor::is_empty`. -/
def State.isEmpty (s : State R W) : Bool := s.threadState.taskQueue.isEmpty && s.taskQueue.isEmpty

namespace Sys

/-- Every Runnable that was scheduled was run or dropped. -/
def AllRun (s : Sys R W) : Prop :=
  (s.scheduledLocal : Multiset R) = s.ranLocal + s.dropped ∧ s.scheduledMain = s.ranMain

/-- The innermost call is a `try_tick` that is about to return false. -/
def TryTickFails (s : Sys R W) : Prop :=
  s.stack.head? = some (.tryTick .popMain) ∧ s.state.taskQueue = []

deriving instance DecidableEq for Frame

instance [DecidableEq R] (s : Sys R W) : Decidable s.AllRun := inferInstanceAs (Decidable (_ ∧ _))

instance [DecidableEq R] [DecidableEq W] (s : Sys R W) : Decidable s.TryTickFails :=
  inferInstanceAs (Decidable (_ ∧ _))

/-- `is_empty` is true and `try_tick` returns false only where nothing
waits to be run. -/
structure SeesAll (s : Sys R W) : Prop where
  isEmpty : s.state.isEmpty = true → s.AllRun
  tryTick : s.TryTickFails → s.AllRun

/-- How many Runnables are in the two queues. -/
def numQueued (s : Sys R W) : Nat :=
  s.state.threadState.taskQueue.length + s.state.taskQueue.length

/-- A ticker at `pc` takes a Runnable out of a queue. -/
def PopsAt (s : State R W) : Pc → Prop
  | .loopHead => s.threadState.taskQueue ≠ []
  | .mainPop | .mainPopAgain => s.taskQueue ≠ []
  | _ => False

/-- The innermost call takes a Runnable out of a queue. -/
def PopsTop (s : Sys R W) : List (Frame W) → Prop
  | .ticker k _ :: _ => ∃ t, s.tickers k = some t ∧ PopsAt s.state t.pc
  | .tryTick .popMain :: _ => s.state.taskQueue ≠ []
  | _ => False

/-- The step takes a Runnable out of a queue. -/
def Pops (s : Sys R W) : Label R W → Prop
  | .tryTick => s.state.threadState.taskQueue ≠ []
  | .step => s.PopsTop s.stack
  | _ => False

/-- A scheduler that is called where `thread_id.id()` is `id` hands its
Runnable to a ticker. -/
def HandsOver (s : Sys R W) (id : Option Nat) : Prop :=
  s.state.isOrigin id = true ∧ s.state.queue.numNotified = 0 ∧ 0 < s.state.queue.numWaiting

/-- A hand-over is made only while a Runnable is queued, and the last
queued Runnable is taken only while no listener holds one. -/
def KeepsSight (s : Sys R W) : Label R W → Prop
  | .schedule id _ => s.HandsOver id → 0 < s.numQueued
  | l => s.Pops l → s.numQueued = 1 → s.state.queue.held = []

/-- A listener holds a Runnable only while another one is queued. -/
def Sighted (s : Sys R W) : Prop := s.numQueued = 0 → s.state.queue.held = []

end Sys

section Sight

variable {s s' : Sys R W} {k : Ptr} {t : Ticker} {cx : W}

/-! ## What a step does to the queues -/

/-- A step takes a Runnable out of a queue, or leaves the queues and adds
nothing to the listeners. -/
structure Shift (pops : Prop) (queued queued' : Nat) (held held' : List R) : Prop where
  popped : pops → queued = queued' + 1 ∧ (held' : Multiset R) = held
  kept : ¬ pops → queued' = queued ∧ (held' : Multiset R) ≤ held

theorem Shift.still {pops : Prop} (h : ¬ pops) {queued : Nat} {held held' : List R}
    (hle : (held' : Multiset R) ≤ held) : Shift pops queued queued held held' :=
  ⟨fun hp => (h hp).elim, fun _ => ⟨rfl, hle⟩⟩

theorem Shift.pop {pops : Prop} (h : pops) {queued queued' : Nat} {held held' : List R}
    (hqueued : queued = queued' + 1) (hheld : (held' : Multiset R) = held) :
    Shift pops queued queued' held held' :=
  ⟨fun _ => ⟨hqueued, hheld⟩, fun hn => (hn h).elim⟩

/-- What a step of a ticker does to the queues and the listeners. -/
def Ticker.Shifts (s : State R W) (pc : Pc) (out : TickOut R W) : Prop :=
  Shift (Sys.PopsAt s pc) (s.threadState.taskQueue.length + s.taskQueue.length)
    (out.state.threadState.taskQueue.length + out.state.taskQueue.length) s.queue.held
    out.state.queue.held

theorem shifts_of_view {s : State R W} {pc : Pc} {out : TickOut R W} {q : Queue (Option R) W}
    {localQueue mainQueue : List R} (hv : out.view = (q, localQueue, mainQueue))
    (h : Shift (Sys.PopsAt s pc) (s.threadState.taskQueue.length + s.taskQueue.length)
      (localQueue.length + mainQueue.length) s.queue.held q.held) : Ticker.Shifts s pc out := by
  cases hv
  exact h

theorem shifts_loopHead (t : Ticker) (s : State R W) :
    Ticker.Shifts s .loopHead (t.loopHead s) := by
  rcases view_loopHead t s with ⟨hL, -, -, -, -, hv⟩ | ⟨runnable, rest, hL, -, -, -, -, hv⟩
  · refine shifts_of_view hv ?_
    rw [hL]
    exact .still (fun hp => hp hL) le_rfl
  · refine shifts_of_view hv ?_
    rw [hL]
    refine .pop ?_ ?_ (Queue.held_wakeOne _)
    · show s.threadState.taskQueue ≠ []
      rw [hL]
      exact List.cons_ne_nil _ _
    · rw [List.length_cons]
      omega

theorem shifts_popMain {s : State R W} {pc : Pc} (hpc : pc = .mainPop ∨ pc = .mainPopAgain)
    (t : Ticker) (found empty : Pc) : Ticker.Shifts s pc (t.popMain s found empty) := by
  have hpops : Sys.PopsAt s pc ↔ s.taskQueue ≠ [] := by
    rcases hpc with rfl | rfl
    · exact Iff.rfl
    · exact Iff.rfl
  unfold Ticker.popMain
  cases hM : s.taskQueue with
  | nil => exact .still (fun hp => hpops.mp hp hM) le_rfl
  | cons runnable rest =>
      refine .pop (hpops.mpr ?_) ?_ rfl
      · rw [hM]
        exact List.cons_ne_nil _ _
      · rw [hM, List.length_cons]
        rfl

variable [WillWake W]

theorem shifts_pollListener {s : State R W} {pc : Pc} (hpc : pc = .listen ∨ pc = .pollOnce)
    (t : Ticker) (run other wait : Pc) :
    Ticker.Shifts s pc (t.pollListener k cx s run other wait) := by
  have hpops : ¬ Sys.PopsAt s pc := by
    rcases hpc with rfl | rfl
    · exact id
    · exact id
  obtain ⟨-, -, hcases⟩ := view_pollListener t k cx s run other wait
  rcases hcases with ⟨-, -, -, -, hheld, -, -, hv⟩ | ⟨tag, b, -, hheld, -, -, hv⟩
  · refine shifts_of_view hv (.still hpops ?_)
    rw [hheld]
  · refine shifts_of_view hv (.still hpops ?_)
    rw [hheld]
    exact Multiset.le_add_left _ _

theorem shifts_step {s : State R W} (hpl : s.queue.Plain) {out : TickOut R W}
    (h : t.step k cx s = some out) : Ticker.Shifts s t.pc out := by
  unfold Ticker.step at h
  cases hpc : t.pc with
  | loopHead =>
      rw [hpc] at h
      obtain rfl := Option.some.inj h
      exact shifts_loopHead t s
  | listen =>
      rw [hpc] at h
      obtain rfl := Option.some.inj h
      exact shifts_pollListener (.inl rfl) t ..
  | mainPop =>
      rw [hpc] at h
      obtain rfl := Option.some.inj h
      exact shifts_popMain (.inl rfl) t ..
  | mainPopAgain =>
      rw [hpc] at h
      obtain rfl := Option.some.inj h
      exact shifts_popMain (.inr rfl) t ..
  | mainRegister | mainTake =>
      rw [hpc] at h
      obtain rfl := Option.some.inj h
      exact .still id le_rfl
  | pollOnce =>
      rw [hpc] at h
      obtain rfl := Option.some.inj h
      exact shifts_pollListener (.inr rfl) t ..
  | finish =>
      rw [hpc] at h
      obtain rfl := Option.some.inj h
      have hle : ((s.queue.drop k).event.held : Multiset R) ≤ s.queue.held := by
        rw [(Queue.drop_handed s.nodup hpl k).1]
        exact Multiset.le_add_right _ _
      split
      · refine shifts_of_view (view_dropFuture t k s).1 (.still id ?_)
        rwa [held_dropped]
      · exact shifts_of_view (view_again t k s).1 (.still id hle)
  | fresh | parked | runPopped | runAwaited | runLast =>
      rw [hpc] at h
      cases h

/-- What a step of the innermost call does to the queues and the
listeners. -/
theorem shift_step (hi : s.Inv) (h : s.step = some s') :
    Shift (s.PopsTop s.stack) s.numQueued s'.numQueued s.state.queue.held s'.state.queue.held := by
  rcases innermost_cases h with ⟨k, cx, rest, t, out, hst, hk, hout, rfl⟩ |
    ⟨rest, runnable, queue, hst, hM, rfl⟩ | ⟨rest, hst, hM, rfl⟩ | ⟨rest, hst, rfl⟩
  · have hpops : s.PopsTop s.stack ↔ Sys.PopsAt s.state t.pc := by
      rw [hst, Sys.PopsTop]
      refine ⟨fun hp => ?_, fun hp => ⟨t, hk, hp⟩⟩
      obtain ⟨t', ht', hp⟩ := hp
      cases hk.symm.trans ht'
      exact hp
    rw [hpops]
    exact shifts_step hi.plain hout
  · rw [hst, Sys.PopsTop]
    refine .pop (by rw [hM]; exact List.cons_ne_nil _ _) ?_ rfl
    unfold Sys.numQueued
    rw [hM, List.length_cons]
    rfl
  · rw [hst, Sys.PopsTop]
    exact .still (fun hp => hp hM) le_rfl
  · rw [hst]
    exact .still (fun hp => hp) le_rfl

/-- What any step but a schedule does to them. -/
theorem shift_next {l : Label R W} (hi : s.Inv) (h : s.next l = some s')
    (hl : ∀ id runnable, l ≠ .schedule id runnable) :
    Shift (s.Pops l) s.numQueued s'.numQueued s.state.queue.held s'.state.queue.held := by
  cases l with
  | schedule id runnable => exact (hl id runnable rfl).elim
  | wake =>
      obtain ⟨-, rfl⟩ := next_wake h
      exact .still id le_rfl
  | create k oneShot =>
      obtain ⟨-, -, rfl⟩ := next_create h
      exact .still id le_rfl
  | poll k w =>
      obtain ⟨-, t, -, ⟨-, rfl⟩ | ⟨-, rfl⟩⟩ := next_poll h
      · exact .still id le_rfl
      · exact .still id le_rfl
  | drop k =>
      obtain ⟨-, t, -, -, rfl⟩ := next_drop h
      have hv := (view_dropFuture t k s.state).1
      have hheld : (s.settle k s.stack (t.dropFuture k s.state)).state.queue.held =
          (dropped t s.state.queue k).held := congrArg (fun v => Queue.held v.1) hv
      have hnum : (s.settle k s.stack (t.dropFuture k s.state)).numQueued = s.numQueued :=
        congrArg (fun v => v.2.1.length + v.2.2.length) hv
      rw [hheld, hnum]
      refine .still id ?_
      rw [held_dropped, (Queue.drop_handed s.state.nodup hi.plain k).1]
      exact Multiset.le_add_right _ _
  | tryTick =>
      obtain ⟨-, rfl⟩ := next_tryTick h
      unfold Sys.tryTick
      split
      · rename_i runnable rest hL
        refine .pop (by rw [Sys.Pops, hL]; exact List.cons_ne_nil _ _) ?_ ?_
        · unfold Sys.numQueued
          rw [hL, List.length_cons]
          show _ = rest.length + s.state.taskQueue.length + 1
          omega
        · show
            (({ s.state.threadState with taskQueue := rest }.wakeRunner.1.threadWaker.queue.held :
            List R) : Multiset R) = _
          rw [queue_wakeRunner, Queue.held_wakeOne]
          rfl
      · rename_i hL
        exact .still (fun hp => hp hL) le_rfl
  | step => exact shift_step hi h
  | ret =>
      rcases ret_cases h with ⟨k, cx, rest, t, -, -, -, rfl⟩ | ⟨rest, -, rfl⟩
      · exact .still id le_rfl
      · exact .still id le_rfl

/-- A schedule hands its Runnable over, or queues it. -/
theorem queued_schedule {id : Option Nat} {runnable : R}
    (h : s.next (.schedule id runnable) = some s') :
    (s.HandsOver id ∧ s'.numQueued = s.numQueued ∧ s'.state.queue.held ≠ []) ∨
      (¬ s.HandsOver id ∧ 0 < s'.numQueued) := by
  obtain ⟨horigin, -, rfl⟩ | ⟨horigin, rfl⟩ := next_schedule h
  · have hcases := schedule_cases s.state.threadState runnable
    have hnum : (s.schedule runnable).numQueued =
        (s.state.threadState.schedule runnable).1.taskQueue.length + s.state.taskQueue.length := rfl
    by_cases hho : s.HandsOver id
    · rcases hcases with ⟨-, hL, -, -, hheld⟩ | ⟨hno, -, -⟩
      · refine .inl ⟨hho, ?_, fun hnil => ?_⟩
        · rw [hnum, hL]
          rfl
        · have hmem : runnable ∈ ((s.schedule runnable).state.queue.held : Multiset R) := by
            show runnable ∈ ((s.state.threadState.schedule runnable).1.threadWaker.queue.held :
              Multiset R)
            rw [hheld]
            exact Multiset.mem_cons_self ..
          rw [hnil] at hmem
          exact absurd hmem (Multiset.notMem_zero _)
      · exact absurd (hno hho.2.1) (Nat.ne_of_gt hho.2.2)
    · rcases hcases with ⟨h0, -, hq, h1, -⟩ | ⟨-, hL, -⟩
      · -- somebody was notified, so somebody waited
        have hpos : 0 < s.state.queue.length := by
          refine (s.state.queue.notify_one_pos (n := handOver) (some runnable) rfl rfl).mp ?_
          rw [show (s.state.queue.notify handOver (some runnable)).event = _ from hq.symm, h1]
          exact Nat.one_pos
        have hlen : s.state.queue.length = _ := s.state.queue.length_eq_add
        exact absurd ⟨horigin, h0, by have : s.state.queue.numNotified = 0 := h0; omega⟩ hho
      · refine .inr ⟨hho, ?_⟩
        rw [hnum, hL, List.length_append, List.length_singleton]
        omega
  · refine .inr ⟨fun hho => ?_, ?_⟩
    · rw [hho.1] at horigin
      cases horigin
    · show 0 < s.state.threadState.taskQueue.length + (s.state.taskQueue ++ [runnable]).length
      rw [List.length_append, List.length_singleton]
      omega

/-! ## Over a run -/

theorem sighted_next_iff {l : Label R W} (hi : s.Inv) (hs : s.Sighted) (h : s.next l = some s') :
    s'.Sighted ↔ s.KeepsSight l := by
  have hother : (∀ id runnable, l ≠ .schedule id runnable) →
      (s'.Sighted ↔ (s.Pops l → s.numQueued = 1 → s.state.queue.held = [])) := by
    intro hl
    have hshift := shift_next hi h hl
    by_cases hp : s.Pops l
    · obtain ⟨hnum, hheld⟩ := hshift.popped hp
      have hnil : s'.state.queue.held = [] ↔ s.state.queue.held = [] := by
        rw [← Multiset.coe_eq_zero, hheld, Multiset.coe_eq_zero]
      unfold Sys.Sighted
      rw [hnum, hnil]
      exact ⟨fun h _ h1 => h (Nat.succ.inj h1), fun h h0 => h hp (by rw [h0])⟩
    · obtain ⟨hnum, hheld⟩ := hshift.kept hp
      refine iff_of_true (fun h0 => ?_) fun h => (hp h).elim
      have hnil : s.state.queue.held = [] := hs (hnum ▸ h0)
      rw [hnil] at hheld
      exact Multiset.coe_eq_zero _ |>.mp (Multiset.le_zero.mp hheld)
  cases l with
  | schedule id runnable =>
      show _ ↔ (s.HandsOver id → 0 < s.numQueued)
      rcases queued_schedule h with ⟨hho, hnum, hheld⟩ | ⟨hho, hpos⟩
      · unfold Sys.Sighted
        rw [hnum]
        exact ⟨fun h _ => Nat.pos_of_ne_zero fun h0 => hheld (h h0),
          fun h h0 => absurd (h hho) (by omega)⟩
      · exact iff_of_true (fun h0 => absurd hpos (by omega)) fun h => (hho h).elim
  | _ => exact hother nofun

end Sight

/-! ## Where `try_tick` returns false -/

/-- A `try_tick` that goes on to the mainstream queue has found the local
one empty. -/
def Sys.Popped (s : Sys R W) : Prop :=
  s.stack.head? = some (.tryTick .popMain) → s.state.threadState.taskQueue = []

section Popped

variable {s s' : Sys R W}

theorem popped_of_runs (h : ∀ f ∈ s.stack.head?, f.Runs s.tickers) : s.Popped :=
  fun hpop => by cases h _ hpop

theorem popped_ret (hi : s.Inv) (h : s.ret = some s') : s'.Popped := by
  rcases ret_cases h with ⟨k, cx, rest, t, hst, -, -, rfl⟩ | ⟨rest, hst, rfl⟩
  · intro hpop
    have hpop : s.stack.head? = some (.tryTick .popMain) := hpop
    rw [hst] at hpop
    cases hpop
  · have hnested := hi.stacked.nested
    rw [hst] at hnested
    intro hpop
    cases hnested _ (List.mem_of_mem_head? hpop)

variable [WillWake W]

/-- `try_tick` goes on from its pop, and what is below it runs a
Runnable. -/
theorem popped_step (hi : s.Inv) (h : s.step = some s') : s'.Popped := by
  have hnested := hi.stacked.nested
  rcases innermost_cases h with ⟨k, cx, rest, t, out, hst, -, -, rfl⟩ |
    ⟨rest, runnable, queue, -, -, rfl⟩ | ⟨rest, hst, -, rfl⟩ | ⟨rest, -, rfl⟩
  · rw [hst] at hnested
    have htop : Sys.unwind k cx rest out.ticker = rest ∨
        Sys.unwind k cx rest out.ticker = .ticker k cx :: rest := by
      unfold Sys.unwind
      split
      · split
        · exact .inl rfl
        · exact .inr rfl
      · exact .inl rfl
    intro hpop
    rcases htop with htop | htop
    · have hpop : rest.head? = some (.tryTick .popMain) := htop ▸ hpop
      cases hnested _ (List.mem_of_mem_head? hpop)
    · have hpop : List.head? (.ticker k cx :: rest) = some (.tryTick .popMain) := htop ▸ hpop
      cases hpop
  · intro hpop
    cases hpop
  · rw [hst] at hnested
    intro hpop
    cases hnested _ (List.mem_of_mem_head? hpop)
  · intro hpop
    cases hpop

theorem popped_next {l : Label R W} (hi : s.Inv) (hp : s.Popped) (h : s.next l = some s') :
    s'.Popped := by
  cases l with
  | schedule id runnable =>
      obtain ⟨-, hfree, rfl⟩ | ⟨-, rfl⟩ := next_schedule h
      · exact popped_of_runs (s := s.schedule runnable) hfree
      · exact hp
  | wake =>
      obtain ⟨-, rfl⟩ := next_wake h
      exact hp
  | create k oneShot =>
      obtain ⟨-, -, rfl⟩ := next_create h
      exact hp
  | poll k w =>
      obtain ⟨-, t, -, ⟨-, rfl⟩ | ⟨-, rfl⟩⟩ := next_poll h
      · exact fun hpop => by cases hpop
      · exact fun hpop => by cases hpop
  | drop k =>
      obtain ⟨hfree, t, -, -, rfl⟩ := next_drop h
      exact fun hpop => by cases hfree _ hpop
  | tryTick =>
      obtain ⟨-, rfl⟩ := next_tryTick h
      unfold Sys.tryTick
      split
      · exact fun hpop => by cases hpop
      · rename_i hL
        exact fun _ => hL
  | step => exact popped_step hi h
  | ret => exact popped_ret hi h

theorem popped_reachable {id : Option Nat} (h : (system id).Reachable s) : s.Popped := by
  refine h.invariant_of (I := Sys.Popped) ?_ fun s l s' hr hp hs =>
    popped_next (inv_reachable hr) hp hs
  rintro s rfl
  exact nofun

omit [WillWake W] in
theorem allRun_iff (hi : s.Inv) : s.AllRun ↔ s.numQueued = 0 ∧ s.state.queue.held = [] := by
  have hmain : s.scheduledMain = s.ranMain ↔ s.state.taskQueue = [] := by
    rw [hi.onMain]
    exact List.append_right_eq_self
  have horigin : (s.scheduledLocal : Multiset R) = s.ranLocal + s.dropped ↔
      s.state.threadState.taskQueue = [] ∧ s.state.queue.held = [] := by
    rw [hi.onOrigin, add_right_comm, add_right_comm (s.ranLocal : Multiset R), add_assoc,
      add_eq_left, Multiset.coe_add, Multiset.coe_eq_zero, List.append_eq_nil_iff]
  unfold Sys.AllRun Sys.numQueued
  rw [horigin, hmain, Nat.add_eq_zero_iff, List.length_eq_zero_iff, List.length_eq_zero_iff]
  tauto

/-- Where nothing is held unseen, both calls see everything. -/
theorem seesAll_iff {id : Option Nat} (h : (system id).Reachable s) : s.SeesAll ↔ s.Sighted := by
  have hi := inv_reachable h
  have hempty : s.state.isEmpty = true ↔ s.numQueued = 0 := by
    unfold State.isEmpty Sys.numQueued
    rw [Bool.and_eq_true, List.isEmpty_iff, List.isEmpty_iff, Nat.add_eq_zero_iff,
      List.length_eq_zero_iff, List.length_eq_zero_iff]
  constructor
  · intro hs h0
    exact ((allRun_iff hi).mp (hs.isEmpty (hempty.mpr h0))).2
  · intro hs
    refine ⟨fun he => ?_, fun ⟨hpop, hM⟩ => ?_⟩
    · exact (allRun_iff hi).mpr ⟨hempty.mp he, hs (hempty.mp he)⟩
    · have h0 : s.numQueued = 0 := by
        unfold Sys.numQueued
        rw [popped_reachable h hpop, hM]
        rfl
      exact (allRun_iff hi).mpr ⟨h0, hs h0⟩

/-- In a run of the executor `is_empty` is true and `try_tick` returns
false only where nothing waits to be run exactly if every step is one that
`KeepsSight` allows. -/
theorem seesAll_run_iff (id : Option Nat) {tr : List (Sys R W × Label R W)}
    (h : (system id).Run tr s) :
    ((∀ x ∈ tr, x.1.SeesAll) ∧ s.SeesAll) ↔ ∀ x ∈ tr, x.1.KeepsSight x.2 := by
  rw [h.always_congr fun s hr => seesAll_iff hr]
  refine h.always_iff ?_ ?_
  · rintro s rfl _
    show (Event.new : Event (Option R) W).queue.held = []
    rw [Event.queue_new]
    rfl
  · exact fun s l s' hr hs hstep => sighted_next_iff (inv_reachable hr) hs hstep

end Popped

/-- A `run()` future is suspended and is handed a Runnable. -/
def handedWhileSuspended : List (Label Nat Nat) :=
  [.create 1 false, .poll 1 10, .step, .step, .step, .step, .step, .schedule (some 7) 5]

theorem exec_handedWhileSuspended :
    (exec Sys.next (.init (some 7)) handedWhileSuspended).map
      (fun s => (decide s.Free, s.state.isEmpty, decide s.AllRun,
        (s.next .tryTick).map fun s' => (decide s'.TryTickFails, decide s'.AllRun))) =
      some (true, true, false, some (true, false)) := by
  decide

theorem seesAll_handedWhileSuspended :
    ∃ s : Sys Nat Nat,
      (((∀ x ∈ execTrace Sys.next (.init (some 7)) handedWhileSuspended, x.1.SeesAll) ∧
          s.SeesAll) ↔
        ∀ x ∈ execTrace Sys.next (.init (some 7)) handedWhileSuspended,
          x.1.KeepsSight x.2) := by
  obtain ⟨s, hrun, -⟩ := run_of_observe _ _ _ exec_handedWhileSuspended
  exact ⟨s, seesAll_run_iff (some 7) hrun⟩

/-- `is_empty` is true, and a `try_tick` that is called now returns false,
although a Runnable waits to be run. -/
theorem handedWhileSuspended_unseen :
    ∃ s s' : Sys Nat Nat, (system (some 7)).Reachable s ∧ s.Free ∧ s.state.isEmpty = true ∧
      ¬ s.AllRun ∧ s.next .tryTick = some s' ∧ s'.TryTickFails ∧ ¬ s'.AllRun := by
  obtain ⟨s, hrun, hobs⟩ := run_of_observe _ _ _ exec_handedWhileSuspended
  simp only [Prod.mk.injEq] at hobs
  obtain ⟨hfree, hempty, hall, hnext⟩ := hobs
  obtain ⟨s', hs', hobs'⟩ := Option.map_eq_some_iff.mp hnext
  obtain ⟨hfails, hall'⟩ := Prod.mk.inj hobs'
  exact ⟨s, s', ⟨_, hrun⟩, of_decide_eq_true hfree, hempty, of_decide_eq_false hall, hs',
    of_decide_eq_true hfails, of_decide_eq_false hall'⟩

end Executor

end Unsend

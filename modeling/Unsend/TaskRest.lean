import Unsend.SchedulerCalls
import Unsend.TaskWakes

/-!
# Tasks while the executor sleeps

Every run of an executor with its tasks contains a run of its scheduling
half (`sched_run`), and the Runnables that are being run are those of the
calls in progress (`running_holding`). So what is known of the sleep of
the scheduling half carries over: when nobody is awake, every unfinished
task waits for a wake-up (`asleep_idle`).
-/

namespace Unsend

/-! ## The calls that have taken out a Runnable -/

namespace Executor

variable {R W : Type}

/-- The ticker has taken out a Runnable that has not returned. -/
def Pc.holds (pc : Pc) : Bool := pc.running || pc == .mainTake

def Frame.Holds (tickers : Ptr → Option Ticker) : Frame W → Bool
  | ticker k _ => (tickers k).any (·.pc.holds)
  | tryTick pc => pc != .popMain

/-- How many Runnables the calls in progress run: all but the innermost
one run one. -/
def holding (tickers : Ptr → Option Ticker) : List (Frame W) → Nat
  | [] => 0
  | f :: rest => rest.length + if f.Holds tickers then 1 else 0

section Holding

variable {s s' : Sys R W} {k : Ptr} {t : Ticker}

theorem holding_of_runs {tickers : Ptr → Option Ticker} {stack : List (Frame W)}
    (h : ∀ f ∈ stack.head?, f.Runs tickers) : holding tickers stack = stack.length := by
  cases stack with
  | nil => rfl
  | cons f rest =>
      have hrun := h f rfl
      have hholds : f.Holds tickers = true := by
        cases f with
        | ticker k cx =>
            obtain ⟨t, hk, hr⟩ := (Option.any_eq_true _ _).mp hrun
            refine (Option.any_eq_true _ _).mpr ⟨t, hk, ?_⟩
            simp [Pc.holds, hr]
        | tryTick pc =>
            cases hrun
            rfl
      rw [holding, if_pos hholds]
      rfl

variable [WillWake W]

/-- What a step of a ticker takes out, it runs. -/
theorem holds_step {cx : W} {out : TickOut R W} (h : t.step k cx s.state = some out) :
    ((∀ t', out.ticker = some t' → t'.pc = .parked) ∧ t.pc.holds = false ∧
      (s.takesAt k t.pc).toList = []) ∨
    ∃ t', out.ticker = some t' ∧ t'.pc ≠ .parked ∧
      (if t'.pc.holds then 1 else 0) =
        (if t.pc.holds then 1 else 0) + (s.takesAt k t.pc).toList.length := by
  have htook := took_step h
  unfold Ticker.step at h
  cases hpc : t.pc with
  | loopHead =>
      rw [hpc] at h htook
      obtain rfl := Option.some.inj h
      rw [← htook]
      unfold Ticker.loopHead
      split
      · exact .inr ⟨_, rfl, nofun, rfl⟩
      · split
        · exact .inr ⟨_, rfl, nofun, rfl⟩
        · exact .inr ⟨_, rfl, nofun, rfl⟩
  | listen =>
      rw [hpc] at h htook
      obtain rfl := Option.some.inj h
      rw [← htook]
      unfold Ticker.pollListener
      dsimp only
      split
      · exact .inr ⟨_, rfl, nofun, rfl⟩
      · exact .inr ⟨_, rfl, nofun, rfl⟩
      · cases t.isMainstream with
        | true => exact .inr ⟨_, rfl, nofun, rfl⟩
        | false => exact .inl ⟨fun t' ht' => Option.some.inj ht' ▸ rfl, rfl, rfl⟩
  | mainPop =>
      rw [hpc] at h htook
      obtain rfl := Option.some.inj h
      rw [← htook]
      unfold Ticker.popMain
      split
      · exact .inr ⟨_, rfl, nofun, rfl⟩
      · exact .inr ⟨_, rfl, nofun, rfl⟩
  | mainPopAgain =>
      rw [hpc] at h htook
      obtain rfl := Option.some.inj h
      rw [← htook]
      unfold Ticker.popMain
      split
      · exact .inr ⟨_, rfl, nofun, rfl⟩
      · exact .inl ⟨fun t' ht' => Option.some.inj ht' ▸ rfl, rfl, rfl⟩
  | mainRegister | mainTake =>
      rw [hpc] at h htook
      obtain rfl := Option.some.inj h
      exact .inr ⟨_, rfl, nofun, rfl⟩
  | pollOnce =>
      rw [hpc] at h htook
      obtain rfl := Option.some.inj h
      rw [← htook]
      unfold Ticker.pollListener
      dsimp only
      split
      · exact .inr ⟨_, rfl, nofun, rfl⟩
      · exact .inr ⟨_, rfl, nofun, rfl⟩
      · exact .inr ⟨_, rfl, nofun, rfl⟩
  | finish =>
      rw [hpc] at h
      obtain rfl := Option.some.inj h
      split
      · exact .inl ⟨nofun, rfl, rfl⟩
      · exact .inr ⟨_, rfl, nofun, rfl⟩
  | fresh | parked | runPopped | runAwaited | runLast =>
      rw [hpc] at h
      cases h

/-- A step that is not the return of a Runnable adds what it takes out. -/
theorem holding_next {l : Label R W} (hi : s.Inv) (h : s.next l = some s') (hl : l ≠ .ret) :
    holding s'.tickers s'.stack = holding s.tickers s.stack + (s.takes l).toList.length := by
  -- a call begins where another one runs a Runnable
  have hfree : s.Free → holding s.tickers s.stack = s.stack.length := holding_of_runs
  cases l with
  | schedule id runnable =>
      obtain ⟨-, -, rfl⟩ | ⟨-, rfl⟩ := next_schedule h
      · rfl
      · rfl
  | wake =>
      obtain ⟨-, rfl⟩ := next_wake h
      rfl
  | create k oneShot =>
      obtain ⟨hk, hf, rfl⟩ := next_create h
      rw [hfree hf]
      refine holding_of_runs (head_runs hi hf ?_ _)
      exact hi.stacked.notMem hf fun t ht => by cases hk.symm.trans ht
  | poll k w =>
      obtain ⟨hf, t, -, hcases⟩ := next_poll h
      rw [hfree hf]
      rcases hcases with ⟨-, rfl⟩ | ⟨-, rfl⟩
      · simp [Sys.enter, holding, Frame.Holds, Pc.holds, Pc.running, Sys.takes]
      · simp [Sys.enter, holding, Frame.Holds, Pc.holds, Pc.running, Sys.takes]
  | drop k =>
      obtain ⟨hf, t, hk, hoff, rfl⟩ := next_drop h
      rw [hfree hf]
      refine holding_of_runs (head_runs hi hf ?_ _)
      exact hi.stacked.notMem hf fun t' ht' => by cases hk.symm.trans ht'; exact hoff
  | tryTick =>
      obtain ⟨hf, rfl⟩ := next_tryTick h
      rw [hfree hf]
      show _ = _ + s.state.threadState.taskQueue.head?.toList.length
      unfold Sys.tryTick
      split
      · rename_i hL
        rw [hL]
        rfl
      · rename_i hL
        rw [hL]
        rfl
  | step =>
      show _ = _ + (s.takesTop s.stack).toList.length
      rcases innermost_cases h with ⟨k, cx, rest, t, out, hst, hk, hout, rfl⟩ |
        ⟨rest, runnable, queue, hst, hM, rfl⟩ | ⟨rest, hst, hM, rfl⟩ | ⟨rest, hst, rfl⟩
      · have hbelow := runs_below hi hst
        have hnot : k ∉ keys rest := by
          have := hi.stacked.nodup
          rw [hst] at this
          exact (List.nodup_cons.mp this).1
        have hbefore : holding s.tickers s.stack = rest.length + if t.pc.holds then 1 else 0 := by
          rw [hst, holding, Frame.Holds, hk]
          rfl
        rw [hbefore, hst, Sys.takesTop, hk, Option.bind_some]
        show holding (Function.update s.tickers k out.ticker) (Sys.unwind k cx rest out.ticker) = _
        rcases holds_step hout with ⟨hparked, hno, htook⟩ | ⟨t', ht', hne, heq⟩
        · -- the call returns to one that runs a Runnable
          have hunwind : Sys.unwind k cx rest out.ticker = rest := by
            unfold Sys.unwind
            cases ht : out.ticker with
            | none => rfl
            | some t' => exact if_pos (hparked t' ht)
          rw [hunwind, holding_of_runs fun f hf =>
            runs_update hbelow hnot f (List.mem_of_mem_head? hf), hno, htook]
          rfl
        · rw [ht', Sys.unwind, if_neg hne, holding, Frame.Holds, Function.update_self]
          show rest.length + (if t'.pc.holds then 1 else 0) = _
          rw [heq, Nat.add_assoc]
      · rw [hst, Sys.takesTop, hM]
        rfl
      · have hbelow := runs_below hi hst
        rw [hst, Sys.takesTop, hM]
        exact holding_of_runs fun f hf => hbelow f (List.mem_of_mem_head? hf)
      · rw [hst]
        rfl
  | ret => exact (hl rfl).elim

/-- The innermost call has returned from its Runnable. -/
theorem holding_ret (hi : s.Inv) (h : s.next .ret = some s') :
    holding s.tickers s.stack = holding s'.tickers s'.stack + 1 := by
  rw [holding_of_runs (free_of_ret h)]
  rcases ret_cases h with ⟨k, cx, rest, t, hst, -, -, rfl⟩ | ⟨rest, hst, rfl⟩
  · have hoff : t.afterRun.pc.holds = false := by
      rcases afterRun_pc t with hp | hp
      · rw [hp]; rfl
      · rw [hp]; rfl
    show s.stack.length = holding (Function.update s.tickers k _) s.stack + 1
    rw [hst, holding, Frame.Holds, Function.update_self]
    simp [hoff]
  · have hbelow := runs_below hi hst
    show _ = holding s.tickers rest + 1
    rw [holding_of_runs fun f hf => hbelow f (List.mem_of_mem_head? hf), hst]
    rfl

end Holding

end Executor

namespace Tasks

variable {W : Type}

/-! ## The run of the scheduling half -/

namespace Sys

/-- The steps of the scheduling half that a step of the tasks takes. -/
def schedSteps (s : Sys W) : Label W → List (Executor.Label TaskId W)
  | .tick l => [l]
  | .spawn i _ _ _ id => [.schedule id i]
  | .wake i id => if (s.tasks i).any (·.wake.2) then [.schedule id i] else []
  | .cancel i id => if (s.tasks i).any (·.cancel.2) then [.schedule id i] else []
  | .detach _ | .wakers _ _ => []
  | .ret ready onDrop id =>
      match s.running with
      | i :: _ =>
          (if (s.tasks i).any fun t => (t.finish ready onDrop).2 then [.schedule id i] else []) ++
            [.ret]
      | [] => [.ret]

end Sys

/-- The run of the scheduling half that a run of the tasks contains. -/
def schedTrace [WillWake W] (tr : List (Sys W × Label W)) :
    List (Executor.Sys TaskId W × Executor.Label TaskId W) :=
  tr.flatMap fun x => execTrace Executor.Sys.next x.1.sched (x.1.schedSteps x.2)

section Sched

variable [WillWake W] {s s' : Sys W} {i : TaskId} {t : Task} {id : Option Nat}
  {tr : List (Sys W × Label W)}

theorem exec_schedule {call : Bool} (h : s.schedule id i call = some s') :
    exec Executor.Sys.next s.sched (if call then [.schedule id i] else []) = some s'.sched := by
  unfold Sys.schedule at h
  split at h
  · rename_i hc
    obtain ⟨sched, hnext, rfl⟩ := Option.map_eq_some_iff.mp h
    rw [if_pos hc, exec, hnext]
    rfl
  · rename_i hc
    obtain rfl := Option.some.inj h
    rw [if_neg hc]
    rfl

theorem sched_next {l : Label W} (h : s.next l = some s') :
    exec Executor.Sys.next s.sched (s.schedSteps l) = some s'.sched := by
  cases l with
  | tick l =>
      obtain ⟨-, sched, hnext, rfl⟩ := next_tick h
      show (s.sched.next l).bind _ = _
      rw [hnext]
      show some sched = some (s.advance sched).sched
      unfold Sys.advance
      rw [sched_lose_all, sched_start_all]
  | spawn i key pos onDrop id =>
      obtain ⟨-, h⟩ := next_spawn h
      exact exec_schedule (s := s.insert i key pos onDrop) h
  | wake i id =>
      obtain ⟨t, ht, -, h⟩ := next_wake h
      show exec _ s.sched (if (s.tasks i).any _ then _ else _) = _
      rw [ht]
      exact exec_schedule (s := s.put i t t.wake.1) h
  | cancel i id =>
      obtain ⟨t, ht, -, h⟩ := next_cancel h
      show exec _ s.sched (if (s.tasks i).any _ then _ else _) = _
      rw [ht]
      exact exec_schedule (s := s.put i t t.cancel.1) h
  | detach i =>
      obtain ⟨t, -, -, rfl⟩ := next_detach h
      rfl
  | wakers i held =>
      obtain ⟨t, -, -, rfl⟩ := next_wakers h
      rfl
  | ret ready onDrop id =>
      obtain ⟨i, running, t, s1, sched, hrun, ht, h1, hnext, rfl⟩ := next_ret h
      have hcall := exec_schedule (s := { s with running }.put i t (t.finish ready onDrop).1) h1
      have hsteps : s.schedSteps (.ret ready onDrop id) =
          (if (t.finish ready onDrop).2 then [.schedule id i] else []) ++ [.ret] := by
        unfold Sys.schedSteps
        simp only [hrun, ht]
        rfl
      rw [hsteps, exec_append]
      refine (congrArg (Option.bind · _) hcall).trans ?_
      rw [Option.bind_some, exec, hnext]
      rfl

/-- The scheduling half of an executor with its tasks runs by itself. -/
theorem sched_run (h : (system id).Run tr s) :
    (Executor.system id).Run (schedTrace tr) s.sched := by
  induction h with
  | start h0 =>
      obtain rfl := h0
      exact .start rfl
  | step hr hs ih =>
      unfold schedTrace at ih ⊢
      rw [List.flatMap_append, List.flatMap_singleton]
      exact run_append_exec ih (sched_next hs)

theorem holding_schedule {call : Bool} (hi : s.sched.Inv) (h : s.schedule id i call = some s') :
    Executor.holding s'.sched.tickers s'.sched.stack =
      Executor.holding s.sched.tickers s.sched.stack ∧ s'.sched.Inv := by
  unfold Sys.schedule at h
  split at h
  · obtain ⟨sched, hnext, rfl⟩ := Option.map_eq_some_iff.mp h
    exact ⟨Executor.holding_next hi hnext nofun, Executor.inv_next hi hnext⟩
  · obtain rfl := Option.some.inj h
    exact ⟨rfl, hi⟩

/-- The Runnables that are being run are those that the calls in progress
have taken out. -/
theorem running_holding (h : (system id).Reachable s) :
    s.running.length = Executor.holding s.sched.tickers s.sched.stack := by
  refine h.invariant_of (I := fun s =>
    s.running.length = Executor.holding s.sched.tickers s.sched.stack)
    ?_ fun s l s' hr hn hs => ?_
  · rintro s rfl
    rfl
  · have hi := inv_reachable hr
    rw [running_next hi hs]
    cases l with
    | tick l =>
        obtain ⟨hl, sched, hnext, rfl⟩ := next_tick hs
        have hret : l ≠ .ret := fun he => by rw [he] at hl; cases hl
        have hadv : (s.advance sched).sched = sched := by
          unfold Sys.advance
          rw [sched_lose_all, sched_start_all]
        rw [hadv, Executor.holding_next hi.sched hnext hret, ← hn]
        exact List.length_append.trans (Nat.add_comm ..)
    | spawn j key pos onDrop id =>
        obtain ⟨-, hs⟩ := next_spawn hs
        exact hn.trans (holding_schedule (s := s.insert j key pos onDrop) hi.sched hs).1.symm
    | wake j id =>
        obtain ⟨t, -, -, hs⟩ := next_wake hs
        exact hn.trans (holding_schedule (s := s.put j t t.wake.1) hi.sched hs).1.symm
    | cancel j id =>
        obtain ⟨t, -, -, hs⟩ := next_cancel hs
        exact hn.trans (holding_schedule (s := s.put j t t.cancel.1) hi.sched hs).1.symm
    | detach j =>
        obtain ⟨t, -, -, rfl⟩ := next_detach hs
        exact hn
    | wakers j held =>
        obtain ⟨t, -, -, rfl⟩ := next_wakers hs
        exact hn
    | ret ready onDrop id =>
        obtain ⟨j, running, t, s1, sched, hrun, -, h1, hnext, rfl⟩ := next_ret hs
        obtain ⟨hsame, hi1⟩ := holding_schedule (s := { s with running }.put j t _) hi.sched h1
        have hone := Executor.holding_ret hi1 hnext
        rw [hsame] at hone
        rw [hrun] at hn
        show s.running.tail.length = _
        rw [hrun]
        exact Nat.succ.inj (hn.trans hone)

end Sched

/-! ## Asleep -/

/-- The futures that drive the executor are `run()` futures. -/
def Sys.RunsOnly (s : Sys W) : Label W → Prop
  | .tick l => s.sched.RunsOnly l
  | _ => True

section Asleep

variable [WillWake W] {s : Sys W} {i : TaskId} {t : Task} {id : Option Nat}
  {tr : List (Sys W × Label W)}

omit [WillWake W] in
theorem schedSteps_runsOnly {l : Label W} {l' : Executor.Label TaskId W}
    {sched : Executor.Sys TaskId W} (h : s.RunsOnly l) (hl : l' ∈ s.schedSteps l) :
    sched.RunsOnly l' := by
  have hcall : ∀ {c : Prop} [Decidable c] {j : TaskId} {id : Option Nat},
      l' ∈ (if c then [.schedule id j] else []) → sched.RunsOnly l' := by
    intro c _ j id hm
    split at hm
    · obtain rfl := List.mem_singleton.mp hm
      trivial
    · cases hm
  cases l with
  | tick l =>
      obtain rfl := List.mem_singleton.mp hl
      cases l' with
      | create k oneShot => exact h
      | _ => trivial
  | spawn j key pos onDrop id =>
      obtain rfl := List.mem_singleton.mp hl
      trivial
  | wake j id | cancel j id => exact hcall hl
  | detach j | wakers j held => cases hl
  | ret ready onDrop id =>
      unfold Sys.schedSteps at hl
      dsimp only at hl
      split at hl
      · rcases List.mem_append.mp hl with hl | hl
        · exact hcall hl
        · obtain rfl := List.mem_singleton.mp hl
          trivial
      · obtain rfl := List.mem_singleton.mp hl
        trivial

theorem sched_runsOnly (h : ∀ x ∈ tr, x.1.RunsOnly x.2) :
    ∀ x ∈ schedTrace tr, x.1.RunsOnly x.2 := by
  intro x hx
  obtain ⟨y, hy, hx⟩ := List.mem_flatMap.mp hx
  exact schedSteps_runsOnly (h y hy) (label_mem_of_execTrace hx)

/-- No Runnable is being run, and none is left to run. -/
structure Sys.AtRest (s : Sys W) : Prop where
  running : s.running = []
  queued : s.sched.queued = 0

omit [WillWake W] in
theorem Sys.AtRest.waits (hr : s.AtRest) (hi : s.Inv) (ht : s.tasks i = some t)
    (hg : t.future ≠ .gone) : t.running = false ∧ t.scheduled = false ∧ t.closed = false := by
  have hok := hi.owns.ok i t ht
  have hrun : t.running = false := by
    rw [Bool.eq_false_iff]
    intro h
    have := hi.owns.running i t ht h
    rw [hr.running] at this
    cases this
  have hs : t.scheduled = false := by
    have hcount := hok.count
    rw [hr.queued] at hcount
    rw [Bool.eq_false_iff]
    intro hs
    rw [if_pos ⟨hs, hrun⟩] at hcount
    cases hcount
  refine ⟨hrun, hs, ?_⟩
  rw [Bool.eq_false_iff]
  intro hc
  rcases hok.closed hc hg with h | h
  · cases hs.symm.trans h
  · cases hrun.symm.trans h

theorem atRest_of_asleep (h : (system id).Run tr s) (hruns : ∀ x ∈ tr, x.1.RunsOnly x.2)
    (ha : Executor.Sys.Asleep (schedTrace tr) s.sched) (hp : s.sched.pendingWakes = 0) :
    s.AtRest := by
  have hsched := sched_run h
  have hsruns := sched_runsOnly hruns
  have hlocal : s.sched.state.threadState.taskQueue = [] :=
    congrArg Prod.fst (ha.still hsched hsruns)
  have hrun := running_holding ⟨tr, h⟩
  rw [ha.idle] at hrun
  refine ⟨List.length_eq_zero_iff.mp hrun, ?_⟩
  rw [Executor.Sys.queued, hlocal, ha.taskQueue_nil hsched hsruns hp,
    Queue.held_of_none_notified (ha.none_notified hsched)]
  rfl

/-- Where an executor that is driven by `run()` futures and `try_tick`
sleeps, and no scheduler is between its push and its wake, every
unfinished task waits: it has not been cancelled, and not been woken since
its latest poll began. -/
theorem asleep_idle (h : (system id).Run tr s) (hruns : ∀ x ∈ tr, x.1.RunsOnly x.2)
    (ha : Executor.Sys.Asleep (schedTrace tr) s.sched) (hp : s.sched.pendingWakes = 0)
    (ht : s.tasks i = some t) (hg : t.future ≠ .gone) :
    t.idle = true ∧ t.closed = false ∧ ¬ Due tr i := by
  obtain ⟨hr, hs, hc⟩ :=
    (atRest_of_asleep h hruns ha hp).waits (inv_reachable ⟨tr, h⟩) ht hg
  refine ⟨?_, hc, fun hd => ?_⟩
  · simp [Task.idle, hg, hs, hr]
  · cases hs.symm.trans ((flagged_run h i t ht ⟨hg, hc⟩).mpr hd)

end Asleep

/-- A task is spawned, woken while it is polled and polled again; then
the `run()` future is suspended. -/
def pollTwiceThenSleep : List (Label Nat) :=
  [.spawn 0 0 0 [] (some 7), .tick (.create 1 false), .tick (.poll 1 10), .tick .step,
    .wakers 0 true, .wake 0 (some 7), .ret false [] (some 7), .tick .step, .tick .step,
    .ret false [] (some 7), .tick .step, .tick .step, .tick .step, .tick .step, .tick .step,
    .tick .step]

theorem exec_pollTwiceThenSleep :
    (exec Sys.next (.init (some 7)) pollTwiceThenSleep).map (fun s =>
      (s.sched.stack.length, s.sched.tickers 1, s.sched.pendingWakes, s.sched.woken,
        (s.tasks 0).map Task.future)) =
      some (0, some ⟨false, true, .parked⟩, 0, [], some .started) := by
  decide

theorem asleep_pollTwiceThenSleep : ∃ (s : Sys Nat) (t : Task), s.tasks 0 = some t ∧
    t.idle = true ∧ t.closed = false := by
  obtain ⟨s, hrun, hobs⟩ := run_of_observe _ _ _ exec_pollTwiceThenSleep
  simp only [Prod.mk.injEq] at hobs
  obtain ⟨hstack, hk, hp, hwoken, ht⟩ := hobs
  obtain ⟨t, ht, hf⟩ := Option.map_eq_some_iff.mp ht
  have hruns :
      ∀ x ∈ execTrace Sys.next (.init (some 7)) pollTwiceThenSleep, x.1.RunsOnly x.2 := by
    intro x hx
    have hl := label_mem_of_execTrace hx
    revert hl
    rcases x.2 with l | _ | _ | _ | _ | _ | _
    · cases l with
      | create k oneShot => simp [pollTwiceThenSleep, Sys.RunsOnly, Executor.Sys.RunsOnly]
      | _ => exact fun _ => trivial
    all_goals exact fun _ => trivial
  have hrun : (system (some 7)).Run _ s := hrun
  have hidle := asleep_idle hrun hruns
    ⟨List.length_eq_zero_iff.mp hstack, ⟨1, _, hk, rfl⟩, ?_⟩ hp ht (by rw [hf]; simp)
  · exact ⟨s, t, ht, hidle.1, hidle.2.1⟩
  · rintro k w n - - ⟨w', hm, -⟩
    rw [hwoken] at hm
    simp at hm

end Tasks

end Unsend

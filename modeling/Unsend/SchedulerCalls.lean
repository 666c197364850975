import Unsend.ActiveTasks
import Unsend.SchedulerSleep

/-!
# The calls of an executor

What a single call does, whatever surrounds it. The loops in
`Ticker::tick` and in the `poll_fn` inside it end: from every reachable
state the innermost call runs a Runnable, is suspended or returns after at
most eight steps (`step_until_free`). And a tick is short: while a `tick()`
future is suspended it has run nothing, and when it is about to return it
has run one Runnable or two (`tick_runs`).
-/

namespace Unsend

namespace Executor

variable {R W : Type}

/-! ## The loops end -/

/-- The listener at `k` has been notified. -/
def State.told (s : State R W) (k : Ptr) : Bool := (s.queue.stateOf k).any (·.isNotified)

/-- How many steps a poll takes at most until it runs a Runnable, is
suspended or returns. A listener that has been notified takes the loop
around once more. -/
def Pc.rank (told : Bool) : Pc → Nat
  | mainTake => 1
  | mainPopAgain => 2
  | mainRegister => 3
  | mainPop => 4
  | listen => if told then 7 else 5
  | loopHead => 6
  | finish => 7
  | pollOnce => 8
  | _ => 0

def TryPc.rank : TryPc → Nat
  | popMain => 2
  | wake => 1
  | running => 0

def Frame.rank (s : Sys R W) : Frame W → Nat
  | ticker k _ => ((s.tickers k).map fun t => t.pc.rank (s.state.told k)).getD 0
  | tryTick pc => pc.rank

namespace Sys

/-- How many steps are left to the innermost call. -/
def rank (s : Sys R W) : Nat := (s.stack.head?.map (·.rank s)).getD 0

/-- The future that is being polled innermost is in its poll. -/
def Innermost (s : Sys R W) : Prop :=
  ∀ k cx, s.stack.head? = some (.ticker k cx) →
    ∃ t, s.tickers k = some t ∧ t.pc.active = true

end Sys

section Rank

variable {s s' : Sys R W} {k : Ptr} {t : Ticker}

theorem rank_le (s : Sys R W) : s.rank ≤ 8 := by
  unfold Sys.rank
  cases s.stack with
  | nil => exact Nat.zero_le _
  | cons f rest =>
      cases f with
      | ticker k cx =>
          show ((s.tickers k).map _).getD 0 ≤ 8
          cases s.tickers k with
          | none => exact Nat.zero_le _
          | some t =>
              show t.pc.rank (s.state.told k) ≤ 8
              cases t.pc with
              | listen => cases s.state.told k <;> simp [Pc.rank]
              | _ => simp [Pc.rank]
      | tryTick pc => cases pc <;> simp [Frame.rank, TryPc.rank]

theorem rank_of_runs {f : Frame W} (h : f.Runs s.tickers) : f.rank s = 0 := by
  cases f with
  | ticker k cx =>
      obtain ⟨t, hk, hr⟩ := (Option.any_eq_true _ _).mp h
      show ((s.tickers k).map _).getD 0 = 0
      rw [hk]
      cases hpc : t.pc with
      | runPopped | runAwaited | runLast => simp [hpc, Pc.rank]
      | _ => rw [hpc] at hr; cases hr
  | tryTick pc =>
      cases h
      rfl

theorem rank_of_free (h : s.Free) : s.rank = 0 := by
  unfold Sys.rank
  cases hst : s.stack with
  | nil => rfl
  | cons f rest => exact rank_of_runs (h f (by rw [hst]; rfl))

/-- All calls but the innermost one run a Runnable. -/
theorem runs_below (hi : s.Inv) {f : Frame W} {rest : List (Frame W)} (hst : s.stack = f :: rest) :
    ∀ f ∈ rest, f.Runs s.tickers := by
  intro f hf
  refine hi.stacked.nested f ?_
  rw [hst]
  exact hf

variable [WillWake W]

/-- A step of a poll leaves it with fewer steps to take. -/
theorem rank_ticker {cx : W} {out : TickOut R W} {t' : Ticker}
    (hseat : Seat s.state.queue k (some t.pc)) (h : t.step k cx s.state = some out)
    (ht' : out.ticker = some t') :
    t'.pc.rank (out.state.told k) < t.pc.rank (s.state.told k) := by
  unfold Ticker.step at h
  cases hpc : t.pc with
  | loopHead =>
      rw [hpc] at h hseat
      obtain rfl := Option.some.inj h
      rcases view_loopHead t s.state with ⟨-, hp, -, -, -, hv⟩ | ⟨_, _, -, hp, -⟩
      · -- the listener is not in the list, so nobody has notified it
        have hq : (t.loopHead s.state).state.queue = s.state.queue := congrArg Prod.fst hv
        have htold : (t.loopHead s.state).state.told k = false := by
          rw [State.told, hq, Queue.stateOf_eq_none.mpr hseat]
          rfl
        rw [ht'] at hp
        rw [Option.some.inj hp, htold]
        simp [Pc.rank]
      · rw [ht'] at hp
        rw [Option.some.inj hp]
        simp [Pc.rank]
  | listen =>
      rw [hpc] at h
      obtain rfl := Option.some.inj h
      rcases (view_pollListener t k cx s.state .runAwaited .loopHead
        (if t.isMainstream then .mainPop else .parked)).2.2 with
        ⟨-, -, -, -, -, hp, -⟩ | ⟨tag, b, hst, -, hp, -⟩
      · rw [ht'] at hp
        rw [Option.some.inj hp]
        cases t.isMainstream <;> cases s.state.told k <;> simp [Pc.rank]
      · have htold : s.state.told k = true := by
          rw [State.told, hst]
          rfl
        rw [ht'] at hp
        rw [Option.some.inj hp, htold]
        cases tag.isSome <;> simp [Pc.rank]
  | mainPop | mainPopAgain =>
      rw [hpc] at h
      obtain rfl := Option.some.inj h
      unfold Ticker.popMain at ht'
      split at ht'
      · obtain rfl := Option.some.inj ht'
        simp [Pc.rank]
      · obtain rfl := Option.some.inj ht'
        simp [Pc.rank]
  | mainRegister | mainTake =>
      rw [hpc] at h
      obtain rfl := Option.some.inj h
      obtain rfl := Option.some.inj ht'
      simp [Pc.rank]
  | pollOnce =>
      rw [hpc] at h
      obtain rfl := Option.some.inj h
      obtain ⟨-, -, -, -, pc, ht, hp⟩ :=
        frame_pollListener t k cx s.state .runLast .finish .finish
      cases ht.symm.trans ht'
      rcases hp with rfl | rfl | rfl
      · simp [Pc.rank]
      · simp [Pc.rank]
      · simp [Pc.rank]
  | finish =>
      rw [hpc] at h
      obtain rfl := Option.some.inj h
      split at ht'
      · cases ht'
      · obtain rfl := Option.some.inj ht'
        simp [Pc.rank]
  | fresh | parked | runPopped | runAwaited | runLast =>
      rw [hpc] at h
      cases h

theorem rank_pos {cx : W} {out : TickOut R W} {told : Bool} (h : t.step k cx s.state = some out) :
    0 < t.pc.rank told := by
  unfold Ticker.step at h
  cases hpc : t.pc with
  | fresh | parked | runPopped | runAwaited | runLast =>
      rw [hpc] at h
      cases h
  | listen => cases told <;> simp [Pc.rank]
  | _ => simp [Pc.rank]

theorem rank_step (hi : s.Inv) (h : s.next .step = some s') : s'.rank < s.rank := by
  have hrest : ∀ {f : Frame W} {rest : List (Frame W)}, s.stack = f :: rest → ∀ s' : Sys R W,
      s'.stack = rest → (∀ f ∈ rest, f.Runs s'.tickers) → s'.rank = 0 := by
    intro f rest hst s' hst' hruns
    refine rank_of_free fun g hg => ?_
    rw [hst'] at hg
    exact hruns g (List.mem_of_mem_head? hg)
  rcases innermost_cases h with ⟨k, cx, rest, t, out, hst, hk, hout, rfl⟩ |
    ⟨rest, runnable, queue, hst, hM, rfl⟩ | ⟨rest, hst, hM, rfl⟩ | ⟨rest, hst, rfl⟩
  · have hbelow := runs_below hi hst
    have hnot : k ∉ keys rest := by
      have := hi.stacked.nodup
      rw [hst] at this
      exact (List.nodup_cons.mp this).1
    have hbefore : s.rank = t.pc.rank (s.state.told k) := by
      rw [Sys.rank, hst]
      show ((s.tickers k).map _).getD 0 = _
      rw [hk]
      rfl
    rw [hbefore]
    have hpos : 0 < t.pc.rank (s.state.told k) := rank_pos hout
    have hdone : Sys.unwind k cx rest out.ticker = rest →
        (s.settle k (Sys.unwind k cx rest out.ticker) out).rank < t.pc.rank (s.state.told k) := by
      intro hunwind
      rw [hunwind, hrest hst _ rfl (runs_update hbelow hnot)]
      exact hpos
    cases ht : out.ticker with
    | none => exact ht ▸ hdone (by rw [ht]; rfl)
    | some t' =>
        by_cases hparked : t'.pc = .parked
        · exact ht ▸ hdone (by rw [ht]; exact if_pos hparked)
        · have hlt := rank_ticker (hi.seat hk rfl) hout ht
          have hafter : (s.settle k (Sys.unwind k cx rest (some t')) out).rank =
              t'.pc.rank (out.state.told k) := by
            rw [Sys.unwind, if_neg hparked]
            show ((Function.update s.tickers k out.ticker k).map _).getD 0 = _
            rw [Function.update_self, ht]
            rfl
          rw [hafter]
          exact hlt
  · rw [Sys.rank, Sys.rank, hst]
    simp [Frame.rank, TryPc.rank]
  · rw [hrest hst { s with stack := rest } rfl (runs_below hi hst), Sys.rank, hst]
    simp [Frame.rank, TryPc.rank]
  · rw [Sys.rank, Sys.rank, hst]
    simp [Frame.rank, TryPc.rank]

end Rank

section Innermost

variable [WillWake W] {s s' : Sys R W} {k : Ptr} {t : Ticker} {id : Option Nat}

omit [WillWake W] in
theorem innermost_of_free (h : s.Free) : s.Innermost := by
  intro k cx hst
  obtain ⟨t, hk, hr⟩ := (Option.any_eq_true _ _).mp (h _ hst)
  exact ⟨t, hk, active_of_running hr⟩

theorem innermost_next {l : Label R W} (hi : s.Inv) (hn : s.Innermost) (h : s.next l = some s') :
    s'.Innermost := by
  have hrest : ∀ {f : Frame W} {rest : List (Frame W)}, s.stack = f :: rest → ∀ s' : Sys R W,
      s'.stack = rest → (∀ f ∈ rest, f.Runs s'.tickers) → s'.Innermost := by
    intro f rest hst s' hst' hruns
    refine innermost_of_free fun g hg => ?_
    rw [hst'] at hg
    exact hruns g (List.mem_of_mem_head? hg)
  cases l with
  | schedule id runnable =>
      obtain ⟨-, -, rfl⟩ | ⟨-, rfl⟩ := next_schedule h
      · exact hn
      · exact hn
  | wake =>
      obtain ⟨-, rfl⟩ := next_wake h
      exact hn
  | create k oneShot =>
      obtain ⟨hk, hf, rfl⟩ := next_create h
      refine innermost_of_free (head_runs hi hf ?_ _)
      exact hi.stacked.notMem hf fun t ht => by cases hk.symm.trans ht
  | poll k w =>
      obtain ⟨-, t, -, hcases⟩ := next_poll h
      have henter : ∀ pc, pc.active = true → (s.enter k w t pc).Innermost := by
        intro pc hpc k' cx hst
        obtain ⟨rfl, -⟩ := Frame.ticker.inj (Option.some.inj hst)
        exact ⟨_, Function.update_self .., hpc⟩
      rcases hcases with ⟨-, rfl⟩ | ⟨-, rfl⟩
      · exact henter _ rfl
      · exact henter _ rfl
  | drop k =>
      obtain ⟨hf, t, hk, hoff, rfl⟩ := next_drop h
      refine innermost_of_free (head_runs hi hf ?_ _)
      exact hi.stacked.notMem hf fun t' ht' => by cases hk.symm.trans ht'; exact hoff
  | tryTick =>
      obtain ⟨-, rfl⟩ := next_tryTick h
      intro k cx hst
      unfold Sys.tryTick at hst
      split at hst
      · cases hst
      · cases hst
  | step =>
      rcases innermost_cases h with ⟨k, cx, rest, t, out, hst, hk, hout, rfl⟩ |
        ⟨rest, runnable, queue, hst, hM, rfl⟩ | ⟨rest, hst, hM, rfl⟩ | ⟨rest, hst, rfl⟩
      · have hnot : k ∉ keys rest := by
          have := hi.stacked.nodup
          rw [hst] at this
          exact (List.nodup_cons.mp this).1
        have hdone := fun hunwind : Sys.unwind k cx rest out.ticker = rest =>
          hrest hst (s.settle k (Sys.unwind k cx rest out.ticker) out) hunwind
            (runs_update (runs_below hi hst) hnot)
        cases ht : out.ticker with
        | none => exact ht ▸ hdone (by rw [ht]; rfl)
        | some t' =>
            by_cases hparked : t'.pc = .parked
            · exact ht ▸ hdone (by rw [ht]; exact if_pos hparked)
            · intro k' cx' hst'
              rw [Sys.unwind, if_neg hparked] at hst'
              obtain ⟨rfl, -⟩ := Frame.ticker.inj (Option.some.inj hst')
              refine ⟨t', (Function.update_self ..).trans ht, ?_⟩
              exact (step_pc hout t' ht).resolve_left hparked
      · exact fun k cx hst' => by cases hst'
      · exact hrest hst _ rfl (runs_below hi hst)
      · exact fun k cx hst' => by cases hst'
  | ret =>
      rcases ret_cases h with ⟨k, cx, rest, t, hst, hk, -, rfl⟩ | ⟨rest, hst, rfl⟩
      · intro k' cx' hst'
        change s.stack.head? = _ at hst'
        rw [hst] at hst'
        obtain ⟨rfl, -⟩ := Frame.ticker.inj (Option.some.inj hst')
        refine ⟨_, Function.update_self .., ?_⟩
        rcases afterRun_pc t with hp | hp
        · rw [hp]; rfl
        · rw [hp]; rfl
      · exact hrest hst _ rfl (runs_below hi hst)

theorem innermost_reachable (h : (system id).Reachable s) : s.Innermost := by
  refine h.invariant_of (I := Sys.Innermost) ?_ fun s l s' hr hn hs =>
    innermost_next (inv_reachable hr) hn hs
  rintro s rfl k cx hst
  cases hst

theorem step_of_active {cx : W} (ha : t.pc.active = true) (hr : t.pc.running = false)
    (st : State R W) :
    ∃ out, t.step k cx st = some out := by
  unfold Ticker.step
  cases hpc : t.pc with
  | fresh | parked => rw [hpc] at ha; cases ha
  | runPopped | runAwaited | runLast => rw [hpc] at hr; cases hr
  | _ => exact ⟨_, rfl⟩

/-- A call that runs no Runnable has a step to take. -/
theorem step_of_not_free (hn : s.Innermost) (h : ¬ s.Free) : ∃ s', s.next .step = some s' := by
  show ∃ s', s.step = some s'
  unfold Sys.step
  cases hst : s.stack with
  | nil => exact (h fun f hf => by rw [hst] at hf; cases hf).elim
  | cons f rest =>
      have hf : ¬ f.Runs s.tickers := by
        refine fun hr => h fun g hg => ?_
        rw [hst] at hg
        obtain rfl := Option.some.inj hg
        exact hr
      cases f with
      | ticker k cx =>
          obtain ⟨t, hk, ha⟩ := hn k cx (by rw [hst]; rfl)
          have hr : t.pc.running = false := by
            rw [Bool.eq_false_iff]
            exact fun hr => hf ((Option.any_eq_true _ _).mpr ⟨t, hk, hr⟩)
          obtain ⟨out, hout⟩ : ∃ out, t.step k cx s.state = some out :=
            step_of_active ha hr s.state
          simp [hk, hout]
      | tryTick pc =>
          cases pc with
          | popMain => cases hM : s.state.taskQueue <;> simp
          | wake => simp
          | running => exact (hf rfl).elim

/-- From every reachable state, the innermost call runs a Runnable, is
suspended or returns after at most eight steps. -/
theorem step_until_free (h : (system id).Reachable s) :
    ∃ n s', n ≤ 8 ∧ exec Sys.next s (List.replicate n .step) = some s' ∧ s'.Free := by
  have hend : ∀ m (s : Sys R W), (system id).Reachable s → s.rank ≤ m →
      ∃ n s', n ≤ m ∧ exec Sys.next s (List.replicate n .step) = some s' ∧ s'.Free := by
    intro m
    induction m with
    | zero =>
        intro s hr hle
        refine ⟨0, s, Nat.le_refl _, rfl, ?_⟩
        by_contra hno
        obtain ⟨s', hs⟩ := step_of_not_free (innermost_reachable hr) hno
        have := rank_step (inv_reachable hr) hs
        omega
    | succ m ih =>
        intro s hr hle
        by_cases hfree : s.Free
        · exact ⟨0, s, Nat.zero_le _, rfl, hfree⟩
        · obtain ⟨s1, hs⟩ := step_of_not_free (innermost_reachable hr) hfree
          have hlt := rank_step (inv_reachable hr) hs
          obtain ⟨n, s', hn, hexec, hf⟩ := ih s1 (hr.step hs) (by omega)
          refine ⟨n + 1, s', by omega, ?_, hf⟩
          show (s.next .step).bind _ = _
          rw [hs]
          exact hexec
  exact hend 8 s h (rank_le s)

end Innermost

theorem exec_firstPoll :
    (exec Sys.next (.init (some 7) : Sys Nat Nat) [.create 1 true, .poll 1 10]).map (·.tickers 1) =
      some (some ⟨true, false, .loopHead⟩) := by
  decide

theorem step_until_free_firstPoll :
    ∃ s : Sys Nat Nat, s.tickers 1 = some ⟨true, false, .loopHead⟩ ∧
    ∃ n s', n ≤ 8 ∧ exec Sys.next s (List.replicate n .step) = some s' ∧ s'.Free := by
  obtain ⟨s, hrun, hobs⟩ := run_of_observe _ _ _ exec_firstPoll
  have hr : (system (some 7)).Reachable s := ⟨_, hrun⟩
  exact ⟨s, hobs, step_until_free hr⟩

/-! ## What a tick runs -/

/-- The Runnables that the future at `k` has taken out since it was
created. -/
def tally (k : Ptr) (n : Nat) (x : Sys R W × Label R W) : Nat :=
  match x.2 with
  | .create k' _ => if k' = k then 0 else n
  | .step =>
      if x.1.stack.head?.bind Frame.key = some k then n + (x.1.takes .step).toList.length else n
  | _ => n

/-- How many Runnables the future at `k` has run, or begun to run. -/
def ranBy (k : Ptr) (tr : List (Sys R W × Label R W)) : Nat := tr.foldl (tally k) 0

theorem ranBy_append (k : Ptr) (tr : List (Sys R W × Label R W)) (x : Sys R W × Label R W) :
    ranBy k (tr ++ [x]) = tally k (ranBy k tr) x := by
  simp [ranBy]

/-- The fewest and the most Runnables that a `tick()` future has taken out
by here. -/
def Pc.ran : Pc → Nat × Nat
  | mainTake | runPopped | runAwaited | pollOnce => (1, 1)
  | runLast => (2, 2)
  | finish => (1, 2)
  | _ => (0, 0)

/-- A `tick()` future at `pc` may have taken out `n` Runnables. -/
def Pc.Ran (pc : Pc) (n : Nat) : Prop := pc.ran.1 ≤ n ∧ n ≤ pc.ran.2

section Ran

variable {s s' : Sys R W} {k : Ptr} {t : Ticker} {tr : List (Sys R W × Label R W)}

theorem ran_afterRun {n : Nat} (hr : t.pc.running = true) (h : t.pc.Ran n) :
    t.afterRun.pc.Ran n := by
  unfold Pc.Ran at h ⊢
  unfold Ticker.afterRun
  cases hpc : t.pc with
  | runPopped | runAwaited | runLast =>
      rw [hpc] at h
      simp [Pc.ran] at h ⊢
      omega
  | _ => rw [hpc] at hr; cases hr

variable [WillWake W]

theorem ran_step {cx : W} {out : TickOut R W} {t' : Ticker} {n : Nat}
    (hone : t.oneShot = true) (h : t.step k cx s.state = some out) (ht' : out.ticker = some t')
    (hn : t.pc.Ran n) : t'.pc.Ran (n + (s.takesAt k t.pc).toList.length) := by
  have htook := took_step h
  unfold Pc.Ran at hn ⊢
  unfold Ticker.step at h
  cases hpc : t.pc with
  | loopHead =>
      rw [hpc] at h hn htook
      obtain rfl := Option.some.inj h
      rw [← htook]
      simp only [Pc.ran] at hn
      rcases view_loopHead t s.state with ⟨-, hp, h1, h2, -⟩ |
        ⟨runnable, rest, -, hp, h1, h2, -⟩
      · rw [ht'] at hp
        rw [Option.some.inj hp, h1, h2]
        simpa [Pc.ran] using hn
      · rw [ht'] at hp
        rw [Option.some.inj hp, h1, h2]
        simp [Pc.ran]
        omega
  | listen =>
      rw [hpc] at h hn htook
      obtain rfl := Option.some.inj h
      rw [← htook]
      simp only [Pc.ran] at hn
      obtain ⟨hM, -, hcases⟩ := view_pollListener t k cx s.state .runAwaited .loopHead
        (if t.isMainstream then .mainPop else .parked)
      rcases hcases with ⟨-, -, -, -, -, hp, h1, -⟩ | ⟨tag, b, -, -, hp, h1, -⟩
      · rw [ht'] at hp
        rw [Option.some.inj hp, h1, hM]
        cases t.isMainstream <;> simpa [Pc.ran] using hn
      · rw [ht'] at hp
        rw [Option.some.inj hp, h1, hM]
        cases tag <;> simp [Pc.ran] <;> omega
  | pollOnce =>
      rw [hpc] at h hn htook
      obtain rfl := Option.some.inj h
      rw [← htook]
      simp only [Pc.ran] at hn
      obtain ⟨hM, -, hcases⟩ := view_pollListener t k cx s.state .runLast .finish .finish
      rcases hcases with ⟨-, -, -, -, -, hp, h1, -⟩ | ⟨tag, b, -, -, hp, h1, -⟩
      · rw [ht'] at hp
        rw [Option.some.inj hp, h1, hM]
        simp [Pc.ran]
        omega
      · rw [ht'] at hp
        rw [Option.some.inj hp, h1, hM]
        cases tag <;> simp [Pc.ran] <;> omega
  | mainPop | mainPopAgain =>
      rw [hpc] at h hn htook
      obtain rfl := Option.some.inj h
      rw [← htook]
      simp only [Pc.ran] at hn
      unfold Ticker.popMain at ht' ⊢
      split at ht'
      · obtain rfl := Option.some.inj ht'
        simp [Pc.ran]
        omega
      · rename_i hM
        obtain rfl := Option.some.inj ht'
        simpa [Pc.ran, hM, Ticker.goto] using hn
  | mainRegister | mainTake =>
      rw [hpc] at h hn htook
      obtain rfl := Option.some.inj h
      rw [← htook]
      obtain rfl := Option.some.inj ht'
      simpa [Pc.ran, Ticker.goto] using hn
  | finish =>
      rw [hpc] at h
      obtain rfl := Option.some.inj h
      rw [if_pos hone] at ht'
      cases ht'
  | fresh | parked | runPopped | runAwaited | runLast =>
      rw [hpc] at h
      cases h

/-- A `tick()` future has run what its position says. -/
def Sys.Ticked (tr : List (Sys R W × Label R W)) (s : Sys R W) : Prop :=
  ∀ k t, s.tickers k = some t → t.oneShot = true → t.pc.Ran (ranBy k tr)

omit [WillWake W] in
/-- What became of one ticker. -/
theorem Sys.Ticked.update {l : Label R W} {x : Option Ticker} (hn : Sys.Ticked tr s)
    (ht : s'.tickers = Function.update s.tickers k x)
    (hx : ∀ t, x = some t → t.oneShot = true → t.pc.Ran (tally k (ranBy k tr) (s, l)))
    (hrest : ∀ k', k' ≠ k → tally k' (ranBy k' tr) (s, l) = ranBy k' tr) :
    Sys.Ticked (tr ++ [(s, l)]) s' := by
  intro k' t hk hone
  rw [ranBy_append]
  rw [ht] at hk
  by_cases he : k' = k
  · subst he
    rw [Function.update_self] at hk
    exact hx t hk hone
  · rw [Function.update_of_ne he] at hk
    rw [hrest k' he]
    exact hn k' t hk hone

omit [WillWake W] in
theorem Sys.Ticked.keep {l : Label R W} (hn : Sys.Ticked tr s) (ht : s'.tickers = s.tickers)
    (hrest : ∀ k, tally k (ranBy k tr) (s, l) = ranBy k tr) : Sys.Ticked (tr ++ [(s, l)]) s' := by
  intro k t hk hone
  rw [ranBy_append, hrest]
  exact hn k t (ht ▸ hk) hone

theorem ticked_next {l : Label R W} (hn : Sys.Ticked tr s) (h : s.next l = some s') :
    Sys.Ticked (tr ++ [(s, l)]) s' := by
  cases l with
  | schedule id runnable =>
      obtain ⟨-, -, rfl⟩ | ⟨-, rfl⟩ := next_schedule h
      · exact hn.keep rfl fun _ => rfl
      · exact hn.keep rfl fun _ => rfl
  | wake =>
      obtain ⟨-, rfl⟩ := next_wake h
      exact hn.keep rfl fun _ => rfl
  | create k oneShot =>
      obtain ⟨-, -, rfl⟩ := next_create h
      refine hn.update rfl (fun t ht _ => ?_) fun k' hne => if_neg (Ne.symm hne)
      obtain rfl := Option.some.inj ht
      simp [tally, Pc.Ran, Pc.ran]
  | poll k w =>
      obtain ⟨-, t, hk, ⟨hpc, rfl⟩ | ⟨hpc, rfl⟩⟩ := next_poll h
      · refine hn.update rfl (fun t' ht' hone => ?_) fun _ _ => rfl
        obtain rfl := Option.some.inj ht'
        have := hn k t hk hone
        rw [hpc] at this
        exact this
      · refine hn.update rfl (fun t' ht' hone => ?_) fun _ _ => rfl
        obtain rfl := Option.some.inj ht'
        have := hn k t hk hone
        rw [hpc] at this
        exact this
  | drop k =>
      obtain ⟨-, t, -, -, rfl⟩ := next_drop h
      exact hn.update rfl (fun t ht => by cases ht) fun _ _ => rfl
  | tryTick =>
      obtain ⟨-, rfl⟩ := next_tryTick h
      refine hn.keep ?_ fun _ => rfl
      unfold Sys.tryTick
      split
      · rfl
      · rfl
  | step =>
      rcases next_step h with ⟨k, cx, rest, t, out, hst, hk, hout, rfl⟩ | htry
      · have htally : ∀ k', tally k' (ranBy k' tr) (s, .step) =
            if k = k' then ranBy k' tr + (s.takesAt k t.pc).toList.length else ranBy k' tr := by
          intro k'
          simp [tally, hst, Frame.key, Sys.takes, Sys.takesTop, hk]
        refine hn.update rfl (fun t' ht' hone => ?_) fun k' hne => ?_
        · rw [htally, if_pos rfl]
          have hsame : t'.oneShot = t.oneShot := oneShot_step hout ht'
          exact ran_step (hsame ▸ hone) hout ht' (hn k t hk (hsame ▸ hone))
        · rw [htally, if_neg (Ne.symm hne)]
      · obtain ⟨pc, rest, hst, -⟩ := htry.stack
        refine hn.keep htry.tickers fun k => ?_
        simp [tally, hst, Frame.key]
  | ret =>
      rcases next_ret h with ⟨k, cx, rest, t, -, hk, hr, rfl⟩ | htry
      · refine hn.update rfl (fun t' ht' hone => ?_) fun _ _ => rfl
        obtain rfl := Option.some.inj ht'
        exact ran_afterRun hr (hn k t hk hone)
      · exact hn.keep htry.tickers fun _ => rfl

/-- A `tick()` future that has not been polled, or is suspended, has run
nothing since it was created; one that is about to return has run one
Runnable or two. -/
theorem tick_runs {id : Option Nat} (h : (system id).Run tr s) (hk : s.tickers k = some t)
    (hone : t.oneShot = true) :
    (t.pc.active = false → ranBy k tr = 0) ∧
      (t.pc = .finish → ranBy k tr = 1 ∨ ranBy k tr = 2) := by
  have hticked : Sys.Ticked tr s := by
    refine h.history (I := Sys.Ticked) ?_ fun tr s l s' _ hn hs => ticked_next hn hs
    rintro s rfl k t hk
    cases hk
  have hran := hticked k t hk hone
  unfold Pc.Ran at hran
  constructor
  · intro hoff
    cases hpc : t.pc with
    | fresh | parked =>
        rw [hpc] at hran
        exact Nat.le_zero.mp hran.2
    | _ => rw [hpc] at hoff; cases hoff
  · intro hpc
    rw [hpc] at hran
    simp only [Pc.ran] at hran
    omega

end Ran

/-- A `tick()` future finds a Runnable in the mainstream queue, and while
it runs this one, another one is handed to its listener. -/
def tickTwice : List (Label Nat Nat) :=
  [.schedule none 4, .create 1 true, .poll 1 10, .step, .step, .step, .schedule (some 7) 5, .ret,
    .step, .ret]

theorem exec_tickTwice :
    (exec Sys.next (.init (some 7)) tickTwice).map (fun s => (s.tickers 1, s.ranLocal, s.ranMain)) =
      some (some ⟨true, true, .finish⟩, [5], [4]) := by
  decide

theorem tick_runs_tickTwice :
    ranBy 1 (execTrace Sys.next (.init (some 7)) tickTwice) = 1 ∨
      ranBy 1 (execTrace Sys.next (.init (some 7)) tickTwice) = 2 := by
  obtain ⟨s, hrun, hobs⟩ := run_of_observe _ _ _ exec_tickTwice
  have hrun : (system (some 7)).Run _ s := hrun
  exact (tick_runs hrun (Prod.mk.inj hobs).1 rfl).2 rfl

example : ranBy 1 (execTrace Sys.next (.init (some 7)) tickTwice) = 2 := by
  decide

end Executor

end Unsend

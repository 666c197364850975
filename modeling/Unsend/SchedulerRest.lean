import Unsend.SchedulerTasks

/-!
# Why a ticker may wait

A ticker finds out what it has to do before it waits, and while it waits
somebody else must wake it up. `Sys.Served` says that nobody waits unless
somebody is notified or there is nothing to do, where what there is to do
is read off the local queue and the mainstream role. The local queue
alone gives `tickersServed_run_iff`: while no future is being polled and
a Runnable is in the local queue, a ticker is notified or none waits,
until a `tick()` future returns and leaves such a Runnable behind without
waking up another ticker.
-/

namespace Unsend

namespace Executor

variable {R W : Type}

namespace Sys

/-- The future at `k` is suspended, and its listener un-notified. -/
def Sleeps (s : Sys R W) (k : Ptr) : Prop :=
  (∃ t, s.tickers k = some t ∧ t.pc = .parked) ∧
    ∃ st, s.state.queue.stateOf k = some st ∧ st.isNotified = false

/-- While no future is being polled: with a Runnable in the local queue
and no listener notified, no future sleeps. -/
def TickersServed (s : Sys R W) : Prop :=
  keys s.stack = [] → s.state.threadState.taskQueue ≠ [] →
    (∀ k tag, ¬ s.NotifiedWith k tag) → ∀ k, ¬ s.Sleeps k

/-- The future returns here, from a poll that is not inside another one. -/
def Returns (s : Sys R W) (k : Ptr) (t : Ticker) : Prop :=
  ∃ cx rest, s.stack = .ticker k cx :: rest ∧ keys rest = [] ∧ s.tickers k = some t ∧
    t.pc = .finish ∧ t.oneShot = true

/-- A `tick()` future that is not the mainstream runner returns only where
that leaves the local queue empty, or a listener notified, or none
waiting. -/
def KeepsTickers (s : Sys R W) : Label R W → Prop
  | .step => ∀ k t, s.Returns k t → t.isMainstream = false →
      s.state.threadState.taskQueue ≠ [] → s.state.queue.numNotified = 0 →
        (s.state.queue.erase k).numWaiting = 0
  | _ => True

/-! ## Nobody waits for nothing -/

/-- There is nothing to do, or somebody is notified, or nobody waits. -/
def Calm (Quiet : List R × Bool → Prop) (s : Sys R W) : Prop :=
  ¬ Quiet s.state.threadState.outlook →
    s.state.queue.numNotified = 0 → s.state.queue.numWaiting = 0

/-- So it is while no future is being polled. -/
def Served (Quiet : List R × Bool → Prop) (s : Sys R W) : Prop :=
  keys s.stack = [] → s.Calm Quiet

/-- A future that is about to wait has found nothing to do, or somebody is
notified, or its poll is inside another one. -/
def Wary (Quiet : List R × Bool → Prop) (s : Sys R W) : Prop :=
  ∀ k cx rest t, s.stack = .ticker k cx :: rest → keys rest = [] → s.tickers k = some t →
    t.pc.waiting = true → ¬ Quiet s.state.threadState.outlook → s.state.queue.numNotified ≠ 0

/-- A `tick()` future that is not the mainstream runner returns only where
there is nothing to do, or a listener is notified, or none waits. -/
def KeepsCalm (Quiet : List R × Bool → Prop) (s : Sys R W) : Label R W → Prop
  | .step => ∀ k t, s.Returns k t → t.isMainstream = false →
      ¬ Quiet s.state.threadState.outlook → s.state.queue.numNotified = 0 →
        (s.state.queue.erase k).numWaiting = 0
  | _ => True

theorem none_notified {s : Sys R W} :
    (∀ k tag, ¬ s.NotifiedWith k tag) ↔ s.state.queue.numNotified = 0 := by
  rw [Queue.numNotified_eq_zero]
  constructor
  · rintro h ⟨k, st⟩ hm
    cases st with
    | notified tag b => exact (h k tag ⟨b, (Queue.stateOf_eq_some s.state.nodup).mpr hm⟩).elim
    | created => rfl
    | waiting w => rfl
  · rintro h k tag ⟨b, hn⟩
    have := h _ ((Queue.stateOf_eq_some s.state.nodup).mp hn)
    cases this

/-- While no future is being polled, the listeners are those of the
suspended futures. -/
theorem none_sleeps {s : Sys R W} (hi : s.Inv) (hk : keys s.stack = []) :
    (∀ k, ¬ s.Sleeps k) ↔ s.state.queue.numWaiting = 0 := by
  rw [Queue.numWaiting_eq_zero]
  constructor
  · rintro h ⟨k, st⟩ hm
    by_contra hst
    cases ht : s.tickers k with
    | none => exact hi.absent ht (Queue.mem_ids_of_mem hm)
    | some t =>
        refine h k ⟨⟨t, ht, ?_⟩, st, (Queue.stateOf_eq_some s.state.nodup).mpr hm,
          eq_false_of_ne_true hst⟩
        have hoff : t.pc.active = false := by
          by_contra ha
          have := hi.stacked.onStack k t ht (eq_true_of_ne_false ha)
          rw [hk] at this
          cases this
        cases hpc : t.pc with
        | parked => rfl
        | fresh => exact (hi.seat ht hpc (Queue.mem_ids_of_mem hm)).elim
        | _ => rw [hpc] at hoff; cases hoff
  · rintro h k ⟨-, st, hst, hn⟩
    have := h _ ((Queue.stateOf_eq_some s.state.nodup).mp hst)
    rw [hn] at this
    cases this

end Sys

section Served

variable {Quiet : List R × Bool → Prop} {s s' : Sys R W} {k : Ptr} {t : Ticker}

/-- The innermost future is not about to wait. -/
theorem wary_of_top (h : ∀ k cx rest t, s'.stack = .ticker k cx :: rest →
    s'.tickers k = some t → t.pc.waiting = false) : s'.Wary Quiet := by
  intro k cx rest t hst _ hk hw
  rw [h k cx rest t hst hk] at hw
  cases hw

theorem not_waiting_of_running : ∀ {pc : Pc}, pc.running = true → pc.waiting = false := by
  intro pc h
  cases pc with
  | runPopped | runAwaited | runLast => rfl
  | _ => cases h

/-- All calls in progress run a Runnable. -/
theorem wary_of_runs (h : ∀ f ∈ s'.stack.head?, f.Runs s'.tickers) : s'.Wary Quiet := by
  refine wary_of_top fun k cx rest t hst hk => ?_
  have hr := h (.ticker k cx) (by rw [hst]; rfl)
  obtain ⟨t', ht', hr⟩ := (Option.any_eq_true _ _).mp hr
  cases hk.symm.trans ht'
  exact not_waiting_of_running hr

/-- A change elsewhere leaves the innermost call running. -/
theorem head_runs (hi : s.Inv) (hfree : s.Free) (hk : k ∉ keys s.stack) (t : Option Ticker) :
    ∀ f ∈ s.stack.head?, f.Runs (Function.update s.tickers k t) :=
  fun f hf => runs_update (hi.stacked.all_run hfree) hk f (List.mem_of_mem_head? hf)

/-- An event after the drop of a listener: nobody waits without another
one being notified, if that was so before. -/
theorem calm_drop {q : Queue (Option R) W} (hq : q.ids.Nodup) (hpl : q.Plain)
    (hcalm : q.numNotified = 0 → q.numWaiting = 0)
    (hn : (q.drop k).event.numNotified = 0) : (q.drop k).event.numWaiting = 0 := by
  rcases Queue.drop_cases hq hpl k with
    ⟨-, h2, h3, -, -⟩ | ⟨tag, -, ⟨h2, -, h4, -, -, -⟩ | ⟨h2, h3, h4, -, -⟩⟩
  · have := hcalm (h2.symm.trans hn)
    omega
  · omega
  · omega

/-- The drop of a ticker wakes up another one, or changes nothing of what
there is to do. -/
theorem calm_settle_drop (hpl : s.state.queue.Plain) (t : Ticker) (stack : List (Frame W))
    (hcalm : s.Calm Quiet) : (s.settle k stack (t.dropFuture k s.state)).Calm Quiet := by
  intro hL h0
  have hq : (s.settle k stack (t.dropFuture k s.state)).state.queue =
      dropped t s.state.queue k := congrArg Prod.fst (view_dropFuture t k s.state).1
  rw [hq] at h0 ⊢
  cases hmain : t.isMainstream with
  | true =>
      rw [dropped, if_pos hmain] at h0 ⊢
      exact Queue.wakeOne_served _ h0
  | false =>
      change ¬ Quiet (t.dropFuture k s.state).state.threadState.outlook at hL
      rw [outlook_dropFuture k s.state hmain] at hL
      rw [dropped, if_neg (by rw [hmain]; exact Bool.false_ne_true)] at h0 ⊢
      exact calm_drop s.state.nodup hpl (hcalm hL) h0

theorem served_schedule (s : Sys R W) (runnable : R) : (s.schedule runnable).Served Quiet := by
  intro _ _ hn
  change (s.state.threadState.schedule runnable).1.threadWaker.queue.numNotified = 0 at hn
  show (s.state.threadState.schedule runnable).1.threadWaker.queue.numWaiting = 0
  rcases schedule_cases s.state.threadState runnable with ⟨-, -, -, h1, -⟩ | ⟨h1, -, h2⟩
  · omega
  · rw [h2] at hn ⊢
    exact h1 hn

theorem served_tryTick (hs : s.Served Quiet) : s.tryTick.Served Quiet := by
  unfold Sys.tryTick
  cases hL : s.state.threadState.taskQueue with
  | nil => exact fun hk => hs hk
  | cons runnable rest =>
      intro _ _ hn
      have hq : ({ s.state.threadState with taskQueue := rest }.wakeRunner).1.threadWaker.queue =
          (s.state.queue.notify wakeOne ()).event := queue_wakeRunner _
      change ({ s.state.threadState with
        taskQueue := rest }.wakeRunner).1.threadWaker.queue.numNotified = 0 at hn
      show ({ s.state.threadState with
        taskQueue := rest }.wakeRunner).1.threadWaker.queue.numWaiting = 0
      rw [hq] at hn ⊢
      exact Queue.wakeOne_served _ hn

/-- A step of `try_tick` strands nobody. -/
theorem TryStep.served (h : TryStep s s') (hi : s.Inv) (hs : s.Served Quiet) :
    s'.Served Quiet ∧ s'.Wary Quiet := by
  obtain ⟨htickers, hts, -, -, -, pc, rest, hst, hst'⟩ := h
  have hnested := hi.stacked.nested
  rw [hst] at hnested
  have hkeys : keys s'.stack = keys s.stack := by
    rw [hst]
    rcases hst' with hst' | ⟨pc', hst'⟩
    · rw [hst', keys_tryTick]
    · rw [hst', keys_tryTick, keys_tryTick]
  constructor
  · intro hk
    rw [hkeys] at hk
    have := hs hk
    unfold Sys.Calm State.queue at this ⊢
    rw [hts]
    exact this
  · rcases hst' with hst' | ⟨pc', hst'⟩
    · refine wary_of_runs fun f hf => ?_
      rw [hst'] at hf
      rw [htickers]
      exact hnested f (List.mem_of_mem_head? hf)
    · refine wary_of_top fun k cx rest' t hst'' _ => ?_
      rw [hst'] at hst''
      cases hst''

/-- A listener that is not notified is dropped: nothing changes for the
others. -/
theorem counts_drop {q : Queue (Option R) W} (hq : q.ids.Nodup)
    (hk : ∀ tag b, q.stateOf k ≠ some (.notified tag b)) :
    (q.drop k).event = q.erase k ∧ (q.erase k).numNotified = q.numNotified := by
  cases hst : q.stateOf k with
  | none =>
      have habs := Queue.stateOf_eq_none.mp hst
      rw [Queue.drop_absent habs, Queue.erase_of_notMem habs]
      exact ⟨rfl, rfl⟩
  | some st =>
      cases hn : st.isNotified with
      | true =>
          cases st with
          | notified tag b => exact (hk tag b hst).elim
          | created => cases hn
          | waiting w => cases hn
      | false =>
          rw [Queue.drop_waiting hst hn]
          exact ⟨rfl, (Queue.erase_waiting hq hst hn).1.symm⟩

/-- A `tick()` future that returns strands the others exactly if it is not
the mainstream runner, there is something to do, nobody is notified and
somebody else waits. -/
theorem calm_return (hi : s.Inv) (hk : s.tickers k = some t) (hpc : t.pc = .finish)
    (stack : List (Frame W)) :
    (s.settle k stack (t.dropFuture k s.state)).Calm Quiet ↔
      (t.isMainstream = false → ¬ Quiet s.state.threadState.outlook →
        s.state.queue.numNotified = 0 → (s.state.queue.erase k).numWaiting = 0) := by
  obtain ⟨he, hn⟩ := counts_drop s.state.nodup (hi.seat hk hpc)
  have hq : (s.settle k stack (t.dropFuture k s.state)).state.queue = dropped t s.state.queue k :=
    congrArg Prod.fst (view_dropFuture t k s.state).1
  unfold Sys.Calm
  rw [hq, dropped]
  cases hmain : t.isMainstream with
  | true =>
      refine iff_of_true (fun _ h0 => ?_) (fun h => by cases h)
      exact Queue.wakeOne_served _ h0
  | false =>
      have ho : (s.settle k stack (t.dropFuture k s.state)).state.threadState.outlook =
          s.state.threadState.outlook := outlook_dropFuture k s.state hmain
      rw [ho, if_neg Bool.false_ne_true, he, hn]
      exact ⟨fun h _ => h, fun h => h rfl⟩

variable [WillWake W]

/-- A step of the innermost future. -/
theorem served_ticker (hQ : Quiet ([], true)) (hi : s.Inv) (hw : s.Wary Quiet) {cx : W}
    {rest : List (Frame W)} {out : TickOut R W} (hst : s.stack = .ticker k cx :: rest)
    (hk : s.tickers k = some t) (hout : t.step k cx s.state = some out) :
    ((s.settle k (Sys.unwind k cx rest out.ticker) out).Served Quiet ↔
      s.KeepsCalm Quiet .step) ∧
      (s.settle k (Sys.unwind k cx rest out.ticker) out).Wary Quiet := by
  have hstacked := hi.stacked
  rw [hst] at hstacked
  have hknot : k ∉ keys rest := (List.nodup_cons.mp hstacked.nodup).1
  have hbelow : ∀ f ∈ rest.head?, f.Runs (Function.update s.tickers k out.ticker) :=
    fun f hf => runs_update hstacked.nested hknot f (List.mem_of_mem_head? hf)
  have honly : ∀ k' t', s.Returns k' t' → k' = k ∧ t' = t ∧ keys rest = [] := by
    rintro k' t' ⟨cx', rest', hst', hrest, hk', -⟩
    cases hst.symm.trans hst'
    cases hk.symm.trans hk'
    exact ⟨rfl, rfl, hrest⟩
  rcases step_cases hout with ⟨hpc, hone, rfl⟩ | ⟨t', ht', hcases⟩
  · refine ⟨?_, wary_of_runs hbelow⟩
    have hcalm : (s.settle k rest (t.dropFuture k s.state)).Calm Quiet ↔ _ :=
      calm_return hi hk hpc rest
    constructor
    · intro hs k' t' hr
      obtain ⟨rfl, rfl, hrest⟩ := honly k' t' hr
      exact hcalm.mp (hs hrest)
    · intro hkeep hrest
      exact hcalm.mpr (hkeep k t ⟨cx, rest, hst, hrest, hk, hpc, hone⟩)
  · have hkeep : s.KeepsCalm Quiet .step := by
      intro k' t0 hr
      obtain ⟨rfl, rfl, -⟩ := honly k' t0 hr
      obtain ⟨-, -, -, -, -, hpc, hone⟩ := hr
      have hnone : out.ticker = none := by
        rw [Ticker.step, hpc] at hout
        obtain rfl := Option.some.inj hout
        rw [if_pos hone]
        rfl
      rw [hnone] at ht'
      cases ht'
    have hself : Function.update s.tickers k out.ticker k = some t' := by
      rw [Function.update_self, ht']
    -- a future that goes on to wait has found nothing to do, or was wary before
    have hquiet : (out.state.threadState.outlook = ([], true) ∨ t.pc.waiting = true ∧
        out.state.threadState.outlook = s.state.threadState.outlook ∧
        out.state.queue.numNotified = s.state.queue.numNotified) → keys rest = [] →
        ¬ Quiet out.state.threadState.outlook → out.state.queue.numNotified ≠ 0 := by
      rintro (ho | ⟨hw', ho, hn'⟩) hrest hL
      · rw [ho] at hL
        exact (hL hQ).elim
      · rw [ho] at hL
        rw [hn']
        exact hw k cx rest t hst hrest hk hw' hL
    rcases hcases with ⟨ha, hnw⟩ | ⟨hp | hp, hwait⟩
    · have hstack : Sys.unwind k cx rest out.ticker = .ticker k cx :: rest := by
        rw [ht', Sys.unwind, if_neg fun h => by rw [h] at ha; cases ha]
      refine ⟨iff_of_true (fun hks => ?_) hkeep, wary_of_top fun k' cx' rest' t0 hst' hk' => ?_⟩
      · change keys (Sys.unwind k cx rest out.ticker) = [] at hks
        rw [hstack] at hks
        cases hks
      · cases (hstack.symm.trans hst')
        cases hself.symm.trans hk'
        exact hnw
    · have hstack : Sys.unwind k cx rest out.ticker = rest := by
        rw [ht', Sys.unwind, if_pos hp]
      refine ⟨iff_of_true (fun hrest hL h0 => ?_) hkeep, wary_of_runs ?_⟩
      · change keys (Sys.unwind k cx rest out.ticker) = [] at hrest
        rw [hstack] at hrest
        exact (hquiet hwait hrest hL h0).elim
      · show ∀ f ∈ (Sys.unwind k cx rest out.ticker).head?, _
        rw [hstack]
        exact hbelow
    · have hstack : Sys.unwind k cx rest out.ticker = .ticker k cx :: rest := by
        rw [ht', Sys.unwind, if_neg fun h => by rw [h] at hp; cases hp]
      refine ⟨iff_of_true (fun hks => ?_) hkeep, fun k' cx' rest' t0 hst' hrest _ _ hL => ?_⟩
      · change keys (Sys.unwind k cx rest out.ticker) = [] at hks
        rw [hstack] at hks
        cases hks
      · cases (hstack.symm.trans hst')
        exact hquiet hwait hrest hL

/-- From a state in which nobody is stranded, a step strands somebody
exactly if it is not one that `KeepsCalm` allows. -/
theorem served_next_iff {l : Label R W} (hQ : Quiet ([], true)) (hi : s.Inv)
    (hs : s.Served Quiet) (hw : s.Wary Quiet) (h : s.next l = some s') :
    (s'.Served Quiet ↔ s.KeepsCalm Quiet l) ∧ s'.Wary Quiet := by
  cases l with
  | schedule id runnable =>
      obtain ⟨-, hfree, rfl⟩ | ⟨-, rfl⟩ := next_schedule h
      · exact ⟨iff_of_true (served_schedule s runnable) trivial, wary_of_runs hfree⟩
      · exact ⟨iff_of_true hs trivial, hw⟩
  | wake =>
      obtain ⟨-, rfl⟩ := next_wake h
      exact ⟨iff_of_true hs trivial, hw⟩
  | create k oneShot =>
      obtain ⟨hk, hfree, rfl⟩ := next_create h
      refine ⟨iff_of_true hs trivial, wary_of_runs (head_runs hi hfree ?_ _)⟩
      exact hi.stacked.notMem hfree fun t ht => by cases hk.symm.trans ht
  | poll k w =>
      obtain ⟨hfree, t, hk, ⟨hpc, rfl⟩ | ⟨hpc, rfl⟩⟩ := next_poll h
      · refine ⟨iff_of_true (fun hks => by cases hks) trivial, wary_of_top ?_⟩
        intro k' cx rest t' hst ht'
        cases hst
        change Function.update s.tickers k _ k = some t' at ht'
        rw [Function.update_self] at ht'
        cases ht'
        rfl
      · refine ⟨iff_of_true (fun hks => by cases hks) trivial, ?_⟩
        intro k' cx rest t' hst hrest _ _ hL h0
        cases hst
        have hpos := hi.parked_pos hk hpc
        have hnw := hs hrest hL h0
        change s.state.queue.numNotified = 0 at h0
        omega
  | drop k =>
      obtain ⟨hfree, t, hk, hoff, rfl⟩ := next_drop h
      have hnot : k ∉ keys s.stack := hi.stacked.notMem hfree fun t' ht' => by
        cases hk.symm.trans ht'
        exact hoff
      exact ⟨iff_of_true (fun hks => calm_settle_drop hi.plain t s.stack (hs hks)) trivial,
        wary_of_runs (head_runs hi hfree hnot _)⟩
  | tryTick =>
      obtain ⟨-, rfl⟩ := next_tryTick h
      refine ⟨iff_of_true (served_tryTick hs) trivial, wary_of_top fun k cx rest t hst _ => ?_⟩
      unfold Sys.tryTick at hst
      split at hst
      · cases hst
      · cases hst
  | step =>
      rcases next_step h with ⟨k, cx, rest, t, out, hst, hk, hout, rfl⟩ | htry
      · exact served_ticker hQ hi hw hst hk hout
      · obtain ⟨h1, h2⟩ := htry.served hi hs
        refine ⟨iff_of_true h1 ?_, h2⟩
        obtain ⟨-, -, -, -, -, pc, rest, hst, -⟩ := htry
        rintro k t ⟨cx, rest', hst', -⟩
        cases hst.symm.trans hst'
  | ret =>
      rcases next_ret h with ⟨k, cx, rest, t, hst, hk, hr, rfl⟩ | htry
      · refine ⟨iff_of_true (fun hks => ?_) trivial,
          wary_of_top fun k' cx' rest' t' hst' ht' => ?_⟩
        · change keys s.stack = [] at hks
          rw [hst] at hks
          cases hks
        · cases hst.symm.trans hst'
          change Function.update s.tickers k _ k = some t' at ht'
          rw [Function.update_self] at ht'
          cases ht'
          unfold Ticker.afterRun
          split
          · rfl
          · rfl
      · obtain ⟨h1, h2⟩ := htry.served hi hs
        exact ⟨iff_of_true h1 trivial, h2⟩

/-- In a run of the executor nobody ever waits with nobody notified and
something to do exactly if every step is one that `KeepsCalm` allows. The
top of the loop leaves an empty queue and somebody in the role; that must
count as nothing to do. -/
theorem served_run_iff (hQ : Quiet ([], true)) (id : Option Nat)
    {tr : List (Sys R W × Label R W)} (h : (system id).Run tr s) :
    ((∀ x ∈ tr, x.1.Served Quiet) ∧ s.Served Quiet) ↔
      ∀ x ∈ tr, x.1.KeepsCalm Quiet x.2 := by
  refine (h.always_iff_of (K := Sys.Wary Quiet) ?_ ?_).1
  · intro s hs
    obtain rfl := hs
    refine ⟨fun _ _ _ => ?_, fun k cx rest t hst => ?_⟩
    · show (State.new id : State R W).queue.numWaiting = 0
      rw [show (State.new id : State R W).queue = [] from Event.queue_new]
      rfl
    · cases hst
  · intro s l s' hr hs hw hstep
    exact served_next_iff hQ (inv_reachable hr) hs hw hstep

end Served

/-! ## No ticker sleeps beside a queued Runnable -/

namespace Sys

/-- The local queue is empty. -/
def QueueEmpty (outlook : List R × Bool) : Prop := outlook.1 = []

theorem tickersServed_iff {s : Sys R W} (hi : s.Inv) :
    s.TickersServed ↔ s.Served QueueEmpty := by
  unfold TickersServed Served Calm
  rw [none_notified]
  constructor
  · intro h hk hL hn
    exact (none_sleeps hi hk).mp (h hk hL hn)
  · intro h hk hL hn
    exact (none_sleeps hi hk).mpr (h hk hL hn)

theorem keepsTickers_iff {s : Sys R W} {l : Label R W} :
    s.KeepsTickers l ↔ s.KeepsCalm QueueEmpty l := by
  cases l with
  | step => exact Iff.rfl
  | _ => exact Iff.rfl

end Sys

/-- In a run of the executor no ticker ever sleeps beside a queued Runnable
with nobody notified exactly if every step is one that `KeepsTickers`
allows. -/
theorem tickersServed_run_iff [WillWake W] (id : Option Nat) {tr : List (Sys R W × Label R W)}
    {s : Sys R W} (h : (system id).Run tr s) :
    ((∀ x ∈ tr, x.1.TickersServed) ∧ s.TickersServed) ↔
      ∀ x ∈ tr, x.1.KeepsTickers x.2 := by
  have hempty : Sys.QueueEmpty (([], true) : List R × Bool) := rfl
  rw [h.always_congr fun s hr => Sys.tickersServed_iff (inv_reachable hr),
    served_run_iff hempty id h]
  exact forall₂_congr fun x _ => Sys.keepsTickers_iff.symm

/-- A `run()` future and a `tick()` future wait; the `run()` future has
gone behind the other one when two Runnables are scheduled, and the
`tick()` future returns after the first. -/
def tickBeforeRun : List (Label Nat Nat) :=
  [.create 1 false, .poll 1 10, .step, .step, .step, .step, .step,
    .create 2 true, .poll 2 11, .step, .step, .schedule (some 7) 5,
    .poll 1 10, .step, .ret, .step, .step, .step, .step, .step, .step, .step,
    .schedule (some 7) 6, .schedule (some 7) 8,
    .poll 2 11, .step, .ret, .step, .step]

theorem exec_tickBeforeRun :
    (exec Sys.next (.init (some 7)) tickBeforeRun).map
      (fun s => (keys s.stack, s.state.threadState.taskQueue, s.state.queue.numNotified,
        s.state.queue.numWaiting)) = some ([], [8], 0, 1) := by
  decide

theorem tickersServed_tickBeforeRun :
    ∃ s : Sys Nat Nat,
      (((∀ x ∈ execTrace Sys.next (.init (some 7)) tickBeforeRun, x.1.TickersServed) ∧
          s.TickersServed) ↔
        ∀ x ∈ execTrace Sys.next (.init (some 7)) tickBeforeRun, x.1.KeepsTickers x.2) := by
  obtain ⟨s, hrun, -⟩ := run_of_observe _ _ _ exec_tickBeforeRun
  exact ⟨s, tickersServed_run_iff (some 7) hrun⟩

/-- The `run()` future sleeps beside the last Runnable. -/
theorem tickBeforeRun_strands :
    ¬ ∀ (id : Option Nat) (s : Sys Nat Nat), (system id).Reachable s → s.TickersServed := by
  intro h
  obtain ⟨s, hrun, hobs⟩ := run_of_observe _ _ _ exec_tickBeforeRun
  have hr : (system (some 7)).Reachable s := ⟨_, hrun⟩
  have hserved := (Sys.tickersServed_iff (inv_reachable hr)).mp (h (some 7) s hr)
  simp only [Prod.mk.injEq] at hobs
  obtain ⟨hk, hL, hn, hw⟩ := hobs
  have hne : s.state.threadState.taskQueue ≠ [] := by rw [hL]; exact List.cons_ne_nil _ _
  have := hserved hk hne hn
  omega

end Executor

end Unsend

import Unsend.SchedulerRest

/-!
# One runner: first in, first out

An executor that is driven by a single `run()` future, which is not
dropped, and by nothing else (`OneRunner`). Its listener is the only one.
A Runnable that is scheduled on the origin thread is handed to it only
while nothing is queued, so that what was run, then what the listener
holds, then what is queued is what was scheduled, in order
(`runner_fifo`), and a runner that sleeps has nothing to run.

`Steady` is what the listener of a runner says about the queue at each
point of its loop; `step_ordered` is one step of that loop.
-/

namespace Unsend

namespace Executor

variable {R W : Type}

/-- One `run()` future and nobody else, for good. -/
def Sys.OneRunner (s : Sys R W) : Label R W → Prop
  | .create _ oneShot => oneShot = false ∧ ∀ k, s.tickers k = none
  | .drop _ | .tryTick => False
  | _ => True

/-- Where the future is about to wait, or its listener waits, nothing is
queued without a notified listener. -/
def Steady (q : Queue (Option R) W) (localQueue : List R) (pc : Pc) : Prop :=
  pc ≠ .finish → q.numNotified = 0 → (pc.waiting = true ∨ 0 < q.numWaiting) →
    localQueue = []

section Steady

variable {q q' : Queue (Option R) W} {localQueue : List R} {pc pc' : Pc}

theorem steady_nil (hpc : pc.waiting = false) : Steady ([] : Queue (Option R) W) localQueue pc := by
  rintro - - (h | h)
  · rw [hpc] at h
    cases h
  · cases h

theorem steady_finish : Steady q localQueue .finish := fun h => (h rfl).elim

theorem steady_of_nil : Steady q ([] : List R) pc := fun _ _ _ => rfl

/-- On to a place where the future does not wait unless it did before. -/
theorem Steady.moves (h : Steady q localQueue pc) (hpc : pc ≠ .finish)
    (hw : pc'.waiting = true → pc.waiting = true) : Steady q localQueue pc' :=
  fun _ hn hor => h hpc hn (hor.imp_left hw)

/-- From one place to wait to another. -/
theorem Steady.waits (h : Steady q localQueue pc) (hpc : pc.waiting = true)
    (hn : q'.numNotified = q.numNotified) : Steady q' localQueue pc' := by
  intro _ h0 _
  refine h (fun hf => ?_) (hn ▸ h0) (.inl hpc)
  rw [hf] at hpc
  cases hpc

end Steady

section Steps

variable {s : State R W} {k : Ptr} {cx : W} {t : Ticker}

/-- The tag of the only listener. -/
theorem held_of_erase_nil {tag : Option R} (he : s.queue.erase k = [])
    (hheld : (s.queue.held : Multiset R) = (tag.toList : Multiset R) + (s.queue.erase k).held) :
    s.queue.held = tag.toList := by
  refine Queue.eq_of_short ?_ (by cases tag <;> simp)
  rw [hheld, he]
  exact add_zero _

variable [WillWake W]

/-- A poll of the only listener takes its Runnable, if it holds one. -/
theorem pollListener_ordered (he : s.queue.erase k = []) (run other wait : Pc) (t : Ticker)
    (hrun : run.waiting = false) (hother : other.waiting = false)
    (hwait : ∀ q : Queue (Option R) W, q.numNotified = s.queue.numNotified →
      Steady q s.threadState.taskQueue wait) :
    let out := t.pollListener k cx s run other wait
    out.tookLocal ++ out.state.queue.held ++ out.state.threadState.taskQueue =
        s.queue.held ++ s.threadState.taskQueue ∧
      ∀ t' ∈ out.ticker, Steady out.state.queue out.state.threadState.taskQueue t'.pc := by
  intro out
  have hticker :
      ∀ pc, out.ticker.map Ticker.pc = some pc → ∀ t' ∈ out.ticker, t'.pc = pc := by
    intro pc hpc t' ht'
    rw [Option.mem_def.mp ht'] at hpc
    exact Option.some.inj hpc
  rcases (view_pollListener t k cx s run other wait).2.2 with
    ⟨-, -, hnn, -, hheld, hpc, htook, hv⟩ | ⟨tag, b, -, hheld, hpc, htook, hv⟩
  · have hq : out.state.queue = (s.queue.poll k cx).1 := congrArg Prod.fst hv
    have hL : out.state.threadState.taskQueue = s.threadState.taskQueue :=
      congrArg (fun v => v.2.1) hv
    rw [show out.tookLocal = [] from htook, hq, hL, hheld]
    refine ⟨rfl, fun t' ht' => ?_⟩
    rw [hticker _ hpc t' ht']
    exact hwait _ hnn
  · have hq : out.state.queue = s.queue.erase k := congrArg Prod.fst hv
    have hL : out.state.threadState.taskQueue = s.threadState.taskQueue :=
      congrArg (fun v => v.2.1) hv
    rw [show out.tookLocal = tag.toList from htook, hq, hL, he, held_of_erase_nil he hheld]
    have hheld : Queue.held ([] : Queue (Option R) W) = [] := rfl
    refine ⟨by rw [hheld, List.append_nil], ?_⟩
    intro t' ht'
    rw [hticker _ hpc t' ht']
    refine steady_nil ?_
    split
    · exact hrun
    · exact hother

omit [WillWake W] in
/-- A pop from the mainstream queue leaves the origin thread's Runnables
where they are. -/
theorem popMain_ordered (hs : Steady s.queue s.threadState.taskQueue t.pc) (hpc : t.pc ≠ .finish)
    {found empty : Pc} (hfound : found.waiting = false)
    (hempty : empty.waiting = true → t.pc.waiting = true) :
    let out := t.popMain s found empty
    out.tookLocal ++ out.state.queue.held ++ out.state.threadState.taskQueue =
        s.queue.held ++ s.threadState.taskQueue ∧
      ∀ t' ∈ out.ticker, Steady out.state.queue out.state.threadState.taskQueue t'.pc := by
  unfold Ticker.popMain
  cases s.taskQueue with
  | nil =>
      refine ⟨rfl, fun t' ht' => ?_⟩
      cases ht'
      exact hs.moves hpc hempty
  | cons runnable rest =>
      refine ⟨rfl, fun t' ht' => ?_⟩
      cases ht'
      exact hs.moves hpc fun h => by rw [hfound] at h; cases h

omit [WillWake W] in
/-- The listener that is dropped when the tick is over holds nothing. -/
theorem finish_ordered (he : s.queue.erase k = []) (hseat : Seat s.queue k (some .finish)) :
    (s.queue.drop k).event = [] ∧ s.queue.held = [] := by
  obtain ⟨hd, hn⟩ := counts_drop s.nodup hseat
  rw [he] at hd hn
  exact ⟨hd, Queue.held_of_none_notified hn.symm⟩

/-- One step of the only runner keeps the order, and leaves it steady. -/
theorem step_ordered (he : s.queue.erase k = []) (hseat : Seat s.queue k (some t.pc))
    (hs : Steady s.queue s.threadState.taskQueue t.pc) {out : TickOut R W}
    (h : t.step k cx s = some out) :
    out.tookLocal ++ out.state.queue.held ++ out.state.threadState.taskQueue =
        s.queue.held ++ s.threadState.taskQueue ∧
      ∀ t' ∈ out.ticker, Steady out.state.queue out.state.threadState.taskQueue t'.pc := by
  unfold Ticker.step at h
  cases hpc : t.pc with
  | loopHead =>
      rw [hpc] at h hseat
      obtain rfl := Option.some.inj h
      have hq0 : s.queue = [] := (Queue.erase_of_notMem hseat).symm.trans he
      rcases view_loopHead t s with ⟨hL, -, h1, -, -, hv⟩ |
        ⟨runnable, rest, hL, hp, h1, -, -, hv⟩
      · have hq : (t.loopHead s).state.queue = s.queue := congrArg Prod.fst hv
        have hL' : (t.loopHead s).state.threadState.taskQueue = [] := congrArg (fun v => v.2.1) hv
        rw [h1, hq, hL, hL']
        exact ⟨rfl, fun t' _ => steady_of_nil⟩
      · have hq : (t.loopHead s).state.queue = [] := by
          refine (congrArg Prod.fst hv).trans (List.length_eq_zero_iff.mp ?_)
          exact (Queue.length_notify ..).trans (congrArg List.length hq0)
        have hL' : (t.loopHead s).state.threadState.taskQueue = rest :=
          congrArg (fun v => v.2.1) hv
        rw [h1, hq, hL, hL', hq0]
        refine ⟨rfl, fun t' ht' => steady_nil ?_⟩
        rw [Option.mem_def.mp ht'] at hp
        rw [Option.some.inj hp]
        rfl
  | listen =>
      rw [hpc] at h hs
      obtain rfl := Option.some.inj h
      exact pollListener_ordered he _ _ _ t rfl rfl fun q hn => hs.waits rfl hn
  | mainPop =>
      rw [hpc] at h
      obtain rfl := Option.some.inj h
      exact popMain_ordered hs (by rw [hpc]; simp) rfl fun _ => by rw [hpc]; rfl
  | mainRegister =>
      rw [hpc] at h hs
      obtain rfl := Option.some.inj h
      refine ⟨rfl, fun t' ht' => ?_⟩
      cases ht'
      exact hs.waits rfl rfl
  | mainPopAgain =>
      rw [hpc] at h
      obtain rfl := Option.some.inj h
      exact popMain_ordered hs (by rw [hpc]; simp) rfl fun h => by cases h
  | mainTake =>
      rw [hpc] at h hs
      obtain rfl := Option.some.inj h
      refine ⟨rfl, fun t' ht' => ?_⟩
      cases ht'
      exact hs.moves (by simp) fun h => by cases h
  | pollOnce =>
      rw [hpc] at h
      obtain rfl := Option.some.inj h
      exact pollListener_ordered he _ _ _ t rfl rfl fun _ _ => steady_finish
  | finish =>
      rw [hpc] at h hseat
      obtain rfl := Option.some.inj h
      obtain ⟨hdrop, hheld⟩ := finish_ordered he hseat
      rw [hheld]
      split
      · have hv := (view_dropFuture t k s).1
        have hq : (t.dropFuture k s).state.queue = [] := by
          refine (congrArg Prod.fst hv).trans (List.length_eq_zero_iff.mp ?_)
          rw [← Queue.length_ids]
          exact (congrArg List.length (ids_dropped ..)).trans (by rw [hdrop]; rfl)
        have hL : (t.dropFuture k s).state.threadState.taskQueue = s.threadState.taskQueue :=
          congrArg (fun v => v.2.1) hv
        rw [hq, hL]
        exact ⟨rfl, fun t' ht' => by cases ht'⟩
      · have hv := (view_again t k s).1
        have hq : (t.again k s).state.queue = [] := (congrArg Prod.fst hv).trans hdrop
        have hL : (t.again k s).state.threadState.taskQueue = s.threadState.taskQueue :=
          congrArg (fun v => v.2.1) hv
        rw [hq, hL]
        refine ⟨rfl, fun t' ht' => ?_⟩
        cases ht'
        exact steady_nil rfl
  | fresh | parked | runPopped | runAwaited | runLast =>
      rw [hpc] at h
      cases h

end Steps

/-! ## What the runner and its callers keep -/

/-- What holds in every state of an executor with one runner. -/
structure Sys.Line (s : Sys R W) : Prop where
  alone : ∀ k k' t t', s.tickers k = some t → s.tickers k' = some t' → k = k'
  ordered : s.scheduledLocal =
    s.ranLocal ++ s.state.queue.held ++ s.state.threadState.taskQueue
  steady : ∀ k t, s.tickers k = some t → Steady s.state.queue s.state.threadState.taskQueue t.pc

section Line

variable {s s' : Sys R W} {k : Ptr} {t : Ticker}

/-- The listener of the runner is the only one. -/
theorem Sys.Line.erase_eq_nil (h : s.Line) (hi : s.Inv) (hk : s.tickers k = some t) :
    s.state.queue.erase k = [] := by
  refine Queue.erase_eq_nil fun k' hk' => ?_
  cases ht' : s.tickers k' with
  | none => exact (hi.absent ht' hk').elim
  | some t' => exact h.alone k' k t' t ht' hk

/-- Without a runner nobody listens. -/
theorem queue_nil_of_none (hi : s.Inv) (h : ∀ k, s.tickers k = none) : s.state.queue = [] := by
  refine List.eq_nil_iff_forall_not_mem.mpr fun x hx => ?_
  exact hi.absent (h x.1) (Queue.mem_ids_of_mem hx)

theorem Sys.Line.length_le (h : s.Line) (hi : s.Inv) : s.state.queue.length ≤ 1 := by
  by_cases hex : ∃ k t, s.tickers k = some t
  · obtain ⟨k, t, hk⟩ := hex
    exact Queue.length_le_one s.state.nodup (h.erase_eq_nil hi hk)
  · rw [queue_nil_of_none hi fun k => Option.eq_none_iff_forall_ne_some.mpr fun t ht =>
      hex ⟨k, t, ht⟩]
    exact Nat.zero_le _

/-- The runner goes on. -/
theorem alone_update (ha : ∀ k k' t t', s.tickers k = some t →
    s.tickers k' = some t' → k = k')
    (hk : s.tickers k = some t) {t' : Option Ticker} :
    ∀ k₁ k₂ t₁ t₂, Function.update s.tickers k t' k₁ = some t₁ →
      Function.update s.tickers k t' k₂ = some t₂ → k₁ = k₂ := by
  have hto : ∀ {k₁ t₁}, Function.update s.tickers k t' k₁ = some t₁ → k₁ = k := by
    intro k₁ t₁ h₁
    by_contra hne
    rw [Function.update_of_ne hne] at h₁
    exact hne (ha k₁ k t₁ t h₁ hk)
  exact fun k₁ k₂ t₁ t₂ h₁ h₂ => (hto h₁).trans (hto h₂).symm

theorem steady_update {q : Queue (Option R) W} {localQueue : List R} {t' : Option Ticker}
    (ha : ∀ k k' t t', s.tickers k = some t → s.tickers k' = some t' → k = k')
    (hk : s.tickers k = some t) (ht' : ∀ t₁ ∈ t', Steady q localQueue t₁.pc) :
    ∀ k₁ t₁, Function.update s.tickers k t' k₁ = some t₁ →
      Steady q localQueue t₁.pc := by
  intro k₁ t₁ h₁
  by_cases he : k₁ = k
  · rw [he, Function.update_self] at h₁
    exact ht' t₁ h₁
  · rw [Function.update_of_ne he] at h₁
    exact (he (ha k₁ k t₁ t h₁ hk)).elim

/-- While the origin thread runs code of its own, the runner is not about
to wait. -/
theorem not_waiting_of_free (hi : s.Inv) (hfree : s.Free) (hk : s.tickers k = some t) :
    t.pc.waiting = false := by
  rcases hi.stacked.running hfree hk with h | h
  · by_contra hw
    have := active_of_waiting (eq_true_of_ne_false hw)
    rw [h] at this
    cases this
  · exact not_waiting_of_running h

/-- A Runnable is handed over only while nothing is queued. -/
theorem line_schedule (h : s.Line) (hi : s.Inv) (hfree : s.Free) (runnable : R) :
    (s.schedule runnable).Line := by
  have hlen := h.length_le hi
  have hadd := s.state.queue.length_eq_add
  rcases schedule_cases s.state.threadState runnable with ⟨h1, hL, hq, h3, h4⟩ |
    ⟨h1, hL, hq⟩
  · have hheld : s.state.queue.held = [] := Queue.held_of_none_notified h1
    have hheld' : (s.schedule runnable).state.queue.held = [runnable] := by
      refine Queue.eq_of_short (h4.trans ?_) (Nat.le_refl 1)
      rw [show s.state.threadState.threadWaker.queue.held = [] from hheld]
      rfl
    have hempty : s.state.threadState.taskQueue = [] := by
      have hlen' := congrArg List.length hq
      rw [Queue.length_notify] at hlen'
      have hpos := (s.state.threadState.schedule runnable).1.threadWaker.queue.length_eq_add
      have hn : s.state.queue.numNotified = 0 := h1
      have hl : (s.state.threadState.schedule runnable).1.threadWaker.queue.length =
        s.state.queue.length := hlen'
      obtain ⟨x, hx⟩ := List.exists_mem_of_length_pos (show 0 < s.state.queue.length by omega)
      cases ht : s.tickers x.1 with
      | none =>
          have hseat := hi.seats x.1
          rw [ht] at hseat
          exact (hseat (Queue.mem_ids_of_mem hx)).elim
      | some t =>
          exact h.steady x.1 t ht (hi.no_finish hfree x.1 t ht) hn (.inr (by omega))
    refine ⟨h.alone, ?_, fun k t ht _ hn _ => ?_⟩
    · show s.scheduledLocal ++ [runnable] = s.ranLocal ++ _ ++
        (s.state.threadState.schedule runnable).1.taskQueue
      rw [hheld', hL, hempty, h.ordered, hheld, hempty]
      simp
    · rw [show (s.schedule runnable).state.queue.numNotified = 1 from h3] at hn
      cases hn
  · have hq' : (s.schedule runnable).state.queue = s.state.queue := hq
    refine ⟨h.alone, ?_, fun k t ht _ hn hor => ?_⟩
    · show s.scheduledLocal ++ [runnable] = s.ranLocal ++ _ ++
        (s.state.threadState.schedule runnable).1.taskQueue
      rw [hq', hL, h.ordered]
      simp
    · rw [hq'] at hn hor
      rcases hor with hw | hpos
      · rw [not_waiting_of_free hi hfree ht] at hw
        cases hw
      · have hzero : s.state.queue.numWaiting = 0 := h1 hn
        omega

/-- What is left of a step of the runner, wherever its poll goes on. -/
theorem line_settle (h : s.Line) (hk : s.tickers k = some t) {stack : List (Frame W)}
    {out : TickOut R W}
    (hord : out.tookLocal ++ out.state.queue.held ++ out.state.threadState.taskQueue =
      s.state.queue.held ++ s.state.threadState.taskQueue)
    (hsteady : ∀ t' ∈ out.ticker,
      Steady out.state.queue out.state.threadState.taskQueue t'.pc) :
    (s.settle k stack out).Line := by
  refine ⟨alone_update h.alone hk, ?_, steady_update h.alone hk hsteady⟩
  show s.scheduledLocal = s.ranLocal ++ out.tookLocal ++ out.state.queue.held ++
    out.state.threadState.taskQueue
  rw [h.ordered, List.append_assoc, ← hord]
  simp

variable [WillWake W]

theorem line_next {l : Label R W} (h : s.Line) (hi : s.Inv) (hc : s.OneRunner l)
    (hs : s.next l = some s') : s'.Line := by
  -- a call of `try_tick` would leave the local queue and the listeners alone
  have htry : TryStep s s' → s'.Line := fun htry => by
    have hq : s'.state.queue = s.state.queue :=
      congrArg (fun ts => ts.threadWaker.queue) htry.threadState
    refine ⟨htry.tickers ▸ h.alone, ?_, ?_⟩
    · rw [htry.onOrigin.1, htry.onOrigin.2, hq, htry.threadState]
      exact h.ordered
    · rw [htry.tickers, hq, htry.threadState]
      exact h.steady
  cases l with
  | schedule id runnable =>
      obtain ⟨-, hfree, rfl⟩ | ⟨-, rfl⟩ := next_schedule hs
      · exact line_schedule h hi hfree runnable
      · exact ⟨h.alone, h.ordered, h.steady⟩
  | wake =>
      obtain ⟨-, rfl⟩ := next_wake hs
      exact ⟨h.alone, h.ordered, h.steady⟩
  | create k oneShot =>
      obtain ⟨-, -, rfl⟩ := next_create hs
      have hto :
        ∀ {k₁ t₁}, Function.update s.tickers k (some ⟨oneShot, false, .fresh⟩) k₁ =
          some t₁ → k₁ = k ∧ t₁.pc = .fresh := by
        intro k₁ t₁ h₁
        by_cases he : k₁ = k
        · rw [he, Function.update_self] at h₁
          cases h₁
          exact ⟨he, rfl⟩
        · rw [Function.update_of_ne he, hc.2 k₁] at h₁
          cases h₁
      refine ⟨fun k₁ k₂ t₁ t₂ h₁ h₂ => (hto h₁).1.trans (hto h₂).1.symm,
        h.ordered, ?_⟩
      intro k₁ t₁ h₁
      show Steady s.state.queue _ _
      rw [(hto h₁).2, queue_nil_of_none hi hc.2]
      exact steady_nil rfl
  | poll k w =>
      obtain ⟨hfree, t, hk, hpoll⟩ := next_poll hs
      have hsteady := h.steady k t hk
      have henter : ∀ pc, Steady s.state.queue s.state.threadState.taskQueue pc →
          (s.enter k w t pc).Line := by
        intro pc hpc
        refine ⟨alone_update h.alone hk, h.ordered, steady_update h.alone hk ?_⟩
        rintro t₁ ⟨⟩
        exact hpc
      rcases hpoll with ⟨hpc, rfl⟩ | ⟨hpc, rfl⟩
      · exact henter _ (hsteady.moves (by rw [hpc]; simp) fun hw => by cases hw)
      · refine henter _ fun _ hn _ => hsteady (by rw [hpc]; simp) hn (.inr ?_)
        have hpos := hi.parked_pos hk hpc
        omega
  | drop k => exact hc.elim
  | tryTick => exact hc.elim
  | step =>
      rcases next_step hs with ⟨k, cx, rest, t, out, -, hk, hout, rfl⟩ | hstep
      · obtain ⟨hord, hsteady⟩ :=
          step_ordered (h.erase_eq_nil hi hk) (hi.seat hk rfl) (h.steady k t hk) hout
        exact line_settle h hk hord hsteady
      · exact htry hstep
  | ret =>
      rcases next_ret hs with ⟨k, cx, rest, t, -, hk, hr, rfl⟩ | hstep
      · refine ⟨alone_update h.alone hk, h.ordered, steady_update h.alone hk ?_⟩
        rintro t₁ ⟨⟩
        refine (h.steady k t hk).moves (fun hf => ?_) fun hw => ?_
        · rw [hf] at hr
          cases hr
        · unfold Ticker.afterRun at hw
          split at hw
          · cases hw
          · cases hw
      · exact htry hstep

end Line

/-! ## Runs -/

/-- The executor is a first-in, first-out queue with one runner. -/
structure Sys.Fifo (s : Sys R W) : Prop where
  /-- What was run, what the listener holds and what is queued. -/
  onOrigin : s.scheduledLocal =
    s.ranLocal ++ s.state.queue.held ++ s.state.threadState.taskQueue
  /-- The listener of the runner holds at most one Runnable. -/
  holds : s.state.queue.held.length ≤ 1
  onMain : s.scheduledMain = s.ranMain ++ s.state.taskQueue
  parked : ∀ k, s.Sleeps k → s.state.threadState.taskQueue = []

theorem runner_fifo [WillWake W] {originId : Nat} {s : Sys R W}
    (h : ((system (some originId)).restrict Sys.OneRunner).Reachable s) : s.Fifo := by
  have hi := inv_reachable h.unrestrict
  have hl : s.Line := by
    refine System.Reachable.of_restrict (P := Sys.Line) ?_ ?_ h
    · rintro s rfl
      have hq : (Sys.init (some originId) : Sys R W).state.queue = [] := Event.queue_new
      refine ⟨?_, ?_, ?_⟩
      · rintro k k' t t' ⟨⟩
      · rw [hq]
        rfl
      · rintro k t ⟨⟩
    · intro s l s' hr hP hstep hc
      exact line_next hP (inv_reachable hr) hc hstep
  have hlen := hl.length_le hi
  refine ⟨hl.ordered, (Queue.held_length_le _).trans hlen, hi.onMain, ?_⟩
  rintro k ⟨⟨t, hk, hpc⟩, st, hst, hnot⟩
  have hpos : 0 < s.state.queue.numWaiting :=
    List.countP_pos_iff.mpr ⟨_, (Queue.stateOf_eq_some s.state.nodup).mp hst, by simp [hnot]⟩
  have hadd := s.state.queue.length_eq_add
  exact hl.steady k t hk (by rw [hpc]; simp) (by omega) (.inr hpos)

/-- Two Runnables while the runner sleeps, one of another thread, and one
more while the first of them runs. -/
def scheduledWhileRunning : List (Label Nat Nat) :=
  [.create 1 false, .poll 1 10, .step, .step, .step, .step, .step,
    .schedule (some 7) 4, .schedule (some 7) 5, .schedule (some 8) 9, .poll 1 10, .step,
    .schedule (some 7) 6, .ret, .step, .step, .step]

theorem exec_scheduledWhileRunning :
    (exec Sys.next (.init (some 7)) scheduledWhileRunning).map
      (fun s => (s.scheduledLocal, s.ranLocal, s.state.threadState.taskQueue)) =
      some ([4, 5, 6], [4, 5], [6]) := by
  decide

theorem fifo_scheduledWhileRunning :
    ∃ s : Sys Nat Nat, s.scheduledLocal = [4, 5, 6] ∧ s.ranLocal = [4, 5] ∧ s.Fifo := by
  obtain ⟨s, hrun, hobs⟩ := run_of_observe _ _ _ exec_scheduledWhileRunning
  simp only [Prod.mk.injEq] at hobs
  have hr : ((system (some 7)).restrict Sys.OneRunner).Reachable s := by
    refine ⟨_, hrun.restrict fun x hx => ?_⟩
    rcases List.mem_cons.mp hx with rfl | hx
    · exact ⟨rfl, fun _ => rfl⟩
    · have hl : x.2 ∈ scheduledWhileRunning.tail := label_mem_of_execTrace hx
      revert hl
      cases x.2 with
      | create k oneShot => simp [scheduledWhileRunning]
      | drop k => simp [scheduledWhileRunning]
      | tryTick => simp [scheduledWhileRunning]
      | _ => exact fun _ => trivial
  exact ⟨s, hobs.1, hobs.2.1, runner_fifo hr⟩

end Executor

end Unsend

import Unsend.SchedulerRole
import Unsend.SchedulerWake
import Unsend.TaskCustody

/-!
# When the executor sleeps

The thread that drives an executor polls its `run()` future and goes to
sleep until the waker of that poll is woken. `asleep_queued`: when all the
`run()` futures of an executor are suspended, no waker of theirs has been
woken since they were polled last, and no other thread is between its push
and its wake, then there is nothing left to run - not in the two queues,
and not in a tag.

Three things come together here. A listener is notified together with its
waker being woken (`Heard`); the waker in the mainstream slot is the one
the future was polled with last (`Renewed`); and nobody sleeps beside a
Runnable in the local queue, or without the mainstream role being taken.
-/

namespace Unsend

namespace Executor

variable {R W : Type}

namespace Sys

/-- The waker that a step begins to poll the future at `k` with, and the
number of wakers that have been woken by then. -/
def polling (k : Ptr) : Sys R W × Label R W → Option (W × Nat)
  | (s, .poll k' w) => if k' = k then some (w, s.woken.length) else none
  | _ => none

/-- The waker that the future at `k` was polled with last. -/
def lastPolled (tr : List (Sys R W × Label R W)) (k : Ptr) : Option (W × Nat) :=
  System.latest (polling k) tr

/-- The listeners, apart from one that is polled next. -/
def resting (s : Sys R W) : Queue (Option R) W :=
  match s.stack with
  | .ticker k _ :: _ =>
      if (s.tickers k).map Ticker.pc = some .listen then s.state.queue.erase k else s.state.queue
  | _ => s.state.queue

/-- A listener waits with the waker of the latest poll of its future, or
that waker has been woken since; this is also the waker that a poll in
progress uses. -/
structure Heard [WillWake W] (tr : List (Sys R W × Label R W)) (s : Sys R W) : Prop where
  tracked : s.resting.Tracked s.woken (lastPolled tr)
  polls : ∀ k cx, Frame.ticker k cx ∈ s.stack →
    ∃ n, n ≤ s.woken.length ∧ lastPolled tr k = some (cx, n)

end Sys

section Tracked

variable [WillWake W] {s : State R W} {k : Ptr} {cx : W} {t : Ticker} {log : List W}
  {latest : Ptr → Option (W × Nat)}

theorem tracked_sub {T : Type} {q q' : Queue T W} (h : q.Tracked log latest)
    (hq : ∀ x ∈ q', x ∈ q) : q'.Tracked log latest := by
  have := h.mono hq []
  rwa [List.append_nil] at this

/-- A future that is polled again. -/
theorem tracked_repoll {T : Type} {q q' : Queue T W} {n : Nat}
    (h : (q.erase k).Tracked log latest) (hk : latest k = some (cx, n)) (hn : n ≤ log.length)
    (hq : q.Polled k cx q') : q'.Tracked log latest := by
  intro p st hm
  rcases hq _ hm with ⟨hm, hne⟩ | ⟨w, hw, he⟩
  · exact h p st (Queue.mem_erase.mpr ⟨hm, hne⟩)
  · cases he
    exact ⟨cx, n, hk, hn, hw⟩

theorem tracked_wakeRunner {t : ThreadState R W}
    (h : t.threadWaker.queue.Tracked log latest) :
    t.wakeRunner.1.threadWaker.queue.Tracked (log ++ t.wakeRunner.2) latest := by
  rw [queue_wakeRunner]
  show Queue.Tracked _ (log ++ (t.threadWaker.notify wakeOne ()).woken) _
  rw [Event.notify_woken]
  exact h.notify wakeOne ()

theorem tracked_schedule {ts : ThreadState R W}
    (h : ts.threadWaker.queue.Tracked log latest) (runnable : R) :
    (ts.schedule runnable).1.threadWaker.queue.Tracked (log ++ (ts.schedule runnable).2)
      latest := by
  have hout : (ts.schedule runnable).1.threadWaker =
        (ts.threadWaker.notify handOver (some runnable)).event ∧
      (ts.schedule runnable).2 = (ts.threadWaker.notify handOver (some runnable)).woken := by
    unfold ThreadState.schedule
    dsimp only
    split
    · exact ⟨rfl, rfl⟩
    · exact ⟨rfl, rfl⟩
  rw [hout.1, hout.2, Event.queue_notify, Event.notify_woken]
  exact h.notify handOver (some runnable)

theorem tracked_drop (h : s.queue.Tracked log latest) (k : Ptr) :
    (s.threadState.threadWaker.drop k).event.queue.Tracked
      (log ++ (s.threadState.threadWaker.drop k).woken) latest := by
  rw [Event.queue_drop, Event.drop_woken]
  exact h.drop k

theorem tracked_dropFuture (h : s.queue.Tracked log latest) (t : Ticker) (k : Ptr) :
    (t.dropFuture k s).state.queue.Tracked (log ++ (t.dropFuture k s).woken) latest := by
  have hdrop := tracked_drop h k
  unfold Ticker.dropFuture
  dsimp only
  unfold Ticker.drop
  split
  · rw [← List.append_assoc]
    exact tracked_wakeRunner hdrop
  · rw [List.append_nil]
    exact hdrop

/-- What a poll of the listener leaves, whoever had been woken before. -/
theorem tracked_pollListener {n : Nat} (h : (s.queue.erase k).Tracked log latest)
    (hk : latest k = some (cx, n)) (hn : n ≤ log.length) (run other wait : Pc) :
    (t.pollListener k cx s run other wait).state.queue.Tracked log latest := by
  have hq : (t.pollListener k cx s run other wait).state.queue = (s.queue.poll k cx).1 := by
    refine Eq.trans ?_ (Event.queue_poll ..)
    unfold Ticker.pollListener
    dsimp only
    split
    · rfl
    · rfl
    · rfl
  rw [hq]
  exact tracked_repoll h hk hn (s.queue.polled_poll k cx)

/-- A step of a ticker tells the others, and itself, of what happens to
their listeners. -/
theorem tracked_step {out : TickOut R W} (hout : t.step k cx s = some out) {n : Nat}
    (h : (if t.pc = .listen then s.queue.erase k else s.queue).Tracked log latest)
    (hk : latest k = some (cx, n)) (hn : n ≤ log.length) :
    out.state.queue.Tracked (log ++ out.woken) latest := by
  have hpoll : ∀ run other wait, t.pollListener k cx s run other wait = out →
      (s.queue.erase k).Tracked log latest →
        out.state.queue.Tracked (log ++ out.woken) latest := by
    rintro run other wait rfl h
    rw [(frame_pollListener ..).2.2.2.1, List.append_nil]
    exact tracked_pollListener h hk hn run other wait
  have hstill : ∀ {out' : TickOut R W}, out'.state.queue = s.queue → out'.woken = [] →
      s.queue.Tracked log latest → out'.state.queue.Tracked (log ++ out'.woken) latest := by
    intro out' hq hw h
    rw [hq, hw, List.append_nil]
    exact h
  unfold Ticker.step at hout
  cases hpc : t.pc with
  | loopHead =>
      rw [hpc] at h hout
      obtain rfl := Option.some.inj hout
      unfold Ticker.loopHead
      split
      · exact tracked_wakeRunner h
      · split
        · exact hstill rfl rfl h
        · exact hstill rfl rfl h
  | listen =>
      rw [hpc] at h hout
      exact hpoll _ _ _ (Option.some.inj hout) h
  | pollOnce =>
      rw [hpc] at h hout
      exact hpoll _ _ _ (Option.some.inj hout) (tracked_sub h fun _ hx => (Queue.mem_erase.mp hx).1)
  | mainPop | mainPopAgain =>
      rw [hpc] at h hout
      obtain rfl := Option.some.inj hout
      unfold Ticker.popMain
      split
      · exact hstill rfl rfl h
      · exact hstill rfl rfl h
  | mainRegister | mainTake =>
      rw [hpc] at h hout
      obtain rfl := Option.some.inj hout
      exact hstill rfl rfl h
  | finish =>
      rw [hpc] at h hout
      obtain rfl := Option.some.inj hout
      split
      · exact tracked_dropFuture h t k
      · exact tracked_drop h k
  | fresh | parked | runPopped | runAwaited | runLast =>
      rw [hpc] at hout
      cases hout

end Tracked

/-! ## Who is told -/

section Heard

variable {s s' : Sys R W} {k : Ptr} {t : Ticker} {cx w : W} {tr : List (Sys R W × Label R W)}

theorem mem_resting {x : Ptr × Unsend.State (Option R) W} (h : x ∈ s.resting) :
    x ∈ s.state.queue := by
  unfold Sys.resting at h
  split at h
  · split at h
    · exact (Queue.mem_erase.mp h).1
    · exact h
  · exact h

/-- A listener is about to be polled only at the start of a poll. -/
theorem resting_eq (h : ∀ k cx rest t, s.stack = .ticker k cx :: rest → s.tickers k = some t →
    t.pc ≠ .listen) : s.resting = s.state.queue := by
  unfold Sys.resting
  split
  · rename_i k cx rest hst
    refine if_neg fun hpc => ?_
    obtain ⟨t, hk, hpc⟩ := Option.map_eq_some_iff.mp hpc
    exact h k cx rest t hst hk hpc
  · rfl

theorem resting_of_runs (h : ∀ f ∈ s.stack.head?, f.Runs s.tickers) :
    s.resting = s.state.queue := by
  refine resting_eq fun k cx rest t hst hk hpc => ?_
  have hrun := h (.ticker k cx) (by rw [hst]; rfl)
  change (s.tickers k).any _ = true at hrun
  rw [hk] at hrun
  change t.pc.running = true at hrun
  rw [hpc] at hrun
  cases hrun

theorem lastPolled_other {l : Label R W} (hl : ∀ k w, l ≠ .poll k w) :
    Sys.lastPolled (tr ++ [(s, l)]) = Sys.lastPolled tr := by
  funext k
  refine System.latest_of_none ?_ tr
  cases l with
  | poll k' w => exact (hl k' w rfl).elim
  | _ => rfl

theorem lastPolled_poll (k : Ptr) (w : W) : Sys.lastPolled (tr ++ [(s, .poll k w)]) =
    Function.update (Sys.lastPolled tr) k (some (w, s.woken.length)) := by
  funext k'
  rw [Sys.lastPolled, System.latest_append]
  by_cases hk : k' = k
  · subst hk
    simp [Sys.polling]
  · rw [Function.update_of_ne hk]
    simp [Sys.polling, Ne.symm hk]
    rfl

variable [WillWake W]

/-- The calls in progress go on or return, and wakers are woken. -/
theorem Sys.Heard.next {l : Label R W} (h : Sys.Heard tr s) (hl : ∀ k w, l ≠ .poll k w)
    (htracked : s'.resting.Tracked s'.woken (Sys.lastPolled tr))
    (hwoken : s.woken <+: s'.woken)
    (hstack : ∀ k cx, Frame.ticker k cx ∈ s'.stack → Frame.ticker k cx ∈ s.stack) :
    Sys.Heard (tr ++ [(s, l)]) s' := by
  refine ⟨by rw [lastPolled_other hl]; exact htracked, fun k cx hf => ?_⟩
  obtain ⟨n, hn, hlast⟩ := h.polls k cx (hstack k cx hf)
  rw [lastPolled_other hl]
  exact ⟨n, hn.trans hwoken.length_le, hlast⟩

/-- The same of a step after which every listener is told. -/
theorem Sys.Heard.moved {l : Label R W} (h : Sys.Heard tr s) (hl : ∀ k w, l ≠ .poll k w)
    (htracked : s'.state.queue.Tracked s'.woken (Sys.lastPolled tr))
    (hwoken : s.woken <+: s'.woken)
    (hstack : ∀ k cx, Frame.ticker k cx ∈ s'.stack → Frame.ticker k cx ∈ s.stack) :
    Sys.Heard (tr ++ [(s, l)]) s' :=
  h.next hl (tracked_sub htracked fun _ hx => mem_resting hx) hwoken hstack

/-- The poll of a future begins. -/
theorem Sys.Heard.enter (h : Sys.Heard tr s) (hfree : s.Free) (hnot : k ∉ keys s.stack) {pc : Pc}
    (hk : pc = .listen ∨ k ∉ s.state.queue.ids) :
    Sys.Heard (tr ++ [(s, .poll k w)]) (s.enter k w t pc) := by
  have hq : s.state.queue.Tracked s.woken (Sys.lastPolled tr) := by
    have := h.tracked
    rwa [resting_of_runs hfree] at this
  constructor
  · rw [lastPolled_poll]
    show ((if (Function.update s.tickers k (some { t with pc }) k).map Ticker.pc = some .listen then
      s.state.queue.erase k else s.state.queue)).Tracked s.woken _
    rw [Function.update_self]
    have herase : k ∉ (s.state.queue.erase k).ids := fun hm => (Queue.mem_ids_erase.mp hm).2 rfl
    split
    · exact (tracked_sub hq fun _ hx => (Queue.mem_erase.mp hx).1).elsewhere herase _
    · rename_i hpc
      rcases hk with rfl | hk
      · exact (hpc rfl).elim
      · exact hq.elsewhere hk _
  · intro k' cx hf
    rw [lastPolled_poll]
    rcases List.mem_cons.mp hf with he | hf
    · cases he
      exact ⟨_, Nat.le_refl _, Function.update_self ..⟩
    · obtain ⟨n, hn, hlast⟩ := h.polls k' cx hf
      have hne : k' ≠ k := fun he => hnot (he ▸ mem_keys.mpr ⟨cx, hf⟩)
      exact ⟨n, hn, by rw [Function.update_of_ne hne]; exact hlast⟩

omit [WillWake W] in
/-- A Runnable returns to the innermost call. -/
theorem free_of_ret (h : s.ret = some s') : s.Free := by
  rcases ret_cases h with ⟨k, cx, rest, t, hst, hk, hr, -⟩ | ⟨rest, hst, -⟩
  · intro f hf
    rw [hst] at hf
    cases hf
    show (s.tickers k).any _ = true
    rw [hk]
    exact hr
  · intro f hf
    rw [hst] at hf
    cases hf
    rfl

omit [WillWake W] in
theorem unwind_sub {k' : Ptr} {cx' : W} {rest : List (Frame W)} (t : Option Ticker)
    (h : Frame.ticker k' cx' ∈ Sys.unwind k cx rest t) :
    Frame.ticker k' cx' ∈ Frame.ticker k cx :: rest := by
  unfold Sys.unwind at h
  split at h
  · split at h
    · exact List.mem_cons_of_mem _ h
    · exact h
  · exact List.mem_cons_of_mem _ h

theorem heard_step (hh : Sys.Heard tr s) (h : s.step = some s') :
    Sys.Heard (tr ++ [(s, .step)]) s' := by
  have hresting : ∀ pc rest, s.stack = .tryTick pc :: rest → s.resting = s.state.queue := by
    intro pc rest hst
    refine resting_eq fun k cx rest' t hst' => ?_
    cases hst.symm.trans hst'
  rcases innermost_cases h with ⟨k, cx, rest, t, out, hst, hk, hout, rfl⟩ |
    ⟨rest, runnable, queue, hst, -, rfl⟩ | ⟨rest, hst, -, rfl⟩ | ⟨rest, hst, rfl⟩
  · obtain ⟨n, hn, hlast⟩ := hh.polls k cx (by rw [hst]; exact List.mem_cons_self ..)
    have hq : (if t.pc = .listen then s.state.queue.erase k else s.state.queue).Tracked s.woken
        (Sys.lastPolled tr) := by
      have := hh.tracked
      rw [Sys.resting, hst] at this
      simpa [hk] using this
    refine hh.moved (by simp) (tracked_step hout hq hlast hn) (List.prefix_append ..) ?_
    intro k' cx' hf
    rw [hst]
    exact unwind_sub out.ticker hf
  · have hq := hh.tracked
    rw [hresting _ _ hst] at hq
    refine hh.moved (by simp) hq List.prefix_rfl ?_
    intro k cx hf
    rw [hst]
    exact List.mem_cons_of_mem _ ((List.mem_cons.mp hf).resolve_left nofun)
  · have hq := hh.tracked
    rw [hresting _ _ hst] at hq
    refine hh.moved (by simp) hq List.prefix_rfl ?_
    intro k cx hf
    rw [hst]
    exact List.mem_cons_of_mem _ hf
  · have hq := hh.tracked
    rw [hresting _ _ hst] at hq
    refine hh.moved (by simp) (hq.mono (fun _ hx => hx) _) (List.prefix_append ..) ?_
    intro k cx hf
    rw [hst]
    exact List.mem_cons_of_mem _ ((List.mem_cons.mp hf).resolve_left nofun)

theorem heard_next {l : Label R W} (hi : s.Inv) (hh : Sys.Heard tr s) (h : s.next l = some s') :
    Sys.Heard (tr ++ [(s, l)]) s' := by
  have hfreeq : s.Free → s.state.queue.Tracked s.woken (Sys.lastPolled tr) := fun hfree => by
    have := hh.tracked
    rwa [resting_of_runs hfree] at this
  cases l with
  | schedule id runnable =>
      obtain ⟨-, hfree, rfl⟩ | ⟨-, rfl⟩ := next_schedule h
      · exact hh.moved (by simp) (tracked_schedule (hfreeq hfree) runnable)
          (List.prefix_append ..) fun _ _ hf => hf
      · exact hh.next (by simp) hh.tracked List.prefix_rfl fun _ _ hf => hf
  | wake =>
      obtain ⟨-, rfl⟩ := next_wake h
      refine hh.next (by simp) ?_ (List.prefix_append ..) fun _ _ hf => hf
      exact hh.tracked.mono (fun _ hx => hx) _
  | create k oneShot =>
      obtain ⟨-, hfree, rfl⟩ := next_create h
      exact hh.moved (by simp) (hfreeq hfree) List.prefix_rfl fun _ _ hf => hf
  | poll k w =>
      obtain ⟨hfree, t, hk, hcases⟩ := next_poll h
      have hoff : t.pc.active = false := by
        rcases hcases with ⟨hpc, -⟩ | ⟨hpc, -⟩
        · rw [hpc]; rfl
        · rw [hpc]; rfl
      have hnot : k ∉ keys s.stack := hi.stacked.notMem hfree fun t' ht' => by
        cases hk.symm.trans ht'
        exact hoff
      rcases hcases with ⟨hpc, rfl⟩ | ⟨-, rfl⟩
      · exact hh.enter hfree hnot (.inr (hi.seat hk hpc))
      · exact hh.enter hfree hnot (.inl rfl)
  | drop k =>
      obtain ⟨hfree, t, -, -, rfl⟩ := next_drop h
      exact hh.moved (by simp) (tracked_dropFuture (hfreeq hfree) t k) (List.prefix_append ..)
        fun _ _ hf => hf
  | tryTick =>
      obtain ⟨hfree, rfl⟩ := next_tryTick h
      have hq := hfreeq hfree
      unfold Sys.tryTick
      split
      · rename_i runnable rest _
        have hwoken := tracked_wakeRunner (t := { s.state.threadState with taskQueue := rest }) hq
        refine hh.moved (by simp) hwoken (List.prefix_append ..) fun _ _ hf => ?_
        exact (List.mem_cons.mp hf).resolve_left nofun
      · refine hh.moved (by simp) hq List.prefix_rfl fun _ _ hf => ?_
        exact (List.mem_cons.mp hf).resolve_left nofun
  | step => exact heard_step hh h
  | ret =>
      have hq := hfreeq (free_of_ret h)
      rcases ret_cases h with ⟨k, cx, rest, t, -, -, -, rfl⟩ | ⟨rest, hst, rfl⟩
      · exact hh.moved (by simp) hq List.prefix_rfl fun _ _ hf => hf
      · refine hh.moved (by simp) hq List.prefix_rfl ?_
        intro k cx hf
        rw [hst]
        exact List.mem_cons_of_mem _ hf

theorem heard_run {id : Option Nat} (h : (system id).Run tr s) : Sys.Heard tr s := by
  refine h.history (I := Sys.Heard) ?_ fun tr s l s' hr hh hs => ?_
  · rintro s rfl
    have hq : (Sys.init id : Sys R W).state.queue = [] := Event.queue_new
    refine ⟨?_, fun k cx hf => by cases hf⟩
    show (Sys.init id : Sys R W).state.queue.Tracked _ _
    rw [hq]
    exact Queue.tracked_nil
  · exact heard_next (inv_reachable ⟨tr, hr⟩) hh hs

end Heard

/-! ## The waker in the mainstream slot -/

namespace Sys

/-- The mainstream runner registers the waker it is polled with. -/
def Renewed (tr : List (Sys R W × Label R W)) (s : Sys R W) : Prop :=
  ∀ k t, s.tickers k = some t → t.isMainstream = true →
    t.pc = .mainPopAgain ∨ t.pc = .parked →
    ∃ w n n', lastPolled tr k = some (w, n) ∧ lastRegistered k tr = some (w, n') ∧ n ≤ n'

/-- A future that has not been polled does not have the role. -/
def Unborn (s : Sys R W) : Prop :=
  ∀ k t, s.tickers k = some t → t.pc = .fresh → t.isMainstream = false

end Sys

section Renewed

variable {s s' : Sys R W} {k : Ptr} {t : Ticker} {cx w : W} {tr : List (Sys R W × Label R W)}

theorem Sys.Renewed.keep {l : Label R W} (hr : Sys.Renewed tr s) (hk : s.tickers k = some t)
    (hmain : t.isMainstream = true) (hpc : t.pc = .mainPopAgain ∨ t.pc = .parked)
    (hreg : Sys.registration k (s, l) = none) (hpoll : Sys.polling k (s, l) = none) :
    ∃ w n n', Sys.lastPolled (tr ++ [(s, l)]) k = some (w, n) ∧
      Sys.lastRegistered k (tr ++ [(s, l)]) = some (w, n') ∧ n ≤ n' := by
  obtain ⟨w, n, n', h1, h2, h3⟩ := hr k t hk hmain hpc
  exact ⟨w, n, n', (System.latest_of_none hpoll tr).trans h1,
    (System.latest_of_none hreg tr).trans h2, h3⟩

variable [WillWake W]

/-- The step of the mainstream runner itself. -/
theorem renewed_self {rest : List (Frame W)} {out : TickOut R W} (hh : Sys.Heard tr s)
    (hr : Sys.Renewed tr s) (hst : s.stack = .ticker k cx :: rest) (hk : s.tickers k = some t)
    (hout : t.step k cx s.state = some out) {t' : Ticker} (ht' : out.ticker = some t')
    (hmain : t'.isMainstream = true) (hpc : t'.pc = .mainPopAgain ∨ t'.pc = .parked) :
    ∃ w n n', Sys.lastPolled (tr ++ [(s, .step)]) k = some (w, n) ∧
      Sys.lastRegistered k (tr ++ [(s, .step)]) = some (w, n') ∧ n ≤ n' := by
  rcases main_cases hout with ⟨-, rfl⟩ | ⟨hp, rfl⟩ | ⟨hp, rfl⟩ |
    ⟨-, rfl⟩ | ⟨-, rfl⟩ | ⟨-, -, t1, ht1, hne, -, hoff⟩
  · rcases (popMain_cases t s.state .runAwaited .mainRegister).2.2.2 with ht | ⟨-, ht, -⟩
    · cases ht.symm.trans ht'
      rcases hpc with hpc | hpc <;> cases hpc
    · cases ht.symm.trans ht'
      rcases hpc with hpc | hpc <;> cases hpc
  · -- It registers the waker of this poll.
    have hreg : Sys.registration k (s, .step) = some (cx, s.woken.length) := by
      simp only [Sys.registration, hst, hk, Option.map_some, hp, and_self, ↓reduceIte]
    obtain ⟨n, hn, hlast⟩ := hh.polls k cx (by rw [hst]; exact List.mem_cons_self ..)
    have hpoll : Sys.polling k (s, .step) = none := rfl
    exact ⟨cx, n, _, (System.latest_of_none hpoll tr).trans hlast,
      System.latest_of_some hreg tr, hn⟩
  · rcases (popMain_cases t s.state .mainTake .parked).2.2.2 with ht | ⟨-, ht, -⟩
    · cases ht.symm.trans ht'
      rcases hpc with hpc | hpc <;> cases hpc
    · cases ht.symm.trans ht'
      have hreg : Sys.registration k (s, .step) = none :=
          registration_none fun _ _ _ _ t1 hk1 hp1 => by
        cases hk.symm.trans hk1
        rw [hp] at hp1
        cases hp1
      exact hr.keep hk hmain (.inl hp) hreg rfl
  · cases ht'
    rcases hpc with hpc | hpc <;> cases hpc
  · cases ht'
  · cases ht1.symm.trans ht'
    rcases hpc with hpc | hpc
    · exact (hne hpc).elim
    · rw [hoff hpc] at hmain
      cases hmain

theorem renewed_next {l : Label R W} (hh : Sys.Heard tr s) (hr : Sys.Renewed tr s)
    (h : s.next l = some s') : Sys.Renewed (tr ++ [(s, l)]) s' := by
  intro k t hk hmain hpc
  cases l with
  | schedule id runnable =>
      obtain ⟨-, -, rfl⟩ | ⟨-, rfl⟩ := next_schedule h
      · exact hr.keep hk hmain hpc rfl rfl
      · exact hr.keep hk hmain hpc rfl rfl
  | wake =>
      obtain ⟨-, rfl⟩ := next_wake h
      exact hr.keep hk hmain hpc rfl rfl
  | create k' oneShot =>
      obtain ⟨-, -, rfl⟩ := next_create h
      exact hr.keep (tickers_of_update hk hpc ⟨nofun, nofun⟩) hmain hpc rfl rfl
  | poll k' w =>
      obtain ⟨-, t', -, hcases⟩ := next_poll h
      have hold : ∀ pc, s' = s.enter k' w t' pc → pc ≠ .mainPopAgain ∧ pc ≠ .parked →
          s.tickers k = some t ∧ k' ≠ k := by
        rintro pc rfl hoff
        refine ⟨tickers_of_update hk hpc hoff, ?_⟩
        rintro rfl
        cases (Function.update_self (f := s.tickers) ..).symm.trans hk
        exact hpc.elim hoff.1 hoff.2
      obtain ⟨hk', hne⟩ : s.tickers k = some t ∧ k' ≠ k := by
        rcases hcases with ⟨-, hs⟩ | ⟨-, hs⟩
        · exact hold _ hs ⟨nofun, nofun⟩
        · exact hold _ hs ⟨nofun, nofun⟩
      exact hr.keep hk' hmain hpc rfl (if_neg hne)
  | drop k' =>
      obtain ⟨-, t', -, -, rfl⟩ := next_drop h
      have hne : k ≠ k' := by
        rintro rfl
        cases (Function.update_self (f := s.tickers) ..).symm.trans hk
      exact hr.keep ((Function.update_of_ne hne ..).symm.trans hk) hmain hpc rfl rfl
  | tryTick =>
      obtain ⟨-, rfl⟩ := next_tryTick h
      unfold Sys.tryTick at hk
      split at hk
      · exact hr.keep hk hmain hpc rfl rfl
      · exact hr.keep hk hmain hpc rfl rfl
  | step =>
      rcases next_step h with ⟨k', cx, rest, t', out, hst, ht', hout, rfl⟩ | htry
      · by_cases hne : k = k'
        · subst hne
          have hself : out.ticker = some t :=
            (Function.update_self (f := s.tickers) ..).symm.trans hk
          exact renewed_self hh hr hst ht' hout hself hmain hpc
        · have hreg : Sys.registration k (s, .step) = none := by
            refine registration_none fun _ cx' rest' hst' => ?_
            cases hst.symm.trans hst'
            exact (hne rfl).elim
          exact hr.keep ((Function.update_of_ne hne ..).symm.trans hk) hmain hpc hreg rfl
      · obtain ⟨pc, rest, hst, -⟩ := htry.stack
        have hreg : Sys.registration k (s, .step) = none := by
          refine registration_none fun _ cx' rest' hst' => ?_
          cases hst.symm.trans hst'
        rw [htry.tickers] at hk
        exact hr.keep hk hmain hpc hreg rfl
  | ret =>
      obtain ⟨-, -, -, hold⟩ := ret_keeps h
      exact hr.keep (hold k t hk hpc) hmain hpc rfl rfl

theorem renewed_run {id : Option Nat} (h : (system id).Run tr s) : Sys.Renewed tr s := by
  refine h.history (I := Sys.Renewed) ?_ fun tr s l s' hr hn hs => renewed_next (heard_run hr) hn hs
  rintro s rfl k t hk
  cases hk

/-- What every ticker keeps, from its creation through its polls. -/
theorem tickers_next {P : Ptr → Ticker → Prop} {l : Label R W}
    (hs : ∀ k t, s.tickers k = some t → P k t)
    (hcreate : ∀ k oneShot, l = .create k oneShot → P k ⟨oneShot, false, .fresh⟩)
    (henter : ∀ k t pc, P k t → pc.active = true → P k { t with pc })
    (hstep : ∀ (t t' : Ticker) k cx (st : State R W) out, P k t → t.step k cx st = some out →
      out.ticker = some t' → P k t')
    (h : s.next l = some s') : ∀ k t, s'.tickers k = some t → P k t := by
  have hupdate : ∀ {k} {x : Option Ticker}, (∀ t, x = some t → P k t) →
      ∀ k' t, Function.update s.tickers k x k' = some t → P k' t := by
    intro k x hx k' t hk'
    by_cases he : k' = k
    · subst he
      rw [Function.update_self] at hk'
      exact hx t hk'
    · rw [Function.update_of_ne he] at hk'
      exact hs k' t hk'
  cases l with
  | schedule id runnable =>
      obtain ⟨-, -, rfl⟩ | ⟨-, rfl⟩ := next_schedule h
      · exact hs
      · exact hs
  | wake =>
      obtain ⟨-, rfl⟩ := next_wake h
      exact hs
  | create k oneShot =>
      obtain ⟨-, -, rfl⟩ := next_create h
      exact hupdate fun t ht => Option.some.inj ht ▸ hcreate k oneShot rfl
  | poll k w =>
      obtain ⟨-, t, hk, ⟨-, rfl⟩ | ⟨-, rfl⟩⟩ := next_poll h
      · exact hupdate fun t' ht => Option.some.inj ht ▸ henter k t _ (hs k t hk) rfl
      · exact hupdate fun t' ht => Option.some.inj ht ▸ henter k t _ (hs k t hk) rfl
  | drop k =>
      obtain ⟨-, t, -, -, rfl⟩ := next_drop h
      exact hupdate fun t ht => by cases ht
  | tryTick =>
      obtain ⟨-, rfl⟩ := next_tryTick h
      unfold Sys.tryTick
      split
      · exact hs
      · exact hs
  | step =>
      rcases next_step h with ⟨k, cx, rest, t, out, -, hk, hout, rfl⟩ | htry
      · exact hupdate fun t' ht' => hstep t t' k cx _ out (hs k t hk) hout ht'
      · intro k t hk
        rw [htry.tickers] at hk
        exact hs k t hk
  | ret =>
      rcases next_ret h with ⟨k, cx, rest, t, -, hk, -, rfl⟩ | htry
      · refine hupdate fun t' ht' => ?_
        have hactive : t.afterRun.pc.active = true := by
          rcases afterRun_pc t with hp | hp
          · rw [hp]; rfl
          · rw [hp]; rfl
        exact Option.some.inj ht' ▸ henter k t _ (hs k t hk) hactive
      · intro k t hk
        rw [htry.tickers] at hk
        exact hs k t hk

theorem unborn_reachable {id : Option Nat} (h : (system id).Reachable s) : s.Unborn := by
  refine h.invariant (I := Sys.Unborn) ?_ fun s l s' hu hs => ?_
  · rintro s rfl k t hk
    cases hk
  · refine tickers_next hu (fun _ _ _ _ => rfl) ?_ ?_ hs
    · intro _ t pc _ hactive hpc
      rw [show pc = .fresh from hpc] at hactive
      cases hactive
    · intro t t' k cx st out _ hout ht' hpc
      have hoff : t'.pc.active = true ∨ t'.pc = .parked := by
        rcases step_cases hout with ⟨-, -, rfl⟩ | ⟨t1, ht1, ⟨hp, -⟩ | ⟨hp | hp, -⟩⟩
        · cases ht'
        · exact .inl (Option.some.inj (ht1.symm.trans ht') ▸ hp)
        · exact .inr (Option.some.inj (ht1.symm.trans ht') ▸ hp)
        · exact .inl (Option.some.inj (ht1.symm.trans ht') ▸ active_of_waiting hp)
      rw [hpc] at hoff
      rcases hoff with hoff | hoff <;> cases hoff

theorem oneShot_step {st : State R W} {out : TickOut R W} {t' : Ticker}
    (h : t.step k cx st = some out) (ht' : out.ticker = some t') : t'.oneShot = t.oneShot := by
  unfold Ticker.step at h
  cases hpc : t.pc with
  | loopHead =>
      rw [hpc] at h
      obtain rfl := Option.some.inj h
      unfold Ticker.loopHead at ht'
      split at ht'
      · exact Option.some.inj ht' ▸ rfl
      · split at ht'
        · exact Option.some.inj ht' ▸ rfl
        · exact Option.some.inj ht' ▸ rfl
  | listen | pollOnce =>
      rw [hpc] at h
      obtain rfl := Option.some.inj h
      obtain ⟨-, -, -, -, pc, ht, -⟩ := frame_pollListener t k cx st _ _ _
      rw [ht] at ht'
      exact Option.some.inj ht' ▸ rfl
  | mainPop | mainPopAgain =>
      rw [hpc] at h
      obtain rfl := Option.some.inj h
      unfold Ticker.popMain at ht'
      split at ht'
      · exact Option.some.inj ht' ▸ rfl
      · exact Option.some.inj ht' ▸ rfl
  | mainRegister | mainTake =>
      rw [hpc] at h
      obtain rfl := Option.some.inj h
      exact Option.some.inj ht' ▸ rfl
  | finish =>
      rw [hpc] at h
      obtain rfl := Option.some.inj h
      split at ht'
      · cases ht'
      · exact Option.some.inj ht' ▸ rfl
  | fresh | parked | runPopped | runAwaited | runLast =>
      rw [hpc] at h
      cases h

end Renewed

/-! ## Asleep -/

namespace Sys

/-- The origin thread does nothing, and nothing has told it to: some future
is suspended, and the waker that such a future was polled with last has
not been woken since. -/
structure Asleep [WillWake W] (tr : List (Sys R W × Label R W)) (s : Sys R W) : Prop where
  idle : s.stack = []
  suspended : ∃ k, s.Suspended k
  unwoken :
    ∀ k w n, s.Suspended k → lastPolled tr k = some (w, n) → ¬ Queue.WokenSince s.woken n w

/-- The executor is driven by `run()` futures and `try_tick`. -/
def RunsOnly (_ : Sys R W) : Label R W → Prop
  | .create _ oneShot => oneShot = false
  | _ => True

/-- The local queue is empty and the mainstream role taken. -/
def Still (outlook : List R × Bool) : Prop := outlook = ([], true)

end Sys

section Asleep

variable [WillWake W] {s s' : Sys R W} {k : Ptr} {t : Ticker} {tr : List (Sys R W × Label R W)}
  {id : Option Nat}

/-- The futures of an executor without `tick()` do not return. -/
theorem endless (h : ((system id).restrict Sys.RunsOnly).Reachable s) :
    ∀ k t, s.tickers k = some t → t.oneShot = false := by
  refine System.Reachable.of_restrict (P := fun s => ∀ k t, s.tickers k = some t →
    t.oneShot = false)
    ?_ (fun s l s' _ hP hs hc => ?_) h
  · rintro s rfl k t hk
    cases hk
  · refine tickers_next hP ?_ (fun _ _ _ ht _ => ht) ?_ hs
    · rintro k oneShot rfl
      exact hc
    · intro t t' k cx st out ht hout ht'
      exact (oneShot_step hout ht').trans ht

/-- A future asleep has not been notified. -/
theorem Sys.Asleep.none_notified (ha : Sys.Asleep tr s) (h : (system id).Run tr s) :
    s.state.queue.numNotified = 0 := by
  have hi := inv_reachable ⟨tr, h⟩
  have hh := (heard_run h).tracked
  rw [resting_eq fun k cx rest t hst => by rw [ha.idle] at hst; cases hst] at hh
  by_contra hne
  obtain ⟨k, tag, b, w, n, hm, hlast, hwoken⟩ := hh.woken (Nat.pos_of_ne_zero hne)
  refine ha.unwoken k w n ?_ hlast hwoken
  -- the listener is that of a future which is not being polled
  have hk : k ∈ s.state.queue.ids := Queue.mem_ids_of_mem hm
  cases ht : s.tickers k with
  | none => exact (hi.absent ht hk).elim
  | some t =>
      refine ⟨t, ht, ?_⟩
      have hoff : t.pc.active = false := by
        by_contra hon
        have := hi.stacked.onStack k t ht (eq_true_of_ne_false hon)
        rw [ha.idle] at this
        cases this
      cases hpc : t.pc with
      | parked => rfl
      | fresh => exact (hi.seat ht hpc hk).elim
      | _ => rw [hpc] at hoff; cases hoff

/-- While nobody has the mainstream role, or the local queue is not empty,
no `run()` future sleeps un-notified. -/
theorem served_still (h : (system id).Run tr s) (hruns : ∀ x ∈ tr, x.1.RunsOnly x.2) :
    s.Served Sys.Still := by
  have hend := (h.restrict hruns).reachable.1
  have hstill : Sys.Still (([] : List R), true) := rfl
  refine ((served_run_iff hstill id h).mpr fun x hx => ?_).2
  obtain ⟨s0, l⟩ := x
  cases l with
  | step =>
      rintro k t ⟨cx, rest, -, -, hk, -, hone⟩
      cases (endless (hend _ hx) k t hk).symm.trans hone
  | _ => trivial

theorem Sys.Asleep.still (ha : Sys.Asleep tr s) (h : (system id).Run tr s)
    (hruns : ∀ x ∈ tr, x.1.RunsOnly x.2) : Sys.Still s.state.threadState.outlook := by
  obtain ⟨k, t, hk, hpc⟩ := ha.suspended
  by_contra hno
  have hnn := ha.none_notified h
  have hnw := served_still h hruns (by rw [ha.idle]; rfl) hno hnn
  have := (inv_reachable ⟨tr, h⟩).parked_pos hk hpc
  omega

/-- Whoever has the mainstream role would have been woken. -/
theorem Sys.Asleep.taskQueue_nil (ha : Sys.Asleep tr s) (h : (system id).Run tr s)
    (hruns : ∀ x ∈ tr, x.1.RunsOnly x.2) (hp : s.pendingWakes = 0) :
    s.state.taskQueue = [] := by
  by_contra hne
  have htaken : Sys.RoleTaken s.state.threadState.outlook := congrArg Prod.snd (ha.still h hruns)
  obtain ⟨k, t, hk, hmain⟩ := ((role_reachable ⟨tr, h⟩).taken_iff).mp htaken
  have hpc : t.pc = .parked := by
    cases hpc : t.pc with
    | parked => rfl
    | fresh => cases (unborn_reachable ⟨tr, h⟩ k t hk hpc).symm.trans hmain
    | _ =>
        have := (inv_reachable ⟨tr, h⟩).stacked.onStack k t hk (by rw [hpc]; rfl)
        rw [ha.idle] at this
        cases this
  obtain ⟨w, n, n', hlast, hreg, hle⟩ := renewed_run h k t hk hmain (.inr hpc)
  obtain ⟨w', n'', hreg', harmed⟩ := watch_run h k t hk hmain (.inr hpc)
  cases hreg.symm.trans hreg'
  rcases harmed.armed with hwoken | ⟨-, hslot⟩
  · refine ha.unwoken k w n ⟨t, hk, hpc⟩ hlast ⟨w, ?_, .inl rfl⟩
    exact List.drop_subset_drop_left _ hle hwoken
  · have := hslot hpc hne
    omega

/-- Where an executor that is driven by any number of `run()` futures and
by `try_tick` sleeps, and no scheduler is between its push and its wake,
there is no Runnable in its queues and tags. -/
theorem asleep_queued (h : (system id).Run tr s) (hruns : ∀ x ∈ tr, x.1.RunsOnly x.2)
    (ha : Sys.Asleep tr s) (hp : s.pendingWakes = 0) : s.queued = 0 := by
  have hlocal : s.state.threadState.taskQueue = [] := congrArg Prod.fst (ha.still h hruns)
  have hheld : s.state.queue.held = [] := Queue.held_of_none_notified (ha.none_notified h)
  rw [Sys.queued, hlocal, ha.taskQueue_nil h hruns hp, hheld]
  rfl

end Asleep

/-- A Runnable is scheduled before the first poll of the `run()` future 1,
which runs it and is then suspended. -/
def runThenSleep : List (Label Nat Nat) :=
  [.schedule (some 7) 4, .create 1 false, .poll 1 10, .step, .ret, .step, .step, .step, .step,
    .step, .step]

theorem exec_runThenSleep :
    (exec Sys.next (.init (some 7)) runThenSleep).map
      (fun s => (s.stack.length, s.tickers 1, s.pendingWakes, s.woken, s.ranLocal)) =
      some (0, some ⟨false, true, .parked⟩, 0, [], [4]) := by
  decide

theorem asleep_runThenSleep : ∃ s : Sys Nat Nat, s.ranLocal = [4] ∧ s.queued = 0 := by
  obtain ⟨s, hrun, hobs⟩ := run_of_observe _ _ _ exec_runThenSleep
  simp only [Prod.mk.injEq] at hobs
  obtain ⟨hstack, hk, hp, hwoken, hran⟩ := hobs
  have hrun : (system (some 7)).Run _ s := hrun
  refine ⟨s, hran, asleep_queued hrun (fun x hx => ?_)
    ⟨List.length_eq_zero_iff.mp hstack, ⟨1, _, hk, rfl⟩, ?_⟩ hp⟩
  · have hl := label_mem_of_execTrace hx
    revert hl
    cases x.2 with
    | create k oneShot => simp [runThenSleep, Sys.RunsOnly]
    | _ => exact fun _ => trivial
  · rintro k w n - - ⟨w', hm, -⟩
    rw [hwoken] at hm
    simp at hm

end Executor

end Unsend

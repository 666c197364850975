import Unsend.SchedulerWork

/-!
# An executor that is left alone

Once nothing comes from outside - nothing is scheduled, no future is made,
dropped or polled for the first time, and a suspended one is polled only
when it has been called for - an executor that is driven by `run()` futures
takes no more than `Sys.work` steps, and when it can take no more, every
Runnable that was queued has been run (`comes_to_rest`).

That nothing is left in the mainstream queue rests on `Guarded`: while the
waker of the suspended mainstream runner is in its slot, a scheduler that
has pushed is about to wake it.
-/

namespace Unsend

namespace Executor

variable {R W : Type}

namespace Sys

/-- Some future has been polled. -/
def Started (s : Sys R W) : Prop := ∃ k t, s.tickers k = some t ∧ t.pc ≠ .fresh

/-- A push that the suspended mainstream runner has not been told of will
be followed by a wake. -/
def Guarded (s : Sys R W) : Prop :=
  ∀ k t, s.tickers k = some t → t.isMainstream = true → t.pc = .parked →
    s.state.mainstreamWaker ≠ none → s.state.taskQueue ≠ [] → 0 < s.pendingWakes

/-- Nothing comes from outside. -/
def Alone (s : Sys R W) : Label R W → Prop
  | .wake | .step | .ret => True
  | .poll k _ => s.called k = true
  | _ => False

/-- An executor that is left alone can do no more. -/
def AtRest [WillWake W] (s : Sys R W) : Prop := ∀ l, s.Alone l → s.next l = none

end Sys

section Guarded

variable [WillWake W] {s s' : Sys R W} {k : Ptr} {t : Ticker}

omit [WillWake W] in
/-- The slot, the mainstream queue and the suspended runners stay. -/
theorem Sys.Guarded.keep (hg : s.Guarded)
    (hslot : s'.state.mainstreamWaker = s.state.mainstreamWaker)
    (hM : s'.state.taskQueue ≠ [] → s.state.taskQueue ≠ [])
    (hp : s.pendingWakes ≤ s'.pendingWakes)
    (ht : ∀ k t, s'.tickers k = some t → t.isMainstream = true → t.pc = .parked →
      s.tickers k = some t) : s'.Guarded := by
  intro k t hk hmain hpc hne hqueue
  rw [hslot] at hne
  exact Nat.lt_of_lt_of_le (hg k t (ht k t hk hmain hpc) hmain hpc hne (hM hqueue)) hp

omit [WillWake W] in
/-- The future at `k` is no suspended mainstream runner after the step. -/
theorem tickers_other {t' : Option Ticker}
    (ht' : ∀ t ∈ t', t.isMainstream = true → t.pc ≠ .parked) :
    ∀ p t, Function.update s.tickers k t' p = some t → t.isMainstream = true →
      t.pc = .parked →
      s.tickers p = some t := by
  intro p t hp hmain hpc
  by_cases he : p = k
  · subst he
    rw [Function.update_self] at hp
    exact (ht' t hp hmain hpc).elim
  · rwa [Function.update_of_ne he] at hp

theorem guarded_step (hg : s.Guarded) (hr : s.Role) (hm : s.OnMain) (h : s.step = some s') :
    s'.Guarded := by
  rcases innermost_cases h with ⟨k, cx, rest, t, out, hst, hk, hout, rfl⟩ |
    ⟨rest, runnable, queue, hst, hM, rfl⟩ | ⟨rest, hst, hM, rfl⟩ | ⟨rest, hst, rfl⟩
  · -- a step of the mainstream runner concerns nobody else
    have hself : t.isMainstream = true →
        (∀ t' ∈ out.ticker, t'.pc = .parked → out.state.taskQueue = []) →
          (s.settle k (Sys.unwind k cx rest out.ticker) out).Guarded := by
      intro hmain hparked p t' hp hmain' hpc hne hqueue
      by_cases he : p = k
      · subst he
        change Function.update s.tickers p out.ticker p = some t' at hp
        rw [Function.update_self] at hp
        exact (hqueue (hparked t' hp hpc)).elim
      · have hp : s.tickers p = some t' := (Function.update_of_ne he ..).symm.trans hp
        cases (not_mainstream hr hk hmain hp (Ne.symm he)).symm.trans hmain'
    have hfound : ∀ {pc : Pc}, t.pc = pc → pc.mainstream = true → t.isMainstream = true :=
      fun hpc h => hm k t hk (hpc ▸ h)
    rcases main_cases hout with ⟨hpc, rfl⟩ | ⟨hpc, rfl⟩ | ⟨hpc, rfl⟩ | ⟨hpc, rfl⟩ |
      ⟨hpc, rfl⟩ | ⟨hslot, hqueue, t', ht', -, -, hparked⟩
    · refine hself (hfound hpc rfl) fun t' ht' hp => ?_
      rcases (popMain_cases t s.state .runAwaited .mainRegister).2.2.2 with he | ⟨-, he, -⟩
      · cases he.symm.trans ht'
        cases hp
      · cases he.symm.trans ht'
        cases hp
    · refine hself (hfound hpc rfl) fun t' ht' hp => ?_
      cases ht'
      cases hp
    · refine hself (hfound hpc rfl) fun t' ht' hp => ?_
      rcases (popMain_cases t s.state .mainTake .parked).2.2.2 with he | ⟨hempty, -, he⟩
      · cases he.symm.trans ht'
        cases hp
      · rw [he]
        exact hempty
    · refine hself (hfound hpc rfl) fun t' ht' hp => ?_
      cases ht'
      cases hp
    · cases hmain : t.isMainstream with
      | true => exact hself hmain fun t' ht' => by cases ht'
      | false =>
          obtain ⟨hqueue, hslot⟩ := main_dropFuture t k s.state
          refine hg.keep (hslot hmain) (fun h => ?_) (Nat.le_refl _)
            (tickers_other fun t' ht' => ?_)
          · exact fun he => h (hqueue.trans he)
          · cases ht'
    · refine hg.keep hslot (fun h => ?_) (Nat.le_refl _)
        (tickers_other fun t'' ht'' hmain hpc => ?_)
      · exact fun he => h (hqueue.trans he)
      · cases ht'.symm.trans ht''
        cases (hparked hpc).symm.trans hmain
  · exact hg.keep rfl (fun _ => by rw [hM]; simp) (Nat.le_refl _) fun _ _ hk _ _ => hk
  · exact hg.keep rfl id (Nat.le_refl _) fun _ _ hk _ _ => hk
  · exact fun k t _ _ _ hne => (hne rfl).elim

theorem guarded_next {l : Label R W} (hg : s.Guarded) (hr : s.Role) (hm : s.OnMain)
    (h : s.next l = some s') : s'.Guarded := by
  cases l with
  | schedule id runnable =>
      obtain ⟨-, -, rfl⟩ | ⟨-, rfl⟩ := next_schedule h
      · exact hg.keep rfl (fun h => h) (Nat.le_refl _) fun _ _ hk _ _ => hk
      · exact fun k t _ _ _ _ _ => Nat.succ_pos _
  | wake =>
      obtain ⟨-, rfl⟩ := next_wake h
      exact fun k t _ _ _ hne => (hne rfl).elim
  | create k oneShot =>
      obtain ⟨-, -, rfl⟩ := next_create h
      refine hg.keep rfl id (Nat.le_refl _) (tickers_other fun t ht _ hpc => ?_)
      cases ht
      cases hpc
  | poll k w =>
      obtain ⟨-, t, -, ⟨-, rfl⟩ | ⟨-, rfl⟩⟩ := next_poll h
      · refine hg.keep rfl id (Nat.le_refl _) (tickers_other fun t ht _ hpc => ?_)
        cases ht
        cases hpc
      · refine hg.keep rfl id (Nat.le_refl _) (tickers_other fun t ht _ hpc => ?_)
        cases ht
        cases hpc
  | drop k =>
      obtain ⟨-, t, hk, -, rfl⟩ := next_drop h
      obtain ⟨hqueue, hslot⟩ := main_dropFuture t k s.state
      cases hmain : t.isMainstream with
      | true =>
          intro p t' hp hmain'
          by_cases he : p = k
          · subst he
            cases (Function.update_self ..).symm.trans hp
          · have hp : s.tickers p = some t' := (Function.update_of_ne he ..).symm.trans hp
            cases (not_mainstream hr hk hmain hp (Ne.symm he)).symm.trans hmain'
      | false =>
          refine hg.keep (hslot hmain) (fun h he => h (hqueue.trans he)) (Nat.le_refl _)
            (tickers_other fun t' ht' => ?_)
          cases ht'
  | tryTick =>
      obtain ⟨-, rfl⟩ := next_tryTick h
      unfold Sys.tryTick
      split
      · exact hg.keep rfl id (Nat.le_refl _) fun _ _ hk _ _ => hk
      · exact hg.keep rfl id (Nat.le_refl _) fun _ _ hk _ _ => hk
  | step => exact guarded_step hg hr hm h
  | ret =>
      obtain ⟨hstate, hp, -, hkept⟩ := ret_keeps h
      exact hg.keep (by rw [hstate]) (by rw [hstate]; exact id) (Nat.le_of_eq hp.symm)
        fun k t hk _ hpc => hkept k t hk (.inr hpc)

theorem guarded_reachable {id : Option Nat} (h : (system id).Reachable s) : s.Guarded := by
  refine h.invariant_of (I := Sys.Guarded) ?_ fun s l s' hr hg hs =>
    guarded_next hg (role_reachable hr) (onMain_reachable hr) hs
  rintro s rfl k t hk
  cases hk

end Guarded

section Rest

variable [WillWake W] {s s' : Sys R W} {k : Ptr} {t : Ticker} {id : Option Nat}
  {tr : List (Sys R W × Label R W)} {ls : List (Label R W)}

/-! ## What an executor does that is left alone -/

theorem started_alone {l : Label R W} (hend : ∀ k t, s.tickers k = some t → t.oneShot = false)
    (hs : s.Started) (ha : s.Alone l) (h : s.next l = some s') : s'.Started := by
  have hupdate : ∀ {s' : Sys R W} {k : Ptr} {t : Ticker},
      s'.tickers = Function.update s.tickers k (some t) → t.pc ≠ .fresh → s'.Started := by
    intro s' k t ht hpc
    refine ⟨k, t, ?_, hpc⟩
    rw [ht, Function.update_self]
  cases l with
  | wake =>
      obtain ⟨-, rfl⟩ := next_wake h
      exact hs
  | poll k w =>
      obtain ⟨-, t, -, ⟨-, rfl⟩ | ⟨-, rfl⟩⟩ := next_poll h
      · exact hupdate rfl (by simp)
      · exact hupdate rfl (by simp)
  | step =>
      rcases innermost_cases h with ⟨k, cx, rest, t, out, hst, hk, hout, rfl⟩ |
        ⟨rest, runnable, queue, hst, hM, rfl⟩ | ⟨rest, hst, hM, rfl⟩ | ⟨rest, hst, rfl⟩
      · rcases step_cases hout with ⟨-, hone, -⟩ | ⟨t', ht', -⟩
        · cases (hend k t hk).symm.trans hone
        · refine hupdate (k := k) (t := t') (by rw [← ht']; rfl) fun hpc => ?_
          have := step_pc hout t' ht'
          rw [hpc] at this
          simp [Pc.active] at this
      · exact hs
      · exact hs
      · exact hs
  | ret =>
      rcases ret_cases h with ⟨k, cx, rest, t, -, -, -, rfl⟩ | ⟨rest, -, rfl⟩
      · refine hupdate (k := k) (t := t.afterRun) rfl fun hpc => ?_
        rcases afterRun_pc t with hp | hp
        · cases hp.symm.trans hpc
        · cases hp.symm.trans hpc
      · exact hs
  | schedule id runnable | create k oneShot | drop k | tryTick => exact ha.elim

/-- What is left of the work, what was run, and what was queued. -/
structure Drained (s s' : Sys R W) (n : Nat) : Prop where
  work : s'.work + n ≤ s.work
  started : s.Started → s'.Started
  ran : (s.ranLocal + s.ranMain + s.queued : Multiset R) = s'.ranLocal + s'.ranMain + s'.queued

theorem drained_next {l : Label R W} (h : ((system id).restrict Sys.RunsOnly).Reachable s)
    (ha : s.Alone l) (hn : s.next l = some s') : Drained s s' 1 := by
  have hr := h.unrestrict
  have hi := inv_reachable hr
  have hfree : Sys.allowance (s, l) = 0 := by
    cases l with
    | poll k w => exact if_pos ha
    | wake | step | ret => rfl
    | schedule id runnable | create k oneShot | drop k | tryTick => exact ha.elim
  have hquiet : (∀ id runnable, l ≠ .schedule id runnable) ∧ ∀ k, l ≠ .drop k := by
    constructor
    · rintro id runnable rfl
      exact ha
    · rintro k rfl
      exact ha
  refine ⟨?_, fun hs => started_alone (endless h) hs ha hn, ?_⟩
  · have := work_next hi (role_reachable hr) (onMain_reachable hr) hn
    omega
  · obtain ⟨ranLocal, ranMain, dropped, hlogs⟩ := logs_tick hquiet.1 hn
    have hd : dropped = [] := by
      have := hlogs.dropped.symm.trans (dropped_next hi hn hquiet.2)
      simpa using this
    have hq := hlogs.queued hi (inv_reachable (hr.step hn))
    rw [hlogs.ranLocal, hlogs.ranMain, ← Multiset.coe_add, ← Multiset.coe_add]
    rw [hd, Multiset.coe_nil, add_zero, add_zero] at hq
    rw [hq]
    abel

theorem drained_exec (h : ((system id).restrict Sys.RunsOnly).Reachable s)
    (ha : ∀ x ∈ execTrace Sys.next s ls, x.1.Alone x.2) (hs : exec Sys.next s ls = some s') :
    ((system id).restrict Sys.RunsOnly).Reachable s' ∧ Drained s s' ls.length := by
  induction ls generalizing s with
  | nil =>
      obtain rfl := Option.some.inj hs
      exact ⟨h, Nat.le_refl _, fun hs => hs, rfl⟩
  | cons l ls ih =>
      obtain ⟨s1, hn, hs⟩ := Option.bind_eq_some_iff.mp hs
      rw [execTrace, hn] at ha
      obtain ⟨hl, hls⟩ := List.forall_mem_cons.mp ha
      have hruns : s.RunsOnly l := by
        cases l with
        | create k oneShot => exact hl.elim
        | _ => trivial
      obtain ⟨hwork, hstarted, hran⟩ := drained_next h hl hn
      obtain ⟨h', hwork', hstarted', hran'⟩ := ih (h.step ⟨hn, hruns⟩) hls hs
      refine ⟨h', ?_, fun hs => hstarted' (hstarted hs), hran.trans hran'⟩
      rw [List.length_cons]
      omega

/-! ## At rest -/

theorem Sys.AtRest.stack_nil (hrest : s.AtRest) (h : (system id).Reachable s) : s.stack = [] := by
  by_contra hne
  obtain ⟨f, rest, hst⟩ := List.exists_cons_of_ne_nil hne
  by_cases hfree : s.Free
  · -- the innermost call runs a Runnable, which returns
    have hf : f.Runs s.tickers := hfree f (by rw [hst]; rfl)
    have hret := hrest .ret trivial
    cases f with
    | ticker k cx =>
        obtain ⟨t, hk, hrun⟩ := (Option.any_eq_true _ _).mp hf
        simp [Sys.next, Sys.ret, hst, hk, hrun] at hret
    | tryTick pc =>
        obtain rfl : pc = .running := hf
        simp [Sys.next, Sys.ret, hst] at hret
  · obtain ⟨s', hs⟩ := step_of_not_free (innermost_reachable h) hfree
    cases (hrest .step trivial).symm.trans hs

theorem Sys.AtRest.no_wake (hrest : s.AtRest) : s.pendingWakes = 0 := by
  by_contra hne
  have hwake := hrest .wake trivial
  simp [Sys.next, Nat.pos_of_ne_zero hne] at hwake

omit [WillWake W] in
/-- While no call is in progress, a future that was polled is suspended. -/
theorem parked_of_nil (hi : s.Inv) (hst : s.stack = []) (hk : s.tickers k = some t)
    (hne : t.pc ≠ .fresh) : t.pc = .parked := by
  have hoff : t.pc.active = false := by
    by_contra hon
    have := hi.stacked.onStack k t hk (eq_true_of_ne_false hon)
    rw [hst] at this
    cases this
  cases hpc : t.pc with
  | parked => rfl
  | fresh => exact (hne hpc).elim
  | _ => rw [hpc] at hoff; cases hoff

/-- No future has been called for. -/
theorem Sys.AtRest.uncalled (hrest : s.AtRest) (h : (system id).Reachable s) (k : Ptr) :
    s.called k = false := by
  by_contra hc
  have hc : s.called k = true := eq_true_of_ne_false hc
  obtain ⟨t, hk, -⟩ := (Option.any_eq_true _ _).mp hc
  have hpc := parked_of_called hk hc
  have hst := hrest.stack_nil h
  have hfree : s.Free := fun f hf => by
    rw [hst] at hf
    cases hf
  -- the waker it was polled with last would do
  obtain ⟨tr, hrun⟩ := h
  have hids : k ∈ s.state.queue.ids := (inv_reachable ⟨tr, hrun⟩).seat hk hpc
  obtain ⟨st, hm⟩ := Queue.mem_ids.mp hids
  have hheard := (heard_run hrun).tracked
  rw [resting_eq fun k cx rest t hst' => by rw [hst] at hst'; cases hst'] at hheard
  obtain ⟨w, -⟩ := hheard k st hm
  have hpoll := hrest (.poll k w) hc
  simp [Sys.next, hk, hfree, hpc] at hpoll

theorem Sys.AtRest.none_notified (hrest : s.AtRest) (h : (system id).Reachable s) :
    s.state.queue.numNotified = 0 := by
  have hi := inv_reachable h
  refine Queue.numNotified_eq_zero.mpr fun ⟨k, st⟩ hm => ?_
  by_contra hst
  have hids : k ∈ s.state.queue.ids := Queue.mem_ids_of_mem hm
  cases hk : s.tickers k with
  | none => exact hi.absent hk hids
  | some t =>
      have hpc := parked_of_nil hi (hrest.stack_nil h) hk fun hpc => hi.seat hk hpc hids
      have htold : s.state.told k = true := by
        rw [State.told, (Queue.stateOf_eq_some s.state.nodup).mpr hm]
        exact eq_true_of_ne_false hst
      have := hrest.uncalled h k
      simp [Sys.called, hk, hpc, htold] at this

/-- An executor at rest that is driven by `run()` futures has nothing left
to run. -/
theorem queued_at_rest (h : ((system id).restrict Sys.RunsOnly).Reachable s) (hs : s.Started)
    (hrest : s.AtRest) : s.queued = 0 := by
  obtain ⟨tr, hrun⟩ := h
  obtain ⟨hrun, hruns⟩ := hrun.unrestrict
  have hr : (system id).Reachable s := ⟨tr, hrun⟩
  have hi := inv_reachable hr
  have hst := hrest.stack_nil hr
  have hnn := hrest.none_notified hr
  have hstill : Sys.Still s.state.threadState.outlook := by
    obtain ⟨k, t, hk, hne⟩ := hs
    by_contra hno
    have hnw := served_still hrun hruns (by rw [hst]; rfl) hno hnn
    have := hi.parked_pos hk (parked_of_nil hi hst hk hne)
    omega
  have hlocal : s.state.threadState.taskQueue = [] := congrArg Prod.fst hstill
  have hmain : s.state.taskQueue = [] := by
    -- whoever has the mainstream role would have been called for
    by_contra hne
    have htaken : Sys.RoleTaken s.state.threadState.outlook := congrArg Prod.snd hstill
    obtain ⟨k, t, hk, hmain⟩ := ((role_reachable hr).taken_iff).mp htaken
    have hpc := parked_of_nil hi hst hk fun hpc => by
      cases (unborn_reachable hr k t hk hpc).symm.trans hmain
    cases hslot : s.state.mainstreamWaker with
    | none =>
        have := hrest.uncalled hr k
        simp [Sys.called, hk, hpc, hmain, hslot] at this
    | some w =>
        have := guarded_reachable hr k t hk hmain hpc (by rw [hslot]; simp) hne
        rw [hrest.no_wake] at this
        exact Nat.lt_irrefl 0 this
  have hheld : s.state.queue.held = [] := Queue.held_of_none_notified hnn
  rw [Sys.queued, hlocal, hmain, hheld]
  rfl

/-- An executor that is driven by `run()` futures and then left alone does
no more than its work, and at rest it has run all that was queued. -/
theorem comes_to_rest (h : ((system id).restrict Sys.RunsOnly).Reachable s) (hs : s.Started)
    (hexec : exec Sys.next s ls = some s') (ha : ∀ x ∈ execTrace Sys.next s ls, x.1.Alone x.2) :
    ls.length ≤ s.work ∧ (s'.AtRest → s'.queued = 0 ∧
      (s'.ranLocal + s'.ranMain : Multiset R) = s.ranLocal + s.ranMain + s.queued) := by
  obtain ⟨h', hwork, hstarted, hran⟩ := drained_exec h ha hexec
  refine ⟨by omega, fun hrest => ?_⟩
  have hqueued := queued_at_rest h' (hstarted hs) hrest
  rw [hqueued, add_zero] at hran
  exact ⟨hqueued, hran.symm⟩

/-! ### An executor at rest -/

theorem atRest_of_idle (hstack : s.stack = []) (hp : s.pendingWakes = 0)
    (hcalled : ∀ k, s.called k = false) : s.AtRest := by
  intro l hl
  cases l with
  | wake => simp [Sys.next, hp]
  | step => simp [Sys.next, Sys.step, hstack]
  | ret => simp [Sys.next, Sys.ret, hstack]
  | poll k w =>
      rw [Sys.Alone, hcalled k] at hl
      cases hl
  | schedule | create | drop | tryTick => exact hl.elim

/-- There is no future where none was made. -/
theorem tickers_exec {ls : List (Label R W)} {k : Ptr} (hk : s.tickers k = none)
    (hls : ∀ l ∈ ls, ∀ oneShot, l ≠ .create k oneShot) (h : exec Sys.next s ls = some s') :
    s'.tickers k = none := by
  induction ls generalizing s with
  | nil =>
      obtain rfl := Option.some.inj h
      exact hk
  | cons l ls ih =>
      obtain ⟨s1, h1, h⟩ := Option.bind_eq_some_iff.mp h
      obtain ⟨hl, hls⟩ := List.forall_mem_cons.mp hls
      have hne : ∀ k' t, s1.tickers k' = some t → k' ≠ k := by
        refine tickers_next (P := fun k' _ => k' ≠ k) ?_ ?_ (fun _ _ _ hk _ => hk)
          (fun _ _ _ _ _ _ hk _ _ => hk) h1
        · rintro k' t hk' rfl
          cases hk.symm.trans hk'
        · rintro k' oneShot hcreate rfl
          exact hl oneShot hcreate
      exact ih (Option.eq_none_iff_forall_ne_some.mpr fun t ht => hne k t ht rfl) hls h

end Rest

/-- While a `run()` future is suspended, a Runnable is pushed from another
thread, and another one handed to its listener. -/
def suspendThenSchedule : List (Label Nat Nat) :=
  [.create 1 false, .poll 1 10, .step, .step, .step, .step, .step, .schedule none 4,
    .schedule (some 7) 5]

def twoLeft : Sys Nat Nat :=
  (exec Sys.next (.init (some 7)) suspendThenSchedule).getD (.init (some 7))

/-- The future runs both, and is suspended again. -/
def runBoth : List (Label Nat Nat) :=
  [.wake, .poll 1 10, .step, .ret, .step, .step, .step, .step, .step, .ret, .step, .step, .step,
    .step, .step, .step, .step]

theorem twoLeft_reachable : ((system (some 7)).restrict Sys.RunsOnly).Reachable twoLeft := by
  obtain ⟨s, hs⟩ :
      ∃ s, exec Sys.next (.init (some 7) : Sys Nat Nat) suspendThenSchedule = some s :=
    ⟨_, rfl⟩
  have hrun : (system (some 7)).Run (execTrace Sys.next (.init (some 7)) suspendThenSchedule) s :=
    run_of_exec rfl hs
  rw [twoLeft, hs]
  refine ⟨_, hrun.restrict fun x hx => ?_⟩
  have hl := label_mem_of_execTrace hx
  revert hl
  cases x.2 with
  | create k oneShot => simp [suspendThenSchedule, Sys.RunsOnly]
  | _ => exact fun _ => trivial

theorem exec_runBoth : (exec Sys.next twoLeft runBoth).map
    (fun s => (s.stack.length, s.pendingWakes, s.called 1)) = some (0, 0, false) := by
  decide

instance (s : Sys Nat Nat) : DecidablePred s.Alone := fun l =>
  match l with
  | .wake | .step | .ret => inferInstanceAs (Decidable True)
  | .poll k _ => inferInstanceAs (Decidable (s.called k = true))
  | .schedule _ _ | .create _ _ | .drop _ | .tryTick => inferInstanceAs (Decidable False)

theorem alone_runBoth : ∀ x ∈ execTrace Sys.next twoLeft runBoth, x.1.Alone x.2 := by
  decide

theorem atRest_runBoth {s : Sys Nat Nat} (h : exec Sys.next twoLeft runBoth = some s) :
    s.AtRest := by
  obtain ⟨s', h', hobs⟩ := Option.map_eq_some_iff.mp exec_runBoth
  cases h.symm.trans h'
  simp only [Prod.mk.injEq, List.length_eq_zero_iff] at hobs
  obtain ⟨hstack, hp, hone⟩ := hobs
  refine atRest_of_idle hstack hp fun k => ?_
  by_cases hk : k = 1
  · rw [hk]
    exact hone
  · have hleft : twoLeft.tickers k = none := by
      obtain ⟨s0, hs0⟩ :
        ∃ s0, exec Sys.next (.init (some 7) : Sys Nat Nat) suspendThenSchedule =
          some s0 := ⟨_, rfl⟩
      rw [twoLeft, hs0]
      refine tickers_exec rfl ?_ hs0
      simp [suspendThenSchedule, Ne.symm hk]
    have hnone : s.tickers k = none := tickers_exec hleft (by simp [runBoth]) h
    rw [Sys.called, hnone]
    rfl

theorem comes_to_rest_runBoth : 17 ≤ twoLeft.work ∧ ∃ s : Sys Nat Nat,
    exec Sys.next twoLeft runBoth = some s ∧ s.AtRest ∧ s.queued = 0 ∧
      (s.ranLocal + s.ranMain : Multiset Nat) =
        twoLeft.ranLocal + twoLeft.ranMain + twoLeft.queued := by
  obtain ⟨s, hexec, -⟩ := Option.map_eq_some_iff.mp exec_runBoth
  have hstarted : twoLeft.Started :=
    ⟨1, ⟨false, true, .parked⟩, by decide, by decide⟩
  obtain ⟨hwork, hrest⟩ := comes_to_rest twoLeft_reachable hstarted hexec alone_runBoth
  obtain ⟨hqueued, hran⟩ := hrest (atRest_runBoth hexec)
  exact ⟨hwork, s, hexec, atRest_runBoth hexec, hqueued, hran⟩

end Executor

end Unsend

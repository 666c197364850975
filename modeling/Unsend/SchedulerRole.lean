import Unsend.SchedulerRest

/-!
# Who has the mainstream role

At most one ticker has the mainstream role, and `is_mainstream_listening`
says whether one has it (`role_reachable`). `roleHeld_run_iff` is the
property of whole runs: while no future is being polled and a ticker
sleeps, a ticker is notified or one has the role, until a `tick()` future
returns that was the one woken up to take the role over: a ticker that is
dropped gives its role up and wakes up another one, but wakes up nobody
where a ticker is notified already, and that one may have been handed a
Runnable and return without a look at the role.
-/

namespace Unsend

/-! ## One holder -/

/-- At most one of all has something, and `taken` says whether one has. -/
structure Holder {ι : Type*} (holds : ι → Bool) (taken : Bool) : Prop where
  unique : ∀ i j, holds i = true → holds j = true → i = j
  taken_iff : taken = true ↔ ∃ i, holds i = true

namespace Holder

variable {ι : Type*} {holds : ι → Bool} {taken : Bool} {i : ι}

theorem nobody (h : Holder holds false) (j : ι) : holds j = false :=
  eq_false_of_ne_true fun hj => Bool.false_ne_true (h.taken_iff.mpr ⟨j, hj⟩)

variable [DecidableEq ι]

/-- The one at `i` takes what nobody has. -/
theorem take (h : Holder holds false) (i : ι) : Holder (Function.update holds i true) true where
  unique j j' hj hj' := by
    have honly : ∀ j, Function.update holds i true j = true → j = i := by
      intro j hj
      by_contra hne
      rw [Function.update_of_ne hne, h.nobody] at hj
      cases hj
    exact (honly j hj).trans (honly j' hj').symm
  taken_iff := iff_of_true rfl ⟨i, Function.update_self ..⟩

/-- The one that has it gives it back. -/
theorem giveBack (h : Holder holds taken) (hi : holds i = true) :
    Holder (Function.update holds i false) false := by
  have hnone : ∀ j, Function.update holds i false j ≠ true := by
    intro j hj
    by_cases hne : j = i
    · rw [hne, Function.update_self] at hj
      cases hj
    · rw [Function.update_of_ne hne] at hj
      exact hne (h.unique j i hj hi)
  refine ⟨fun j _ hj => (hnone j hj).elim, iff_of_false Bool.false_ne_true ?_⟩
  rintro ⟨j, hj⟩
  exact hnone j hj

end Holder

namespace Executor

variable {R W : Type}

namespace Sys

/-- The future at `k` is that of the mainstream runner. -/
def Mainstream (s : Sys R W) (k : Ptr) : Prop :=
  ∃ t, s.tickers k = some t ∧ t.isMainstream = true

/-- While no future is being polled: with a future asleep and no listener
notified, somebody has the mainstream role. -/
def RoleHeld (s : Sys R W) : Prop :=
  keys s.stack = [] → (∃ k, s.Sleeps k) → (∀ k tag, ¬ s.NotifiedWith k tag) →
    ∃ k, s.Mainstream k

/-- A `tick()` future returns only where somebody has the mainstream role,
or a listener is notified, or none waits. -/
def KeepsRole (s : Sys R W) : Label R W → Prop
  | .step => ∀ k t, s.Returns k t → (∀ k', ¬ s.Mainstream k') →
      s.state.queue.numNotified = 0 → (s.state.queue.erase k).numWaiting = 0
  | _ => True

/-- Does the ticker have the role? -/
def hasRole (tickers : Ptr → Option Ticker) (k : Ptr) : Bool :=
  (tickers k).any Ticker.isMainstream

/-- The mainstream role is in one place. -/
def Role (s : Sys R W) : Prop :=
  Holder (hasRole s.tickers) s.state.threadState.isMainstreamListening

theorem mainstream_iff {s : Sys R W} {k : Ptr} : s.Mainstream k ↔ hasRole s.tickers k = true :=
  (Option.any_eq_true _ _).symm

theorem hasRole_update (tickers : Ptr → Option Ticker) (k : Ptr) (t : Option Ticker) :
    hasRole (Function.update tickers k t) =
      Function.update (hasRole tickers) k (t.any Ticker.isMainstream) :=
  Function.comp_update (fun t : Option Ticker => t.any Ticker.isMainstream) tickers k t

end Sys

/-! ## The role in one place -/

section Role

variable {s s' : Sys R W} {k : Ptr} {t : Ticker}

/-- A future changes, and nothing about the role does. -/
theorem role_keep {tickers : Ptr → Option Ticker} {listening : Bool} {t : Option Ticker}
    (h : Holder (Sys.hasRole tickers) listening)
    (ht : t.any Ticker.isMainstream = Sys.hasRole tickers k) :
    Holder (Sys.hasRole (Function.update tickers k t)) listening := by
  rw [Sys.hasRole_update, ht, Function.update_eq_self]
  exact h

theorem hasRole_eq {tickers : Ptr → Option Ticker} (hk : tickers k = some t) :
    Sys.hasRole tickers k = t.isMainstream := by
  rw [Sys.hasRole, hk]
  rfl

/-- The top of the loop takes the role if nobody has it. -/
theorem role_loopHead (h : s.Role) (hk : s.tickers k = some t) :
    Holder (Sys.hasRole (Function.update s.tickers k (t.loopHead s.state).ticker))
      (t.loopHead s.state).state.threadState.isMainstreamListening := by
  have hkeep : Holder (Sys.hasRole (Function.update s.tickers k (some t)))
      s.state.threadState.isMainstreamListening := role_keep h (hasRole_eq hk).symm
  rw [Sys.hasRole_update] at hkeep ⊢
  unfold Ticker.loopHead
  split
  · exact hkeep
  · split
    · exact hkeep
    · rename_i hfree
      rw [Sys.Role, eq_false_of_ne_true hfree] at h
      exact h.take k

/-- A ticker that is dropped gives the role back if it has it. -/
theorem role_dropFuture (h : s.Role) (hk : s.tickers k = some t) :
    Holder (Sys.hasRole (Function.update s.tickers k (t.dropFuture k s.state).ticker))
      (t.dropFuture k s.state).state.threadState.isMainstreamListening := by
  cases hmain : t.isMainstream with
  | true =>
      rw [Sys.hasRole_update]
      have hstate : (t.dropFuture k s.state).state.threadState.isMainstreamListening = false := by
        unfold Ticker.dropFuture Ticker.drop
        rw [hmain]
        rfl
      rw [hstate]
      exact h.giveBack ((hasRole_eq hk).trans hmain)
  | false =>
      have hstate : (t.dropFuture k s.state).state.threadState.isMainstreamListening =
          s.state.threadState.isMainstreamListening :=
        congrArg Prod.snd (outlook_dropFuture k s.state hmain)
      rw [hstate]
      exact role_keep h (hmain.symm.trans (hasRole_eq hk).symm)

/-- A step of `try_tick` has no part in it. -/
theorem TryStep.role (h : TryStep s s') (hr : s.Role) : s'.Role := by
  unfold Sys.Role
  rw [h.tickers, h.threadState]
  exact hr

theorem listening_schedule (ts : ThreadState R W) (runnable : R) :
    (ts.schedule runnable).1.isMainstreamListening = ts.isMainstreamListening := by
  unfold ThreadState.schedule
  dsimp only
  split
  · rfl
  · rfl

variable [WillWake W]

/-- Only the top of the loop and the return of a future touch the role. -/
theorem role_step (h : s.Role) (hk : s.tickers k = some t) {cx : W} {out : TickOut R W}
    (hout : t.step k cx s.state = some out) :
    Holder (Sys.hasRole (Function.update s.tickers k out.ticker))
      out.state.threadState.isMainstreamListening := by
  have hpoll : ∀ run other wait,
      Holder (Sys.hasRole (Function.update s.tickers k
          (t.pollListener k cx s.state run other wait).ticker))
        (t.pollListener k cx s.state run other wait).state.threadState.isMainstreamListening := by
    intro run other wait
    rw [show (t.pollListener k cx s.state run other wait).state.threadState.isMainstreamListening =
      s.state.threadState.isMainstreamListening from
        congrArg Prod.snd (outlook_pollListener t k cx s.state run other wait)]
    obtain ⟨-, -, -, -, pc, ht, -⟩ := frame_pollListener t k cx s.state run other wait
    refine role_keep h ?_
    rw [hasRole_eq hk, ht]
    rfl
  have hpop : ∀ found empty, Holder
      (Sys.hasRole (Function.update s.tickers k (t.popMain s.state found empty).ticker))
      (t.popMain s.state found empty).state.threadState.isMainstreamListening := by
    intro found empty
    unfold Ticker.popMain
    split
    · exact role_keep h (hasRole_eq hk).symm
    · exact role_keep h (hasRole_eq hk).symm
  rw [Ticker.step] at hout
  cases hpc : t.pc with
  | loopHead =>
      rw [hpc] at hout
      obtain rfl := Option.some.inj hout
      exact role_loopHead h hk
  | listen | pollOnce =>
      rw [hpc] at hout
      obtain rfl := Option.some.inj hout
      exact hpoll ..
  | mainPop | mainPopAgain =>
      rw [hpc] at hout
      obtain rfl := Option.some.inj hout
      exact hpop ..
  | mainRegister | mainTake =>
      rw [hpc] at hout
      obtain rfl := Option.some.inj hout
      exact role_keep h (hasRole_eq hk).symm
  | finish =>
      rw [hpc] at hout
      obtain rfl := Option.some.inj hout
      split
      · exact role_dropFuture h hk
      · exact role_keep h (hasRole_eq hk).symm
  | fresh | parked | runPopped | runAwaited | runLast =>
      rw [hpc] at hout
      cases hout

theorem role_next {l : Label R W} (hr : s.Role) (h : s.next l = some s') : s'.Role := by
  cases l with
  | schedule id runnable =>
      obtain ⟨-, -, rfl⟩ | ⟨-, rfl⟩ := next_schedule h
      · show Holder (Sys.hasRole s.tickers)
          (s.state.threadState.schedule runnable).1.isMainstreamListening
        rw [listening_schedule]
        exact hr
      · exact hr
  | wake =>
      obtain ⟨-, rfl⟩ := next_wake h
      exact hr
  | create k oneShot =>
      obtain ⟨hk, -, rfl⟩ := next_create h
      refine role_keep hr ?_
      rw [Sys.hasRole, hk]
      rfl
  | poll k w =>
      obtain ⟨-, t, hk, ⟨-, rfl⟩ | ⟨-, rfl⟩⟩ := next_poll h
      · exact role_keep hr (hasRole_eq hk).symm
      · exact role_keep hr (hasRole_eq hk).symm
  | drop k =>
      obtain ⟨-, t, hk, -, rfl⟩ := next_drop h
      exact role_dropFuture hr hk
  | tryTick =>
      obtain ⟨-, rfl⟩ := next_tryTick h
      unfold Sys.tryTick
      split
      · exact hr
      · exact hr
  | step =>
      rcases next_step h with ⟨k, cx, rest, t, out, -, hk, hout, rfl⟩ | htry
      · exact role_step hr hk hout
      · exact htry.role hr
  | ret =>
      rcases next_ret h with ⟨k, cx, rest, t, -, hk, -, rfl⟩ | htry
      · exact role_keep hr (hasRole_eq hk).symm
      · exact htry.role hr

/-- The mainstream role is always in one place. -/
theorem role_reachable {id : Option Nat} (h : (system id).Reachable s) : s.Role := by
  refine h.invariant (I := Sys.Role) ?_ fun s l s' hr hs => role_next hr hs
  rintro s rfl
  refine ⟨fun k _ hk => ?_, iff_of_false Bool.false_ne_true ?_⟩
  · cases hk
  · rintro ⟨k, hk⟩
    cases hk

end Role

/-! ## Nobody sleeps without the role being taken -/

namespace Sys

/-- The mainstream role is taken. -/
def RoleTaken (outlook : List R × Bool) : Prop := outlook.2 = true

theorem Role.taken_iff {s : Sys R W} (hr : s.Role) :
    RoleTaken s.state.threadState.outlook ↔ ∃ k, s.Mainstream k :=
  (Holder.taken_iff hr).trans (exists_congr fun _ => mainstream_iff.symm)

theorem roleHeld_iff {s : Sys R W} (hi : s.Inv) (hr : s.Role) :
    s.RoleHeld ↔ s.Served RoleTaken := by
  unfold RoleHeld Served Calm
  rw [none_notified, hr.taken_iff]
  constructor
  · intro h hk hfree hn
    refine (none_sleeps hi hk).mp fun k hsleeps => ?_
    exact hfree (h hk ⟨k, hsleeps⟩ hn)
  · rintro h hk ⟨k, hsleeps⟩ hn
    by_contra hfree
    exact (none_sleeps hi hk).mpr (h hk hfree hn) k hsleeps

theorem keepsRole_iff {s : Sys R W} (hr : s.Role) {l : Label R W} :
    s.KeepsRole l ↔ s.KeepsCalm RoleTaken l := by
  cases l with
  | step =>
      unfold KeepsRole KeepsCalm
      rw [hr.taken_iff]
      constructor
      · intro h k t hret _ hfree
        exact h k t hret fun k' hk' => hfree ⟨k', hk'⟩
      · intro h k t hret hfree
        obtain ⟨cx, rest, -, -, hk, -⟩ := id hret
        refine h k t hret (eq_false_of_ne_true fun hmain => hfree k ⟨t, hk, hmain⟩) ?_
        rintro ⟨k', hk'⟩
        exact hfree k' hk'
  | _ => exact Iff.rfl

end Sys

/-- In a run of the executor no ticker ever sleeps with nobody notified
and nobody in the mainstream role exactly if every step is one that
`KeepsRole` allows. -/
theorem roleHeld_run_iff [WillWake W] (id : Option Nat) {tr : List (Sys R W × Label R W)}
    {s : Sys R W} (h : (system id).Run tr s) :
    ((∀ x ∈ tr, x.1.RoleHeld) ∧ s.RoleHeld) ↔ ∀ x ∈ tr, x.1.KeepsRole x.2 := by
  have htaken : Sys.RoleTaken (([], true) : List R × Bool) := rfl
  rw [h.always_congr fun s hr => Sys.roleHeld_iff (inv_reachable hr) (role_reachable hr),
    served_run_iff htaken id h]
  exact forall₂_congr fun x hx => (Sys.keepsRole_iff (role_reachable (h.reachable.1 x hx))).symm

/-- The `run()` future 1 is the mainstream runner, 2 is a `tick()` future
and 3 another `run()` future. 2 is handed a Runnable, 1 is dropped and
wakes up nobody, and 2 returns. -/
def dropBeforeReturn : List (Label Nat Nat) :=
  [.create 1 false, .poll 1 10, .step, .step, .step, .step, .step,
    .create 2 true, .poll 2 11, .step, .step, .schedule (some 7) 5,
    .poll 1 10, .step, .ret, .step, .step, .step, .step, .step, .step, .step,
    .create 3 false, .poll 3 12, .step, .step,
    .schedule (some 7) 6, .drop 1, .poll 2 11, .step, .ret, .step, .step]

theorem exec_dropBeforeReturn :
    (exec Sys.next (.init (some 7)) dropBeforeReturn).map
      (fun s => (keys s.stack, s.state.threadState.isMainstreamListening,
        s.state.queue.numNotified, s.state.queue.numWaiting)) = some ([], false, 0, 1) := by
  decide

theorem roleHeld_dropBeforeReturn :
    ∃ s : Sys Nat Nat,
      (((∀ x ∈ execTrace Sys.next (.init (some 7)) dropBeforeReturn, x.1.RoleHeld) ∧
          s.RoleHeld) ↔
        ∀ x ∈ execTrace Sys.next (.init (some 7)) dropBeforeReturn, x.1.KeepsRole x.2) := by
  obtain ⟨s, hrun, -⟩ := run_of_observe _ _ _ exec_dropBeforeReturn
  exact ⟨s, roleHeld_run_iff (some 7) hrun⟩

/-- The `run()` future sleeps, and a push from another thread wakes nobody. -/
theorem dropBeforeReturn_orphans :
    ¬ ∀ (id : Option Nat) (s : Sys Nat Nat), (system id).Reachable s → s.RoleHeld := by
  intro h
  obtain ⟨s, hrun, hobs⟩ := run_of_observe _ _ _ exec_dropBeforeReturn
  have hr : (system (some 7)).Reachable s := ⟨_, hrun⟩
  have hserved := (Sys.roleHeld_iff (inv_reachable hr) (role_reachable hr)).mp (h (some 7) s hr)
  simp only [Prod.mk.injEq] at hobs
  obtain ⟨hk, hfree, hn, hw⟩ := hobs
  have hne : ¬ s.state.threadState.isMainstreamListening = true := by
    rw [hfree]
    exact Bool.false_ne_true
  have := hserved hk hne hn
  omega

end Executor

end Unsend

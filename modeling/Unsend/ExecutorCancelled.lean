import Unsend.ExecutorDropped
import Unsend.TaskRest

/-!
# Tasks of a dropped executor

Two properties of `Executor::drop`, in every reachable state in which the
executor can be dropped:

- `borrowsOnce_iff`: it never borrows `thread_state` twice exactly if no
  Runnable in the local queue is that of a polled task and, where the
  scheduler function takes the local path, no task calls it when the
  wakers and the futures are dropped;
- `cancelsAll_iff`: it cancels everything exactly if `active` is empty, or
  has a single entry, of a task that is done, or whose Runnable is in the
  mainstream queue, or in the local queue before its first poll, or that
  is idle and pushes to the mainstream queue.
-/

namespace Unsend

namespace Tasks

variable {W : Type}

/-! ## The executor before it is dropped -/

namespace Sys

variable {s : Sys W} {id : Option Nat}

/-- The condition under which `Executor::drop` cancels everything: there is
at most one entry in `active`; its task is done, or its Runnable is in the
mainstream queue, or in the local queue before the first poll, or it is
idle and pushed to the mainstream queue when woken. -/
def Cancellable (s : Sys W) (id : Option Nat) : Prop :=
  s.active = [] ∨ ∃ key i t, s.active = [(key, i)] ∧ s.tasks i = some t ∧
    (t.future = .gone ∨ i ∈ s.core.mainQueue ∨
      (i ∈ s.core.localQueue ∧ t.future = .unpolled) ∨
      (t.idle = true ∧ s.sched.state.isOrigin id = false))

/-- Nobody listens to the event of an executor without tickers. -/
theorem queue_unused (hi : s.Inv) (hu : s.Unused) : s.sched.state.queue = [] := by
  have hids : ∀ k, k ∉ s.sched.state.queue.ids := by
    intro k
    have hseat := hi.sched.seats k
    rw [hu.1 k] at hseat
    exact hseat
  cases hq : s.sched.state.queue with
  | nil => rfl
  | cons x rest =>
      refine (hids x.1 ?_).elim
      rw [hq]
      exact List.mem_cons_self ..

/-- The runner that registered the waker has taken it along. -/
theorem mainstreamWaker_unused {id₀ : Option Nat} [WillWake W] (h : (system id₀).Reachable s)
    (hu : s.Unused) : s.sched.state.mainstreamWaker = none := by
  by_contra hne
  obtain ⟨tr, hrun⟩ := h
  obtain ⟨k, t, hk, -⟩ := Executor.mainstream_of_registered ⟨_, sched_run hrun⟩ hne
  cases (hu.1 k).symm.trans hk

theorem core_tidy (hi : s.Inv) (hu : s.Unused) : s.core.Tidy := by
  have hq := queue_unused hi hu
  have hqueued : s.sched.queued = s.core.queued := by
    unfold Executor.Sys.queued
    rw [hq]
    exact add_zero _
  have howns := hi.owns
  rw [hqueued] at howns
  refine ⟨hq, howns.absent, howns.ok, fun i t ht => ?_⟩
  by_contra hr
  have := howns.running i t ht (eq_true_of_ne_false hr)
  rw [hu.2.2] at this
  cases this

theorem core_covers (hi : s.Inv) : s.core.Covers (s.active.map Prod.snd) :=
  fun i t ht hg => List.mem_map_of_mem (hi.owns.unfinished i t ht hg)

/-- Two entries of `active` are of different tasks. -/
theorem active_nodup (hi : s.Inv) : (s.active.map Prod.snd).Nodup := by
  refine List.Nodup.map_on ?_ (List.Nodup.of_map _ hi.owns.keys)
  rintro ⟨k, i⟩ hx ⟨k', i'⟩ hy rfl
  obtain ⟨t, ht, hk⟩ := hi.owns.entry _ hx
  obtain ⟨t', ht', hk'⟩ := hi.owns.entry _ hy
  cases ht.symm.trans ht'
  exact Prod.ext (hk.symm.trans hk') rfl

/-! ## No second borrow -/

/-- Only the first waker is ever woken. -/
theorem active_of_cancelsAll (hi : s.Inv) (hu : s.Unused) (hc : s.CancelsAll id) :
    s.active.length ≤ 1 := by
  obtain ⟨n, c, hr, hwoken, -⟩ := hc
  have ht := core_tidy hi hu
  obtain ⟨c1, hw, hclear⟩ := Core.drop_ok hr ht
  have hf := hw.facts ht
  obtain ⟨-, -, -, -, -, -, hkeep⟩ := Core.clear_ok hf.tidy hf.active hclear
  have hnodup := active_nodup hi
  cases ha : s.active with
  | nil => exact Nat.zero_le 1
  | cons x rest =>
      have honly : ∀ y ∈ rest, y.2 = x.2 := by
        intro y hy
        have := hwoken y (by rw [ha]; exact List.mem_cons_of_mem _ hy)
        rw [hkeep, hf.woken, show s.core.active = x :: rest from ha] at this
        exact List.mem_singleton.mp this
      cases rest with
      | nil => exact Nat.le_refl 1
      | cons y rest =>
          rw [ha, List.map_cons, List.map_cons] at hnodup
          have := honly y (List.mem_cons_self ..)
          exact ((List.nodup_cons.mp hnodup).1 (by rw [this]; exact List.mem_cons_self ..)).elim

theorem cancellable_of_cancelsAll (hi : s.Inv) (hu : s.Unused) (hc : s.CancelsAll id) :
    s.Cancellable id := by
  have ht := core_tidy hi hu
  have hlen := active_of_cancelsAll hi hu hc
  obtain ⟨n, c, hr, -, -⟩ := hc
  obtain ⟨⟨hstarted, -⟩, hborrow⟩ := Core.unborrowed_of_drop ht hr
  cases ha : s.active with
  | nil => exact .inl ha
  | cons x rest =>
      obtain rfl : rest = [] := by
        rw [ha, List.length_cons] at hlen
        exact List.eq_nil_of_length_eq_zero (by omega)
      obtain ⟨t, hx, -⟩ := hi.owns.entry x (by rw [ha]; exact List.mem_cons_self ..)
      refine .inr ⟨x.1, x.2, t, ha, hx, ?_⟩
      by_cases hg : t.future = .gone
      · exact .inl hg
      · refine .inr ?_
        rcases ht.queued_or_idle hx hg with hq | hidle
        · rcases Core.mem_queued.mp hq with hL | hM
          · refine .inr (.inl ⟨hL, ?_⟩)
            cases hf : t.future with
            | unpolled => rfl
            | started => exact (hstarted ⟨x.2, hL, t, hx, hf⟩).elim
            | gone => exact (hg hf).elim
          · exact .inl hM
        · refine .inr (.inr ⟨?_, ?_⟩)
          · obtain ⟨t', ht', hidle⟩ := hidle
            cases hx.symm.trans ht'
            exact hidle
          · by_contra ho
            refine (hborrow (eq_true_of_ne_false ho)).1 x ?_ hidle
            rw [show s.core.active = [x] from ha]
            rfl

/-- No second borrow stops the drop of a cancellable executor. -/
theorem unborrowed_of_cancellable (hi : s.Inv) (hu : s.Unused) (hc : s.Cancellable id) :
    s.core.Unborrowed id := by
  have ht := core_tidy hi hu
  have hcov := core_covers hi
  rcases hc with ha | ⟨key, i, t, ha, hx, hcases⟩
  · rw [ha] at hcov
    refine Core.unborrowed_of_quiet (fun k hk u hku _ => ?_) fun _ k hidle => ?_
    · obtain ⟨t, hkt, -, hg, -⟩ := ht.owner (Core.mem_queued.mpr (.inl hk))
      cases hcov k t hkt hg
    · obtain ⟨t, hkt, hg⟩ := ht.future_of_idle hidle
      cases hcov k t hkt hg
  · rw [ha] at hcov
    have honly : ∀ k u, s.tasks k = some u → u.future ≠ .gone → k = i ∧ u = t := by
      intro k u hku hg
      obtain rfl := List.mem_singleton.mp (hcov k u hku hg)
      exact ⟨rfl, Option.some.inj (hku.symm.trans hx)⟩
    have hqueue : ∀ k ∈ s.core.localQueue, k = i ∧ t.future ≠ .gone := by
      intro k hk
      obtain ⟨u, hku, -, hg, -⟩ := ht.owner (Core.mem_queued.mpr (.inl hk))
      obtain ⟨rfl, rfl⟩ := honly k u hku hg
      exact ⟨rfl, hg⟩
    have hidles : ∀ k, s.core.Idle k → k = i ∧ t.future ≠ .gone := by
      intro k hidle
      obtain ⟨u, hku, hg⟩ := ht.future_of_idle hidle
      obtain ⟨rfl, rfl⟩ := honly k u hku hg
      exact ⟨rfl, hg⟩
    refine Core.unborrowed_of_quiet (fun k hk u hku hf => ?_) fun ho k hidle => ?_
    · obtain ⟨rfl, hg⟩ := hqueue k hk
      cases hku.symm.trans hx
      have hq := Core.mem_queued.mpr (.inl hk)
      rcases hcases with hgone | hM | ⟨-, hun⟩ | ⟨hidle, -⟩
      · exact hg hgone
      · exact ht.not_both hk hM
      · rw [hf] at hun
        cases hun
      · exact ht.not_idle_of_queued hq ⟨t, hx, hidle⟩
    · obtain ⟨rfl, hg⟩ := hidles k hidle
      rcases hcases with hgone | hM | ⟨hL, -⟩ | ⟨-, ho'⟩
      · exact hg hgone
      · exact ht.not_idle_of_queued (Core.mem_queued.mpr (.inr hM)) hidle
      · exact ht.not_idle_of_queued (Core.mem_queued.mpr (.inl hL)) hidle
      · cases ho.symm.trans ho'

theorem cancelsAll_of_cancellable (hi : s.Inv) (hu : s.Unused) (hc : s.Cancellable id) :
    s.CancelsAll id := by
  have ht := core_tidy hi hu
  have hcov := core_covers hi
  have hone : (s.active.map Prod.snd).length ≤ 1 := by
    rcases hc with ha | ⟨key, i, t, ha, -⟩
    · rw [ha]
      exact Nat.zero_le 1
    · rw [ha]
      exact Nat.le_refl 1
  rcases Core.drop_safe ht (unborrowed_of_cancellable hi hu hc) _ with hr | ⟨c, hr⟩
  · exact (Core.drop_ends ht hcov hr).elim
  · obtain ⟨c1, hw, hclear⟩ := Core.drop_ok hr ht
    have hf := hw.facts ht
    refine ⟨_, c, hr, fun x hx => ?_, fun i t hit => ?_⟩
    · obtain ⟨-, -, -, -, -, -, hkeep⟩ := Core.clear_ok hf.tidy hf.active hclear
      rw [hkeep, hf.woken]
      rw [List.length_map] at hone
      obtain ⟨y, hy⟩ :=
        List.length_eq_one_iff.mp (Nat.le_antisymm hone (List.length_pos_of_mem hx))
      rw [hy] at hx
      obtain rfl := List.mem_singleton.mp hx
      rw [show s.core.active = [x] from hy]
      exact List.mem_singleton.mpr rfl
    · by_contra hg
      have hgone : c.Covers [] := by
        rcases hw.pending ht rfl hone hcov with h0 | ⟨j, hj⟩
        · exact Core.clear_covers (i := i) hf.tidy hf.active (.inl h0) hclear
        · exact Core.clear_covers hf.tidy hf.active (.inr hj) hclear
      cases hgone i t hit hg

theorem cancelsAll_iff {id₀ : Option Nat} [WillWake W] (id : Option Nat)
    (h : (system id₀).Reachable s) (hu : s.Unused) :
    s.CancelsAll id ↔ s.Cancellable id :=
  ⟨cancellable_of_cancelsAll (inv_reachable h) hu,
    cancelsAll_of_cancellable (inv_reachable h) hu⟩

/-- Two tasks are spawned; the first one is done, the second one waits. A
third one takes the key of the first in `active`. -/
def reusedKey : List (Label Nat) :=
  [.spawn 0 0 0 [] (some 7), .spawn 1 1 1 [] (some 7), .tick .tryTick, .ret true [] (some 7),
    .tick .tryTick, .ret false [] (some 7), .spawn 2 0 0 [] (some 7)]

/-- `Executor::drop` wakes the third task only, and the second one keeps its
future. -/
theorem exec_reusedKey :
    (exec Sys.next (.init (some 7)) reusedKey).map (fun s =>
      (s.sched.tickers, s.sched.stack, s.running, s.active,
        (s.core.drop (some 7) 3).toOption.map
          (Option.map fun c => (c.woken, (c.tasks 1).map Task.future)))) =
    some (fun _ => none, [], [], [(0, 2), (1, 1)], some (some ([2], some .started))) := rfl

theorem cancelsAll_reusedKey : ∃ s : Sys Nat,
    s.Unused ∧ (s.CancelsAll (some 7) ↔ s.Cancellable (some 7)) := by
  obtain ⟨s, hrun, hobs⟩ := run_of_observe _ _ _ exec_reusedKey
  simp only [Prod.mk.injEq] at hobs
  obtain ⟨ht, hs, hr, -⟩ := hobs
  have hu : s.Unused := ⟨fun k => congrFun ht k, hs, hr⟩
  exact ⟨s, hu, cancelsAll_iff (some 7) ⟨_, hrun⟩ hu⟩

theorem reusedKey_survives : ¬ ∀ (id₀ id : Option Nat) (s : Sys Nat),
    (system id₀).Reachable s → s.Unused → s.CancelsAll id := by
  intro h
  obtain ⟨s, hrun, hobs⟩ := run_of_observe _ _ _ exec_reusedKey
  simp only [Prod.mk.injEq] at hobs
  obtain ⟨ht, hs, hr, ha, -⟩ := hobs
  have hreach : (system (some 7)).Reachable s := ⟨_, hrun⟩
  have hu : s.Unused := ⟨fun k => congrFun ht k, hs, hr⟩
  have := active_of_cancelsAll (inv_reachable hreach) hu (h (some 7) (some 7) s hreach hu)
  rw [ha] at this
  cases Nat.le_of_succ_le_succ this

end Sys

end Tasks

end Unsend

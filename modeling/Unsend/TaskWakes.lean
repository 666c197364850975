import Unsend.ActiveTasks

/-!
# Wake-ups and Runnables

A wake-up of a task is a promise: the future will be polled by a poll that
begins later. What carries the promise is the task's Runnable, which goes
through the queues and the tags of the executor.

`Sys.turn` says once what each step does to each task. With it,
`runnable_exact`: an unfinished task that is not being polled has exactly
one Runnable in the executor if it was spawned or woken since its last
poll began, or cancelled, and none otherwise. So no wake-up is lost, and
however many of them come between two polls, they make one Runnable.
-/

namespace Unsend

namespace Tasks

variable {W : Type}

/-! ## What one step does to one task -/

namespace Sys

/-- What becomes of the task `i` in a step. -/
def turn (s : Sys W) (i : TaskId) (t : Task) : Label W → Task
  | .tick l =>
      if s.sched.drops l = some i then t.lose
      else if s.sched.takes l = some i then t.start
      else t
  | .spawn .. => t
  | .wake j _ => if j = i then t.wake.1 else t
  | .cancel j _ => if j = i then t.cancel.1 else t
  | .detach j => if j = i then { t with detached := true } else t
  | .wakers j held => if j = i then { t with wakers := held } else t
  | .ret ready onDrop _ => if s.running.head? = some i then (t.finish ready onDrop).1 else t

/-- The Runnables that are being run after a step. -/
def runningAfter (s : Sys W) : Label W → List TaskId
  | .tick l => (s.sched.takes l).toList ++ s.running
  | .ret .. => s.running.tail
  | _ => s.running

end Sys

section Turn

variable {s s' : Sys W} {i j : TaskId} {t t' : Task} {id : Option Nat}

theorem tasks_put (s : Sys W) (j : TaskId) (u u' : Task) (i : TaskId) :
    (s.put j u u').tasks i = if i = j then some u' else s.tasks i := Function.update_apply ..

theorem tasks_start (s : Sys W) (j i : TaskId) :
    (s.start j).tasks i = if i = j then (s.tasks j).map Task.start else s.tasks i := by
  unfold Sys.start
  cases hj : s.tasks j with
  | none =>
      by_cases hi : i = j
      · simp [hi, hj]
      · simp [hi]
  | some t => exact tasks_put s j t _ i

theorem tasks_lose (s : Sys W) (j i : TaskId) :
    (s.lose j).tasks i = if i = j then (s.tasks j).map Task.lose else s.tasks i := by
  unfold Sys.lose
  cases hj : s.tasks j with
  | none =>
      by_cases hi : i = j
      · simp [hi, hj]
      · simp [hi]
  | some t => exact tasks_put s j t _ i

theorem running_start (hj : s.tasks j = some t) : (s.start j).running = j :: s.running := by
  unfold Sys.start
  rw [hj]

theorem running_lose (s : Sys W) (j : TaskId) : (s.lose j).running = s.running := by
  unfold Sys.lose
  split
  · rfl
  · rfl

variable [WillWake W]

/-- A call of the scheduler function leaves the tasks alone. -/
theorem schedule_frame {call : Bool} (h : s.schedule id j call = some s') :
    s'.tasks = s.tasks ∧ s'.running = s.running := by
  unfold Sys.schedule at h
  split at h
  · obtain ⟨sched, -, rfl⟩ := Option.map_eq_some_iff.mp h
    exact ⟨rfl, rfl⟩
  · obtain rfl := Option.some.inj h
    exact ⟨rfl, rfl⟩

/-- A step of the tickers takes one Runnable out, drops one, or neither. -/
theorem advance_eq (hi : s.sched.Inv) {l : Executor.Label TaskId W}
    {sched : Executor.Sys TaskId W} (h : s.sched.next l = some sched) :
    s.advance sched = (s.sched.drops l).toList.foldl Sys.lose
      ((s.sched.takes l).toList.foldl Sys.start { s with sched }) := by
  obtain ⟨⟨ranLocal, ranMain, hrl, hrm, hran⟩, hdropped⟩ := Executor.moved_next hi h
  unfold Sys.advance
  rw [hrl, hrm, hdropped, List.drop_left, List.drop_left, List.drop_left, hran]

omit [WillWake W] in
theorem takes_of_drops {l : Executor.Label TaskId W} (h : s.sched.drops l = some i) :
    s.sched.takes l = none := by
  cases l with
  | drop k => rfl
  | _ => cases h

theorem tasks_advance (hi : s.sched.Inv) {l : Executor.Label TaskId W}
    {sched : Executor.Sys TaskId W} (h : s.sched.next l = some sched) (i : TaskId) :
    (s.advance sched).tasks i = (s.tasks i).map fun t => s.turn i t (.tick l) := by
  rw [advance_eq hi h]
  unfold Sys.turn
  cases hd : s.sched.drops l with
  | some j =>
      rw [takes_of_drops hd]
      show (Sys.lose { s with sched } j).tasks i = _
      rw [tasks_lose]
      by_cases hij : i = j
      · simp [hd, hij]
      · simp [hd, hij, Ne.symm hij, takes_of_drops hd]
  | none =>
      cases ht : s.sched.takes l with
      | none =>
          show s.tasks i = _
          simp [hd, ht]
      | some j =>
          show (Sys.start { s with sched } j).tasks i = _
          rw [tasks_start]
          by_cases hij : i = j
          · simp [hd, ht, hij]
          · simp [hd, ht, hij, Ne.symm hij]

/-- A Runnable that is taken out belongs to a task. -/
theorem owner_of_takes (hi : s.Inv) {l : Executor.Label TaskId W}
    {sched : Executor.Sys TaskId W} (h : s.sched.next l = some sched)
    (ht : s.sched.takes l = some i) : ∃ t, s.tasks i = some t ∧ t.scheduled = true ∧
      t.running = false ∧ t.future ≠ .gone := by
  have hl : ∀ id runnable, l ≠ .schedule id runnable := fun id runnable he => by
    rw [he] at ht
    cases ht
  obtain ⟨⟨ranLocal, ranMain, hrl, hrm, hran⟩, -⟩ := Executor.moved_next hi.sched h
  obtain ⟨ranLocal', ranMain', dropped, hlogs⟩ := Executor.logs_tick hl h
  have hq := hlogs.queued hi.sched (Executor.inv_next hi.sched h)
  have hmem : i ∈ s.sched.queued := by
    rw [List.append_cancel_left (hlogs.ranLocal.symm.trans hrl),
      List.append_cancel_left (hlogs.ranMain.symm.trans hrm), Multiset.coe_add, hran, ht] at hq
    rw [Multiset.coe_nil, add_zero] at hq
    rw [hq]
    simp
  cases hi' : s.tasks i with
  | none => exact (hi.owns.absent i hi' hmem).elim
  | some t =>
      have hok := hi.owns.ok i t hi'
      obtain ⟨n, hn⟩ := Nat.exists_eq_succ_of_ne_zero (Multiset.count_pos.mpr hmem).ne'
      rw [hn] at hok
      exact ⟨t, rfl, hok.scheduled.2⟩

/-- The one place where steps are opened up task by task. -/
theorem task_next {l : Label W} (hi : s.Inv) (ht : s.tasks i = some t) (h : s.next l = some s') :
    s'.tasks i = some (s.turn i t l) := by
  -- an operation on the task `j`, and the call of the scheduler function it makes
  have hop : ∀ (running : List TaskId) {j : TaskId} {u u' : Task} {id : Option Nat} {b : Bool},
      s.tasks j = some u →
      Sys.schedule { s.put j u u' with running := running } id j b = some s' →
      s'.tasks i = if j = i then some u' else some t := by
    intro running j u u' id b hj hs
    rw [(schedule_frame hs).1]
    show (s.put j u u').tasks i = _
    rw [tasks_put, ht]
    by_cases hij : i = j
    · simp [hij]
    · simp [hij, Ne.symm hij]
  cases l with
  | tick l =>
      obtain ⟨-, sched, hnext, rfl⟩ := next_tick h
      rw [tasks_advance hi.sched hnext, ht]
      rfl
  | spawn j key pos onDrop id =>
      obtain ⟨⟨-, hnone, -, -⟩, h⟩ := next_spawn h
      have hne : i ≠ j := fun he => by rw [he, hnone] at ht; cases ht
      rw [(schedule_frame h).1]
      exact (Function.update_of_ne hne ..).trans ht
  | wake j id =>
      obtain ⟨u, hu, -, h⟩ := next_wake h
      rw [hop s.running hu h]
      unfold Sys.turn
      by_cases hij : j = i
      · subst hij
        cases hu.symm.trans ht
        simp
      · simp [hij]
  | cancel j id =>
      obtain ⟨u, hu, -, h⟩ := next_cancel h
      rw [hop s.running hu h]
      unfold Sys.turn
      by_cases hij : j = i
      · subst hij
        cases hu.symm.trans ht
        simp
      · simp [hij]
  | detach j =>
      obtain ⟨u, hu, -, rfl⟩ := next_detach h
      rw [tasks_put, ht]
      unfold Sys.turn
      by_cases hij : i = j
      · subst hij
        cases hu.symm.trans ht
        simp
      · simp [hij, Ne.symm hij]
  | wakers j held =>
      obtain ⟨u, hu, -, rfl⟩ := next_wakers h
      rw [tasks_put, ht]
      unfold Sys.turn
      by_cases hij : i = j
      · subst hij
        cases hu.symm.trans ht
        simp
      · simp [hij, Ne.symm hij]
  | ret ready onDrop id =>
      obtain ⟨j, running, u, s1, sched, hrun, hu, h1, -, rfl⟩ := next_ret h
      have hs1 : s1.tasks i = if j = i then some (u.finish ready onDrop).1 else some t := by
        rw [(schedule_frame h1).1]
        show (s.put j u (u.finish ready onDrop).1).tasks i = _
        rw [tasks_put, ht]
        by_cases hij : i = j
        · simp [hij]
        · simp [hij, Ne.symm hij]
      show s1.tasks i = _
      rw [hs1]
      unfold Sys.turn
      rw [hrun]
      by_cases hij : j = i
      · subst hij
        cases hu.symm.trans ht
        simp
      · simp [hij]

/-- A task appears when it is spawned. -/
theorem task_appears {l : Label W} (hi : s.Inv) (ht : s.tasks i = none) (h : s.next l = some s')
    (ht' : s'.tasks i = some t') :
    ∃ key pos onDrop id, l = .spawn i key pos onDrop id ∧ t' = .spawned key onDrop := by
  have hput : ∀ {j : TaskId} {u u' : Task}, s.tasks j = some u →
      (s.put j u u').tasks i ≠ some t' := by
    intro j u u' hj
    have hne : i ≠ j := fun he => by
      rw [← he, ht] at hj
      cases hj
    rw [tasks_put, if_neg hne, ht]
    simp
  cases l with
  | tick l =>
      obtain ⟨-, sched, hnext, rfl⟩ := next_tick h
      rw [tasks_advance hi.sched hnext, ht] at ht'
      cases ht'
  | spawn j key pos onDrop id =>
      obtain ⟨-, h⟩ := next_spawn h
      rw [(schedule_frame h).1] at ht'
      change Function.update s.tasks j _ i = some t' at ht'
      by_cases he : i = j
      · subst he
        rw [Function.update_self] at ht'
        exact ⟨key, pos, onDrop, id, rfl, (Option.some.inj ht').symm⟩
      · rw [Function.update_of_ne he, ht] at ht'
        cases ht'
  | wake j id =>
      obtain ⟨u, hu, -, h⟩ := next_wake h
      rw [(schedule_frame h).1] at ht'
      exact (hput hu ht').elim
  | cancel j id =>
      obtain ⟨u, hu, -, h⟩ := next_cancel h
      rw [(schedule_frame h).1] at ht'
      exact (hput hu ht').elim
  | detach j =>
      obtain ⟨u, hu, -, rfl⟩ := next_detach h
      exact (hput hu ht').elim
  | wakers j held =>
      obtain ⟨u, hu, -, rfl⟩ := next_wakers h
      exact (hput hu ht').elim
  | ret ready onDrop id =>
      obtain ⟨j, running, u, s1, sched, -, hu, h1, -, rfl⟩ := next_ret h
      change s1.tasks i = some t' at ht'
      rw [(schedule_frame h1).1] at ht'
      exact (hput hu ht').elim

/-- The Runnables that are being run. -/
theorem running_next {l : Label W} (hi : s.Inv) (h : s.next l = some s') :
    s'.running = s.runningAfter l := by
  cases l with
  | tick l =>
      obtain ⟨-, sched, hnext, rfl⟩ := next_tick h
      rw [advance_eq hi.sched hnext]
      show _ = (s.sched.takes l).toList ++ s.running
      cases hd : s.sched.drops l with
      | some j =>
          rw [takes_of_drops hd]
          exact running_lose ..
      | none =>
          cases ht : s.sched.takes l with
          | none => rfl
          | some j =>
              obtain ⟨t, hj, -⟩ := owner_of_takes hi hnext ht
              exact running_start (s := { s with sched }) hj
  | spawn j key pos onDrop id =>
      obtain ⟨-, h⟩ := next_spawn h
      exact (schedule_frame h).2
  | wake j id =>
      obtain ⟨u, -, -, h⟩ := next_wake h
      exact (schedule_frame h).2
  | cancel j id =>
      obtain ⟨u, -, -, h⟩ := next_cancel h
      exact (schedule_frame h).2
  | detach j =>
      obtain ⟨u, -, -, rfl⟩ := next_detach h
      rfl
  | wakers j held =>
      obtain ⟨u, -, -, rfl⟩ := next_wakers h
      rfl
  | ret ready onDrop id =>
      obtain ⟨j, running, u, s1, sched, hrun, -, h1, -, rfl⟩ := next_ret h
      show s1.running = s.running.tail
      rw [(schedule_frame h1).2, hrun]
      rfl

end Turn

/-! ## Wake-ups -/

/-- What a step says of the task `i`: it is woken, or its Runnable is taken
out to be run. -/
def wakeUp (i : TaskId) : Sys W × Label W → Option Bool
  | (_, .spawn j ..) => if j = i then some true else none
  | (_, .wake j _) => if j = i then some true else none
  | (s, .tick l) => if s.sched.takes l = some i then some false else none
  | _ => none

/-- The task has been spawned or woken since its latest poll began. -/
def Due (tr : List (Sys W × Label W)) (i : TaskId) : Prop :=
  System.latest (wakeUp i) tr = some true

instance (tr : List (Sys W × Label W)) (i : TaskId) : Decidable (Due tr i) :=
  inferInstanceAs (Decidable (_ = _))

namespace Task

/-- The task is neither done nor cancelled. -/
def Open (t : Task) : Prop := t.future ≠ .gone ∧ t.closed = false

variable {t : Task}

theorem not_open_lose (t : Task) : ¬ t.lose.Open := fun h => h.1 rfl

theorem open_start (hg : t.future ≠ .gone) (h : t.start.Open) :
    t.Open ∧ t.start.scheduled = false := by
  unfold Task.start at h ⊢
  split at h
  · exact (h.1 rfl).elim
  · rename_i hc
    rw [if_neg hc]
    exact ⟨⟨hg, h.2⟩, rfl⟩

theorem open_wake (h : t.wake.1.Open) : t.Open ∧ t.wake.1.scheduled = true := by
  unfold Task.wake at h ⊢
  split at h
  · rename_i hc
    rw [if_pos hc]
    refine ⟨h, ?_⟩
    rcases hc with hg | hc | hs
    · exact (h.1 hg).elim
    · cases hc.symm.trans h.2
    · exact hs
  · rename_i hc
    rw [if_neg hc]
    exact ⟨h, rfl⟩

theorem not_open_cancel (t : Task) : ¬ t.cancel.1.Open := by
  unfold Task.cancel
  split
  · rename_i hc
    rintro ⟨hg, hcl⟩
    rcases hc with hc | hc
    · exact hg hc
    · cases hc.symm.trans hcl
  · rintro ⟨-, hcl⟩
    cases hcl

theorem open_finish {ready : Bool} {onDrop : List Destructor} (h : (t.finish ready onDrop).1.Open) :
    t.Open ∧ (t.finish ready onDrop).1.scheduled = t.scheduled := by
  unfold Task.finish at h ⊢
  split at h
  · rename_i hr
    rw [if_pos hr]
    exact ⟨h, rfl⟩
  · rename_i hr
    rw [if_neg hr]
    split at h
    · exact (h.1 rfl).elim
    · rename_i hc
      rw [if_neg hc]
      exact ⟨h, rfl⟩

end Task

/-- The flag of an open task says whether the task is due. -/
def Flagged (tr : List (Sys W × Label W)) (s : Sys W) : Prop :=
  ∀ i t, s.tasks i = some t → t.Open → (t.scheduled = true ↔ Due tr i)

section Flagged

variable [WillWake W] {s s' : Sys W} {i : TaskId} {t : Task} {id : Option Nat}
  {tr : List (Sys W × Label W)}

omit [WillWake W] in
theorem due_append (tr : List (Sys W × Label W)) (i : TaskId) (x : Sys W × Label W) :
    Due (tr ++ [x]) i ↔ (wakeUp i x).or (System.latest (wakeUp i) tr) = some true := by
  rw [Due, System.latest_append]

omit [WillWake W] in
/-- No step opens a task again; a task that is woken is scheduled, one
whose Runnable is run is not, and nothing else changes the flag. -/
theorem open_turn {l : Label W} (hl : ∀ key pos onDrop id, l ≠ .spawn i key pos onDrop id)
    (hg : wakeUp i (s, l) = some false → t.future ≠ .gone)
    (h : (s.turn i t l).Open) :
    t.Open ∧ (s.turn i t l).scheduled = (wakeUp i (s, l)).getD t.scheduled := by
  unfold Sys.turn at h ⊢
  unfold wakeUp at hg ⊢
  cases l with
  | tick l =>
      dsimp only at h ⊢
      by_cases hd : s.sched.drops l = some i
      · rw [if_pos hd] at h
        exact (Task.not_open_lose t h).elim
      · rw [if_neg hd] at h ⊢
        by_cases ht : s.sched.takes l = some i
        · rw [if_pos ht] at h ⊢
          rw [if_pos ht]
          exact Task.open_start (hg (if_pos ht)) h
        · rw [if_neg ht] at h ⊢
          rw [if_neg ht]
          exact ⟨h, rfl⟩
  | spawn j key pos onDrop id =>
      have hne : j ≠ i := fun he => hl key pos onDrop id (by rw [he])
      exact ⟨h, by simp [hne]⟩
  | wake j id =>
      dsimp only at h ⊢
      by_cases hj : j = i
      · rw [if_pos hj] at h ⊢
        rw [if_pos hj]
        exact Task.open_wake h
      · rw [if_neg hj] at h ⊢
        rw [if_neg hj]
        exact ⟨h, rfl⟩
  | cancel j id =>
      dsimp only at h ⊢
      by_cases hj : j = i
      · rw [if_pos hj] at h
        exact (Task.not_open_cancel t h).elim
      · rw [if_neg hj] at h ⊢
        exact ⟨h, rfl⟩
  | detach j | wakers j held =>
      dsimp only at h ⊢
      by_cases hj : j = i
      · rw [if_pos hj] at h ⊢
        exact ⟨h, rfl⟩
      · rw [if_neg hj] at h ⊢
        exact ⟨h, rfl⟩
  | ret ready onDrop id =>
      dsimp only at h ⊢
      by_cases hj : s.running.head? = some i
      · rw [if_pos hj] at h ⊢
        exact Task.open_finish h
      · rw [if_neg hj] at h ⊢
        exact ⟨h, rfl⟩

/-- The Runnable of a task that is done is not run. -/
theorem future_of_wakeUp {l : Label W} (hi : s.Inv) (ht : s.tasks i = some t)
    (h : s.next l = some s') (hw : wakeUp i (s, l) = some false) : t.future ≠ .gone := by
  cases l with
  | tick l =>
      obtain ⟨-, sched, hnext, -⟩ := next_tick h
      rw [wakeUp] at hw
      split at hw
      · rename_i htakes
        obtain ⟨t', ht', -, -, hg⟩ := owner_of_takes hi hnext htakes
        cases ht.symm.trans ht'
        exact hg
      · cases hw
  | spawn j key pos onDrop id | wake j id =>
      rw [wakeUp] at hw
      split at hw
      · cases hw
      · cases hw
  | _ => cases hw

theorem flagged_next {l : Label W} (hi : s.Inv) (hf : Flagged tr s) (h : s.next l = some s') :
    Flagged (tr ++ [(s, l)]) s' := by
  intro i t' ht' hopen
  cases ht : s.tasks i with
  | none =>
      obtain ⟨key, pos, onDrop, id, rfl, rfl⟩ := task_appears hi ht h ht'
      rw [due_append]
      exact iff_of_true rfl (by simp [wakeUp])
  | some t =>
      obtain rfl := Option.some.inj ((task_next hi ht h).symm.trans ht')
      have hl : ∀ key pos onDrop id, l ≠ .spawn i key pos onDrop id := by
        rintro key pos onDrop id rfl
        obtain ⟨⟨-, hnone, -, -⟩, -⟩ := next_spawn h
        cases hnone.symm.trans ht
      obtain ⟨hopen, hflag⟩ := open_turn hl (future_of_wakeUp hi ht h) hopen
      rw [due_append, hflag]
      cases hw : wakeUp i (s, l) with
      | none => exact hf i t ht hopen
      | some b => simp

theorem flagged_run (h : (system id).Run tr s) : Flagged tr s := by
  refine h.history (I := Flagged) ?_ fun tr s l s' hr hf hs => ?_
  · rintro s rfl i t ht
    cases ht
  · exact flagged_next (inv_reachable ⟨tr, hr⟩) hf hs

/-- An unfinished task that is not being polled has exactly one Runnable in
the queues and the tags of the executor if it was cancelled, or spawned or
woken since its latest poll began, and none otherwise; a task that is being
polled or is done has none. -/
theorem runnable_exact (id : Option Nat) (h : (system id).Run tr s) (ht : s.tasks i = some t) :
    s.sched.queued.count i =
      if t.future ≠ .gone ∧ t.running = false ∧
        (t.closed = true ∨ Due tr i) then 1 else 0 := by
  have hok := (inv_reachable ⟨tr, h⟩).owns.ok i t ht
  rw [hok.count]
  refine if_congr ?_ rfl rfl
  constructor
  · rintro ⟨hs, hr⟩
    have hg : t.future ≠ .gone := fun hg => by
      rw [(hok.gone hg).1] at hs
      cases hs
    refine ⟨hg, hr, ?_⟩
    cases hc : t.closed with
    | true => exact .inl rfl
    | false => exact .inr ((flagged_run h i t ht ⟨hg, hc⟩).mp hs)
  · rintro ⟨hg, hr, hdue⟩
    refine ⟨?_, hr⟩
    cases hc : t.closed with
    | true => exact (hok.closed hc hg).resolve_right (by simp [hr])
    | false =>
        rw [hc] at hdue
        exact (flagged_run h i t ht ⟨hg, hc⟩).mpr (hdue.resolve_left (by simp))

end Flagged

/-- A task is woken twice while it is being polled, and goes on waiting. -/
def wokenWhileRunning : List (Label Nat) :=
  [.spawn 0 0 0 [] (some 7), .tick .tryTick, .wakers 0 true, .wake 0 (some 7),
    .wake 0 (some 7), .ret false [] (some 7)]

theorem exec_wokenWhileRunning :
    (exec Sys.next (.init (some 7)) wokenWhileRunning).map
      (fun s => (s.tasks 0).map fun t => (t.future, t.running)) =
        some (some (.started, false)) := by
  decide

theorem due_wokenWhileRunning :
    Due (execTrace Sys.next (.init (some 7)) wokenWhileRunning) 0 := by decide

theorem runnable_wokenWhileRunning : ∃ s : Sys Nat, s.sched.queued.count 0 = 1 := by
  obtain ⟨s, hrun, hobs⟩ := run_of_observe _ _ _ exec_wokenWhileRunning
  obtain ⟨t, ht, hobs⟩ := Option.map_eq_some_iff.mp hobs
  obtain ⟨hf, hr⟩ := Prod.mk.inj hobs
  refine ⟨s,
    (runnable_exact (some 7) hrun ht).trans (if_pos ⟨?_, hr, .inr due_wokenWhileRunning⟩)⟩
  rw [hf]
  simp

end Tasks

end Unsend

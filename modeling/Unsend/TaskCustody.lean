import Unsend.SchedulerSteps
import Unsend.Tasks

/-!
# Tasks and their Runnables

What holds in every reachable state of a live executor: the Runnables in
its queues and in the tags of its tickers are exactly those of the tasks
that are scheduled, one each; every unfinished task has its own entry in
`active`; a task that is neither scheduled nor running has been polled
before.
-/

namespace Unsend

/-! ## The Runnables of the scheduling half -/

namespace Executor

variable {R W : Type}

/-- The Runnables that are waiting to be run. -/
def Sys.queued (s : Sys R W) : Multiset R :=
  s.state.threadState.taskQueue + s.state.taskQueue + s.state.queue.held

section Queued

variable {s s' : Sys R W}

theorem queued_balance (hi : s.Inv) : (s.scheduledLocal + s.scheduledMain : Multiset R) =
    s.ranLocal + s.ranMain + s.dropped + s.queued := by
  rw [hi.onOrigin, hi.onMain, ← Multiset.coe_add]
  unfold Sys.queued
  abel

/-- The logs of what was scheduled, run and dropped only grow. -/
structure Logs (s s' : Sys R W) (runnables ranLocal ranMain dropped : List R) : Prop where
  scheduled : (s'.scheduledLocal + s'.scheduledMain : Multiset R) =
    s.scheduledLocal + s.scheduledMain + runnables
  ranLocal : s'.ranLocal = s.ranLocal ++ ranLocal
  ranMain : s'.ranMain = s.ranMain ++ ranMain
  dropped : s'.dropped = s.dropped ++ dropped

theorem logs_refl (hl : s'.scheduledLocal = s.scheduledLocal)
    (hm : s'.scheduledMain = s.scheduledMain) (hrl : s'.ranLocal = s.ranLocal)
    (hrm : s'.ranMain = s.ranMain) (hd : s'.dropped = s.dropped) : Logs s s' [] [] [] [] where
  scheduled := by rw [hl, hm, Multiset.coe_nil, add_zero]
  ranLocal := by rw [hrl, List.append_nil]
  ranMain := by rw [hrm, List.append_nil]
  dropped := by rw [hd, List.append_nil]

theorem Logs.queued {runnables ranLocal ranMain dropped : List R}
    (h : Logs s s' runnables ranLocal ranMain dropped) (hi : s.Inv) (hi' : s'.Inv) :
    s.queued + runnables = ranLocal + ranMain + dropped + s'.queued := by
  have hb := queued_balance hi
  have hb' := queued_balance hi'
  rw [h.scheduled, h.ranLocal, h.ranMain, h.dropped, hb, ← Multiset.coe_add, ← Multiset.coe_add,
    ← Multiset.coe_add] at hb'
  refine add_left_cancel (a := (s.ranLocal + s.ranMain + s.dropped : Multiset R)) ?_
  rw [← add_assoc, hb']
  abel

variable [WillWake W]

theorem logs_schedule {id : Option Nat} {runnable : R}
    (h : s.next (.schedule id runnable) = some s') : Logs s s' [runnable] [] [] [] := by
  obtain ⟨-, -, rfl⟩ | ⟨-, rfl⟩ := next_schedule h
  · refine ⟨?_, (List.append_nil _).symm, (List.append_nil _).symm, (List.append_nil _).symm⟩
    show ((s.scheduledLocal ++ [runnable] : List R) : Multiset R) + _ = _
    rw [← Multiset.coe_add]
    exact add_right_comm ..
  · refine ⟨?_, (List.append_nil _).symm, (List.append_nil _).symm, (List.append_nil _).symm⟩
    show _ + ((s.scheduledMain ++ [runnable] : List R) : Multiset R) = _
    rw [← Multiset.coe_add, add_assoc]
    rfl

theorem logs_ret (h : s.next .ret = some s') : Logs s s' [] [] [] [] := by
  rcases ret_cases h with ⟨k, cx, rest, t, -, -, -, rfl⟩ | ⟨rest, -, rfl⟩
  · exact logs_refl rfl rfl rfl rfl rfl
  · exact logs_refl rfl rfl rfl rfl rfl

omit [WillWake W] in
theorem logs_settle (s : Sys R W) (k : Ptr) (stack : List (Frame W)) (out : TickOut R W) :
    Logs s (s.settle k stack out) [] out.tookLocal out.tookMain out.dropped.toList :=
  ⟨(add_zero _).symm, rfl, rfl, rfl⟩

omit [WillWake W] in
theorem logs_tryTick (s : Sys R W) : ∃ ranLocal, Logs s s.tryTick [] ranLocal [] [] := by
  unfold Sys.tryTick
  split
  · exact ⟨_, (add_zero _).symm, rfl, (List.append_nil _).symm, (List.append_nil _).symm⟩
  · exact ⟨[], logs_refl rfl rfl rfl rfl rfl⟩

theorem logs_step (h : s.next .step = some s') :
    ∃ ranLocal ranMain dropped, Logs s s' [] ranLocal ranMain dropped := by
  rcases innermost_cases h with ⟨k, cx, rest, t, out, -, -, -, rfl⟩ |
    ⟨rest, runnable, queue, -, -, rfl⟩ | ⟨rest, -, -, rfl⟩ | ⟨rest, -, rfl⟩
  · exact ⟨_, _, _, logs_settle ..⟩
  · exact ⟨[], _, [], (add_zero _).symm, (List.append_nil _).symm, rfl,
      (List.append_nil _).symm⟩
  · exact ⟨[], [], [], logs_refl rfl rfl rfl rfl rfl⟩
  · exact ⟨[], [], [], logs_refl rfl rfl rfl rfl rfl⟩

/-- A step of the tickers schedules nothing. -/
theorem logs_tick {l : Label R W} (hl : ∀ id runnable, l ≠ .schedule id runnable)
    (h : s.next l = some s') :
    ∃ ranLocal ranMain dropped, Logs s s' [] ranLocal ranMain dropped := by
  cases l with
  | schedule id runnable => exact (hl id runnable rfl).elim
  | wake =>
      obtain ⟨-, rfl⟩ := next_wake h
      exact ⟨[], [], [], logs_refl rfl rfl rfl rfl rfl⟩
  | create k oneShot =>
      obtain ⟨-, -, rfl⟩ := next_create h
      exact ⟨[], [], [], logs_refl rfl rfl rfl rfl rfl⟩
  | poll k w =>
      obtain ⟨-, t, -, ⟨-, rfl⟩ | ⟨-, rfl⟩⟩ := next_poll h
      · exact ⟨[], [], [], logs_refl rfl rfl rfl rfl rfl⟩
      · exact ⟨[], [], [], logs_refl rfl rfl rfl rfl rfl⟩
  | drop k =>
      obtain ⟨-, t, -, -, rfl⟩ := next_drop h
      exact ⟨_, _, _, logs_settle ..⟩
  | tryTick =>
      obtain ⟨-, rfl⟩ := next_tryTick h
      obtain ⟨ranLocal, hlogs⟩ := logs_tryTick s
      exact ⟨ranLocal, [], [], hlogs⟩
  | step => exact logs_step h
  | ret => exact ⟨[], [], [], logs_ret h⟩

end Queued

end Executor

namespace Tasks

variable {W : Type}

/-! ## The tasks -/

/-- What holds of a task with `n` Runnables. -/
structure Task.Ok (t : Task) (n : Nat) : Prop where
  count : n = if t.scheduled = true ∧ t.running = false then 1 else 0
  gone : t.future = .gone → t.scheduled = false ∧ t.running = false
  unpolled : t.future = .unpolled → t.scheduled = true ∧ t.running = false
  closed : t.closed = true → t.future ≠ .gone → t.scheduled = true ∨ t.running = true

namespace Task

variable {t : Task} {n : Nat}

/-- What an operation on a task keeps; it makes one more Runnable if it
calls the scheduler function. -/
structure Keeps (t : Task) (n : Nat) (out : Task × Bool) : Prop where
  ok : out.1.Ok (n + if out.2 then 1 else 0)
  key : out.1.key = t.key
  gone : t.future = .gone → out.1.future = .gone
  running : out.1.running = true → t.running = true

theorem Ok.wake (h : t.Ok n) : t.Keeps n t.wake := by
  unfold Task.wake
  split
  · exact ⟨h, rfl, id, id⟩
  · rename_i hc
    obtain ⟨hg, hcl, hs⟩ : t.future ≠ .gone ∧ t.closed = false ∧ t.scheduled = false := by
      simpa using hc
    have hcount := h.count
    refine ⟨⟨?_, ?_, ?_, ?_⟩, rfl, id, id⟩
    · rw [hs] at hcount
      cases hr : t.running with
      | true => simpa [hr] using hcount
      | false => simpa [hr] using hcount
    · intro hgone
      exact (hg hgone).elim
    · intro hun
      exact ⟨rfl, (h.unpolled hun).2⟩
    · intro _ _
      exact .inl rfl

theorem Ok.cancel (h : t.Ok n) : t.Keeps n t.cancel := by
  unfold Task.cancel
  split
  · exact ⟨⟨h.count, h.gone, h.unpolled, h.closed⟩, rfl, id, id⟩
  · rename_i hc
    obtain ⟨hg, hcl⟩ : t.future ≠ .gone ∧ t.closed = false := by simpa using hc
    have hcount := h.count
    refine ⟨⟨?_, ?_, ?_, ?_⟩, rfl, id, id⟩
    · cases hs : t.scheduled with
      | true =>
          rw [hs] at hcount
          cases hr : t.running with
          | true => simpa [hr] using hcount
          | false => simpa [hr] using hcount
      | false =>
          rw [hs] at hcount
          cases hr : t.running with
          | true => simpa [hr] using hcount
          | false => simpa [hr] using hcount
    · intro hgone
      exact (hg hgone).elim
    · intro hun
      obtain ⟨h1, h2⟩ := h.unpolled hun
      exact ⟨by simp [h1], h2⟩
    · intro _ _
      show (t.scheduled || !t.running) = true ∨ t.running = true
      cases t.running with
      | true => exact .inr rfl
      | false => exact .inl (by simp)

theorem Ok.dropWaker (h : t.Ok n) : t.Keeps n t.dropWaker := by
  unfold Task.dropWaker
  split
  · rename_i hc
    have hidle := hc.1
    simp only [Task.idle, Bool.and_eq_true, Bool.not_eq_true', bne_iff_ne] at hidle
    obtain ⟨⟨hg, hs⟩, hr⟩ := hidle
    have hcount := h.count
    rw [hs] at hcount
    refine ⟨⟨?_, fun hgone => (hg hgone).elim, fun _ => ⟨rfl, hr⟩, fun _ _ => .inl rfl⟩,
      rfl, id, id⟩
    simpa [hr] using hcount
  · exact ⟨h, rfl, id, id⟩

theorem Ok.finish (h : t.Ok n) (ready : Bool) (onDrop : List Destructor) :
    t.Keeps n (t.finish ready onDrop) := by
  unfold Task.finish
  split
  · exact ⟨h, rfl, id, id⟩
  · rename_i hr
    have hr' : t.running = true := by simpa using hr
    have hcount := h.count
    rw [hr'] at hcount
    split
    · refine ⟨⟨?_, fun _ => ⟨rfl, rfl⟩, ?_, ?_⟩, rfl, fun _ => rfl,
        fun h => by cases h⟩
      · simpa using hcount
      · intro hun
        cases hun
      · intro _ hne
        exact (hne rfl).elim
    · rename_i hc
      obtain ⟨-, hcl⟩ : ready = false ∧ t.closed = false := by simpa using hc
      refine ⟨⟨?_, ?_, ?_, ?_⟩, rfl, id, fun h => by cases h⟩
      · cases hs : t.scheduled with
        | true => simpa using hcount
        | false => simpa using hcount
      · intro hgone
        have := (h.gone hgone).2
        rw [hr'] at this
        cases this
      · intro hun
        have := (h.unpolled hun).2
        rw [hr'] at this
        cases this
      · intro hclosed
        rw [hcl] at hclosed
        cases hclosed

theorem running_finish (t : Task) (ready : Bool) (onDrop : List Destructor) :
    (t.finish ready onDrop).1.running = false := by
  unfold Task.finish
  split
  · rename_i hr
    simpa using hr
  · split
    · rfl
    · rfl

/-- A task with a Runnable is scheduled and not running. -/
theorem Ok.scheduled (h : t.Ok (n + 1)) :
    n = 0 ∧ t.scheduled = true ∧ t.running = false ∧ t.future ≠ .gone := by
  have hcount := h.count
  split at hcount
  · rename_i hc
    refine ⟨by omega, hc.1, hc.2, fun hg => ?_⟩
    have := (h.gone hg).1
    rw [hc.1] at this
    cases this
  · omega

theorem Ok.start (h : t.Ok (n + 1)) : t.start.Ok n := by
  obtain ⟨rfl, hs, hr, hg⟩ := h.scheduled
  unfold Task.start
  split
  · refine ⟨by simp, fun _ => ⟨rfl, hr⟩, ?_, fun _ hne => (hne rfl).elim⟩
    intro hun
    cases hun
  · refine ⟨by simp, ?_, ?_, fun _ _ => .inr rfl⟩
    · intro hgone
      cases hgone
    · intro hun
      cases hun

theorem Ok.lose (h : t.Ok (n + 1)) : t.lose.Ok n := by
  obtain ⟨rfl, hs, hr, hg⟩ := h.scheduled
  refine ⟨by simp [Task.lose], fun _ => ⟨rfl, hr⟩, ?_, fun _ hne => (hne rfl).elim⟩
  intro hun
  cases hun

end Task

/-- The tasks own the Runnables in `q`, one each, and the unfinished ones
their entries in `active`. -/
structure Sys.Owns (s : Sys W) (q : Multiset TaskId) : Prop where
  absent : ∀ i, s.tasks i = none → i ∉ q
  ok : ∀ i t, s.tasks i = some t → t.Ok (q.count i)
  unfinished : ∀ i t, s.tasks i = some t → t.future ≠ .gone → (t.key, i) ∈ s.active
  entry : ∀ x ∈ s.active, ∃ t, s.tasks x.2 = some t ∧ t.key = x.1
  keys : (s.active.map Prod.fst).Nodup
  running : ∀ i t, s.tasks i = some t → t.running = true → i ∈ s.running

structure Sys.Inv (s : Sys W) : Prop where
  sched : s.sched.Inv
  owns : s.Owns s.sched.queued

section Owns

variable {s : Sys W} {q q' : Multiset TaskId} {i : TaskId} {t t' : Task}

/-- One task changes, and with it what it owns. -/
theorem Sys.Owns.put (running : List TaskId) (h : s.Owns q) (hi : s.tasks i = some t)
    (hok : t'.Ok (q'.count i))
    (hq : ∀ j, j ≠ i → q'.count j = q.count j) (hkey : t'.key = t.key)
    (hgone : t.future = .gone → t'.future = .gone)
    (hrun : t'.running = true → i ∈ running)
    (hruns : ∀ j, j ≠ i → j ∈ s.running → j ∈ running) :
    Sys.Owns { s.put i t t' with running := running } q' := by
  have hother : ∀ j, j ≠ i → Function.update s.tasks i (some t') j = s.tasks j :=
    fun j hj => Function.update_of_ne hj ..
  have hactive : ∀ x, x ∈ (s.put i t t').active ↔
      x ∈ s.active ∧ (t.guard t' = true → x.1 ≠ t.key) := by
    intro x
    show x ∈ (if t.guard t' then tryRemove s.active t.key else s.active) ↔ _
    cases hg : t.guard t' with
    | true => simp [tryRemove]
    | false => simp
  refine ⟨?_, ?_, ?_, ?_, ?_, ?_⟩
  · intro j hj
    by_cases he : j = i
    · rw [he] at hj
      change Function.update s.tasks i (some t') i = none at hj
      rw [Function.update_self] at hj
      cases hj
    · change Function.update s.tasks i (some t') j = none at hj
      rw [hother j he] at hj
      rw [← Multiset.count_eq_zero, hq j he, Multiset.count_eq_zero]
      exact h.absent j hj
  · intro j u hj
    change Function.update s.tasks i (some t') j = some u at hj
    by_cases he : j = i
    · rw [he, Function.update_self] at hj
      cases hj
      rw [he]
      exact hok
    · rw [hother j he] at hj
      rw [hq j he]
      exact h.ok j u hj
  · intro j u hj hu
    change Function.update s.tasks i (some t') j = some u at hj
    refine (hactive _).mpr ?_
    by_cases he : j = i
    · rw [he, Function.update_self] at hj
      cases hj
      rw [he, hkey]
      refine ⟨h.unfinished i t hi fun hg => hu (hgone hg), fun hg => ?_⟩
      simp only [Task.guard, Bool.and_eq_true, beq_iff_eq] at hg
      exact (hu hg.2).elim
    · rw [hother j he] at hj
      refine ⟨h.unfinished j u hj hu, fun hg hk => he ?_⟩
      simp only [Task.guard, Bool.and_eq_true, beq_iff_eq] at hg
      have h1 := h.unfinished j u hj hu
      have h2 := h.unfinished i t hi fun hg' => by rw [hg.1] at hg'; cases hg'
      have := List.inj_on_of_nodup_map h.keys h1 h2 hk
      exact congrArg Prod.snd this
  · intro x hx
    obtain ⟨u, hu, hk⟩ := h.entry x ((hactive x).mp hx).1
    show ∃ u, Function.update s.tasks i (some t') x.2 = some u ∧ _
    by_cases he : x.2 = i
    · rw [he, Function.update_self]
      rw [he, hi] at hu
      cases hu
      exact ⟨t', rfl, hkey.trans hk⟩
    · rw [hother _ he]
      exact ⟨u, hu, hk⟩
  · show ((if t.guard t' then tryRemove s.active t.key else s.active).map Prod.fst).Nodup
    split
    · exact (List.filter_sublist.map _).nodup h.keys
    · exact h.keys
  · intro j u hj hu
    change Function.update s.tasks i (some t') j = some u at hj
    by_cases he : j = i
    · rw [he, Function.update_self] at hj
      cases hj
      exact he ▸ hrun hu
    · rw [hother j he] at hj
      exact hruns j he (h.running j u hj hu)

theorem count_keeps {out : Task × Bool} (hk : t.Keeps (q.count i) out) :
    out.1.Ok (Multiset.count i (if out.2 then i ::ₘ q else q)) := by
  have hok := hk.ok
  cases hcall : out.2 with
  | true =>
      rw [if_pos rfl, Multiset.count_cons_self]
      rw [hcall] at hok
      exact hok
  | false =>
      rw [hcall] at hok
      exact hok

theorem count_other {call : Bool} {j : TaskId} (hj : j ≠ i) :
    Multiset.count j (if call then i ::ₘ q else q) = q.count j := by
  split
  · exact Multiset.count_cons_of_ne hj q
  · rfl

/-- An operation that may call the scheduler function. -/
theorem Sys.Owns.keeps (h : s.Owns q) (hi : s.tasks i = some t) {out : Task × Bool}
    (hk : t.Keeps (q.count i) out) :
    (s.put i t out.1).Owns (if out.2 then i ::ₘ q else q) := by
  exact h.put s.running hi (count_keeps hk) (fun j hj => count_other hj) hk.key hk.gone
    (fun hr => h.running i t hi (hk.running hr)) fun j _ hj => hj

/-- A Runnable that is taken out belongs to a task. -/
theorem Sys.Owns.owner (h : s.Owns (i ::ₘ q)) :
    ∃ t, s.tasks i = some t ∧ t.Ok (q.count i + 1) := by
  cases hi : s.tasks i with
  | none => exact (h.absent i hi (Multiset.mem_cons_self ..)).elim
  | some t =>
      have := h.ok i t hi
      rw [Multiset.count_cons_self] at this
      exact ⟨t, rfl, this⟩

theorem Sys.Owns.start (h : s.Owns (i ::ₘ q)) : (s.start i).Owns q := by
  obtain ⟨t, hi, hok⟩ := h.owner
  unfold Sys.start
  rw [hi]
  refine h.put _ hi hok.start (fun j hj => (Multiset.count_cons_of_ne hj q).symm) ?_ ?_
    (fun _ => List.mem_cons_self ..) fun j _ hj => List.mem_cons_of_mem _ hj
  · unfold Task.start
    split
    · rfl
    · rfl
  · intro hg
    exact (hok.scheduled.2.2.2 hg).elim

theorem Sys.Owns.lose (h : s.Owns (i ::ₘ q)) : (s.lose i).Owns q := by
  obtain ⟨t, hi, hok⟩ := h.owner
  unfold Sys.lose
  rw [hi]
  refine h.put s.running hi hok.lose
    (fun j hj => (Multiset.count_cons_of_ne hj q).symm) rfl (fun _ => rfl) ?_ fun j _ hj => hj
  intro hr
  have := hok.scheduled.2.2.1
  change t.running = true at hr
  rw [this] at hr
  cases hr

theorem Sys.Owns.start_all : ∀ {l : List TaskId} {s : Sys W}, s.Owns (l + q) →
    (l.foldl Sys.start s).Owns q := by
  intro l
  induction l with
  | nil =>
      intro s h
      simpa using h
  | cons i l ih =>
      intro s h
      rw [← Multiset.cons_coe, Multiset.cons_add] at h
      show (l.foldl Sys.start (s.start i)).Owns q
      exact ih h.start

theorem Sys.Owns.lose_all : ∀ {l : List TaskId} {s : Sys W}, s.Owns (l + q) →
    (l.foldl Sys.lose s).Owns q := by
  intro l
  induction l with
  | nil =>
      intro s h
      simpa using h
  | cons i l ih =>
      intro s h
      rw [← Multiset.cons_coe, Multiset.cons_add] at h
      show (l.foldl Sys.lose (s.lose i)).Owns q
      exact ih h.lose

theorem sched_start_all :
    ∀ (l : List TaskId) (s : Sys W), (l.foldl Sys.start s).sched = s.sched := by
  intro l
  induction l with
  | nil => exact fun _ => rfl
  | cons i l ih =>
      intro s
      refine (ih (s.start i)).trans ?_
      unfold Sys.start
      split
      · rfl
      · rfl

theorem sched_lose_all :
    ∀ (l : List TaskId) (s : Sys W), (l.foldl Sys.lose s).sched = s.sched := by
  intro l
  induction l with
  | nil => exact fun _ => rfl
  | cons i l ih =>
      intro s
      refine (ih (s.lose i)).trans ?_
      unfold Sys.lose
      split
      · rfl
      · rfl

end Owns

/-! ## Steps -/

section Next

variable [WillWake W] {s s' : Sys W} {i : TaskId} {id : Option Nat}

theorem inv_advance (hi : s.Inv) {sched : Executor.Sys TaskId W} {l : Executor.Label TaskId W}
    (hl : isTick l = true) (h : s.sched.next l = some sched) : (s.advance sched).Inv := by
  have hi' := Executor.inv_next hi.sched h
  obtain ⟨ranLocal, ranMain, dropped, hlogs⟩ := Executor.logs_tick
    (fun id runnable he => by rw [he] at hl; cases hl) h
  have hq := hlogs.queued hi.sched hi'
  have hadv : s.advance sched =
      dropped.foldl Sys.lose ((ranLocal ++ ranMain).foldl Sys.start { s with sched }) := by
    unfold Sys.advance
    rw [hlogs.ranLocal, hlogs.ranMain, hlogs.dropped, List.drop_left, List.drop_left,
      List.drop_left]
  have hsched : (s.advance sched).sched = sched := by
    rw [hadv, sched_lose_all, sched_start_all]
  refine ⟨by rw [hsched]; exact hi', ?_⟩
  rw [hsched, hadv]
  refine Sys.Owns.lose_all (Sys.Owns.start_all ?_)
  have howns := hi.owns
  rw [Multiset.coe_nil, add_zero] at hq
  rw [hq] at howns
  rw [← Multiset.coe_add, ← add_assoc]
  exact ⟨howns.absent, howns.ok, howns.unfinished, howns.entry, howns.keys, howns.running⟩

/-- The scheduler function is called for the Runnable that was made. -/
theorem inv_schedule {b : Bool} (hi : s.sched.Inv)
    (howns : s.Owns (if b then i ::ₘ s.sched.queued else s.sched.queued))
    (h : s.schedule id i b = some s') : s'.Inv := by
  cases b with
  | false =>
      obtain rfl := Option.some.inj h
      exact ⟨hi, howns⟩
  | true =>
      obtain ⟨sched, hnext, rfl⟩ := Option.map_eq_some_iff.mp h
      have hi' := Executor.inv_next hi hnext
      have hq := (Executor.logs_schedule hnext).queued hi hi'
      have hq' : sched.queued = i ::ₘ s.sched.queued := by
        rw [← Multiset.singleton_add, add_comm]
        simpa using hq.symm
      refine ⟨hi', ?_⟩
      show Sys.Owns _ sched.queued
      rw [hq']
      exact ⟨howns.absent, howns.ok, howns.unfinished, howns.entry, howns.keys, howns.running⟩

/-- An operation on a task, and the call of the scheduler function it may
make. -/
theorem inv_keeps (hi : s.Inv) {t : Task} (ht : s.tasks i = some t) {out : Task × Bool}
    (hk : t.Keeps (s.sched.queued.count i) out)
    (h : (s.put i t out.1).schedule id i out.2 = some s') : s'.Inv :=
  inv_schedule (i := i) (s := s.put i t out.1) hi.sched (hi.owns.keeps ht hk) h

omit [WillWake W] in
/-- A task is spawned. -/
theorem owns_insert (hi : s.Inv) (hnone : s.tasks i = none) {key pos : Nat}
    (hkey : key ∉ s.active.map Prod.fst) (hpos : pos ≤ s.active.length)
    (onDrop : List Destructor) :
    (s.insert i key pos onDrop).Owns (i ::ₘ s.sched.queued) := by
  have h := hi.owns
  have hperm := List.perm_insertIdx (key, i) s.active hpos
  refine ⟨?_, ?_, ?_, ?_, ?_, ?_⟩
  · intro j hj
    change Function.update s.tasks i _ j = none at hj
    by_cases he : j = i
    · rw [he, Function.update_self] at hj
      cases hj
    · rw [Function.update_of_ne he] at hj
      intro hm
      rcases Multiset.mem_cons.mp hm with hm | hm
      · exact he hm
      · exact h.absent j hj hm
  · intro j u hj
    change Function.update s.tasks i _ j = some u at hj
    by_cases he : j = i
    · rw [he, Function.update_self] at hj
      cases hj
      rw [he, Multiset.count_cons_self, Multiset.count_eq_zero.mpr (h.absent i hnone)]
      refine ⟨rfl, ?_, fun _ => ⟨rfl, rfl⟩, ?_⟩
      · intro hg
        cases hg
      · intro hc
        cases hc
    · rw [Function.update_of_ne he] at hj
      rw [Multiset.count_cons_of_ne he]
      exact h.ok j u hj
  · intro j u hj hu
    refine hperm.mem_iff.mpr ?_
    change Function.update s.tasks i _ j = some u at hj
    by_cases he : j = i
    · rw [he, Function.update_self] at hj
      cases hj
      rw [he]
      exact List.mem_cons_self ..
    · rw [Function.update_of_ne he] at hj
      exact List.mem_cons_of_mem _ (h.unfinished j u hj hu)
  · intro x hx
    show ∃ t, Function.update s.tasks i _ x.2 = some t ∧ _
    rcases List.mem_cons.mp (hperm.mem_iff.mp hx) with rfl | hx
    · exact ⟨_, Function.update_self .., rfl⟩
    · obtain ⟨t, ht, hk⟩ := h.entry x hx
      have hne : x.2 ≠ i := fun he => by rw [he, hnone] at ht; cases ht
      exact ⟨t, by rw [Function.update_of_ne hne]; exact ht, hk⟩
  · show ((s.active.insertIdx pos (key, i)).map Prod.fst).Nodup
    rw [(hperm.map Prod.fst).nodup_iff, List.map_cons]
    exact List.nodup_cons.mpr ⟨hkey, h.keys⟩
  · intro j u hj hu
    change Function.update s.tasks i _ j = some u at hj
    by_cases he : j = i
    · rw [he, Function.update_self] at hj
      cases hj
      cases hu
    · rw [Function.update_of_ne he] at hj
      exact h.running j u hj hu

omit [WillWake W] in
/-- The handle or the wakers of a task change. -/
theorem inv_put (hi : s.Inv) {t t' : Task} (ht : s.tasks i = some t)
    (hok : t'.Ok (s.sched.queued.count i)) (hkey : t'.key = t.key) (hfuture : t'.future = t.future)
    (hrun : t'.running = t.running) : (s.put i t t').Inv := by
  refine ⟨hi.sched, hi.owns.put s.running ht hok (fun _ _ => rfl) hkey
    (fun hg => hfuture.trans hg) (fun hr => ?_) fun _ _ hj => hj⟩
  exact hi.owns.running i t ht (hrun ▸ hr)

/-- The Runnable that runs innermost returns. -/
theorem inv_finish (hi : s.Inv) {t : Task} {running : List TaskId}
    (hs : s.running = i :: running) (ht : s.tasks i = some t) (ready : Bool)
    (onDrop : List Destructor) {s1 : Sys W}
    (h : ({ s with running }.put i t (t.finish ready onDrop).1).schedule id i
      (t.finish ready onDrop).2 = some s1) : s1.Inv := by
  have hk := (hi.owns.ok i t ht).finish ready onDrop
  have hrun := t.running_finish ready onDrop
  have howns : Sys.Owns ({ s with running }.put i t (t.finish ready onDrop).1)
      (if (t.finish ready onDrop).2 then i ::ₘ s.sched.queued else s.sched.queued) := by
    refine hi.owns.put running ht ?_ ?_ hk.key hk.gone
      (fun hr => by rw [hrun] at hr; cases hr) fun j hj hm => ?_
    · exact count_keeps hk
    · exact fun j hj => count_other hj
    · rw [hs] at hm
      exact (List.mem_cons.mp hm).resolve_left hj
  exact inv_schedule (i := i) (s := { s with running }.put i t (t.finish ready onDrop).1)
    hi.sched howns h

/-! ### Steps, label by label -/

theorem next_tick {l : Executor.Label TaskId W} (h : s.next (.tick l) = some s') :
    isTick l = true ∧ ∃ sched, s.sched.next l = some sched ∧ s' = s.advance sched := by
  rw [Sys.next] at h
  split at h
  · rename_i hl
    obtain ⟨sched, hnext, rfl⟩ := Option.map_eq_some_iff.mp h
    exact ⟨hl, sched, hnext, rfl⟩
  · cases h

theorem next_spawn {key pos : Nat} {onDrop : List Destructor}
    (h : s.next (.spawn i key pos onDrop id) = some s') :
    (s.sched.Free ∧ s.tasks i = none ∧ key ∉ s.active.map Prod.fst ∧
      pos ≤ s.active.length) ∧
      (s.insert i key pos onDrop).schedule id i true = some s' := by
  rw [Sys.next] at h
  split at h
  · rename_i hc
    exact ⟨hc, h⟩
  · cases h

theorem next_wake (h : s.next (.wake i id) = some s') :
    ∃ t, s.tasks i = some t ∧ t.wakers = true ∧
      (s.put i t t.wake.1).schedule id i t.wake.2 = some s' := by
  rw [Sys.next] at h
  split at h
  · rename_i t ht
    split at h
    · rename_i hw
      exact ⟨t, ht, hw, h⟩
    · cases h
  · cases h

theorem next_cancel (h : s.next (.cancel i id) = some s') :
    ∃ t, s.tasks i = some t ∧ t.detached = false ∧
      (s.put i t t.cancel.1).schedule id i t.cancel.2 = some s' := by
  rw [Sys.next] at h
  split at h
  · rename_i t ht
    split at h
    · cases h
    · rename_i hd
      exact ⟨t, ht, eq_false_of_ne_true hd, h⟩
  · cases h

theorem next_detach (h : s.next (.detach i) = some s') :
    ∃ t, s.tasks i = some t ∧ t.detached = false ∧
      s' = s.put i t { t with detached := true } := by
  rw [Sys.next] at h
  split at h
  · rename_i t ht
    split at h
    · cases h
    · rename_i hd
      exact ⟨t, ht, eq_false_of_ne_true hd, (Option.some.inj h).symm⟩
  · cases h

theorem next_wakers {held : Bool} (h : s.next (.wakers i held) = some s') :
    ∃ t, s.tasks i = some t ∧ (t.wakers = true ∨ t.running = true) ∧
      s' = s.put i t { t with wakers := held } := by
  rw [Sys.next] at h
  split at h
  · rename_i t ht
    split at h
    · rename_i hw
      exact ⟨t, ht, hw, (Option.some.inj h).symm⟩
    · cases h
  · cases h

theorem next_ret {ready : Bool} {onDrop : List Destructor}
    (h : s.next (.ret ready onDrop id) = some s') :
    ∃ i running t s1 sched, s.running = i :: running ∧ s.tasks i = some t ∧
      ({ s with running }.put i t (t.finish ready onDrop).1).schedule id i
        (t.finish ready onDrop).2 = some s1 ∧
      s1.sched.next .ret = some sched ∧ s' = { s1 with sched } := by
  rw [Sys.next] at h
  split at h
  · rename_i i running hrun
    split at h
    · rename_i t ht
      obtain ⟨s1, h1, h2⟩ := Option.bind_eq_some_iff.mp h
      obtain ⟨sched, hnext, rfl⟩ := Option.map_eq_some_iff.mp h2
      exact ⟨i, running, t, s1, sched, hrun, ht, h1, hnext, rfl⟩
    · cases h
  · cases h

theorem inv_next {l : Label W} (hi : s.Inv) (h : s.next l = some s') : s'.Inv := by
  cases l with
  | tick l =>
      obtain ⟨hl, sched, hnext, rfl⟩ := next_tick h
      exact inv_advance hi hl hnext
  | spawn i key pos onDrop id =>
      obtain ⟨⟨-, hnone, hkey, hpos⟩, h⟩ := next_spawn h
      exact inv_schedule (b := true) (s := s.insert i key pos onDrop) hi.sched
        (owns_insert hi hnone hkey hpos onDrop) h
  | wake i id =>
      obtain ⟨t, ht, -, h⟩ := next_wake h
      exact inv_keeps hi ht (hi.owns.ok i t ht).wake h
  | cancel i id =>
      obtain ⟨t, ht, -, h⟩ := next_cancel h
      exact inv_keeps hi ht (hi.owns.ok i t ht).cancel h
  | detach i =>
      obtain ⟨t, ht, -, rfl⟩ := next_detach h
      have hok := hi.owns.ok i t ht
      exact inv_put hi ht ⟨hok.count, hok.gone, hok.unpolled, hok.closed⟩ rfl rfl rfl
  | wakers i held =>
      obtain ⟨t, ht, -, rfl⟩ := next_wakers h
      have hok := hi.owns.ok i t ht
      exact inv_put hi ht ⟨hok.count, hok.gone, hok.unpolled, hok.closed⟩ rfl rfl rfl
  | ret ready onDrop id =>
      obtain ⟨i, running, t, s1, sched, hs, ht, h1, hnext, rfl⟩ := next_ret h
      have hi1 := inv_finish hi hs ht ready onDrop h1
      have hi' := Executor.inv_next hi1.sched hnext
      have hq := (Executor.logs_ret hnext).queued hi1.sched hi'
      have hq' : sched.queued = s1.sched.queued := by simpa using hq.symm
      have howns := hi1.owns
      refine ⟨hi', ?_⟩
      show Sys.Owns _ sched.queued
      rw [hq']
      exact ⟨howns.absent, howns.ok, howns.unfinished, howns.entry, howns.keys, howns.running⟩

theorem inv_reachable (h : (system id).Reachable s) : s.Inv := by
  refine h.invariant (I := Sys.Inv) ?_ fun s l s' hi hs => inv_next hi hs
  rintro s rfl
  have hsched : (Executor.Sys.init id : Executor.Sys TaskId W).Inv :=
    Executor.inv_reachable (.start rfl)
  have hq : (Executor.Sys.init id : Executor.Sys TaskId W).queued = 0 := by
    have hempty : (Executor.Sys.init id : Executor.Sys TaskId W).state.queue = [] := Event.queue_new
    rw [Executor.Sys.queued, hempty]
    rfl
  refine ⟨hsched, ?_⟩
  show Sys.Owns _ (Executor.Sys.init id : Executor.Sys TaskId W).queued
  rw [hq]
  refine ⟨fun i _ => Multiset.notMem_zero i, ?_, ?_, ?_, List.nodup_nil, ?_⟩
  · intro i t ht
    cases ht
  · intro i t ht
    cases ht
  · intro x hx
    cases hx
  · intro i t ht
    cases ht

end Next

end Tasks

end Unsend

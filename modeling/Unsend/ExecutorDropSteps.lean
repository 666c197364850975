import Unsend.ExecutorDrop

/-!
# The steps of dropping the executor

What the operations of `Executor::drop` do to the queues and the tasks,
and where they stop.

- `operate_cases`: an operation on a task does not make it call the
  scheduler function, or the call stops under a borrow if it takes the
  local path, or it pushes a Runnable;
- `destroy_cases`: the destructors of a future, one after the other; which
  tasks they make call the scheduler function is said by `Task.roused`,
  of the tasks as they are before;
- `dropRunnable_cases`: when the drop of a Runnable stops, and what it
  leaves if it goes through.
-/

namespace Unsend

namespace Tasks

variable {W : Type}

/-! ## What rouses a task -/

namespace Task

/-- The task `i` waits, and these destructors make it call the scheduler
function: one of them wakes or cancels it, or they drop its last waker and
its handle, or the one of them that is left. -/
def roused (t : Task) (i : TaskId) (ds : List Destructor) : Bool :=
  t.idle && (ds.contains (.wake i) || ds.contains (.cancel i) ||
    (ds.contains (.detach i) && !t.wakers) || (ds.contains (.dropWaker i) && t.detached) ||
    (ds.contains (.detach i) && ds.contains (.dropWaker i)))

variable {t : Task} {d : Destructor} {ds ds' : List Destructor} {i : TaskId}

theorem idle_iff :
    t.idle = true ↔ t.future ≠ .gone ∧ t.scheduled = false ∧ t.running = false := by
  simp [idle, and_assoc]

theorem roused_nil : t.roused i [] = false := by
  simp [roused]

/-- Only membership matters. -/
theorem roused_mono (h : ds ⊆ ds') (hr : t.roused i ds = true) : t.roused i ds' = true := by
  simp only [roused, Bool.and_eq_true, Bool.or_eq_true, List.contains_eq_mem,
    decide_eq_true_eq] at hr ⊢
  grind

/-- A destructor of another task changes nothing. -/
theorem roused_ne (ds : List Destructor) (hd : d.task ≠ i) :
    t.roused i (ds ++ d :: ds') = t.roused i (ds ++ ds') := by
  cases d <;> simp_all [roused, Destructor.task, Ne.symm]

/-- The first destructor of a task that waits makes it call, or leaves it
waiting with one reference less. -/
theorem roused_cons (hidle : t.idle = true) (hc : t.closed = false) (hd : d.task = i) :
    t.roused i (d :: ds) = ((d.op t).2 || (d.op t).1.roused i ds) := by
  subst hd
  obtain ⟨hg, hs, hr⟩ := idle_iff.mp hidle
  cases d with
  | wake i => simp [roused, Destructor.op, Destructor.task, wake, idle, hg, hs, hr, hc]
  | cancel i => simp [roused, Destructor.op, Destructor.task, cancel, idle, hg, hs, hr, hc]
  | detach i =>
      simp only [roused, Destructor.op, Destructor.task, dropWaker, idle]
      cases hw : t.wakers with
      | true =>
          simp only [hs, hr, hc]
          grind
      | false => simp [hg, hs, hr, hc]
  | dropWaker i =>
      simp only [roused, Destructor.op, Destructor.task, dropWaker, idle]
      cases hw : t.detached with
      | true => simp [hg, hs, hr, hc]
      | false =>
          simp only [hs, hr, hc]
          grind

end Task

namespace Core

/-- The Runnables in the two queues. -/
def queued (c : Core W) : Multiset TaskId := c.localQueue + c.mainQueue

/-- The task waits for a wake-up. -/
def Idle (c : Core W) (i : TaskId) : Prop := ∃ t, c.tasks i = some t ∧ t.idle = true

/-- A Runnable in the local queue is that of a task that was polled. -/
def StartedInLocal (c : Core W) : Prop :=
  ∃ i ∈ c.localQueue, ∃ t, c.tasks i = some t ∧ t.future = .started

/-- Nobody listens to the event, no task runs, and the queues hold the
Runnables of the scheduled tasks. -/
structure Tidy (c : Core W) : Prop where
  event : c.state.queue = []
  absent : ∀ i, c.tasks i = none → i ∉ c.queued
  ok : ∀ i t, c.tasks i = some t → t.Ok (c.queued.count i)
  still : ∀ i t, c.tasks i = some t → t.running = false

/-- `c'` is later than `c`: the queues have only grown, and no future has
been polled or dropped. -/
structure Later (c c' : Core W) : Prop where
  localQueue : c.localQueue <+: c'.localQueue
  mainQueue : c.mainQueue <+: c'.mainQueue
  tasks : ∀ i t, c.tasks i = some t →
    ∃ t', c'.tasks i = some t' ∧ t'.future = t.future ∧ t'.onDrop = t.onDrop
  absent : ∀ i, c.tasks i = none → c'.tasks i = none
  origin : c'.state.originThread = c.state.originThread
  active : c'.active = c.active
  woken : c'.woken = c.woken

theorem Later.refl (c : Core W) : Later c c :=
  ⟨List.prefix_rfl, List.prefix_rfl, fun _ t h => ⟨t, h, rfl, rfl⟩, fun _ h => h,
    rfl, rfl, rfl⟩

theorem Later.trans {c c' c'' : Core W} (h : Later c c') (h' : Later c' c'') : Later c c'' where
  localQueue := h.localQueue.trans h'.localQueue
  mainQueue := h.mainQueue.trans h'.mainQueue
  tasks i t ht := by
    obtain ⟨t1, ht1, h1, h2⟩ := h.tasks i t ht
    obtain ⟨t2, ht2, h3, h4⟩ := h'.tasks i t1 ht1
    exact ⟨t2, ht2, h3.trans h1, h4.trans h2⟩
  absent i hi := h'.absent i (h.absent i hi)
  origin := h'.origin.trans h.origin
  active := h'.active.trans h.active
  woken := h'.woken.trans h.woken

/-! ### Of the tasks of an executor -/

def roused (c : Core W) (i : TaskId) (ds : List Destructor) : Bool :=
  (c.tasks i).any fun t => t.roused i ds

def onDrop (c : Core W) (i : TaskId) : List Destructor := ((c.tasks i).map Task.onDrop).getD []

/-- Dropping the futures of these tasks makes a task that waits call the
scheduler function. -/
def Rouses (c : Core W) (dropped : List TaskId) : Prop :=
  ∃ j, c.roused j (dropped.flatMap c.onDrop) = true

/-- The tasks that these destructors rouse, in this order, if others have
run before. -/
def rousedAfter (c : Core W) (before : List Destructor) : List Destructor → List TaskId
  | [] => []
  | d :: ds =>
      (if c.roused d.task (before ++ [d]) && !c.roused d.task before then [d.task] else []) ++
        c.rousedAfter (before ++ [d]) ds

def rousedBy (c : Core W) (ds : List Destructor) : List TaskId := c.rousedAfter [] ds

/-- `c'` is `c` after these destructors have run, as far as the tasks that
can still be roused go. -/
structure Moved (c : Core W) (ds : List Destructor) (c' : Core W) : Prop where
  roused : ∀ j ds', c'.roused j ds' = (c.roused j (ds ++ ds') && !c.roused j ds)
  onDrop : c'.onDrop = c.onDrop

/-- The scheduler function has pushed these Runnables, all to one queue. -/
structure Pushed (id : Option Nat) (c : Core W) (is : List TaskId) (c' : Core W) : Prop where
  localQueue : c'.localQueue = c.localQueue ++ if c.state.isOrigin id then is else []
  mainQueue : c'.mainQueue = c.mainQueue ++ if c.state.isOrigin id then [] else is

section Facts

variable {c c' c1 c2 : Core W} {id : Option Nat} {i j : TaskId} {t : Task}
  {d : Destructor} {ds ds' : List Destructor} {is js : List TaskId}

theorem roused_iff : c.roused i ds = true ↔
    ∃ t, c.tasks i = some t ∧ t.roused i ds = true := by
  unfold roused
  cases c.tasks i with
  | none => simp
  | some t => simp

theorem idle_of_roused (h : c.roused i ds = true) : c.Idle i := by
  obtain ⟨t, ht, hr⟩ := roused_iff.mp h
  simp only [Task.roused, Bool.and_eq_true] at hr
  exact ⟨t, ht, hr.1⟩

theorem roused_nil : c.roused i [] = false := by
  unfold roused
  cases c.tasks i with
  | none => rfl
  | some t => exact Task.roused_nil

theorem roused_mono (h : ds ⊆ ds') (hr : c.roused i ds = true) : c.roused i ds' = true := by
  obtain ⟨t, ht, hr⟩ := roused_iff.mp hr
  exact roused_iff.mpr ⟨t, ht, Task.roused_mono h hr⟩

theorem roused_ne (ds : List Destructor) (hd : d.task ≠ i) :
    c.roused i (ds ++ d :: ds') = c.roused i (ds ++ ds') := by
  unfold roused
  cases c.tasks i with
  | none => rfl
  | some t => exact Task.roused_ne ds hd

theorem onDrop_some (ht : c.tasks i = some t) : c.onDrop i = t.onDrop := by
  simp [onDrop, ht]

theorem Rouses.mono (h : is ⊆ js) : c.Rouses is → c.Rouses js := by
  rintro ⟨j, hj⟩
  refine ⟨j, roused_mono (fun d hd => ?_) hj⟩
  obtain ⟨i, hi, hd⟩ := List.mem_flatMap.mp hd
  exact List.mem_flatMap.mpr ⟨i, h hi, hd⟩

theorem not_rouses_nil : ¬ c.Rouses [] := by
  rintro ⟨j, hj⟩
  rw [List.flatMap_nil, roused_nil] at hj
  cases hj

theorem Rouses.idle (h : c.Rouses is) : ∃ j, c.Idle j := by
  obtain ⟨j, hj⟩ := h
  exact ⟨j, idle_of_roused hj⟩

theorem Moved.trans (h : Moved c ds c1) (h' : Moved c1 ds' c2) : Moved c (ds ++ ds') c2 := by
  refine ⟨fun j ds'' => ?_, h'.onDrop.trans h.onDrop⟩
  have hmono : c.roused j ds = true → c.roused j (ds ++ ds') = true :=
    roused_mono (List.subset_append_left ..)
  rw [h'.roused, h.roused, h.roused, List.append_assoc]
  grind

/-- Another Runnable is dropped after that of `i`. -/
theorem Moved.rouses_cons (h : Moved c (c.onDrop i) c') (is : List TaskId) :
    c.Rouses (i :: is) ↔ c.Rouses [i] ∨ c'.Rouses is := by
  unfold Rouses
  simp only [h.onDrop, h.roused, List.flatMap_cons, List.flatMap_nil, List.append_nil]
  constructor
  · rintro ⟨j, hj⟩
    cases hji : c.roused j (c.onDrop i) with
    | true => exact .inl ⟨j, hji⟩
    | false => exact .inr ⟨j, by rw [hj, hji]; rfl⟩
  · rintro (⟨j, hj⟩ | ⟨j, hj⟩)
    · exact ⟨j, roused_mono (List.subset_append_left ..) hj⟩
    · exact ⟨j, (Bool.and_eq_true_iff.mp hj).1⟩

theorem mem_rousedAfter : ∀ {ds before : List Destructor},
    i ∈ c.rousedAfter before ds ↔
      c.roused i (before ++ ds) = true ∧ c.roused i before = false := by
  intro ds
  induction ds with
  | nil => simp [rousedAfter]
  | cons d ds ih =>
      intro before
      have hsplit : before ++ [d] ++ ds = before ++ d :: ds := by simp
      have hmono : c.roused i (before ++ [d]) = true → c.roused i (before ++ d :: ds) = true := by
        rw [← hsplit]
        exact roused_mono (List.subset_append_left ..)
      have hmono' : c.roused i before = true → c.roused i (before ++ [d]) = true :=
        roused_mono (List.subset_append_left ..)
      have hne : d.task ≠ i → c.roused i (before ++ [d]) = c.roused i before := by
        intro hd
        rw [roused_ne _ hd, List.append_nil]
      rw [rousedAfter, List.mem_append, ih, hsplit]
      by_cases hd : d.task = i
      · subst hd
        split <;> simp_all
        grind
      · have := hne hd
        split
        · simp only [List.mem_singleton, Ne.symm hd]
          grind
        · simp only [List.not_mem_nil]
          grind

theorem mem_rousedBy : i ∈ c.rousedBy ds ↔ c.roused i ds = true := by
  rw [rousedBy, mem_rousedAfter, List.nil_append, roused_nil, and_iff_left rfl]

theorem rousedBy_nil (h : ∀ j, c.roused j ds = false) : c.rousedBy ds = [] := by
  refine List.eq_nil_iff_forall_not_mem.mpr fun j hj => ?_
  rw [mem_rousedBy, h] at hj
  cases hj

theorem rousedAfter_append : ∀ {ds before : List Destructor},
    c.rousedAfter before (ds ++ ds') =
      c.rousedAfter before ds ++ c.rousedAfter (before ++ ds) ds' := by
  intro ds
  induction ds with
  | nil => simp [rousedAfter]
  | cons d ds ih =>
      intro before
      rw [List.cons_append, rousedAfter, ih, rousedAfter]
      simp

theorem rousedAfter_moved (h : Moved c ds c') : ∀ {ds' before : List Destructor},
    c'.rousedAfter before ds' = c.rousedAfter (ds ++ before) ds' := by
  intro ds'
  induction ds' with
  | nil => exact rfl
  | cons d ds' ih =>
      intro before
      have hmono : c.roused d.task ds = true → c.roused d.task (ds ++ before) = true :=
        roused_mono (List.subset_append_left ..)
      rw [rousedAfter, ih, rousedAfter, h.roused, h.roused, List.append_assoc]
      congr 2
      grind

/-- Later destructors rouse only those that earlier ones have not roused. -/
theorem rousedBy_append (h : Moved c ds c') (ds' : List Destructor) :
    c.rousedBy (ds ++ ds') = c.rousedBy ds ++ c'.rousedBy ds' := by
  unfold rousedBy
  rw [rousedAfter_append, rousedAfter_moved h, List.append_nil, List.nil_append]

theorem Tidy.idle_started (h : c.Tidy) (hi : c.tasks i = some t) (hidle : t.idle = true) :
    t.future = .started ∧ t.closed = false ∧ t.scheduled = false := by
  simp only [Task.idle, Bool.and_eq_true, Bool.not_eq_true', bne_iff_ne] at hidle
  obtain ⟨⟨hg, hs⟩, hr⟩ := hidle
  have hok := h.ok i t hi
  refine ⟨?_, ?_, hs⟩
  · cases hf : t.future with
    | started => rfl
    | gone => exact (hg hf).elim
    | unpolled =>
        have := (hok.unpolled hf).1
        rw [hs] at this
        cases this
  · by_contra hc
    rcases hok.closed (eq_true_of_ne_false hc) hg with h1 | h1
    · rw [hs] at h1
      cases h1
    · rw [hr] at h1
      cases h1

/-- A Runnable in a queue is that of a task with a future. -/
theorem Tidy.owner (h : c.Tidy) (hi : i ∈ c.queued) :
    ∃ t, c.tasks i = some t ∧ t.scheduled = true ∧ t.future ≠ .gone ∧
      c.queued.count i = 1 := by
  cases ht : c.tasks i with
  | none => exact (h.absent i ht hi).elim
  | some t =>
      have hok := h.ok i t ht
      obtain ⟨n, hn⟩ := Nat.exists_eq_succ_of_ne_zero (Multiset.count_pos.mpr hi).ne'
      rw [hn] at hok
      obtain ⟨rfl, hs, -, hg⟩ := hok.scheduled
      exact ⟨t, rfl, hs, hg, hn⟩

theorem Tidy.not_idle_of_queued (h : c.Tidy) (hi : i ∈ c.queued) : ¬ c.Idle i := by
  rintro ⟨t, ht, hidle⟩
  obtain ⟨t', ht', hs, -, -⟩ := h.owner hi
  cases ht.symm.trans ht'
  have := (h.idle_started ht hidle).2.2
  rw [hs] at this
  cases this

/-! ## One operation on a task -/

/-- The operation makes the task call the scheduler function. -/
def Calls (op : Task → Task × Bool) (c : Core W) (i : TaskId) : Prop :=
  ∃ t, c.tasks i = some t ∧ (op t).2 = true

/-- What the operations on a task have in common. -/
structure Gentle (op : Task → Task × Bool) : Prop where
  keeps : ∀ {t : Task} {n : Nat}, t.Ok n → t.Keeps n (op t)
  calls : ∀ {t : Task}, (op t).2 = true → t.idle = true
  idle : ∀ {t : Task}, (op t).1.idle = true → t.idle = true ∧ (op t).2 = false
  future : ∀ t, (op t).1.future = t.future
  onDrop : ∀ t, (op t).1.onDrop = t.onDrop

theorem gentle_wake : Gentle Task.wake := by
  constructor
  · exact Task.Ok.wake
  all_goals
    intro t
    unfold Task.wake
    split <;> simp_all [Task.idle]

theorem gentle_cancel : Gentle Task.cancel := by
  constructor
  · exact Task.Ok.cancel
  all_goals
    intro t
    unfold Task.cancel
    split <;> simp_all [Task.idle]

theorem gentle_dropWaker : Gentle Task.dropWaker := by
  constructor
  · exact Task.Ok.dropWaker
  all_goals
    intro t
    unfold Task.dropWaker
    split <;> simp_all [Task.idle]

/-- The handle or the other wakers are gone first. -/
theorem gentle_reference {f : Task → Task} (hok : ∀ t n, t.Ok n → (f t).Ok n)
    (hf : ∀ t : Task, (f t).key = t.key ∧ (f t).future = t.future ∧
      (f t).running = t.running ∧
      (f t).idle = t.idle ∧ (f t).onDrop = t.onDrop) : Gentle fun t => (f t).dropWaker where
  keeps {t n} h := by
    obtain ⟨hkey, hfuture, hrunning, -, -⟩ := hf t
    have hk := (hok t n h).dropWaker
    exact ⟨hk.ok, hk.key.trans hkey, fun hg => hk.gone (hfuture.trans hg), fun hr => by
      rw [← hrunning]
      exact hk.running hr⟩
  calls {t} h := by
    rw [← (hf t).2.2.2.1]
    exact gentle_dropWaker.calls h
  idle {t} h := by
    rw [← (hf t).2.2.2.1]
    exact gentle_dropWaker.idle h
  future t := (gentle_dropWaker.future (f t)).trans (hf t).2.1
  onDrop t := (gentle_dropWaker.onDrop (f t)).trans (hf t).2.2.2.2

theorem gentle_op (d : Destructor) : Gentle d.op := by
  cases d with
  | wake => exact gentle_wake
  | cancel => exact gentle_cancel
  | detach =>
      exact gentle_reference (f := fun t => { t with detached := true })
        (fun t n h => ⟨h.count, h.gone, h.unpolled, h.closed⟩) fun t =>
          ⟨rfl, rfl, rfl, rfl, rfl⟩
  | dropWaker =>
      exact gentle_reference (f := fun t => { t with wakers := false })
        (fun t n h => ⟨h.count, h.gone, h.unpolled, h.closed⟩) fun t =>
          ⟨rfl, rfl, rfl, rfl, rfl⟩

/-- Waking a task makes it call the scheduler function if it is idle. -/
theorem calls_wake (h : c.Tidy) : Calls Task.wake c i ↔ c.Idle i := by
  constructor
  · rintro ⟨t, ht, hw⟩
    exact ⟨t, ht, gentle_wake.calls hw⟩
  · rintro ⟨t, ht, hidle⟩
    obtain ⟨hf, hc, hs⟩ := h.idle_started ht hidle
    refine ⟨t, ht, ?_⟩
    unfold Task.wake
    rw [if_neg (by simp [hf, hc, hs])]
    show (!t.running) = true
    rw [h.still i t ht]
    rfl

theorem setTask_self (hi : c.tasks i = some t) : c.setTask i t = c := by
  unfold setTask
  rw [← hi, Function.update_eq_self]

/-- On the origin thread the Runnable is not handed over if nobody listens. -/
theorem schedule_unheard {ts : Executor.ThreadState TaskId W} (hq : ts.threadWaker.queue = [])
    (i : TaskId) : (ts.schedule i).1.taskQueue = ts.taskQueue ++ [i] ∧
      (ts.schedule i).1.threadWaker.queue = [] := by
  rcases Executor.schedule_cases ts i with ⟨-, -, hq', hn, -⟩ | ⟨-, hL, hq'⟩
  · rw [hq', Queue.numNotified_notify, hq] at hn
    cases hn
  · exact ⟨hL, hq'.trans hq⟩

theorem pushed_nil (hL : c'.localQueue = c.localQueue) (hM : c'.mainQueue = c.mainQueue) :
    Pushed id c [] c' := by
  constructor
  · rw [hL, ite_self, List.append_nil]
  · rw [hM, ite_self, List.append_nil]

theorem Pushed.queued (h : Pushed id c is c') : c'.queued = is + c.queued := by
  unfold Core.queued
  rw [h.localQueue, h.mainQueue]
  cases c.state.isOrigin id with
  | true =>
      show ((c.localQueue ++ is : List TaskId) : Multiset TaskId) +
        ((c.mainQueue ++ [] : List TaskId) : Multiset TaskId) = _
      rw [← Multiset.coe_add, List.append_nil]
      abel
  | false =>
      show ((c.localQueue ++ [] : List TaskId) : Multiset TaskId) +
        ((c.mainQueue ++ is : List TaskId) : Multiset TaskId) = _
      rw [List.append_nil, ← Multiset.coe_add]
      abel

/-- The scheduler function with nobody listening pushes to a queue. -/
theorem schedule_pushed (hevent : c.state.queue = []) (id : Option Nat) (borrowed : Bool)
    (i : TaskId) :
    (c.state.isOrigin id = true ∧ borrowed = true ∧ c.schedule id borrowed i = .error {}) ∨
    ∃ c', c.schedule id borrowed i = .ok c' ∧ c'.state.queue = [] ∧ c'.tasks = c.tasks ∧
      c'.active = c.active ∧ c'.woken = c.woken ∧
      c'.state.originThread = c.state.originThread ∧
      (c.state.isOrigin id = true → borrowed = false) ∧ Pushed id c [i] c' := by
  unfold schedule
  cases ho : c.state.isOrigin id with
  | false =>
      refine .inr ⟨_, rfl, hevent, rfl, rfl, rfl, rfl, (by simp), ?_, ?_⟩
      · rw [ho]
        exact (List.append_nil _).symm
      · rw [ho]
        rfl
  | true =>
      cases borrowed with
      | true => exact .inl ⟨rfl, rfl, rfl⟩
      | false =>
          obtain ⟨hL, hq⟩ := schedule_unheard hevent i
          refine .inr ⟨_, rfl, hq, rfl, rfl, rfl, rfl, fun _ => rfl, ?_, ?_⟩
          · rw [ho]
            exact hL
          · rw [ho]
            exact (List.append_nil _).symm

/-- One task changes, and with it what it owns. -/
theorem Tidy.change (h : c.Tidy) {t' : Task} {q : Multiset TaskId}
    (hok : t'.Ok (q.count i)) (hstill : t'.running = false)
    (hq : ∀ j, j ≠ i → q.count j = c.queued.count j) (hevent : c'.state.queue = [])
    (htasks : c'.tasks = Function.update c.tasks i (some t')) (hqueued : c'.queued = q) :
    c'.Tidy := by
  refine ⟨hevent, fun j hj => ?_, fun j u hj => ?_, fun j u hj => ?_⟩
  · rw [htasks] at hj
    rw [hqueued]
    by_cases he : j = i
    · rw [he, Function.update_self] at hj
      cases hj
    · rw [Function.update_of_ne he] at hj
      rw [← Multiset.count_eq_zero, hq j he, Multiset.count_eq_zero]
      exact h.absent j hj
  · rw [htasks] at hj
    rw [hqueued]
    by_cases he : j = i
    · rw [he, Function.update_self] at hj
      cases hj
      rw [he]
      exact hok
    · rw [Function.update_of_ne he] at hj
      rw [hq j he]
      exact h.ok j u hj
  · rw [htasks] at hj
    by_cases he : j = i
    · rw [he, Function.update_self] at hj
      cases hj
      exact hstill
    · rw [Function.update_of_ne he] at hj
      exact h.still j u hj

/-- One task changes, but not its future. -/
theorem later_change (hi : c.tasks i = some t) {t' : Task} (hfuture : t'.future = t.future)
    (honDrop : t'.onDrop = t.onDrop)
    (htasks : c'.tasks = Function.update c.tasks i (some t'))
    (hlocal : c.localQueue <+: c'.localQueue) (hmain : c.mainQueue <+: c'.mainQueue)
    (horigin : c'.state.originThread = c.state.originThread) (hactive : c'.active = c.active)
    (hwoken : c'.woken = c.woken) : Later c c' := by
  refine ⟨hlocal, hmain, fun j u hj => ?_, fun j hj => ?_, horigin, hactive, hwoken⟩
  · rw [htasks]
    by_cases he : j = i
    · rw [he, Function.update_self]
      rw [he, hi] at hj
      cases hj
      exact ⟨t', rfl, hfuture, honDrop⟩
    · rw [Function.update_of_ne he]
      exact ⟨u, hj, rfl, rfl⟩
  · rw [htasks, Function.update_of_ne fun he => by rw [he, hi] at hj; cases hj]
    exact hj

variable {op : Task → Task × Bool} {borrowed : Bool}

/-- The operation does not make the task call the scheduler function, or
the call stops where `thread_state` is borrowed and pushes a Runnable
otherwise. -/
theorem operate_cases (hop : Gentle op) (h : c.Tidy) (id : Option Nat) (borrowed : Bool)
    (i : TaskId) :
    (Calls op c i ∧ c.state.isOrigin id = true ∧ borrowed = true ∧
      c.operate id borrowed op i = .error {}) ∨
    ∃ c', c.operate id borrowed op i = .ok c' ∧ c'.Tidy ∧ Later c c' ∧
      c'.tasks = Function.update c.tasks i ((c.tasks i).map fun t => (op t).1) ∧
      ((¬ Calls op c i ∧ Pushed id c [] c') ∨
        (Calls op c i ∧ (c.state.isOrigin id = true → borrowed = false) ∧
          Pushed id c [i] c')) := by
  unfold operate
  cases hi : c.tasks i with
  | none =>
      refine .inr ⟨c, rfl, h, Later.refl c, ?_, .inl ⟨?_, pushed_nil rfl rfl⟩⟩
      · rw [Option.map_none, ← hi, Function.update_eq_self]
      · rintro ⟨t, ht, -⟩
        cases hi.symm.trans ht
  | some t =>
      have hkeeps := hop.keeps (h.ok i t hi)
      have hok := hkeeps.ok
      have hstill : (op t).1.running = false := by
        by_contra hr
        have := hkeeps.running (eq_true_of_ne_false hr)
        rw [h.still i t hi] at this
        cases this
      cases hcall : (op t).2 with
      | false =>
          rw [hcall] at hok
          simp only [hcall, Bool.false_eq_true, if_false]
          refine .inr ⟨c.setTask i (op t).1, rfl, ?_, ?_, rfl,
            .inl ⟨?_, pushed_nil rfl rfl⟩⟩
          · exact h.change hok hstill (fun _ _ => rfl) h.event rfl rfl
          · exact later_change hi (hop.future t) (hop.onDrop t) rfl List.prefix_rfl
              List.prefix_rfl rfl rfl rfl
          · rintro ⟨t', ht', hcall'⟩
            cases hi.symm.trans ht'
            rw [hcall] at hcall'
            cases hcall'
      | true =>
          rw [hcall] at hok
          have hcalls : Calls op c i := ⟨t, hi, hcall⟩
          simp only [hcall, if_true]
          rcases schedule_pushed (c := c.setTask i (op t).1) h.event id borrowed i with
            ⟨ho, hb, he⟩ | ⟨c', hc', hevent, htasks, hactive, hwoken, horigin, hb, hpushed⟩
          · exact .inl ⟨hcalls, ho, hb, he⟩
          · refine .inr ⟨c', hc', ?_, ?_, htasks, .inr ⟨hcalls, hb, ?_⟩⟩
            · refine h.change (q := i ::ₘ c.queued) ?_ hstill ?_ hevent htasks hpushed.queued
              · rw [Multiset.count_cons_self]
                exact hok
              · exact fun j hj => Multiset.count_cons_of_ne hj _
            · refine later_change hi (hop.future t) (hop.onDrop t) htasks ?_ ?_ horigin hactive
                hwoken
              · rw [hpushed.localQueue]
                exact List.prefix_append ..
              · rw [hpushed.mainQueue]
                exact List.prefix_append ..
            · exact ⟨hpushed.localQueue, hpushed.mainQueue⟩

theorem Later.isOrigin (h : Later c c') (id : Option Nat) :
    c'.state.isOrigin id = c.state.isOrigin id := by
  unfold Executor.State.isOrigin
  rw [h.origin]

theorem Pushed.main (h : Pushed id c is c') (ho : c.state.isOrigin id = false) :
    c'.localQueue = c.localQueue := by
  rw [h.localQueue, ho]
  exact List.append_nil _

theorem Pushed.trans (h : Pushed id c is c1) (hl : Later c c1) (h' : Pushed id c1 js c2) :
    Pushed id c (is ++ js) c2 := by
  constructor
  · rw [h'.localQueue, h.localQueue, hl.isOrigin]
    cases c.state.isOrigin id <;> simp
  · rw [h'.mainQueue, h.mainQueue, hl.isOrigin]
    cases c.state.isOrigin id <;> simp

theorem operate_ok (hop : Gentle op) (h : c.Tidy) (hr : c.operate id borrowed op i = .ok c') :
    c'.Tidy ∧ Later c c' ∧ (c.state.isOrigin id = false → c'.localQueue = c.localQueue) := by
  rcases operate_cases hop h id borrowed i with ⟨-, -, -, he⟩ | ⟨c1, he, ht, hl, -, hq⟩
  · cases he.symm.trans hr
  · obtain rfl := Except.ok.inj (he.symm.trans hr)
    refine ⟨ht, hl, ?_⟩
    rcases hq with ⟨-, hp⟩ | ⟨-, -, hp⟩
    · exact hp.main
    · exact hp.main

/-- Where the scheduler function pushes to the mainstream queue, nothing is
borrowed. -/
theorem operate_main (hop : Gentle op) (h : c.Tidy) (ho : c.state.isOrigin id = false) :
    ∃ c', c.operate id borrowed op i = .ok c' := by
  rcases operate_cases hop h id borrowed i with ⟨-, ho', -⟩ | ⟨c1, he, -⟩
  · rw [ho] at ho'
    cases ho'
  · exact ⟨c1, he⟩

/-- The operation changes only the tasks it makes call the scheduler
function. -/
def Plain (op : Task → Task × Bool) : Prop :=
  ∀ t : Task, t.running = false → (op t).2 = false → (op t).1 = t

theorem plain_wake : Plain Task.wake := by
  intro t hr h
  unfold Task.wake at h ⊢
  split
  · rfl
  · simp_all

theorem plain_dropWaker : Plain Task.dropWaker := by
  intro t _ h
  unfold Task.dropWaker at h ⊢
  split <;> simp_all

theorem operate_none (hop : Plain op) (h : c.Tidy) (hn : ¬ Calls op c i) :
    c.operate id borrowed op i = .ok c := by
  unfold operate
  cases hi : c.tasks i with
  | none => rfl
  | some t =>
      have hcall : (op t).2 = false := eq_false_of_ne_true fun hcall => hn ⟨t, hi, hcall⟩
      simp only [hcall, Bool.false_eq_true, if_false, hop t (h.still i t hi) hcall,
        setTask_self hi]

/-! ## Many operations -/

theorem operateAll_cons (c : Core W) (id : Option Nat) (borrowed : Bool)
    (x : TaskId × (Task → Task × Bool)) (ops : List (TaskId × (Task → Task × Bool))) :
    c.operateAll id borrowed (x :: ops) =
      (c.operate id borrowed x.2 x.1 >>= fun c => c.operateAll id borrowed ops) := rfl

theorem operateAll_ok (hop : Gentle op) : ∀ {is : List TaskId} {c c' : Core W}, c.Tidy →
    c.operateAll id borrowed (is.map (·, op)) = .ok c' →
      c'.Tidy ∧ Later c c' ∧
        (c.state.isOrigin id = false → c'.localQueue = c.localQueue) := by
  intro is
  induction is with
  | nil =>
      intro c c' h hr
      obtain rfl := Except.ok.inj hr
      exact ⟨h, Later.refl c, fun _ => rfl⟩
  | cons i is ih =>
      intro c c' h hr
      rw [List.map_cons, operateAll_cons] at hr
      obtain ⟨c1, h1, hr⟩ := of_bind_ok hr
      obtain ⟨ht, hl, hL⟩ := operate_ok hop h h1
      obtain ⟨ht', hl', hL'⟩ := ih ht hr
      refine ⟨ht', hl.trans hl', fun ho => ?_⟩
      rw [hL' (by rw [hl.isOrigin]; exact ho), hL ho]

theorem operateAll_none (hop : Plain op) (h : c.Tidy) :
    ∀ {is : List TaskId}, (∀ i ∈ is, ¬ Calls op c i) →
      c.operateAll id borrowed (is.map (·, op)) = .ok c := by
  intro is
  induction is with
  | nil => exact fun _ => rfl
  | cons i is ih =>
      intro hn
      rw [List.map_cons, operateAll_cons,
        operate_none hop h (hn i (List.mem_cons_self ..)), ok_bind]
      exact ih fun j hj => hn j (List.mem_cons_of_mem _ hj)

/-- Where `thread_state` is borrowed, the operations go through exactly if
none of them makes a task call the scheduler function. -/
theorem operateAll_borrowed (hop : Gentle op) (hp : Plain op) (h : c.Tidy)
    (ho : c.state.isOrigin id = true) :
    ∀ {is : List TaskId} {c' : Core W}, c.operateAll id true (is.map (·, op)) = .ok c' →
      c' = c ∧ ∀ i ∈ is, ¬ Calls op c i := by
  intro is
  induction is with
  | nil => exact fun hr => ⟨(Except.ok.inj hr).symm, fun i hi => by cases hi⟩
  | cons i is ih =>
      intro c' hr
      rw [List.map_cons, operateAll_cons] at hr
      have hn : ¬ Calls op c i := by
        intro hcall
        rcases operate_cases hop h id true i with
          ⟨-, -, -, he⟩ | ⟨-, -, -, -, -, ⟨hn, -⟩ | ⟨-, hb, -⟩⟩
        · rw [he] at hr
          cases hr
        · exact hn hcall
        · cases hb ho
      rw [operate_none hp h hn, ok_bind] at hr
      obtain ⟨hc, hall⟩ := ih hr
      exact ⟨hc, List.forall_mem_cons.mpr ⟨hn, hall⟩⟩

theorem operateAll_main (hop : Gentle op) :
    ∀ (is : List TaskId) {c : Core W}, c.Tidy → c.state.isOrigin id = false →
      ∃ c', c.operateAll id borrowed (is.map (·, op)) = .ok c' := by
  intro is
  induction is with
  | nil => exact fun {c} _ _ => ⟨c, rfl⟩
  | cons i is ih =>
      intro c h ho
      obtain ⟨c1, h1⟩ : ∃ c1, c.operate id borrowed op i = .ok c1 := operate_main hop h ho
      obtain ⟨ht, hl, -⟩ := operate_ok hop h h1
      rw [List.map_cons, operateAll_cons, h1, ok_bind]
      exact ih ht (by rw [hl.isOrigin]; exact ho)

/-! ## The destructors of a future -/

/-- A destructor makes its task call if it rouses it. -/
theorem calls_op (h : c.Tidy) : Calls d.op c d.task ↔ c.roused d.task [d] = true := by
  have hop := gentle_op d
  have hcons : ∀ t, c.tasks d.task = some t → t.idle = true →
      t.roused d.task [d] = (d.op t).2 := by
    intro t ht hidle
    rw [Task.roused_cons hidle (h.idle_started ht hidle).2.1 rfl, Task.roused_nil, Bool.or_false]
  constructor
  · rintro ⟨t, ht, hcall⟩
    exact roused_iff.mpr ⟨t, ht, (hcons t ht (hop.calls hcall)).trans hcall⟩
  · intro hr
    obtain ⟨t, ht, hr⟩ := roused_iff.mp hr
    have hidle : t.idle = true := by
      simp only [Task.roused, Bool.and_eq_true] at hr
      exact hr.1
    exact ⟨t, ht, (hcons t ht hidle).symm.trans hr⟩

/-- What a destructor leaves to be roused. -/
theorem moved_op (h : c.Tidy) (hl : Later c c') (htasks : c'.tasks =
    Function.update c.tasks d.task ((c.tasks d.task).map fun t => (d.op t).1)) :
    Moved c [d] c' := by
  refine ⟨fun j ds => ?_, ?_⟩
  · rw [List.singleton_append]
    by_cases hj : j = d.task
    · subst hj
      unfold roused
      rw [htasks, Function.update_self]
      cases ht : c.tasks d.task with
      | none => rfl
      | some t =>
          simp only [Option.map_some, Option.any_some]
          cases hidle : t.idle with
          | true =>
              have hc := (h.idle_started ht hidle).2.1
              rw [Task.roused_cons hidle hc rfl, Task.roused_cons hidle hc rfl, Task.roused_nil,
                Bool.or_false]
              cases hcall : (d.op t).2 with
              | false => simp
              | true =>
                  have : (d.op t).1.idle = false := by
                    refine eq_false_of_ne_true fun hidle' => ?_
                    cases ((gentle_op d).idle hidle').2.symm.trans hcall
                  simp [Task.roused, this]
          | false =>
              have : (d.op t).1.idle = false := by
                refine eq_false_of_ne_true fun hidle' => ?_
                cases ((gentle_op d).idle hidle').1.symm.trans hidle
              simp [Task.roused, this, hidle]
    · have hne : d.task ≠ j := fun he => hj he.symm
      have h1 : c.roused j (d :: ds) = c.roused j ds := roused_ne [] hne
      have h2 : c.roused j [d] = c.roused j [] := roused_ne [] hne
      rw [h1, h2, roused_nil]
      unfold roused
      rw [htasks, Function.update_of_ne hj]
      simp
  · funext j
    unfold onDrop
    cases hj : c.tasks j with
    | none => rw [hl.absent j hj]
    | some t =>
        obtain ⟨t', ht', -, hon⟩ := hl.tasks j t hj
        simp [ht', hon]

/-- `c'` is what these destructors leave of `c`. -/
structure Destroyed (id : Option Nat) (c : Core W) (ds : List Destructor) (c' : Core W) :
    Prop where
  tidy : c'.Tidy
  later : Later c c'
  moved : Moved c ds c'
  pushed : Pushed id c (c.rousedBy ds) c'

theorem moved_refl (c : Core W) : Moved c [] c := by
  refine ⟨fun j ds => ?_, rfl⟩
  rw [roused_nil]
  simp

theorem destroy_op (h : c.Tidy) (id : Option Nat) (borrowed : Bool) (d : Destructor) :
    (c.roused d.task [d] = true ∧ c.state.isOrigin id = true ∧ borrowed = true ∧
      c.operate id borrowed d.op d.task = .error {}) ∨
    ((c.state.isOrigin id = true → borrowed = true → c.roused d.task [d] = false) ∧
      ∃ c', c.operate id borrowed d.op d.task = .ok c' ∧ Destroyed id c [d] c') := by
  have hby : c.rousedBy [d] = if c.roused d.task [d] = true then [d.task] else [] := by
    simp [rousedBy, rousedAfter, roused_nil]
  rcases operate_cases (gentle_op d) h id borrowed d.task with
    ⟨hcall, ho, hb, he⟩ | ⟨c', he, ht, hl, htasks, hq⟩
  · exact .inl ⟨(calls_op h).mp hcall, ho, hb, he⟩
  · refine .inr ⟨fun ho hb => ?_, c', he, ht, hl, moved_op h hl htasks, ?_⟩
    · rcases hq with ⟨hn, -⟩ | ⟨-, hb', -⟩
      · exact eq_false_of_ne_true fun hr => hn ((calls_op h).mpr hr)
      · cases hb.symm.trans (hb' ho)
    · rcases hq with ⟨hn, hp⟩ | ⟨hcall, -, hp⟩
      · rwa [hby, if_neg fun hr => hn ((calls_op h).mpr hr)]
      · rwa [hby, if_pos ((calls_op h).mp hcall)]

/-- The destructors stop where `thread_state` is borrowed and they rouse a
task on the origin thread; otherwise they go through. -/
theorem destroy_cases (id : Option Nat) (borrowed : Bool) :
    ∀ (ds : List Destructor) {c : Core W}, c.Tidy →
      ((∃ j, c.roused j ds = true) ∧ c.state.isOrigin id = true ∧ borrowed = true ∧
        c.operateAll id borrowed (ds.map fun d => (d.task, d.op)) = .error {}) ∨
      ((c.state.isOrigin id = true → borrowed = true → ∀ j, c.roused j ds = false) ∧
        ∃ c', c.operateAll id borrowed (ds.map fun d => (d.task, d.op)) = .ok c' ∧
          Destroyed id c ds c') := by
  intro ds
  induction ds with
  | nil =>
      intro c h
      exact .inr ⟨fun _ _ j => roused_nil, c, rfl, h, Later.refl c, moved_refl c,
        pushed_nil rfl rfl⟩
  | cons d ds ih =>
      intro c h
      rw [List.map_cons, operateAll_cons]
      have hne : ∀ j, c.roused j [d] = true → d.task = j := by
        intro j hj
        by_contra hne
        have hnil : c.roused j [d] = c.roused j [] := roused_ne [] hne
        rw [hj, roused_nil] at hnil
        cases hnil
      rcases destroy_op h id borrowed d with ⟨hr, ho, hb, he⟩ | ⟨hquiet, c1, h1, hd1⟩
      · exact .inl ⟨⟨d.task, roused_mono (by simp) hr⟩, ho, hb, by rw [he]; rfl⟩
      · rw [h1, ok_bind]
        rcases ih hd1.tidy with ⟨⟨j, hj⟩, ho, hb, he⟩ | ⟨hquiet', c2, h2, hd2⟩
        · rw [hd1.moved.roused] at hj
          exact .inl ⟨⟨j, (Bool.and_eq_true_iff.mp hj).1⟩,
            by rw [← hd1.later.isOrigin]; exact ho, hb, he⟩
        · refine .inr ⟨fun ho hb j => ?_, c2, h2, hd2.tidy, hd1.later.trans hd2.later,
            hd1.moved.trans hd2.moved, ?_⟩
          · have h1 := hquiet ho hb
            have h2 := hquiet' (by rw [hd1.later.isOrigin]; exact ho) hb j
            have hj : c.roused j [d] = false := by
              refine eq_false_of_ne_true fun hj => ?_
              rw [hne j hj] at h1
              cases h1.symm.trans hj
            rwa [hd1.moved.roused, hj, Bool.not_false, Bool.and_true] at h2
          · have := hd1.pushed.trans hd1.later hd2.pushed
            rwa [← rousedBy_append hd1.moved] at this

/-- A task that was polled is in the local queue, and stays there. -/
theorem StartedInLocal.later (hs : c.StartedInLocal) (hl : Later c c') : c'.StartedInLocal := by
  obtain ⟨i, hi, t, ht, hf⟩ := hs
  obtain ⟨t', ht', hf', -⟩ := hl.tasks i t ht
  exact ⟨i, hl.localQueue.subset hi, t', ht', hf'.trans hf⟩

/-- No task has come since. -/
theorem Later.before {t' : Task} (hl : Later c c') (ht' : c'.tasks i = some t') :
    ∃ t, c.tasks i = some t ∧ t'.future = t.future := by
  cases ht : c.tasks i with
  | none =>
      rw [hl.absent i ht] at ht'
      cases ht'
  | some t =>
      obtain ⟨u, hu, hf, -⟩ := hl.tasks i t ht
      cases hu.symm.trans ht'
      exact ⟨t, rfl, hf⟩

theorem Later.not_started (hl : Later c c') (hL : c'.localQueue = c.localQueue)
    (hs : ¬ c.StartedInLocal) : ¬ c'.StartedInLocal := by
  rintro ⟨i, hi, t', ht', hf⟩
  rw [hL] at hi
  obtain ⟨t, ht, hft⟩ := hl.before ht'
  exact hs ⟨i, hi, t, ht, hft.symm.trans hf⟩

theorem rouses_singleton : c.Rouses [i] ↔ ∃ j, c.roused j (c.onDrop i) = true := by
  unfold Rouses
  rw [List.flatMap_cons, List.flatMap_nil, List.append_nil]

/-! ## Dropping a Runnable -/

/-- The Runnable of `i` was popped from a queue of `c`. -/
structure Popped (c : Core W) (i : TaskId) (c0 : Core W) : Prop where
  queued : c.queued = i ::ₘ c0.queued
  tasks : c0.tasks = c.tasks
  event : c0.state.queue = c.state.queue
  origin : c0.state.originThread = c.state.originThread
  active : c0.active = c.active
  woken : c0.woken = c.woken

theorem popped_main {rest : List TaskId} (hM : c.mainQueue = i :: rest) :
    Popped c i (c.setMain rest) := by
  refine ⟨?_, rfl, rfl, rfl, rfl, rfl⟩
  rw [queued, hM, ← Multiset.cons_coe, Multiset.add_cons]
  rfl

theorem popped_local {rest : List TaskId} (hL : c.localQueue = i :: rest) :
    Popped c i (c.setLocal rest) := by
  refine ⟨?_, rfl, rfl, rfl, rfl, rfl⟩
  rw [queued, hL, ← Multiset.cons_coe, Multiset.cons_add]
  rfl

/-- The task whose Runnable was popped. -/
theorem Popped.owner {c0 : Core W} (hp : Popped c i c0) (h : c.Tidy) :
    ∃ t, c.tasks i = some t ∧ t.future ≠ .gone ∧ (c0.setTask i t.lose).Tidy ∧
      i ∉ c0.queued := by
  have hmem : i ∈ c.queued := by
    rw [hp.queued]
    exact Multiset.mem_cons_self ..
  obtain ⟨t, ht, -, hg, hone⟩ := h.owner hmem
  have hok := h.ok i t ht
  rw [hp.queued, Multiset.count_cons_self] at hok hone
  refine ⟨t, ht, hg, ?_, Multiset.count_eq_zero.mp (by omega)⟩
  refine h.change hok.lose (h.still i t ht) (fun j hj => ?_) (hp.event.trans h.event)
    (by rw [setTask, hp.tasks]) rfl
  rw [hp.queued, Multiset.count_cons_of_ne hj]

theorem Popped.isOrigin {c0 : Core W} (hp : Popped c i c0) (id : Option Nat) :
    c0.state.isOrigin id = c.state.isOrigin id := by
  unfold Executor.State.isOrigin
  rw [hp.origin]

theorem setTask_tasks (c : Core W) (i : TaskId) (t : Task) :
    (c.setTask i t).tasks = Function.update c.tasks i (some t) := rfl

/-- A task that is dropped does not wait, before or after. -/
theorem roused_popped {c0 : Core W} (hp : Popped c i c0) (h : c.Tidy) (t : Task) :
    (c0.setTask i t.lose).roused j ds = c.roused j ds := by
  by_cases he : j = i
  · subst he
    have hmem : j ∈ c.queued := by
      rw [hp.queued]
      exact Multiset.mem_cons_self ..
    have hnot : c.roused j ds = false :=
      eq_false_of_ne_true fun hr => h.not_idle_of_queued hmem (idle_of_roused hr)
    rw [hnot]
    unfold roused
    rw [setTask_tasks, Function.update_self]
    rfl
  · unfold roused
    rw [setTask_tasks, Function.update_of_ne he, hp.tasks]

theorem onDrop_popped {c0 : Core W} (hp : Popped c i c0) (ht : c.tasks i = some t) :
    (c0.setTask i t.lose).onDrop = c.onDrop := by
  funext j
  unfold onDrop
  rw [setTask_tasks]
  by_cases hj : j = i
  · simp [hj, ht, Task.lose]
  · simp [hj, hp.tasks]

theorem rousedBy_congr (h : ∀ j ds, c'.roused j ds = c.roused j ds) :
    c'.rousedBy ds = c.rousedBy ds := by
  have hafter : ∀ ds before, c'.rousedAfter before ds = c.rousedAfter before ds := by
    intro ds
    induction ds with
    | nil => exact fun _ => rfl
    | cons d ds ih =>
        intro before
        rw [rousedAfter, ih, rousedAfter, h, h]
  exact hafter ds []

/-- `c'` is what the drop of the Runnable of `i`, popped from `c`, leaves of
`c0`. -/
structure Dropped (id : Option Nat) (c : Core W) (i : TaskId) (c0 c' : Core W) : Prop where
  tidy : c'.Tidy
  moved : Moved c (c.onDrop i) c'
  pushed : Pushed id c0 (c.rousedBy (c.onDrop i)) c'
  gone : ∃ t', c'.tasks i = some t' ∧ t'.future = .gone
  tasks : ∀ j, j ≠ i → ∀ t, c.tasks j = some t →
    ∃ t', c'.tasks j = some t' ∧ t'.future = t.future
  absent : ∀ j, c.tasks j = none → c'.tasks j = none
  origin : c'.state.originThread = c.state.originThread
  active : c.active = [] → c'.active = []
  woken : c'.woken = c.woken

/-- The drop of a Runnable in two steps: what the future owns, the guard. -/
theorem dropRunnable_eq {c0 : Core W} (ht : c0.tasks i = some t) (hg : t.future ≠ .gone)
    (id : Option Nat) (borrowed : Bool) : c0.dropRunnable id borrowed i =
      ((c0.setTask i t.lose).operateAll id borrowed (t.onDrop.map fun d => (d.task, d.op)) >>=
        fun c =>
          if t.future = .started then
            if borrowed then .error {} else .ok { c with active := tryRemove c.active t.key }
          else .ok c) := by
  have hguard : t.guard t.lose = true ↔ t.future = .started := by
    simp [Task.guard, Task.lose]
  unfold dropRunnable
  simp only [ht, if_neg hg, hguard]

theorem dropped_of_destroyed {c0 c1 : Core W} (hp : Popped c i c0) (h : c.Tidy)
    (ht : c.tasks i = some t) (hd : Destroyed id (c0.setTask i t.lose) t.onDrop c1) :
    Dropped id c i c0 c1 where
  tidy := hd.tidy
  moved := by
    refine ⟨fun j ds' => ?_, hd.moved.onDrop.trans (onDrop_popped hp ht)⟩
    rw [hd.moved.roused, roused_popped hp h, roused_popped hp h, onDrop_some ht]
  pushed := by
    have hby : (c0.setTask i t.lose).rousedBy t.onDrop = c.rousedBy t.onDrop :=
      rousedBy_congr fun _ _ => roused_popped hp h t
    rw [onDrop_some ht, ← hby]
    exact ⟨hd.pushed.localQueue, hd.pushed.mainQueue⟩
  gone := by
    obtain ⟨t', ht', hf, -⟩ := hd.later.tasks i t.lose (Function.update_self ..)
    exact ⟨t', ht', hf⟩
  tasks j hj u hu := by
    have hset : (c0.setTask i t.lose).tasks j = some u := by
      rw [setTask_tasks, Function.update_of_ne hj, hp.tasks]
      exact hu
    obtain ⟨t', ht', hf, -⟩ := hd.later.tasks j u hset
    exact ⟨t', ht', hf⟩
  absent j hj := by
    refine hd.later.absent j ?_
    have hne : j ≠ i := by
      rintro rfl
      rw [ht] at hj
      cases hj
    rw [setTask_tasks, Function.update_of_ne hne, hp.tasks]
    exact hj
  origin := hd.later.origin.trans hp.origin
  active ha := hd.later.active.trans (hp.active.trans ha)
  woken := hd.later.woken.trans hp.woken

/-- The guard removes the entry of its task. -/
theorem Dropped.guard {c0 c1 : Core W} (hd : Dropped id c i c0 c1) (key : Nat) :
    Dropped id c i c0 { c1 with active := tryRemove c1.active key } :=
  ⟨⟨hd.tidy.event, hd.tidy.absent, hd.tidy.ok, hd.tidy.still⟩,
    ⟨hd.moved.roused, hd.moved.onDrop⟩,
    ⟨hd.pushed.localQueue, hd.pushed.mainQueue⟩, hd.gone, hd.tasks, hd.absent, hd.origin,
    fun ha => by
      show tryRemove c1.active key = []
      rw [hd.active ha]
      rfl, hd.woken⟩

/-- The drop of a Runnable stops where `thread_state` is borrowed and the
guard runs, or a destructor rouses a task on the origin thread. -/
theorem dropRunnable_cases {c0 : Core W} (hp : Popped c i c0) (h : c.Tidy)
    (ht : c.tasks i = some t) (id : Option Nat) (borrowed : Bool) :
    (borrowed = true ∧ (t.future = .started ∨ c.state.isOrigin id = true ∧ c.Rouses [i]) ∧
      c0.dropRunnable id borrowed i = .error {}) ∨
    ((borrowed = true →
      t.future ≠ .started ∧ (c.state.isOrigin id = true → ¬ c.Rouses [i])) ∧
      ∃ c', c0.dropRunnable id borrowed i = .ok c' ∧ Dropped id c i c0 c') := by
  obtain ⟨t', ht', hg, htidy, -⟩ := hp.owner h
  obtain rfl := Option.some.inj (ht.symm.trans ht')
  have ho : (c0.setTask i t.lose).state.isOrigin id = c.state.isOrigin id := hp.isOrigin id
  rw [dropRunnable_eq (by rw [hp.tasks]; exact ht) hg, rouses_singleton, onDrop_some ht]
  rcases destroy_cases id borrowed t.onDrop htidy with
    ⟨⟨j, hj⟩, ho', hb, he⟩ | ⟨hquiet, c1, h1, hd⟩
  · rw [roused_popped hp h] at hj
    exact .inl ⟨hb, .inr ⟨ho ▸ ho', j, hj⟩, by rw [he]; rfl⟩
  · have hdropped := dropped_of_destroyed hp h ht hd
    have hnone : borrowed = true → c.state.isOrigin id = true →
        ¬ ∃ j, c.roused j t.onDrop = true := by
      rintro hb ho' ⟨j, hj⟩
      have := hquiet (ho.trans ho') hb j
      rw [roused_popped hp h, hj] at this
      cases this
    rw [h1, ok_bind]
    by_cases hs : t.future = .started
    · rw [if_pos hs]
      cases borrowed with
      | true => exact .inl ⟨rfl, .inl hs, rfl⟩
      | false => exact .inr ⟨by simp, _, rfl, hdropped.guard _⟩
    · rw [if_neg hs]
      exact .inr ⟨fun hb => ⟨hs, hnone hb⟩, c1, rfl, hdropped⟩

/-- A drop that goes through. -/
theorem dropRunnable_ok {c0 : Core W} (hp : Popped c i c0) (h : c.Tidy)
    (hr : c0.dropRunnable id borrowed i = .ok c') : Dropped id c i c0 c' := by
  obtain ⟨t, ht, -⟩ := hp.owner h
  rcases dropRunnable_cases hp h ht id borrowed with ⟨-, -, he⟩ | ⟨-, c1, he, hd⟩
  · cases he.symm.trans hr
  · obtain rfl := Except.ok.inj (he.symm.trans hr)
    exact hd

end Facts

end Core

end Tasks

end Unsend

import Unsend.Listeners
import Unsend.TaskRest

/-!
# Programs

A program is an executor with its tasks and any number of components that
the tasks share: locks, channels, barriers. A component is `Part`: a state
machine that knows which of its futures are suspended, and whose wakers
are the tasks'. In one step a running task uses a component, and whoever
that wakes has been woken before the next step.

A task keeps to the rules of futures (`Keeps`): when a poll of it returns
`Pending`, every future it is still suspended in was polled by that poll,
and when it is done, none is left. Then no wake-up gets lost between a
component and the executor: once the executor is at rest, nobody who waits
in a component has been woken since his latest poll (`rest_unheard`).
-/

namespace Unsend

namespace Program

open Tasks (TaskId)

/-! ## The components -/

/-- What the tasks of a program share. -/
structure Part where
  State : Type
  Label : Type
  init : State
  next : State → Label → Option State
  /-- The wakers woken so far. -/
  woken : State → List TaskId
  /-- The future that is polled, and its waker. -/
  polls : Label → Option (Ptr × TaskId)
  /-- The lists of listeners, and the tags that their events carry. -/
  Site : Type
  Tag : Type
  listeners : State → Site → Queue Tag TaskId
  empty : ∀ site, listeners init site = []
  /-- A step moves listeners and wakes some of those that wait. -/
  carries : ∀ {s l s'}, (System.ofNext (· = init) next).Reachable s → next s l = some s' →
    ∃ new, woken s' = woken s ++ new ∧
      Queue.Carried (listeners s) (polls l) new (listeners s')

namespace Part

variable {P : Part} {s s' : P.State} {l : P.Label} {tr : List (P.State × P.Label)} {p : Ptr}

def system (P : Part) : System P.State P.Label := .ofNext (· = P.init) P.next

/-- The future at this address is suspended. -/
def Waits (P : Part) (s : P.State) (p : Ptr) : Prop := ∃ site, p ∈ (P.listeners s site).ids

def polling (P : Part) (p : Ptr) (x : P.State × P.Label) : Option (TaskId × Nat) :=
  (P.polls x.2).bind fun y => if y.1 = p then some (y.2, (P.woken x.1).length) else none

/-- The waker that the future `p` was polled with last, and the number of
wakers that had been woken by then. -/
def latest (P : Part) (tr : List (P.State × P.Label)) (p : Ptr) : Option (TaskId × Nat) :=
  System.latest (P.polling p) tr

/-- Nobody who waits has been woken since his latest poll. -/
def Unheard (P : Part) (tr : List (P.State × P.Label)) (s : P.State) : Prop :=
  ∀ p i n, P.Waits s p → P.latest tr p = some (i, n) → i ∉ (P.woken s).drop n

theorem waits_next (hr : P.system.Reachable s) (h : P.next s l = some s') (hw : P.Waits s' p) :
    P.Waits s p ∨ ∃ i, P.polls l = some (p, i) := by
  obtain ⟨new, -, hcarried⟩ := P.carries hr h
  obtain ⟨site, hp⟩ := hw
  exact ((hcarried.carries site).ids p hp).imp_left fun hp => ⟨site, hp⟩

theorem latest_append (x : P.State × P.Label) :
    P.latest (tr ++ [x]) = Queue.markPolled (P.latest tr) (P.woken x.1).length (P.polls x.2) := by
  funext p
  rw [latest, System.latest_append]
  show (P.polling p x).or (P.latest tr p) = _
  unfold polling
  cases hpoll : P.polls x.2 with
  | none => rfl
  | some y =>
      obtain ⟨r, i⟩ := y
      by_cases hr : p = r
      · simp [hr, Queue.markPolled]
      · simp [hr, Ne.symm hr, Queue.markPolled]

/-- A listener waits with the waker of the latest poll of its future, or
that waker has been woken since. -/
theorem tracked_run (h : P.system.Run tr s) (site : P.Site) :
    (P.listeners s site).Tracked (P.woken s) (P.latest tr) := by
  refine h.history (I := fun tr s => (P.listeners s site).Tracked (P.woken s) (P.latest tr)) ?_ ?_
  · rintro s rfl
    rw [P.empty]
    exact Queue.tracked_nil
  · intro tr s l s' hr hn hs
    obtain ⟨new, hwoken, hcarried⟩ := P.carries ⟨tr, hr⟩ hs
    rw [hwoken, latest_append]
    exact (hcarried.carries site).tracked _ _ hn

/-- Where nobody has been woken, nobody is notified. -/
theorem Unheard.none_notified (hu : P.Unheard tr s) (h : P.system.Run tr s) (site : P.Site) :
    (P.listeners s site).numNotified = 0 := by
  by_contra hne
  obtain ⟨p, t, b, i, n, hm, hlatest, w, hw, he⟩ :=
    (tracked_run h site).woken (Nat.pos_of_ne_zero hne)
  obtain rfl : w = i := he.elim id fun he => beq_iff_eq.mp he
  exact hu p w n ⟨site, Queue.mem_ids_of_mem hm⟩ hlatest hw

end Part

/-! ## The program -/

variable {ι : Type} {P : ι → Part} {W : Type}

/-- An executor with the components its tasks use. For the futures of each
component there is the waker of the latest poll with the number of
wakers that the component had woken by then, and for each task that number
at the time when its Runnable was run last. -/
structure Sys (P : ι → Part) (W : Type) where
  exec : Tasks.Sys W
  parts : ∀ c, (P c).State
  latest : ι → Ptr → Option (TaskId × Nat)
  began : ι → TaskId → Nat

inductive Label (P : ι → Part) (W : Type) where
  | exec (l : Tasks.Label W)
  /-- The task that runs uses the component `c`. -/
  | part (c : ι) (l : (P c).Label)

/-- What the executor gets to hear of a step of a component: the waker of a
poll is cloned, and wakers are woken. -/
def Part.heard (P : Part) (id : Option Nat) (s s' : P.State) (l : P.Label) :
    List (Tasks.Label W) :=
  (P.polls l).toList.map (fun x => .wakers x.2 true) ++
    ((P.woken s').drop (P.woken s).length).map fun i => .wake i id

namespace Sys

def init (P : ι → Part) (id : Option Nat) : Sys P W :=
  ⟨.init id, fun c => (P c).init, fun _ _ => none, fun _ _ => 0⟩

/-- The Runnable that a step of the executor takes out is run. -/
def beganAfter (s : Sys P W) : Tasks.Label W → ι → TaskId → Nat
  | .tick l, c, i =>
      if s.exec.sched.takes l = some i then ((P c).woken (s.parts c)).length else s.began c i
  | _, c, i => s.began c i

/-- A future is polled by the task that runs, with its own waker. -/
def polledByRunning (s : Sys P W) (c : ι) (l : (P c).Label) : Bool :=
  ((P c).polls l).all fun x => s.exec.running.head? == some x.2

variable [DecidableEq ι] [WillWake W]

def next (id : Option Nat) (s : Sys P W) : Label P W → Option (Sys P W)
  | .exec l => (s.exec.next l).map fun exec => { s with exec, began := s.beganAfter l }
  | .part c l =>
      if s.exec.sched.Free ∧ s.polledByRunning c l then
        ((P c).next (s.parts c) l).bind fun part =>
          (Unsend.exec Tasks.Sys.next s.exec ((P c).heard id (s.parts c) part l)).map fun exec =>
            { s with
              exec
              parts := Function.update s.parts c part
              latest := Function.update s.latest c
                (Queue.markPolled (s.latest c) ((P c).woken (s.parts c)).length ((P c).polls l)) }
      else none

end Sys

/-- Every run of a program whose executor's origin thread is `id`. -/
def system [DecidableEq ι] [WillWake W] (P : ι → Part) (id : Option Nat) :
    System (Sys P W) (Label P W) :=
  .ofNext (· = .init P id) (Sys.next id)

/-- No Runnable is dropped un-run. A poll that returns `Pending` has polled
every future its task is still suspended in, and a task that is done is
suspended nowhere. -/
def Sys.Keeps (s : Sys P W) : Label P W → Prop
  | .exec (.tick l) => s.exec.sched.drops l = none
  | .exec (.ret ready onDrop _) => ∀ i t, s.exec.running.head? = some i →
      s.exec.tasks i = some t → ∀ c p n, (P c).Waits (s.parts c) p →
        s.latest c p = some (i, n) →
          (t.finish ready onDrop).1.future ≠ .gone ∧ s.began c i ≤ n
  | _ => True

/-! ## The runs inside a run -/

/-- The steps of the executor that a step of the program takes. -/
def execSteps [WillWake W] (id : Option Nat) (s : Sys P W) : Label P W → List (Tasks.Label W)
  | .exec l => [l]
  | .part c l =>
      (((P c).next (s.parts c) l).map fun part => (P c).heard id (s.parts c) part l).getD []

def execRun [WillWake W] (id : Option Nat) (tr : List (Sys P W × Label P W)) :
    List (Tasks.Sys W × Tasks.Label W) :=
  tr.flatMap fun x => execTrace Tasks.Sys.next x.1.exec (execSteps id x.1 x.2)

def partStep [DecidableEq ι] (c : ι) :
    Sys P W × Label P W → Option ((P c).State × (P c).Label)
  | (_, .exec _) => none
  | (s, .part c' l) => if h : c' = c then some (s.parts c, h ▸ l) else none

def partRun [DecidableEq ι] (c : ι) (tr : List (Sys P W × Label P W)) :
    List ((P c).State × (P c).Label) :=
  tr.filterMap (partStep c)

section Runs

variable [DecidableEq ι] [WillWake W] {s s' : Sys P W} {c : ι} {id : Option Nat}
  {tr : List (Sys P W × Label P W)}

theorem next_exec {l : Tasks.Label W} (h : s.next id (.exec l) = some s') :
    ∃ exec, s.exec.next l = some exec ∧ s' = { s with exec, began := s.beganAfter l } := by
  obtain ⟨exec, hnext, rfl⟩ := Option.map_eq_some_iff.mp h
  exact ⟨exec, hnext, rfl⟩

theorem next_part {l : (P c).Label} (h : s.next id (.part c l) = some s') :
    s.exec.sched.Free ∧ s.polledByRunning c l = true ∧
      ∃ part exec, (P c).next (s.parts c) l = some part ∧
        Unsend.exec Tasks.Sys.next s.exec ((P c).heard id (s.parts c) part l) = some exec ∧
        s' = { s with
          exec
          parts := Function.update s.parts c part
          latest := Function.update s.latest c
            (Queue.markPolled (s.latest c) ((P c).woken (s.parts c)).length ((P c).polls l)) } := by
  rw [Sys.next] at h
  split at h
  · rename_i hc
    obtain ⟨part, hnext, h⟩ := Option.bind_eq_some_iff.mp h
    obtain ⟨exec, hexec, rfl⟩ := Option.map_eq_some_iff.mp h
    exact ⟨hc.1, hc.2, part, exec, hnext, hexec, rfl⟩
  · cases h

theorem exec_next {l : Label P W} (h : s.next id l = some s') :
    Unsend.exec Tasks.Sys.next s.exec (execSteps id s l) = some s'.exec := by
  cases l with
  | exec l =>
      obtain ⟨exec, hnext, rfl⟩ := next_exec h
      show (s.exec.next l).bind _ = _
      rw [hnext]
      rfl
  | part c l =>
      obtain ⟨-, -, part, exec, hnext, hexec, rfl⟩ := next_part h
      show Unsend.exec _ _ ((((P c).next (s.parts c) l).map _).getD []) = _
      rw [hnext]
      exact hexec

/-- The executor runs by itself. -/
theorem exec_run (h : (system P id).Run tr s) : (Tasks.system id).Run (execRun id tr) s.exec := by
  induction h with
  | start h0 =>
      obtain rfl := h0
      exact .start rfl
  | step hr hs ih =>
      unfold execRun at ih ⊢
      rw [List.flatMap_append, List.flatMap_singleton]
      exact run_append_exec ih (exec_next hs)

theorem inv_exec (h : (system P id).Reachable s) : s.exec.Inv := by
  obtain ⟨tr, hr⟩ := h
  exact Tasks.inv_reachable ⟨_, exec_run hr⟩

omit [WillWake W] in
theorem partRun_append (x : Sys P W × Label P W) :
    partRun c (tr ++ [x]) = partRun c tr ++ (partStep c x).toList := by
  rw [partRun, List.filterMap_append]
  cases hx : partStep c x with
  | none => simp [hx, partRun]
  | some y => simp [hx, partRun]

/-- A step of the program is a step of the component, or leaves it as it
is. -/
theorem part_next {l : Label P W} (h : s.next id l = some s') :
    (partStep c (s, l) = none ∧ s'.parts c = s.parts c ∧ s'.latest c = s.latest c) ∨
    ∃ l', partStep c (s, l) = some (s.parts c, l') ∧ l = .part c l' ∧
      (P c).next (s.parts c) l' = some (s'.parts c) ∧
      s'.latest c =
        Queue.markPolled (s.latest c) ((P c).woken (s.parts c)).length ((P c).polls l') := by
  cases l with
  | exec l =>
      obtain ⟨exec, -, rfl⟩ := next_exec h
      exact .inl ⟨rfl, rfl, rfl⟩
  | part c' l =>
      obtain ⟨-, -, part, exec, hnext, -, rfl⟩ := next_part h
      by_cases hc : c' = c
      · subst hc
        refine .inr ⟨l, dif_pos rfl, rfl, ?_, Function.update_self ..⟩
        show _ = some (Function.update s.parts c' part c')
        rw [Function.update_self]
        exact hnext
      · exact .inl ⟨dif_neg hc, Function.update_of_ne (Ne.symm hc) ..,
          Function.update_of_ne (Ne.symm hc) ..⟩

/-- Each component runs by itself. -/
theorem part_run (h : (system P id).Run tr s) : (P c).system.Run (partRun c tr) (s.parts c) := by
  induction h with
  | start h0 =>
      obtain rfl := h0
      exact .start rfl
  | step hr hs ih =>
      rw [partRun_append]
      rcases part_next (c := c) hs with ⟨hnone, hpart, -⟩ | ⟨l', hsome, -, hnext, -⟩
      · rw [hnone, hpart, Option.toList_none, List.append_nil]
        exact ih
      · rw [hsome]
        exact ih.step hnext

theorem part_reachable (h : (system P id).Reachable s) (c : ι) :
    (P c).system.Reachable (s.parts c) := by
  obtain ⟨tr, hr⟩ := h
  exact ⟨_, part_run hr⟩

theorem latest_run (h : (system P id).Run tr s) (c : ι) :
    s.latest c = (P c).latest (partRun c tr) := by
  refine h.history (I := fun tr s => s.latest c = (P c).latest (partRun c tr)) ?_ ?_
  · rintro s rfl
    rfl
  · intro tr s l s' _ hn hs
    rw [partRun_append]
    rcases part_next (c := c) hs with ⟨hnone, -, hlatest⟩ | ⟨l', hsome, -, -, hlatest⟩
    · rw [hnone, hlatest, Option.toList_none, List.append_nil]
      exact hn
    · rw [hsome, hlatest, hn]
      exact (Part.latest_append (s.parts c, l')).symm

end Runs

/-! ## Wake-ups arrive -/

section Told

variable [WillWake W] {e e' e'' : Tasks.Sys W} {i : TaskId} {t : Tasks.Task}
    {new new' : List TaskId}

/-- What the calls of a component leave behind: they run nothing and end
nothing, and an open task that they wake is scheduled. -/
structure Told (new : List TaskId) (e e' : Tasks.Sys W) : Prop where
  running : e'.running = e.running
  absent : ∀ i, e.tasks i = none → e'.tasks i = none
  task : ∀ i t, e.tasks i = some t → ∃ t', e'.tasks i = some t' ∧ t'.future = t.future ∧
    (t'.Open → t.Open ∧ (t.scheduled = true ∨ i ∈ new → t'.scheduled = true))

omit [WillWake W] in
theorem told_refl (e : Tasks.Sys W) : Told [] e e where
  running := rfl
  absent _ h := h
  task _ t h := ⟨t, h, rfl, fun ho => ⟨ho, fun hs => hs.resolve_right List.not_mem_nil⟩⟩

omit [WillWake W] in
theorem Told.trans (h : Told new e e') (h' : Told new' e' e'') : Told (new ++ new') e e'' where
  running := h'.running.trans h.running
  absent i hi := h'.absent i (h.absent i hi)
  task i t hi := by
    obtain ⟨t', ht', hf, hopen⟩ := h.task i t hi
    obtain ⟨t'', ht'', hf', hopen'⟩ := h'.task i t' ht'
    refine ⟨t'', ht'', hf'.trans hf, fun ho => ?_⟩
    obtain ⟨ho', hs'⟩ := hopen' ho
    obtain ⟨ho, hs⟩ := hopen ho'
    refine ⟨ho, fun h => ?_⟩
    rcases h with h | h
    · exact hs' (.inl (hs (.inl h)))
    · rcases List.mem_append.mp h with h | h
      · exact hs' (.inl (hs (.inr h)))
      · exact hs' (.inr h)

theorem told_wakers {held : Bool} (hi : e.Inv) (h : e.next (.wakers i held) = some e') :
    Told [] e e' := by
  obtain ⟨u, hu, -, rfl⟩ := Tasks.next_wakers h
  refine ⟨rfl, fun j hj => ?_, fun j t hj => ⟨_, Tasks.task_next hi hj h, ?_, fun ho => ?_⟩⟩
  · rw [Tasks.tasks_put, if_neg fun he => by rw [he, hu] at hj; cases hj]
    exact hj
  · unfold Tasks.Sys.turn
    dsimp only
    split
    · rfl
    · rfl
  · obtain ⟨ho, hs⟩ := Tasks.open_turn (by simp) (fun h => by cases h) ho
    exact ⟨ho, fun h => hs.trans (h.resolve_right List.not_mem_nil)⟩

theorem told_wake {id : Option Nat} (hi : e.Inv) (h : e.next (.wake i id) = some e') :
    Told [i] e e' := by
  have hrun := Tasks.running_next hi h
  refine ⟨hrun, fun j hj => ?_, fun j t hj =>
    ⟨_, Tasks.task_next hi hj h, ?_, fun ho => ?_⟩⟩
  · cases hj' : e'.tasks j with
    | none => rfl
    | some t' =>
        obtain ⟨key, pos, onDrop, id, hl, -⟩ := Tasks.task_appears hi hj h hj'
        cases hl
  · unfold Tasks.Sys.turn Tasks.Task.wake
    dsimp only
    split
    · split
      · rfl
      · rfl
    · rfl
  · have hw : Tasks.wakeUp j (e, .wake i id) = if i = j then some true else none := rfl
    obtain ⟨ho, hs⟩ :=
      Tasks.open_turn (by simp) (fun h => by rw [hw] at h; split at h <;> cases h) ho
    refine ⟨ho, fun h => hs.trans ?_⟩
    rw [hw]
    by_cases hij : i = j
    · simp [hij]
    · rw [if_neg hij]
      exact h.resolve_right fun hm => hij (List.mem_singleton.mp hm).symm

theorem told_wakes {id : Option Nat} : ∀ {new : List TaskId} {e : Tasks.Sys W}, e.Inv →
    exec Tasks.Sys.next e (new.map fun i => .wake i id) = some e' → Told new e e' := by
  intro new
  induction new with
  | nil =>
      rintro e - h
      obtain rfl := Option.some.inj h
      exact told_refl e
  | cons i new ih =>
      intro e hi h
      obtain ⟨e1, hnext, h⟩ := Option.bind_eq_some_iff.mp h
      exact (told_wake hi hnext).trans (ih (Tasks.inv_next hi hnext) h)

end Told

section Heard

variable [WillWake W] {s s' : Sys P W} {c : ι} {id : Option Nat} {i : TaskId}
  {tr : List (Sys P W × Label P W)}

/-- A component tells the executor of everybody it wakes. -/
theorem told_heard {e e' : Tasks.Sys W} {st st' : (P c).State} {l : (P c).Label} (hi : e.Inv)
    (h : exec Tasks.Sys.next e ((P c).heard id st st' l) = some e') :
    Told (((P c).woken st').drop ((P c).woken st).length) e e' := by
  unfold Part.heard at h
  rw [exec_append] at h
  obtain ⟨e1, h1, h⟩ := Option.bind_eq_some_iff.mp h
  cases hp : (P c).polls l with
  | none =>
      rw [hp] at h1
      obtain rfl := Option.some.inj h1
      exact told_wakes hi h
  | some x =>
      rw [hp] at h1
      obtain ⟨e2, hnext, h1⟩ := Option.bind_eq_some_iff.mp h1
      obtain rfl := Option.some.inj h1
      have := (told_wakers hi hnext).trans (told_wakes (Tasks.inv_next hi hnext) h)
      exact this

/-- An open task that was woken by a component since its Runnable was run
last is scheduled. -/
def Sys.Answered (s : Sys P W) : Prop :=
  ∀ i t, s.exec.tasks i = some t → t.Open → ∀ c,
    i ∈ ((P c).woken (s.parts c)).drop (s.began c i) → t.scheduled = true

/-- A suspended future was polled last by a task that still runs, or by the
latest poll of an unfinished one. -/
def Sys.Fresh (s : Sys P W) : Prop :=
  ∀ c p i n, (P c).Waits (s.parts c) p → s.latest c p = some (i, n) →
    i ∈ s.exec.running ∨ ∃ t, s.exec.tasks i = some t ∧ t.future ≠ .gone ∧
      s.began c i ≤ n

omit [WillWake W] in
theorem began_exec {l : Tasks.Label W} (h : Tasks.wakeUp i (s.exec, l) ≠ some false) (c : ι) :
    s.beganAfter l c i = s.began c i := by
  cases l with
  | tick l =>
      refine if_neg fun htakes => h ?_
      exact if_pos htakes
  | _ => rfl

omit [WillWake W] in
theorem began_run {l : Tasks.Label W} (h : Tasks.wakeUp i (s.exec, l) = some false) (c : ι) :
    s.beganAfter l c i = ((P c).woken (s.parts c)).length := by
  cases l with
  | tick l =>
      rw [Tasks.wakeUp] at h
      split at h
      · rename_i htakes
        exact if_pos htakes
      · cases h
  | spawn j key pos onDrop id | wake j id =>
      rw [Tasks.wakeUp] at h
      split at h
      · cases h
      · cases h
  | _ => cases h

variable [DecidableEq ι]

theorem answered_exec {l : Tasks.Label W} (hi : s.exec.Inv) (ha : s.Answered)
    (h : s.next id (.exec l) = some s') : s'.Answered := by
  obtain ⟨exec, hnext, rfl⟩ := next_exec h
  intro i t' ht' hopen c hm
  cases ht : s.exec.tasks i with
  | none =>
      obtain ⟨key, pos, onDrop, id, rfl, rfl⟩ := Tasks.task_appears hi ht hnext ht'
      rfl
  | some t =>
      obtain rfl := Option.some.inj ((Tasks.task_next hi ht hnext).symm.trans ht')
      have hl : ∀ key pos onDrop id, l ≠ .spawn i key pos onDrop id := by
        rintro key pos onDrop id rfl
        obtain ⟨⟨-, hnone, -, -⟩, -⟩ := Tasks.next_spawn hnext
        cases hnone.symm.trans ht
      obtain ⟨hopen, hflag⟩ := Tasks.open_turn hl (Tasks.future_of_wakeUp hi ht hnext) hopen
      rw [hflag]
      change i ∈ ((P c).woken (s.parts c)).drop (s.beganAfter l c i) at hm
      cases hw : Tasks.wakeUp i (s.exec, l) with
      | none =>
          rw [began_exec (by rw [hw]; simp)] at hm
          exact ha i t ht hopen c hm
      | some b =>
          cases b with
          | true => rfl
          | false =>
              rw [began_run hw, List.drop_length] at hm
              cases hm

theorem answered_part {l : (P c).Label} (hr : (P c).system.Reachable (s.parts c))
    (hi : s.exec.Inv) (ha : s.Answered) (h : s.next id (.part c l) = some s') : s'.Answered := by
  obtain ⟨-, -, part, exec, hnext, hexec, rfl⟩ := next_part h
  have htold := told_heard hi hexec
  intro i t' ht' hopen c' hm
  cases ht : s.exec.tasks i with
  | none => cases (htold.absent i ht).symm.trans ht'
  | some t =>
      obtain ⟨t1, ht1, -, hopen1⟩ := htold.task i t ht
      cases ht1.symm.trans ht'
      obtain ⟨ho, hs⟩ := hopen1 hopen
      refine hs ?_
      change i ∈ ((P c').woken (Function.update s.parts c part c')).drop (s.began c' i) at hm
      by_cases hc : c' = c
      · subst hc
        rw [Function.update_self] at hm
        obtain ⟨new, hnew, -⟩ := (P c').carries hr hnext
        rw [hnew, List.drop_append] at hm
        rcases List.mem_append.mp hm with hm | hm
        · exact .inl (ha i t ht ho c' hm)
        · refine .inr ?_
          rw [hnew, List.drop_left]
          exact List.mem_of_mem_drop hm
      · rw [Function.update_of_ne hc] at hm
        exact .inl (ha i t ht ho c' hm)

theorem answered_reachable (h : (system P id).Reachable s) : s.Answered := by
  refine h.invariant_of (I := Sys.Answered) ?_ fun s l s' hr ha hs => ?_
  · rintro s rfl i t ht
    cases ht
  · cases l with
    | exec l => exact answered_exec (inv_exec hr) ha hs
    | part c l => exact answered_part (part_reachable hr c) (inv_exec hr) ha hs

/-! ## Futures are polled by their tasks -/

section Poll

variable {e : Tasks.Sys W} {l : Tasks.Label W} {t : Tasks.Task}

/-- The task's poll returns. -/
def Returns (e : Tasks.Sys W) (i : TaskId) : Tasks.Label W → Prop
  | .ret _ _ _ => e.running.head? = some i
  | _ => False

omit [DecidableEq ι] [WillWake W] in
theorem running_keeps (h : i ∈ e.running) (hret : ¬ Returns e i l) : i ∈ e.runningAfter l := by
  cases l with
  | tick l => exact List.mem_append_right _ h
  | ret ready onDrop id =>
      show i ∈ e.running.tail
      cases hrun : e.running with
      | nil => rw [hrun] at h; cases h
      | cons j rest =>
          rw [hrun] at h
          refine (List.mem_cons.mp h).resolve_left fun he => hret ?_
          rw [Returns, hrun, he]
          rfl
  | _ => exact h

omit [DecidableEq ι] [WillWake W] in
/-- The future of a task ends with its poll or its Runnable. -/
theorem future_keeps (hdrop : ∀ l', l = .tick l' → e.sched.drops l' = none)
    (hrun : i ∉ e.runningAfter l) (hret : ¬ Returns e i l) :
    (e.turn i t l).future = t.future ∧ Tasks.wakeUp i (e, l) ≠ some false := by
  unfold Tasks.Sys.turn
  cases l with
  | tick l =>
      have htakes : e.sched.takes l ≠ some i :=
        fun h => hrun (by simp [Tasks.Sys.runningAfter, h])
      simp [hdrop l rfl, htakes, Tasks.wakeUp]
  | spawn j key pos onDrop id =>
      simp [Tasks.wakeUp]
  | wake j id =>
      refine ⟨?_, by simp [Tasks.wakeUp]⟩
      unfold Tasks.Task.wake
      dsimp only
      split
      · split
        · rfl
        · rfl
      · rfl
  | cancel j id =>
      refine ⟨?_, fun h => by cases h⟩
      unfold Tasks.Task.cancel
      dsimp only
      split
      · split
        · rfl
        · rfl
      · rfl
  | detach j | wakers j held =>
      refine ⟨?_, fun h => by cases h⟩
      dsimp only
      split
      · rfl
      · rfl
  | ret ready onDrop id =>
      exact ⟨congrArg Tasks.Task.future (if_neg hret), fun h => by cases h⟩

end Poll

theorem fresh_exec {l : Tasks.Label W} (hi : s.exec.Inv) (hf : s.Fresh) (hk : s.Keeps (.exec l))
    (h : s.next id (.exec l) = some s') : s'.Fresh := by
  obtain ⟨exec, hnext, rfl⟩ := next_exec h
  intro c p i n hw hlatest
  by_cases hret : Returns s.exec i l
  · -- its poll returns, and has polled this future
    cases l with
    | ret ready onDrop id =>
        obtain ⟨j, running, t, -, -, hrun, ht, -, -, -⟩ := Tasks.next_ret hnext
        obtain rfl : j = i := by
          rw [Returns, hrun] at hret
          exact Option.some.inj hret
        obtain ⟨hg, hle⟩ := hk j t hret ht c p n hw hlatest
        refine .inr ⟨_,
          (Tasks.task_next hi ht hnext).trans (congrArg some (if_pos hret)), hg, hle⟩
    | _ => exact hret.elim
  · by_cases hrun : i ∈ s.exec.runningAfter l
    · exact .inl ((Tasks.running_next hi hnext).symm ▸ hrun)
    · rcases hf c p i n hw hlatest with hold | ⟨t, ht, hg, hle⟩
      · exact (hrun (running_keeps hold hret)).elim
      · have hdrop : ∀ l', l = .tick l' → s.exec.sched.drops l' = none := by
          rintro l' rfl
          exact hk
        obtain ⟨hfuture, hawake⟩ := future_keeps (t := t) hdrop hrun hret
        refine .inr ⟨_, Tasks.task_next hi ht hnext, hfuture ▸ hg, ?_⟩
        show s.beganAfter l c i ≤ n
        rw [began_exec hawake]
        exact hle

theorem fresh_part {l : (P c).Label} (hr : (P c).system.Reachable (s.parts c)) (hi : s.exec.Inv)
    (hf : s.Fresh)
    (h : s.next id (.part c l) = some s') : s'.Fresh := by
  obtain ⟨-, hby, part, exec, hnext, hexec, rfl⟩ := next_part h
  have htold := told_heard hi hexec
  have hkeep : ∀ {i n} {c' : ι}, (i ∈ s.exec.running ∨
      ∃ t, s.exec.tasks i = some t ∧ t.future ≠ .gone ∧ s.began c' i ≤ n) →
      i ∈ exec.running ∨ ∃ t, exec.tasks i = some t ∧ t.future ≠ .gone ∧
        s.began c' i ≤ n := by
    rintro i n c' (hrun | ⟨t, ht, hg, hle⟩)
    · exact .inl (htold.running ▸ hrun)
    · obtain ⟨t', ht', hf, -⟩ := htold.task i t ht
      exact .inr ⟨t', ht', hf ▸ hg, hle⟩
  intro c' p i n hw hlatest
  change (P c').Waits (Function.update s.parts c part c') p at hw
  change Function.update s.latest c _ c' p = some (i, n) at hlatest
  by_cases hc : c' = c
  · subst hc
    rw [Function.update_self] at hw hlatest
    by_cases hp : ∃ j, (P c').polls l = some (p, j)
    · -- it is polled by the task that runs
      obtain ⟨j, hpoll⟩ := hp
      rw [hpoll] at hlatest
      change Function.update (s.latest c') p _ p = _ at hlatest
      rw [Function.update_self] at hlatest
      cases hlatest
      refine .inl (htold.running ▸ ?_)
      rw [Sys.polledByRunning, hpoll] at hby
      exact List.mem_of_mem_head? (beq_iff_eq.mp hby)
    · refine hkeep (hf c' p i n ((Part.waits_next hr hnext hw).resolve_right hp) ?_)
      rw [← hlatest]
      cases hpoll : (P c').polls l with
      | none => rfl
      | some x =>
          have hne : p ≠ x.1 := fun he => hp ⟨x.2, by rw [hpoll, he]⟩
          exact (Function.update_of_ne hne ..).symm
  · rw [Function.update_of_ne hc] at hw hlatest
    exact hkeep (hf c' p i n hw hlatest)

theorem fresh_run (h : (system P id).Run tr s) (hk : ∀ x ∈ tr, x.1.Keeps x.2) : s.Fresh := by
  refine System.Reachable.of_restrict (P := Sys.Fresh) ?_ (fun s l s' hr hf hs hk => ?_)
    (h.restrict hk).reachable.2
  · rintro s rfl c p i n - hlatest
    cases hlatest
  · cases l with
    | exec l => exact fresh_exec (inv_exec hr) hf hk hs
    | part c l => exact fresh_part (part_reachable hr c) (inv_exec hr) hf hs

/-- Once the executor of a program is at rest, nobody who waits in a
component has been woken since his latest poll. -/
theorem rest_unheard (h : (system P id).Run tr s) (hk : ∀ x ∈ tr, x.1.Keeps x.2)
    (hrest : s.exec.AtRest) (c : ι) : (P c).Unheard (partRun c tr) (s.parts c) := by
  intro p i n hw hlatest hm
  rw [← latest_run h c] at hlatest
  rcases fresh_run h hk c p i n hw hlatest with hrun | ⟨t, ht, hg, hle⟩
  · rw [hrest.running] at hrun
    cases hrun
  · obtain ⟨-, hs, hc⟩ := hrest.waits (inv_exec ⟨tr, h⟩) ht hg
    have :=
      answered_reachable ⟨tr, h⟩ i t ht ⟨hg, hc⟩ c (List.drop_subset_drop_left _ hle hm)
    cases hs.symm.trans this

end Heard

end Program

end Unsend

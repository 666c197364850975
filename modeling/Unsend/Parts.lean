import Unsend.BarrierCount
import Unsend.ChannelClosing
import Unsend.Mutex
import Unsend.OnceCellRuns
import Unsend.Program
import Unsend.RwLockServed
import Unsend.Semaphore

/-!
# The components of a program

The locks, the channel, the once cell and the barrier as components of a
program: what a step of each does to its lists of listeners (`carried_next`).
-/

namespace Unsend

/-! ## The mutex -/

namespace Mutex

section Carried

variable {W : Type} [WillWake W] {s s' : Sys W} {l : Label W}

def polls : Label W → Option (Ptr × W)
  | .poll f w => some (f, w)
  | _ => none

theorem carried_next (hi : s.Inv) (h : s.next l = some s') : ∃ new, s'.woken = s.woken ++ new ∧
    Queue.Carried (fun _ : Unit => s.queue) (polls l) new (fun _ => s'.queue) := by
  cases l with
  | call f =>
      rw [Sys.next] at h
      split at h
      · obtain rfl := Option.some.inj h
        exact Queue.carried_still rfl fun _ => rfl
      · cases h
  | poll f w =>
      have hpoll : ∀ stage, s.futs f = some ((), stage) → stage ≠ .returned →
          s' = s.pollFuture f stage w → ∃ new, s'.woken = s.woken ++ new ∧
            Queue.Carried (fun _ : Unit => s.queue) (some (f, w)) new (fun _ => s'.queue) := by
        rintro stage hf hst rfl
        have hs := hi.seated.canPoll trivial hf hst
        refine ⟨[], congrArg (s.woken ++ ·) (WaitLoop.poll_woken hs), ?_⟩
        exact Queue.carried_polled () (WaitLoop.polled hs) fun m hm => (hm rfl).elim
      rw [Sys.next] at h
      split at h
      · rename_i hf
        exact hpoll _ hf (by simp) (Option.some.inj h).symm
      · rename_i hf
        exact hpoll _ hf (by simp) (Option.some.inj h).symm
      · cases h
  | cancel f =>
      rw [Sys.next] at h
      split at h
      · cases h
      · obtain rfl := Option.some.inj h
        exact ⟨_, rfl, Queue.carried_drop () (Event.drop_woken ..) (Event.queue_drop ..)
          fun m hm => (hm rfl).elim⟩
      · obtain rfl := Option.some.inj h
        exact Queue.carried_still rfl fun _ => rfl
  | tryLock =>
      rw [Sys.next] at h
      split at h
      · obtain rfl := Option.some.inj h
        exact Queue.carried_still rfl fun _ => rfl
      · rename_i mutex hl
        obtain rfl := Option.some.inj h
        obtain ⟨r, -, rfl⟩ := Option.map_eq_some_iff.mp hl
        exact Queue.carried_still rfl fun _ => rfl
  | dropGuard =>
      rw [Sys.next] at h
      split at h
      · cases h
      · obtain rfl := Option.some.inj h
        exact ⟨_, rfl, Queue.carried_notify () (Notify 1) () (Event.notify_woken ..)
          (Event.queue_notify ..) fun m hm => (hm rfl).elim⟩

end Carried

/-- The mutex in a program. -/
def part : Program.Part where
  State := Sys Tasks.TaskId
  Label := Label Tasks.TaskId
  init := .init
  next := Sys.next
  woken := Sys.woken
  polls := polls
  Site := Unit
  Tag := Unit
  listeners s _ := s.queue
  empty _ := Event.queue_new
  carries hr h := carried_next (inv_reachable hr) h

end Mutex

/-! ## The semaphore -/

namespace Semaphore

section Carried

variable {W : Type} {s s' : Sys W} {l : Label W}

def polls : Label W → Option (Ptr × W)
  | .poll f w => some (f, w)
  | _ => none

theorem woken_settle (s : Sys W) (f : Ptr) (guard : GuardKind)
    (out : WaitOut Nat GuardKind Unit W) :
    (s.settle f guard out).woken = s.woken ++ out.woken := by
  obtain ⟨e, n, r, woken⟩ := out
  cases r with
  | pending => rfl
  | ready g => rfl

variable [WillWake W]

theorem carried_next (hi : s.Inv) (h : s.next l = some s') : ∃ new, s'.woken = s.woken ++ new ∧
    Queue.Carried (fun _ : Unit => s.queue) (polls l) new (fun _ => s'.queue) := by
  cases l with
  | call guard f =>
      rw [Sys.next] at h
      split at h
      · obtain rfl := Option.some.inj h
        exact Queue.carried_still rfl fun _ => rfl
      · cases h
  | poll f w =>
      obtain ⟨guard, stage, hf, hst, rfl⟩ := next_poll h
      have hs := hi.seated.canPoll trivial hf hst
      refine ⟨[], ?_, ?_⟩
      · exact (woken_settle ..).trans (congrArg (s.woken ++ ·) (WaitLoop.poll_woken hs))
      · refine Queue.carried_polled () ?_ fun m hm => (hm rfl).elim
        rw [show (s.pollFuture f guard stage w).queue = _ from (settle_fields ..).1]
        exact WaitLoop.polled hs
  | cancel f =>
      rw [Sys.next] at h
      split at h
      · cases h
      · obtain rfl := Option.some.inj h
        exact ⟨_, rfl, Queue.carried_drop () (Event.drop_woken ..) (Event.queue_drop ..)
          fun m hm => (hm rfl).elim⟩
      · obtain rfl := Option.some.inj h
        exact Queue.carried_still rfl fun _ => rfl
  | tryAcquire guard =>
      rw [Sys.next] at h
      split at h
      · obtain rfl := Option.some.inj h
        exact Queue.carried_still rfl fun _ => rfl
      · rename_i g sem hl
        obtain rfl := Option.some.inj h
        obtain rfl := tryWith_eq hl
        exact Queue.carried_still rfl fun _ => rfl
  | dropGuard guard =>
      rw [Sys.next] at h
      split at h
      · cases h
      · obtain rfl := Option.some.inj h
        exact ⟨_, rfl, Queue.carried_notify () (Notify 1) () (Event.notify_woken ..)
          (Event.queue_notify ..) fun m hm => (hm rfl).elim⟩

end Carried

/-- A semaphore in a program, made with this many permits. -/
def part (permits : Nat) : Program.Part where
  State := Sys Tasks.TaskId
  Label := Label Tasks.TaskId
  init := .init permits
  next := Sys.next
  woken := Sys.woken
  polls := polls
  Site := Unit
  Tag := Unit
  listeners s _ := s.queue
  empty _ := Event.queue_new
  carries hr h := carried_next (inv_reachable hr) h

end Semaphore

/-! ## The barrier -/

namespace Barrier

section Carried

variable [Target] {W : Type} [WillWake W] {s s' : Sys W} {l : Label W} {f : Ptr} {a : Arrived}
  {w : W}

def polls {W : Type} : Label W → Option (Ptr × W)
  | .poll f w => some (f, w)
  | _ => none

/-- The future arrives, and waits or leads. -/
theorem carried_pollFirst (hf : f ∉ s.queue.ids) :
    ∃ new, (s.pollFirst f w).woken = s.woken ++ new ∧
      Queue.Carried (fun _ : Unit => s.queue) (some (f, w)) new
        (fun _ => (s.pollFirst f w).queue) := by
  have hs : Stage.unresumed.CanPoll f s.barrier.event.queue := .inl ⟨rfl, hf⟩
  unfold Sys.pollFirst
  dsimp only
  split
  · refine ⟨[], congrArg (s.woken ++ ·) (WaitLoop.poll_woken hs), ?_⟩
    exact Queue.carried_polled () (WaitLoop.polled hs) fun m hm => (hm rfl).elim
  · -- The leader is not in the list.
    have helse : Queue.Carried (fun _ : Unit => s.queue) (some (f, w)) [] (fun _ => s.queue) :=
      Queue.carried_elsewhere (fun _ => rfl) fun _ => hf
    have hlead : Queue.Carried (fun _ : Unit => s.queue) none
        (s.barrier.arrive.2.lead s.barrier.generation).2
        (fun _ => (s.barrier.arrive.2.lead s.barrier.generation).1.event.queue) :=
      Queue.carried_notify () (Notify usizeMax) () (Event.notify_woken ..) (Event.queue_notify ..)
        fun m hm => (hm rfl).elim
    exact ⟨_, rfl, helse.trans hlead (.inr hlead.woken)⟩

theorem carried_next (hi : Seated s.futs (fun _ => True) s.queue) (h : s.next l = some s') :
    ∃ new, s'.woken = s.woken ++ new ∧
      Queue.Carried (fun _ : Unit => s.queue) (polls l) new (fun _ => s'.queue) := by
  cases l with
  | call f =>
      rw [Sys.next] at h
      split at h
      · cases h
      · split at h
        · obtain rfl := Option.some.inj h
          exact Queue.carried_still rfl fun _ => rfl
        · cases h
  | poll f w =>
      rw [Sys.next] at h
      split at h
      · rename_i x hf
        obtain rfl := Option.some.inj h
        exact carried_pollFirst (hi.absent fun k _ hk => by cases hf.symm.trans hk)
      · rename_i a hf
        obtain rfl := Option.some.inj h
        have hs := hi.canPoll trivial hf (by simp)
        refine ⟨[], congrArg (s.woken ++ ·) (WaitLoop.poll_woken hs), ?_⟩
        exact Queue.carried_polled () (WaitLoop.polled hs) fun m hm => (hm rfl).elim
      · cases h
  | cancel f =>
      rw [Sys.next] at h
      split at h
      · cases h
      · obtain rfl := Option.some.inj h
        exact ⟨_, rfl, Queue.carried_drop () (Event.drop_woken ..) (Event.queue_drop ..)
          fun m hm => (hm rfl).elim⟩
      · obtain rfl := Option.some.inj h
        exact Queue.carried_still rfl fun _ => rfl

end Carried

/-- A barrier in a program, for `n` tasks. -/
def part [Target] (n : Nat) : Program.Part where
  State := Sys Tasks.TaskId
  Label := Label Tasks.TaskId
  init := .init n
  next := Sys.next
  woken := Sys.woken
  polls := polls
  Site := Unit
  Tag := Unit
  listeners s _ := s.queue
  empty _ := Event.queue_new
  carries hr h := by
    obtain ⟨tr, hr⟩ := hr
    exact carried_next (counted_run hr).seated h

end Barrier

/-! ## The channel -/

namespace Channel

section Carried

variable [Target] {T W : Type} [WillWake W] {s s' : Sys T W} {l : Label T W} {r : Ptr}

def polls {T W : Type} : Label T W → Option (Ptr × W)
  | .poll f w => some (f, w)
  | _ => none

omit [Target] [WillWake W] in
theorem send_notifies {c : Channel T W} (hc : c.closed = false) (item : T) :
    (c.send item).1.event = (c.event.notify handOver (some item)).event ∧
      (c.send item).2.2 = (c.event.notify handOver (some item)).woken := by
  unfold Channel.send
  rw [hc, if_neg Bool.false_ne_true]
  dsimp only
  split
  · exact ⟨rfl, rfl⟩
  · exact ⟨rfl, rfl⟩

omit [Target] in
theorem carried_send (s : Sys T W) (item : T) : ∃ new, (s.send item).woken = s.woken ++ new ∧
    Queue.Carried (fun _ : Unit => s.queue) none new (fun _ => (s.send item).queue) := by
  cases hc : s.chan.closed with
  | true =>
      refine Queue.carried_still ?_ fun _ => ?_
      · show s.woken ++ (s.chan.send item).2.2 = _
        rw [send_closed hc]
        exact List.append_nil _
      · show (s.chan.send item).1.event.queue = _
        rw [send_closed hc]
        rfl
  | false =>
      obtain ⟨hevent, hwoken⟩ := send_notifies hc item
      exact ⟨_, rfl, Queue.carried_notify () handOver (some item)
        (hwoken.trans (Event.notify_woken ..))
        ((congrArg Event.queue hevent).trans (Event.queue_notify ..)) fun m hm => (hm rfl).elim⟩

theorem carried_close (s : Sys T W) (handles : Handles) :
    ∃ new, s.woken ++ (Channel.close { s.chan with handles }).2 = s.woken ++ new ∧
      Queue.Carried (fun _ : Unit => s.queue) none new
        (fun _ => (Channel.close { s.chan with handles }).1.event.queue) := by
  exact ⟨_, rfl,
    Queue.carried_notify () closing () (Event.notify_woken ..) (Event.queue_notify ..)
    fun m hm => (hm rfl).elim⟩

theorem carried_next (hi : s.Inv) (h : s.next l = some s') : ∃ new, s'.woken = s.woken ++ new ∧
    Queue.Carried (fun _ : Unit => s.queue) (polls l) new (fun _ => s'.queue) := by
  cases l with
  | send item =>
      obtain ⟨-, rfl⟩ := next_send h
      exact carried_send s item
  | cloneSender =>
      obtain ⟨-, rfl⟩ := next_cloneSender h
      exact Queue.carried_still rfl fun _ => rfl
  | dropSender =>
      obtain ⟨hpos, rfl⟩ := next_dropSender h
      simp only [dropSender]
      split
      · exact carried_close s _
      · exact Queue.carried_still (List.append_nil _) fun _ => rfl
  | cloneReceiver r r' =>
      obtain ⟨-, rfl⟩ := next_cloneReceiver h
      exact Queue.carried_still rfl fun _ => rfl
  | dropReceiver r =>
      obtain ⟨hr, -, rfl⟩ := next_dropReceiver h
      simp only [dropReceiver]
      split
      · exact carried_close s _
      · exact Queue.carried_still (List.append_nil _) fun _ => rfl
  | tryRecv r =>
      obtain ⟨-, rfl⟩ := next_tryRecv h
      refine Queue.carried_still rfl fun _ => ?_
      show s.chan.tryRecv.1.event.queue = s.queue
      unfold tryRecv
      split
      · rfl
      · rfl
  | call r f =>
      obtain ⟨-, -, rfl⟩ := next_call h
      exact Queue.carried_still rfl fun _ => rfl
  | poll f w =>
      obtain ⟨r, stage, hf, hst, rfl⟩ := next_poll h
      have hs := hi.seated.canPoll trivial hf hst
      refine ⟨[], congrArg (s.woken ++ ·) (WaitLoop.poll_woken hs), ?_⟩
      exact Queue.carried_polled () (WaitLoop.polled hs) fun m hm => (hm rfl).elim
  | cancel f =>
      obtain ⟨r, stage, -, ⟨-, rfl⟩ | ⟨-, rfl⟩⟩ := next_cancel h
      · exact ⟨_, rfl, Queue.carried_drop () (Event.drop_woken ..) (Event.queue_drop ..)
          fun m hm => (hm rfl).elim⟩
      · exact Queue.carried_still rfl fun _ => rfl

end Carried

/-- A channel in a program, whose first receiver is at `r`. -/
def part [Target] (T : Type) (r : Ptr) : Program.Part where
  State := Sys T Tasks.TaskId
  Label := Label T Tasks.TaskId
  init := .init r
  next := Sys.next
  woken := Sys.woken
  polls := polls
  Site := Unit
  Tag := Option T
  listeners s _ := s.queue
  empty _ := Event.queue_new
  carries hr h := carried_next (inv_reachable hr) h

end Channel

/-! ## The lock for readers and a writer -/

namespace RwLock

section Carried

variable [Target] {W : Type} [WillWake W] {s s' : Sys W} {l : Label W}

def polls {W : Type} : Label W → Option (Ptr × W)
  | .poll f w => some (f, w)
  | _ => none

theorem carried_next (hi : s.Inv) (h : s.next l = some s') :
    ∃ new, s'.woken = s.woken ++ new ∧ Queue.Carried s.queue (polls l) new s'.queue := by
  cases l with
  | call mode f =>
      rw [Sys.next] at h
      split at h
      · obtain rfl := Option.some.inj h
        exact Queue.carried_still rfl fun _ => rfl
      · cases h
  | poll f w =>
      obtain ⟨mode, stage, hf, hst, rfl⟩ := next_poll h
      have hs := (hi.seated mode).canPoll rfl hf hst
      obtain ⟨hq, hrest⟩ := settle_queue s f mode w
        ((loopOf mode).poll f w stage (s.lock.site mode) s.lock.cells)
      refine ⟨[], congrArg (s.woken ++ ·) (WaitLoop.poll_woken hs), ?_⟩
      refine Queue.carried_polled mode ?_ fun m hm => ⟨hrest m hm, ?_⟩
      · rw [show (s.pollFuture f mode stage w).queue mode = _ from hq]
        exact WaitLoop.polled hs
      · refine (hi.seated m).absent ?_
        rintro _ rfl he
        cases hf.symm.trans he
        exact hm rfl
  | cancel f =>
      rw [Sys.next] at h
      split at h
      · cases h
      · rename_i mode hf
        obtain rfl := Option.some.inj h
        refine ⟨_, rfl, Queue.carried_drop mode (Event.drop_woken ..) ?_ fun m hm => ?_⟩
        · show ((s.lock.setSite mode _).site mode).queue = _
          rw [queue_setSite_self]
          exact Event.queue_drop ..
        · exact congrArg Event.queue (queue_setSite_ne _ hm _)
      · obtain rfl := Option.some.inj h
        exact Queue.carried_still rfl fun _ => rfl
  | tryRead =>
      obtain ⟨-, hq, -⟩ := next_try (.inl rfl) hi h
      obtain rfl := Option.some.inj h
      exact Queue.carried_still rfl hq
  | tryWrite =>
      obtain ⟨-, hq, -⟩ := next_try (.inr rfl) hi h
      obtain rfl := Option.some.inj h
      exact Queue.carried_still rfl hq
  | dropRead =>
      rw [Sys.next] at h
      split at h
      · rename_i hpos
        obtain ⟨-, h1, h2⟩ := dropRead_spec s.lock hpos
        obtain rfl := Option.some.inj h
        have hread : ((s.lock.dropRead hpos).1.site .read).queue = s.queue .read :=
          congrArg Event.queue h1
        rcases h2 with ⟨-, h2, hwoken⟩ | ⟨-, h2, hwoken⟩
        · have hwrite : ((s.lock.dropRead hpos).1.site .write).queue =
              ((s.queue .write).notify (Notify 1) ()).event :=
            (congrArg Event.queue h2).trans (Event.queue_notify ..)
          refine ⟨_, rfl, Queue.carried_notify .write (Notify 1) ()
            (hwoken.trans (Event.notify_woken ..)) hwrite fun m hm => ?_⟩
          cases m with
          | read => exact hread
          | write => exact (hm rfl).elim
        · have hwrite : ((s.lock.dropRead hpos).1.site .write).queue = s.queue .write :=
            congrArg Event.queue h2
          refine ⟨[], congrArg (s.woken ++ ·) hwoken, Queue.carried_rest fun m => ?_⟩
          cases m with
          | read => exact hread
          | write => exact hwrite
      · cases h
  | dropWrite =>
      rw [Sys.next] at h
      split at h
      · rename_i hpos
        obtain rfl := Option.some.inj h
        refine ⟨_, rfl, Queue.carried_notify .read (Notify 1) () (Event.notify_woken ..)
          (Event.queue_notify ..) fun m hm => ?_⟩
        cases m with
        | read => exact (hm rfl).elim
        | write => rfl
      · cases h

end Carried

/-- A lock in a program. -/
def part [Target] : Program.Part where
  State := Sys Tasks.TaskId
  Label := Label Tasks.TaskId
  init := .init
  next := Sys.next
  woken := Sys.woken
  polls := polls
  Site := Mode
  Tag := Unit
  listeners := Sys.queue
  empty site := by
    cases site with
    | read => exact Event.queue_new
    | write => exact Event.queue_new
  carries hr h := carried_next (inv_reachable hr) h

end RwLock

/-! ## The once cell -/

namespace OnceCell

variable {T E W : Type}

/-- The listeners of a cell; who waits for a setter has none. -/
def lists (c : OnceCell T W) : Site → Queue Unit W
  | .active => c.active.queue
  | .passive => c.passive.queue
  | .setter => []

def polls : Label T E W → Option (Ptr × W)
  | .poll f w => some (f, w)
  | _ => none

section Carried

variable [Target] [WillWake W] {s s' : Sys T E W} {l : Label T E W} {c : OnceCell T W} {f : Ptr}
  {fut : Fut T} {stage : Stage} {w : W}

omit [Target] in
theorem carried_unwrite (c : OnceCell T W) :
    Queue.Carried c.lists none c.unwrite.2 c.unwrite.1.lists := by
  refine Queue.carried_notify .active (Notify 1) () (Event.notify_woken ..) (Event.queue_notify ..)
    fun m hm => ?_
  cases m with
  | active => exact (hm rfl).elim
  | passive => rfl
  | setter => rfl

theorem carried_store (c : OnceCell T W) (data : T) :
    Queue.Carried c.lists none (c.store data).2 (c.store data).1.lists := by
  let n := (Notify usizeMax).additional
  have hpassive : Queue.Carried c.lists none (c.passive.notify n ()).woken
      { c with passive := (c.passive.notify n ()).event }.lists := by
    refine Queue.carried_notify .passive n () (Event.notify_woken ..) (Event.queue_notify ..)
      fun m hm => ?_
    cases m with
    | active => rfl
    | passive => exact (hm rfl).elim
    | setter => rfl
  refine hpassive.trans ?_ (.inl rfl)
  refine Queue.carried_notify .active n () (Event.notify_woken ..) (Event.queue_notify ..)
    fun m hm => ?_
  cases m with
  | active => exact (hm rfl).elim
  | passive => rfl
  | setter => rfl

theorem carried_complete (c : OnceCell T W) (result : Except E T) :
    Queue.Carried c.lists none (c.complete result).2 (c.complete result).1.lists := by
  cases result with
  | error e => exact carried_unwrite c
  | ok data => exact (carried_store c data).trans (carried_unwrite _) (.inl rfl)

omit [Target] [WillWake W] in
theorem answer_keeps {result : Except E T} (h : s.answer f fut result = some s') :
    s'.cell = s.cell ∧ s'.woken = s.woken := by
  obtain ⟨r, -, rfl⟩ := Option.map_eq_some_iff.mp h
  exact ⟨rfl, rfl⟩

/-- A step of a cell, as its listeners see it. -/
def Moves (s : Sys T E W) (polled : Option (Ptr × W)) (s' : Sys T E W) : Prop :=
  ∃ new, s'.woken = s.woken ++ new ∧ Queue.Carried s.cell.lists polled new s'.cell.lists

theorem moves_complete {result : Except E T} (h : s.complete f fut result = some s') :
    Moves s none s' := by
  obtain ⟨hcell, hwoken⟩ := answer_keeps h
  refine ⟨_, hwoken, ?_⟩
  rw [hcell]
  exact carried_complete s.cell result

theorem moves_write (h : s.write f fut = .ok (some s')) : Moves s none s' := by
  obtain ⟨fut', -, h⟩ := of_bind_ok h
  cases hc : fut'.call with
  | set given =>
      rw [hc] at h
      obtain ⟨⟨value, fut⟩, -, h⟩ := of_bind_ok h
      exact moves_complete (Except.ok.inj h)
  | getOrInit | getOrTryInit | wait =>
      rw [hc] at h
      obtain rfl := Option.some.inj (Except.ok.inj h)
      exact Queue.carried_still rfl fun _ => rfl

omit [Target] in
/-- Who is polled to its end is in no list. -/
theorem Moves.poll {s1 : Sys T E W} (hwoken : s1.woken = s.woken)
    (hcarried : Queue.Carried s.cell.lists (some (f, w)) [] s1.cell.lists)
    (habsent : ∀ m, f ∉ (s1.cell.lists m).ids) (h : Moves s1 none s') :
    Moves s (some (f, w)) s' := by
  obtain ⟨new, hnew, h⟩ := h
  refine ⟨new, by rw [hnew, hwoken], ?_⟩
  have htrans := hcarried.trans h (.inr fun w' hw' => ?_)
  · exact htrans
  · obtain ⟨m, p, hm⟩ := h.woken w' hw'
    rcases (hcarried.carries m).waiting p w' hm with hm | ⟨w'', he⟩
    · exact ⟨m, p, hm⟩
    · cases he
      exact (habsent m (Queue.mem_ids_of_mem hm)).elim

/-- The poll of a loop, in its list. -/
theorem carried_poll {site : Site} {d : OnceCell T W} (hi : Inv s.cell s.futs s.live)
    (hf : s.futs f = some (fut, stage)) (hsite : fut.site = site)
    (hpolled : (s.cell.lists site).Polled f w (d.lists site))
    (hrest : ∀ m, m ≠ site → d.lists m = s.cell.lists m) :
    Queue.Carried s.cell.lists (some (f, w)) [] d.lists ∧
      ∀ m, m ≠ site → f ∉ (d.lists m).ids := by
  have habsent : ∀ m, m ≠ site → f ∉ (s.cell.lists m).ids := by
    intro m hm
    have hout : ∀ k : Fut T, k.site = m → s.futs f ≠ some (k, .suspended) := by
      rintro k rfl he
      cases hf.symm.trans he
      exact hm hsite
    cases m with
    | active => exact hi.lists.active.absent hout
    | passive => exact hi.lists.passive.absent hout
    | setter => exact List.not_mem_nil
  refine ⟨Queue.carried_polled site hpolled fun m hm => ⟨hrest m hm, habsent m hm⟩, ?_⟩
  intro m hm
  rw [hrest m hm]
  exact habsent m hm

theorem moves_settle (hi : Inv s.cell s.futs s.live) (hf : s.futs f = some (fut, stage))
    (hsite : fut.site = .active) (hst : stage ≠ .returned)
    (h : s.settle f fut (getOrTryInit.poll f w stage s.cell.active s.cell.cells) = .ok (some s')) :
    Moves s (some (f, w)) s' := by
  have hs := hi.lists.active.canPoll hsite hf hst
  have hids := WaitLoop.mem_ids_poll (b := getOrTryInit) (w := w) (s := s.cell.cells) hs f
  have hwoken := WaitLoop.poll_woken (b := getOrTryInit) (w := w) (s := s.cell.cells) hs
  have hpolled := WaitLoop.polled (b := getOrTryInit) (w := w) (s := s.cell.cells) hs
  rw [if_pos rfl] at hids
  generalize getOrTryInit.poll f w stage s.cell.active s.cell.cells = out at h hids hwoken hpolled
  let s1 : Sys T E W := { s with
    cell := { s.cell with
      active := out.event
      writing := out.shared.writing
      data := out.shared.data }
    woken := s.woken ++ out.woken }
  have hs1 : s1.woken = s.woken := by
    show s.woken ++ out.woken = _
    rw [hwoken, List.append_nil]
  obtain ⟨hcarried, habsent⟩ := carried_poll (d := s1.cell) hi hf hsite hpolled fun m hm => by
    cases m with
    | active => exact (hm rfl).elim
    | passive => rfl
    | setter => rfl
  -- where the future goes on, it is in no list
  have hgo : out.result ≠ .pending → Moves s1 none s' → Moves s (some (f, w)) s' := by
    intro hr
    refine Moves.poll hs1 hcarried fun m => ?_
    by_cases hm : m = .active
    · rw [hm]
      exact fun hp => hr (hids.mp hp)
    · exact habsent m hm
  unfold Sys.settle at h
  dsimp only at h
  cases hr : out.result with
  | pending =>
      rw [hr] at h
      obtain rfl := Option.some.inj (Except.ok.inj h)
      exact ⟨[], by rw [List.append_nil]; exact hs1, hcarried⟩
  | ready turn =>
      refine hgo (by rw [hr]; simp) ?_
      rw [hr] at h
      cases turn with
      | found value =>
          obtain ⟨hcell, hw⟩ := answer_keeps (Except.ok.inj h)
          exact Queue.carried_still hw fun m => congrArg (lists · m) hcell
      | write => exact moves_write h

theorem moves_settleWait (hi : Inv s.cell s.futs s.live) (hf : s.futs f = some (fut, stage))
    (hsite : fut.site = .passive) (hst : stage ≠ .returned) :
    Moves s (some (f, w))
      (s.settleWait f fut (wait.poll f w stage s.cell.passive s.cell.cells)) := by
  have hs := hi.lists.passive.canPoll hsite hf hst
  have hwoken := WaitLoop.poll_woken (b := wait) (w := w) (s := s.cell.cells) hs
  have hpolled := WaitLoop.polled (b := wait) (w := w) (s := s.cell.cells) hs
  generalize wait.poll f w stage s.cell.passive s.cell.cells = out at hwoken hpolled
  have hcarried := (carried_poll (d := { s.cell with passive := out.event }) hi hf hsite hpolled
    fun m hm => by
      cases m with
      | active => rfl
      | passive => exact (hm rfl).elim
      | setter => rfl).1
  refine ⟨[], ?_, ?_⟩
  · rw [← hwoken]
    unfold Sys.settleWait
    dsimp only
    split
    · rfl
    · rfl
  · unfold Sys.settleWait
    dsimp only
    split
    · exact hcarried
    · exact hcarried

/-- A future in its setter has no listener. -/
theorem moves_setter (hi : Inv s.cell s.futs s.live) (hf : s.futs f = some (fut, stage))
    (hsite : fut.site = .setter) : Moves s (some (f, w)) s := by
  refine ⟨[], (List.append_nil _).symm, Queue.carried_elsewhere (fun _ => rfl) fun m => ?_⟩
  have hout : ∀ k : Fut T, k.site ≠ .setter → s.futs f ≠ some (k, .suspended) := by
    intro k hk he
    cases hf.symm.trans he
    exact hk hsite
  cases m with
  | active => exact hi.lists.active.absent fun k hk => hout k (by rw [hk]; simp)
  | passive => exact hi.lists.passive.absent fun k hk => hout k (by rw [hk]; simp)
  | setter => exact List.not_mem_nil

theorem moves_pollFuture (hi : Inv s.cell s.futs s.live) (hf : s.futs f = some (fut, stage))
    (hst : stage ≠ .returned) (h : s.pollFuture f fut stage w = .ok (some s')) :
    Moves s (some (f, w)) s' := by
  unfold Sys.pollFuture at h
  cases hsite : fut.site with
  | active =>
      rw [hsite] at h
      exact moves_settle hi hf hsite hst h
  | passive =>
      rw [hsite] at h
      obtain rfl := Option.some.inj (Except.ok.inj h)
      exact moves_settleWait hi hf hsite hst
  | setter =>
      rw [hsite] at h
      obtain rfl := Option.some.inj (Except.ok.inj h)
      exact moves_setter hi hf hsite

omit [Target] in
theorem moves_cancelAt (s : Sys T E W) (f : Ptr) (site : Site) :
    Moves s none ((s.cancelAt f site).forget f) := by
  cases site with
  | active =>
      refine ⟨_, rfl, Queue.carried_drop .active (Event.drop_woken ..) (Event.queue_drop ..)
        fun m hm => ?_⟩
      cases m with
      | active => exact (hm rfl).elim
      | passive => rfl
      | setter => rfl
  | passive =>
      refine ⟨_, rfl, Queue.carried_drop .passive (Event.drop_woken ..) (Event.queue_drop ..)
        fun m hm => ?_⟩
      cases m with
      | active => rfl
      | passive => exact (hm rfl).elim
      | setter => rfl
  | setter => exact ⟨_, rfl, carried_unwrite s.cell⟩

theorem carried_next (hi : Inv s.cell s.futs s.live) (h : s.next l = some s') :
    Moves s (polls l) s' := by
  have hattempt : s.attempt l = .ok (some s') := by
    unfold Sys.next at h
    split at h
    · rename_i hok
      rw [hok, h]
    · cases h
  unfold Sys.attempt at hattempt
  cases l with
  | call f call =>
      dsimp only at hattempt
      split at hattempt
      · split at hattempt
        · obtain rfl := Option.some.inj (Except.ok.inj hattempt)
          exact Queue.carried_still rfl fun _ => rfl
        · cases hattempt
      · cases hattempt
  | poll f w =>
      dsimp only at hattempt
      split at hattempt
      · rename_i fut hf
        exact moves_pollFuture hi hf (by simp) hattempt
      · rename_i fut hf
        exact moves_pollFuture hi hf (by simp) hattempt
      · cases hattempt
  | setter f result =>
      dsimp only at hattempt
      split at hattempt
      · split at hattempt
        · exact moves_complete (Except.ok.inj hattempt)
        · cases hattempt
      · cases hattempt
  | cancel f =>
      dsimp only at hattempt
      split at hattempt
      · cases hattempt
      · obtain rfl := Option.some.inj (Except.ok.inj hattempt)
        exact moves_cancelAt s f _
      · obtain rfl := Option.some.inj (Except.ok.inj hattempt)
        exact Queue.carried_still rfl fun _ => rfl
  | take =>
      dsimp only at hattempt
      split at hattempt
      · obtain rfl := Option.some.inj (Except.ok.inj hattempt)
        refine Queue.carried_still rfl fun m => ?_
        cases m with
        | active => rfl
        | passive => rfl
        | setter => rfl
      · cases hattempt

end Carried

/-- A cell in a program, made with `data`. -/
def part [Target] (E : Type) (data : Option T) : Program.Part where
  State := Sys T E Tasks.TaskId
  Label := Label T E Tasks.TaskId
  init := .init data
  next := Sys.next
  woken := Sys.woken
  polls := polls
  Site := Site
  Tag := Unit
  listeners s := s.cell.lists
  empty site := by
    cases site with
    | active => exact Event.queue_new
    | passive => exact Event.queue_new
    | setter => rfl
  carries hr h := carried_next (inv_reachable hr) h

end OnceCell

end Unsend

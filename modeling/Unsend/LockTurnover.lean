import Unsend.Mutex
import Unsend.RwLockGuards
import Unsend.Semaphore
import Unsend.Turnover

/-!
# Every waiter's turn comes

Liveness of the three locks. Whatever has been done to a
mutex: once nobody comes who takes it past those who wait, no future is
polled for the first time, its guards are dropped and woken futures are
polled at some time, there is a time when nobody waits for it any more
(`Mutex.lock_turns`). The polls may be spurious, futures may be dropped,
and `lock()` may be called. Of a semaphore that has permits
(`Semaphore.acquire_turns`) and of a read/write lock
(`RwLock.readers_writers_turns`) this holds where they strand nobody.
-/

namespace Unsend

/-! ## The mutex -/

namespace Mutex

variable {W : Type}

namespace Sys

/-- Nobody takes the mutex without having waited for it, and no future is
polled for the first time. -/
def Patient (s : Sys W) : Label W → Prop
  | .poll f _ => s.futs f = some ((), .suspended)
  | .tryLock => s.mutex.borrowed = true
  | _ => True

def load (s : Sys W) : Load := s.queue.load s.guards

/-- A future that was notified is polled or dropped. -/
def Serves (s : Sys W) : Label W → Prop
  | .poll f _ | .cancel f => s.queue.Told f
  | _ => False

/-- A guard is dropped. -/
def Releases (_ : Sys W) : Label W → Prop
  | .dropGuard => True
  | _ => False

end Sys

section Turns

variable [WillWake W] {s s' : Sys W} {f : Ptr} {w : W}

omit [WillWake W] in
theorem load_settle (s : Sys W) (f : Ptr) (w : W) (out : WaitOut Bool Unit Unit W) :
    (s.settle f w out).load = Queue.load out.view.1 (out.view.2.2.1.heldAfter s.guards) := by
  obtain ⟨e, borrowed, r, woken⟩ := out
  cases r with
  | pending => rfl
  | ready a => rfl

theorem load_next {l : Label W} (hi : s.Inv) (hp : s.Patient l) (h : s.next l = some s') :
    Load.Moves Sys.load Sys.Serves Sys.Releases s l s' := by
  cases l with
  | call f =>
      rw [Sys.next] at h
      split at h
      · obtain rfl := Option.some.inj h
        exact .inr (.inr ⟨id, id, Load.rests_refl _⟩)
      · cases h
  | poll f w =>
      have hf : s.futs f = some ((), .suspended) := hp
      rw [Sys.next, hf] at h
      obtain rfl := Option.some.inj h
      have hids := (hi.seated f).mpr ⟨(), trivial, hf⟩
      rcases WaitLoop.load_poll (b := lock) (e := s.mutex.unlocked) (w := w)
        (s := s.mutex.borrowed) (fun _ => rfl) hids s.guards with ⟨hno, hr⟩ | ⟨ht, hs⟩
      · exact .inr (.inr ⟨hno, id, load_settle .. ▸ hr⟩)
      · exact .inl ⟨ht, load_settle .. ▸ hs⟩
  | cancel f =>
      rw [Sys.next] at h
      split at h
      · cases h
      · obtain rfl := Option.some.inj h
        have hq : (s.mutex.unlocked.drop f).event.queue = (s.queue.drop f).event :=
          Event.queue_drop ..
        have hdrop := Queue.load_drop s.nodup hi.plain f s.guards
        rw [← hq] at hdrop
        rcases hdrop with ⟨hno, hr⟩ | ⟨ht, hs⟩
        · exact .inr (.inr ⟨hno, id, hr⟩)
        · exact .inl ⟨ht, hs⟩
      · rename_i hnot hf
        obtain rfl := Option.some.inj h
        refine .inr (.inr ⟨?_, id, Load.rests_refl _⟩)
        rintro ⟨t, b, hst⟩
        obtain ⟨k, -, hk⟩ := (hi.seated f).mp (Queue.stateOf_mem_ids hst)
        exact hnot k (Option.some.inj (hf.symm.trans hk))
  | tryLock =>
      have hb : s.mutex.borrowed = true := hp
      have hnone : s.mutex.tryLock = none := by simp [tryLock, tryBorrowMut, hb]
      rw [Sys.next, hnone] at h
      obtain rfl := Option.some.inj h
      exact .inr (.inr ⟨id, id, Load.rests_refl _⟩)
  | dropGuard =>
      rw [Sys.next] at h
      split at h
      · cases h
      · rename_i n hg
        obtain rfl := Option.some.inj h
        have hq : s.mutex.unlock.event.unlocked.queue = (s.queue.notify (Notify 1) ()).event :=
          Event.queue_notify ..
        refine .inr (.inl ⟨trivial, ?_⟩)
        show (s.queue.load s.guards).Releases (s.mutex.unlock.event.unlocked.queue.load n)
        rw [hq, hg]
        exact Queue.load_notify _ _ rfl rfl n

/-- Whatever has been done to a mutex before: once nobody takes it past
those who wait or begins to wait, if a guard that is alive is dropped at some time, and if
some future that has been notified is polled or dropped at some time, there
is a time when nobody waits for the mutex. -/
theorem lock_turns (b : (system.phase Sys.Patient).Behaviour (S := Sys W))
    (hguards : b.Attends (fun s => 0 < s.guards) Sys.Releases)
    (hnotified : b.Attends (fun s => 0 < s.queue.numNotified) Sys.Serves) (n : Nat) :
    ∃ m, n ≤ m ∧ (b.state m).queue = [] := by
  have hidle : ∀ s : Sys W, (system.phase Sys.Patient).Reachable s → s.load.held = 0 →
      s.load.notified = 0 → s.load.waiting = 0 := by
    -- beside a free mutex somebody is notified
    intro s hr hg hn
    have hi := inv_reachable (System.reachable_of_phase hr)
    have hfree : s.mutex.borrowed = false := by
      have hguards := hi.guards
      rw [Bool.eq_false_iff]
      intro hb
      rw [hb] at hguards
      cases hguards.symm.trans hg
    have hserved := hi.served hfree
    have hsum := s.queue.length_eq_add
    change s.queue.numNotified = 0 at hn
    show s.queue.numWaiting = 0
    omega
  have hmoves : ∀ (s : Sys W) l s', (system.phase Sys.Patient).Reachable s →
      (system.phase Sys.Patient).step s l s' →
        Load.Moves Sys.load Sys.Serves Sys.Releases s l s' := by
    rintro s l s' hr ⟨hs, hp⟩
    exact load_next (inv_reachable (System.reachable_of_phase hr)) hp hs
  obtain ⟨m, hm, hw, hn⟩ := Load.drains b hmoves hidle hnotified hguards n
  have hsum := (b.state m).queue.length_eq_add
  change (b.state m).queue.numNotified = 0 at hn
  change (b.state m).queue.numWaiting = 0 at hw
  exact ⟨m, hm, List.length_eq_zero_iff.mp (by omega)⟩

end Turns

/-- Two futures wait while a guard is alive. -/
def twoWait : Sys Nat :=
  (exec Sys.next .init [.tryLock, .call 0, .poll 0 10, .call 1, .poll 1 11]).getD .init

theorem twoWait_reachable : system.Reachable twoWait ∧
    twoWait.queue = [(0, .waiting 10), (1, .waiting 11)] := by
  obtain ⟨s, hs⟩ : ∃ s, exec Sys.next (.init : Sys Nat)
      [.tryLock, .call 0, .poll 0 10, .call 1, .poll 1 11] = some s := ⟨_, rfl⟩
  refine ⟨?_, by decide⟩
  rw [twoWait, hs]
  exact ⟨_, run_of_exec rfl hs⟩

/-- Both get the mutex; the second one is polled before its turn as well. -/
def twoServed : List (Label Nat) :=
  [.poll 1 11, .dropGuard, .poll 0 10, .dropGuard, .poll 1 11, .dropGuard]

instance (s : Sys Nat) : DecidablePred s.Patient := fun l =>
  match l with
  | .poll f _ => inferInstanceAs (Decidable (s.futs f = some ((), .suspended)))
  | .tryLock => inferInstanceAs (Decidable (s.mutex.borrowed = true))
  | .call _ | .cancel _ | .dropGuard => inferInstanceAs (Decidable True)

theorem exec_twoServed : (exec Sys.next twoWait twoServed).map (fun s => (s.queue, s.guards)) =
    some ([], 0) := by
  decide

theorem patient_twoServed : ∀ x ∈ execTrace Sys.next twoWait twoServed, x.1.Patient x.2 := by
  decide

theorem lock_turns_twoWait : ∃ b : (system.phase Sys.Patient).Behaviour (S := Sys Nat),
    b.state 0 = twoWait ∧ ∃ m, (b.state m).queue = [] := by
  obtain ⟨s, hs, hobs⟩ := Option.map_eq_some_iff.mp exec_twoServed
  obtain ⟨hq, hg⟩ := Prod.mk.inj hobs
  let b := System.Behaviour.ofExec (M := system.phase Sys.Patient) twoWait_reachable.1 hs
    fun x hx _ h => ⟨h, patient_twoServed x hx⟩
  have hend : ∀ n, 6 ≤ n → b.state n = s := fun n hn => padded_last hs hn
  have hguards : ∀ n, 6 ≤ n → ¬ 0 < (b.state n).guards := by
    intro n hn
    rw [hend n hn, hg]
    exact Nat.lt_irrefl 0
  have hnotified : ∀ n, 6 ≤ n → ¬ 0 < (b.state n).queue.numNotified := by
    intro n hn
    rw [hend n hn, hq]
    exact Nat.lt_irrefl 0
  obtain ⟨m, -, hm⟩ :=
    lock_turns b (b.attends_of_never hguards) (b.attends_of_never hnotified) 0
  exact ⟨b, rfl, m, hm⟩

end Mutex

/-! ## The semaphore -/

namespace Semaphore

variable {W : Type}

namespace Sys

/-- Nobody takes a permit without having waited for it, and no future is
polled for the first time. -/
def Patient (s : Sys W) : Label W → Prop
  | .poll f _ => s.Waits f
  | .tryAcquire _ => s.sem.permits = 0
  | _ => True

def load (s : Sys W) : Load := s.queue.load s.live

/-- A future that was notified is polled or dropped. -/
def Serves (s : Sys W) : Label W → Prop
  | .poll f _ | .cancel f => s.queue.Told f
  | _ => False

/-- A guard is dropped. -/
def Releases (_ : Sys W) : Label W → Prop
  | .dropGuard _ => True
  | _ => False

end Sys

section Turns

variable [WillWake W] {s s' : Sys W} {permits : Nat}

/-- The runs in which nobody is stranded. -/
def sparing (permits : Nat) : System (Sys W) (Label W) :=
  (system permits).restrict fun s l => s.Spares l

omit [WillWake W] in
theorem load_settle (s : Sys W) (f : Ptr) (guard : GuardKind)
    (out : WaitOut Nat GuardKind Unit W) :
    (s.settle f guard out).load = Queue.load out.view.1 (out.view.2.2.1.heldAfter s.live) := by
  obtain ⟨e, n, r, woken⟩ := out
  cases r with
  | pending => rfl
  | ready g =>
      unfold Sys.load
      rw [show Sys.live (s.settle f guard ⟨e, n, .ready g, woken⟩) = s.live + 1 from
        live_addGuard ..]
      rfl

theorem load_next {l : Label W} (hi : s.Inv) (hp : s.Patient l) (h : s.next l = some s') :
    Load.Moves Sys.load Sys.Serves Sys.Releases s l s' := by
  cases l with
  | call guard f =>
      rw [Sys.next] at h
      split at h
      · obtain rfl := Option.some.inj h
        exact .inr (.inr ⟨id, id, Load.rests_refl _⟩)
      · cases h
  | poll f w =>
      obtain ⟨guard, hf⟩ : s.Waits f := hp
      rw [Sys.next, hf] at h
      obtain rfl := Option.some.inj h
      have hids := (hi.seated f).mpr ⟨guard, trivial, hf⟩
      rcases WaitLoop.load_poll (b := acquireWith guard) (e := s.sem.event) (w := w)
        (s := s.sem.permits) (fun _ => rfl) hids s.live with ⟨hno, hr⟩ | ⟨ht, hs⟩
      · exact .inr (.inr ⟨hno, id, load_settle .. ▸ hr⟩)
      · exact .inl ⟨ht, load_settle .. ▸ hs⟩
  | cancel f =>
      rw [Sys.next] at h
      split at h
      · cases h
      · obtain rfl := Option.some.inj h
        have hq : (s.sem.event.drop f).event.queue = (s.queue.drop f).event :=
          Event.queue_drop ..
        have hdrop := Queue.load_drop s.nodup hi.plain f s.live
        rw [← hq] at hdrop
        rcases hdrop with ⟨hno, hr⟩ | ⟨ht, hs⟩
        · exact .inr (.inr ⟨hno, id, hr⟩)
        · exact .inl ⟨ht, hs⟩
      · rename_i hnot hf
        obtain rfl := Option.some.inj h
        refine .inr (.inr ⟨?_, id, Load.rests_refl _⟩)
        rintro ⟨t, b, hst⟩
        obtain ⟨k, -, hk⟩ := (hi.seated f).mp (Queue.stateOf_mem_ids hst)
        exact hnot k (Option.some.inj (hf.symm.trans hk))
  | tryAcquire guard =>
      have h0 : s.sem.permits = 0 := hp
      have hnone : s.sem.tryWith guard = none := by simp [tryWith, takePermit, h0]
      rw [Sys.next, hnone] at h
      obtain rfl := Option.some.inj h
      exact .inr (.inr ⟨id, id, Load.rests_refl _⟩)
  | dropGuard guard =>
      rw [Sys.next] at h
      split at h
      · cases h
      · rename_i n hg
        obtain rfl := Option.some.inj h
        have hq : s.sem.release.event.event.queue = (s.queue.notify (Notify 1) ()).event :=
          Event.queue_notify ..
        have hlive := live_dropGuard hg
        refine .inr (.inl ⟨trivial, ?_⟩)
        show (s.queue.load s.live).Releases (s.sem.release.event.event.queue.load
          (Function.update s.guards guard n .ref + Function.update s.guards guard n .rc))
        rw [hq, show s.live = _ from hlive.symm]
        exact Queue.load_notify _ _ rfl rfl _

theorem served_sparing (h : (sparing permits).Reachable s) :
    s.Served ∧ s.sem.permits + s.live = permits := by
  refine System.Reachable.of_restrict (P := fun s => s.Served ∧ s.sem.permits + s.live = permits)
    ?_ ?_ h
  · rintro s rfl
    refine ⟨fun _ _ => ?_, rfl⟩
    show Queue.numWaiting (Event.queue .new) = 0
    rw [Event.queue_new]
    rfl
  · rintro s l s' hr ⟨hs, hsum⟩ hstep hc
    have hi := inv_reachable hr
    exact ⟨(served_next_iff hi hs hstep).mpr hc, (conserved_next hi hstep).trans hsum⟩

/-- Whatever has been done to a semaphore that has permits and strands
nobody: once nobody takes a permit past those who wait or begins to wait,
if a guard that is alive is dropped at some time, and if some future that has been notified
is polled or dropped at some time, there is a time when nobody waits for a
permit. -/
theorem acquire_turns (hpos : 0 < permits)
    (b : ((sparing permits).phase Sys.Patient).Behaviour (S := Sys W))
    (hguards : b.Attends (fun s => 0 < s.live) Sys.Releases)
    (hnotified : b.Attends (fun s => 0 < s.queue.numNotified) Sys.Serves) (n : Nat) :
    ∃ m, n ≤ m ∧ (b.state m).queue = [] := by
  have hidle : ∀ s : Sys W, ((sparing permits).phase Sys.Patient).Reachable s →
      s.load.held = 0 → s.load.notified = 0 → s.load.waiting = 0 := by
    -- all permits are free
    intro s hr hg hn
    obtain ⟨hserved, hsum⟩ := served_sparing (System.reachable_of_phase hr)
    change s.live = 0 at hg
    exact hserved (by omega) hn
  have hmoves : ∀ (s : Sys W) l s', ((sparing permits).phase Sys.Patient).Reachable s →
      ((sparing permits).phase Sys.Patient).step s l s' →
        Load.Moves Sys.load Sys.Serves Sys.Releases s l s' := by
    rintro s l s' hr ⟨⟨hs, -⟩, hp⟩
    exact load_next (inv_reachable (System.reachable_of_phase hr).unrestrict) hp hs
  obtain ⟨m, hm, hw, hn⟩ := Load.drains b hmoves hidle hnotified hguards n
  have hsum := (b.state m).queue.length_eq_add
  change (b.state m).queue.numNotified = 0 at hn
  change (b.state m).queue.numWaiting = 0 at hw
  exact ⟨m, hm, List.length_eq_zero_iff.mp (by omega)⟩

end Turns

/-- Two futures wait for the only permit. -/
def waitTwice : List (Label Nat) :=
  [.tryAcquire .ref, .call .ref 0, .poll 0 10, .call .rc 1, .poll 1 11]

def twoWait : Sys Nat := (exec Sys.next (.init 1) waitTwice).getD (.init 1)

/-- Both get it; the second one is polled before its turn as well. -/
def twoServed : List (Label Nat) :=
  [.poll 1 11, .dropGuard .ref, .poll 0 10, .dropGuard .ref, .poll 1 11, .dropGuard .rc]

instance (s : Sys Nat) : DecidablePred s.Patient := fun l =>
  match l with
  | .poll f _ =>
      decidable_of_iff (∃ g ∈ [GuardKind.ref, .rc], s.futs f = some (g, .suspended)) <| by
      constructor
      · rintro ⟨g, -, h⟩
        exact ⟨g, h⟩
      · rintro ⟨g, h⟩
        cases g with
        | ref => exact ⟨_, by simp, h⟩
        | rc => exact ⟨_, by simp, h⟩
  | .tryAcquire _ => inferInstanceAs (Decidable (s.sem.permits = 0))
  | .call _ _ | .cancel _ | .dropGuard _ => inferInstanceAs (Decidable True)

theorem spares_of_one {s : Sys Nat} (h : s.sem.permits ≤ 1) (l : Label Nat) : s.Spares l := by
  cases l with
  | poll f w => exact fun _ _ _ => h
  | _ => trivial

theorem twoWait_reachable : (sparing 1).Reachable twoWait ∧
    twoWait.queue = [(0, .waiting 10), (1, .waiting 11)] := by
  have hpermits :
      ∀ x ∈ execTrace Sys.next (.init 1) waitTwice, x.1.sem.permits ≤ 1 := by decide
  obtain ⟨s, hs⟩ : ∃ s, exec Sys.next (.init 1 : Sys Nat) waitTwice = some s := ⟨_, rfl⟩
  refine ⟨?_, by decide⟩
  rw [twoWait, hs]
  have hrun : (system 1).Run (execTrace Sys.next (.init 1) waitTwice) s := run_of_exec rfl hs
  exact ⟨_, hrun.restrict fun x hx => spares_of_one (hpermits x hx) x.2⟩

theorem exec_twoServed : (exec Sys.next twoWait twoServed).map (fun s => (s.queue, s.live)) =
    some ([], 0) := by
  decide

theorem patient_twoServed : ∀ x ∈ execTrace Sys.next twoWait twoServed,
    x.1.Patient x.2 ∧ x.1.sem.permits ≤ 1 := by
  decide

theorem acquire_turns_twoWait : ∃ b : ((sparing 1).phase Sys.Patient).Behaviour (S := Sys Nat),
    b.state 0 = twoWait ∧ ∃ m, (b.state m).queue = [] := by
  obtain ⟨s, hs, hobs⟩ := Option.map_eq_some_iff.mp exec_twoServed
  obtain ⟨hq, hg⟩ := Prod.mk.inj hobs
  let b := System.Behaviour.ofExec (M := (sparing 1).phase Sys.Patient) twoWait_reachable.1 hs
    fun x hx _ h =>
      ⟨⟨h, spares_of_one (patient_twoServed x hx).2 x.2⟩, (patient_twoServed x hx).1⟩
  have hend : ∀ n, 6 ≤ n → b.state n = s := fun n hn => padded_last hs hn
  have hguards : ∀ n, 6 ≤ n → ¬ 0 < (b.state n).live := by
    intro n hn
    rw [hend n hn, hg]
    exact Nat.lt_irrefl 0
  have hnotified : ∀ n, 6 ≤ n → ¬ 0 < (b.state n).queue.numNotified := by
    intro n hn
    rw [hend n hn, hq]
    exact Nat.lt_irrefl 0
  obtain ⟨m, -, hm⟩ := acquire_turns (by decide) b (b.attends_of_never hguards)
    (b.attends_of_never hnotified) 0
  exact ⟨b, rfl, m, hm⟩

end Semaphore

/-! ## The read/write lock -/

namespace RwLock

section Lock

variable [Target] {W : Type}

namespace Sys

/-- Nobody takes the lock without having waited for it, and no future is
polled for the first time. -/
def Patient (s : Sys W) : Label W → Prop
  | .poll f _ => ∃ mode, s.Waits mode f
  | .tryRead => s.lock.tryRead.isNone
  | .tryWrite => s.lock.tryWrite.isNone
  | _ => True

/-- The guards of both kinds. -/
def held (s : Sys W) : Nat := s.lock.cells.guards .read + s.lock.cells.guards .write

/-- The load of readers and writers together. -/
def load (s : Sys W) : Load := ((s.queue .read).load s.held).beside (s.queue .write)

/-- A future that was notified is polled or dropped. -/
def Serves (s : Sys W) : Label W → Prop
  | .poll f _ | .cancel f => ∃ mode, (s.queue mode).Told f
  | _ => False

/-- A guard is dropped. -/
def Releases (_ : Sys W) : Label W → Prop
  | .dropRead | .dropWrite => True
  | _ => False

end Sys

section Turns

variable [WillWake W] {s s' : Sys W} {f : Ptr} {w : W} {mode : Mode}

/-- The runs in which nobody is stranded. -/
def sparing : System (Sys W) (Label W) :=
  system.restrict fun s l => s.KeepsWriters l ∧ s.KeepsReaders l

omit [WillWake W] in
theorem load_eq (s : Sys W) {m : Mode} (hm : m ≠ mode) :
    s.load = ((s.queue mode).load s.held).beside (s.queue m) := by
  cases mode with
  | read =>
      cases m with
      | read => exact (hm rfl).elim
      | write => rfl
  | write =>
      cases m with
      | read =>
          unfold Sys.load Load.beside Queue.load
          rw [Nat.add_comm (Queue.numWaiting _), Nat.add_comm (Queue.numNotified _)]
      | write => exact (hm rfl).elim

omit [Target] in
theorem exists_other (mode : Mode) : ∃ m, m ≠ mode := by
  cases mode with
  | read => exact ⟨.write, by simp⟩
  | write => exact ⟨.read, by simp⟩

/-- A future waits in one list only. -/
theorem told_iff (hi : s.Inv) (hf : s.Waits mode f) :
    (∃ m, (s.queue m).Told f) ↔ (s.queue mode).Told f := by
  constructor
  · rintro ⟨m, t, b, hst⟩
    obtain ⟨_, rfl, hm⟩ := (hi.seated m f).mp (Queue.stateOf_mem_ids hst)
    cases hm.symm.trans hf
    exact ⟨t, b, hst⟩
  · exact fun h => ⟨mode, h⟩

/-- A poll leaves one guard more where it hands one out. -/
theorem held_poll (hi : s.Inv) (hf : s.Waits mode f) (w : W) :
    (s.pollFuture f mode .suspended w).held = Poll.heldAfter s.held
      ((loopOf mode).poll f w .suspended (s.lock.site mode) s.lock.cells).view.2.2.1 := by
  have hguards := guards_poll hi hf (by simp) w
  unfold Sys.held
  rw [hguards .read, hguards .write]
  simp only [Sys.acquires, show s.futs f = _ from hf]
  generalize (loopOf mode).poll f w .suspended (s.lock.site mode) s.lock.cells = out
  obtain ⟨e, c, r, woken⟩ := out
  cases r with
  | pending => simp [Poll.stage, WaitOut.view, Poll.heldAfter]
  | ready a =>
      cases mode with
      | read => simp [Poll.stage, WaitOut.view, Poll.heldAfter]; omega
      | write => simp [Poll.stage, WaitOut.view, Poll.heldAfter]; omega

theorem load_poll (hi : s.Inv) (hf : s.Waits mode f) :
    let s' := s.pollFuture f mode .suspended w
    (¬ (s.queue mode).Told f ∧ s.load.Rests s'.load) ∨
      ((s.queue mode).Told f ∧ s.load.Serves s'.load) := by
  obtain ⟨m, hm⟩ := exists_other mode
  obtain ⟨hq, hrest⟩ := settle_queue s f mode w
    ((loopOf mode).poll f w .suspended (s.lock.site mode) s.lock.cells)
  have hids := (hi.seated mode f).mpr ⟨mode, rfl, hf⟩
  have hacc : ∀ t, (loopOf mode).accept t = none := by
    intro t
    cases mode with
    | read => rfl
    | write => rfl
  intro s'
  rw [load_eq s hm, load_eq s' hm, show s'.queue m = s.queue m from hrest m hm,
    show s'.queue mode = _ from hq, held_poll hi hf w]
  rcases WaitLoop.load_poll (b := loopOf mode) (e := s.lock.site mode) (w := w)
    (s := s.lock.cells) hacc hids s.held with ⟨hno, hr⟩ | ⟨ht, hs⟩
  · exact .inl ⟨hno, hr.beside _⟩
  · exact .inr ⟨ht, hs.beside _⟩

omit [WillWake W] in
/-- A guard of this mode is dropped, and nobody is notified, or one who
waits in one of the lists. -/
theorem load_release (hheld : s.held = s'.held + 1)
    (h : (∀ m, s'.queue m = s.queue m) ∨
      ∃ mode, (∀ m, m ≠ mode → s'.queue m = s.queue m) ∧
      s'.queue mode = ((s.queue mode).notify (Notify 1) ()).event) :
    s.load.Releases s'.load := by
  rcases h with h | ⟨mode, hrest, hq⟩
  · exact .still hheld (by simp only [Sys.load, h]; rfl) (by simp only [Sys.load, h]; rfl)
  · obtain ⟨m, hm⟩ := exists_other mode
    rw [load_eq s hm, load_eq s' hm, hrest m hm, hq, hheld]
    exact (Queue.load_notify _ _ rfl rfl _).beside _

theorem load_cancel (hi : s.Inv) (h : s.next (.cancel f) = some s') :
    Load.Moves Sys.load Sys.Serves Sys.Releases s (.cancel f) s' := by
  obtain ⟨-, hc, ⟨hl, hno⟩ | ⟨mode, hf, hrest, hq⟩⟩ := next_cancel hi h
  · have hload : s'.load = s.load := by
      unfold Sys.load Sys.held Sys.queue
      rw [hl]
    refine .inr (.inr ⟨?_, id, hload ▸ Load.rests_refl _⟩)
    rintro ⟨m, t, b, hst⟩
    obtain ⟨_, rfl, hm⟩ := (hi.seated m f).mp (Queue.stateOf_mem_ids hst)
    exact hno _ hm
  · obtain ⟨m, hm⟩ := exists_other mode
    have hheld : s'.held = s.held := by
      unfold Sys.held
      rw [hc]
    have hload : s'.load = (((s.queue mode).drop f).event.load s.held).beside (s.queue m) := by
      rw [load_eq s' hm, hrest m hm, hq, hheld]
    unfold Load.Moves
    rw [hload, load_eq s hm, show Sys.Serves s (.cancel f) ↔ _ from told_iff hi hf]
    rcases Queue.load_drop (s.nodup mode) (hi.plain mode) f s.held with ⟨hno, hr⟩ | ⟨ht, hs⟩
    · exact .inr (.inr ⟨hno, id, hr.beside _⟩)
    · exact .inl ⟨ht, hs.beside _⟩

theorem load_next {l : Label W} (hi : s.Inv) (hp : s.Patient l) (h : s.next l = some s') :
    Load.Moves Sys.load Sys.Serves Sys.Releases s l s' := by
  have hheld := guards_next hi h
  cases l with
  | call mode f =>
      have hload : s'.load = s.load := by
        unfold Sys.load Sys.held Sys.queue
        rw [(next_call hi h).2]
      exact .inr (.inr ⟨id, id, hload ▸ Load.rests_refl _⟩)
  | poll f w =>
      obtain ⟨mode, hf⟩ : ∃ mode, s.Waits mode f := hp
      rw [Sys.next, show s.futs f = _ from hf] at h
      obtain rfl := Option.some.inj h
      rcases load_poll (w := w) hi hf with ⟨hno, hr⟩ | ⟨ht, hs⟩
      · exact .inr (.inr ⟨fun ht => hno ((told_iff hi hf).mp ht), id, hr⟩)
      · exact .inl ⟨⟨mode, ht⟩, hs⟩
  | cancel f => exact load_cancel hi h
  | tryRead =>
      obtain rfl := Option.some.inj h
      have hnone : s.lock.tryRead = none := Option.isNone_iff_eq_none.mp hp
      rw [hnone]
      exact .inr (.inr ⟨id, id, Load.rests_refl _⟩)
  | tryWrite =>
      obtain rfl := Option.some.inj h
      have hnone : s.lock.tryWrite = none := Option.isNone_iff_eq_none.mp hp
      rw [hnone]
      exact .inr (.inr ⟨id, id, Load.rests_refl _⟩)
  | dropRead =>
      obtain ⟨-, -, -, hread, hwrite⟩ := next_dropRead hi h
      have h1 : s.held = s'.held + 1 := by
        have hr := hheld .read
        have hw := hheld .write
        simp only [Sys.releases, Sys.acquires] at hr hw
        simp only [Sys.held]
        simp at hr hw
        omega
      refine .inr (.inl ⟨trivial, load_release h1 ?_⟩)
      rcases hwrite with ⟨-, hq⟩ | ⟨-, hq⟩
      · refine .inr ⟨.write, fun m hm => ?_, hq⟩
        cases m with
        | read => exact hread
        | write => exact (hm rfl).elim
      · refine .inl fun m => ?_
        cases m with
        | read => exact hread
        | write => exact hq
  | dropWrite =>
      obtain ⟨-, -, -, hwrite, hread⟩ := next_dropWrite hi h
      have h1 : s.held = s'.held + 1 := by
        have hr := hheld .read
        have hw := hheld .write
        simp only [Sys.releases, Sys.acquires] at hr hw
        simp only [Sys.held]
        simp at hr hw
        omega
      refine .inr (.inl ⟨trivial, load_release h1 (.inr ⟨.read, fun m hm => ?_, hread⟩)⟩)
      cases m with
      | read => exact (hm rfl).elim
      | write => exact hwrite

theorem counts_sparing (h : sparing.Reachable s) : s.WritersCount ∧ s.ReadersCount := by
  have hempty : ∀ mode, (Sys.init : Sys W).queue mode = [] := fun mode => by
    cases mode with
    | read => exact Event.queue_new
    | write => exact Event.queue_new
  refine System.Reachable.of_restrict (P := fun s => s.WritersCount ∧ s.ReadersCount) ?_ ?_ h
  · rintro s rfl
    refine ⟨fun _ _ hpos => ?_, fun _ hpos => ?_⟩
    · rw [hempty] at hpos
      cases hpos
    · rw [hempty] at hpos
      cases hpos
  · rintro s l s' hr ⟨hw, hr'⟩ hstep ⟨hkw, hkr⟩
    have hi := inv_reachable hr
    exact ⟨(writersCount_next_iff hi hw hstep).mpr hkw,
      (readersCount_next_iff hi hr' hstep).mpr hkr⟩

/-- Whatever has been done to a read/write lock that strands nobody: once
nobody takes it past those who wait or begins to wait, if a guard that is alive is dropped at
some time, and if some future that has been notified is polled or dropped at
some time, there is a time when neither a reader nor a writer waits. -/
theorem readers_writers_turns (b : ((sparing (W := W)).phase Sys.Patient).Behaviour)
    (hguards : b.Attends (fun s => 0 < s.lock.cells.readGuards + s.lock.cells.writeGuards)
      Sys.Releases)
    (hnotified : b.Attends
      (fun s => 0 < (s.queue .read).numNotified + (s.queue .write).numNotified) Sys.Serves)
    (n : Nat) : ∃ m, n ≤ m ∧ ∀ mode, (b.state m).queue mode = [] := by
  have hidle : ∀ s : Sys W, (sparing.phase Sys.Patient).Reachable s → s.load.held = 0 →
      s.load.notified = 0 → s.load.waiting = 0 := by
    -- no guard is alive, so that nobody may be asleep beside nobody who is awake
    intro s hr hg hn
    obtain ⟨hwriters, hreaders⟩ := counts_sparing (System.reachable_of_phase hr)
    change s.lock.cells.readGuards + s.lock.cells.writeGuards = 0 at hg
    change (s.queue .read).numNotified + (s.queue .write).numNotified = 0 at hn
    have hread : (s.queue .read).numWaiting = 0 := by
      by_contra hpos
      have := hreaders (by omega) (Nat.pos_of_ne_zero hpos)
      omega
    have hwrite : (s.queue .write).length = 0 := by
      by_contra hpos
      have := hwriters (by omega) (by omega) (Nat.pos_of_ne_zero hpos)
      omega
    have hsum := (s.queue .write).length_eq_add
    show (s.queue .read).numWaiting + (s.queue .write).numWaiting = 0
    omega
  have hmoves : ∀ (s : Sys W) l s', (sparing.phase Sys.Patient).Reachable s →
      (sparing.phase Sys.Patient).step s l s' →
        Load.Moves Sys.load Sys.Serves Sys.Releases s l s' := by
    rintro s l s' hr ⟨⟨hs, -⟩, hp⟩
    exact load_next (inv_reachable (System.reachable_of_phase hr).unrestrict) hp hs
  obtain ⟨m, hm, hw, hn⟩ := Load.drains b hmoves hidle hnotified hguards n
  change (Queue.numNotified _ + Queue.numNotified _ = 0) at hn
  change (Queue.numWaiting _ + Queue.numWaiting _ = 0) at hw
  refine ⟨m, hm, fun mode => List.length_eq_zero_iff.mp ?_⟩
  have hsum := ((b.state m).queue mode).length_eq_add
  cases mode with
  | read => omega
  | write => omega

end Turns

end Lock

/-- A reader and a writer wait for a writer. -/
def waitTwice [Target] : List (Label Nat) :=
  [.tryWrite, .call .read 0, .poll 0 10, .call .write 1, .poll 1 11]

def twoWait [Target] : Sys Nat := (exec Sys.next .init waitTwice).getD .init

/-- Both enter; the second one is polled before its turn as well. -/
def twoServed [Target] : List (Label Nat) :=
  [.poll 1 12, .dropWrite, .poll 0 10, .dropRead, .poll 1 11, .dropWrite]

section Decide

variable [Target] (s : Sys Nat)

instance (mode : Mode) (f : Ptr) : Decidable (s.Notified mode f) :=
  decidable_of_iff (s.futs f = some (mode, .suspended) ∧
      ((s.queue mode).stateOf f).any (·.isNotified) = true) <| by
    refine and_congr_right fun _ => ?_
    cases (s.queue mode).stateOf f with
    | none => simp
    | some st => cases st <;> simp [State.isNotified]

instance : DecidablePred s.Patient := fun l =>
  match l with
  | .poll f _ =>
      decidable_of_iff (∃ mode ∈ [Mode.read, .write], s.futs f = some (mode, .suspended)) <| by
        constructor
        · rintro ⟨mode, -, h⟩
          exact ⟨mode, h⟩
        · rintro ⟨mode, h⟩
          cases mode with
          | read => exact ⟨_, by simp, h⟩
          | write => exact ⟨_, by simp, h⟩
  | .tryRead => inferInstanceAs (Decidable (s.lock.tryRead.isNone = true))
  | .tryWrite => inferInstanceAs (Decidable (s.lock.tryWrite.isNone = true))
  | .call _ _ | .cancel _ | .dropRead | .dropWrite => inferInstanceAs (Decidable True)

instance : DecidablePred s.KeepsWriters := fun l =>
  match l with
  | .dropWrite => inferInstanceAs (Decidable (_ → _ → _))
  | .cancel f =>
      inferInstanceAs (Decidable (s.Notified .read f → _ → _ → _ → _ → _ → _))
  | .call _ _ | .poll _ _ | .tryRead | .tryWrite | .dropRead => inferInstanceAs (Decidable True)

instance : DecidablePred s.KeepsReaders := fun l =>
  match l with
  | .poll f _ =>
      inferInstanceAs (Decidable (_ → (s.Notified .read f → _ → _ ∧ _) ∧ (_ → _ → _)))
  | .call _ _ | .cancel _ | .tryRead | .tryWrite | .dropRead | .dropWrite =>
      inferInstanceAs (Decidable True)

end Decide

theorem twoWait_reachable :
    letI := Target.bits64
    sparing.Reachable twoWait ∧ twoWait.queue .read = [(0, .waiting 10)] ∧
      twoWait.queue .write = [(1, .waiting 11)] := by
  let _ : Target := .bits64
  have hspares : ∀ x ∈ execTrace Sys.next .init waitTwice,
      x.1.KeepsWriters x.2 ∧ x.1.KeepsReaders x.2 := by
    decide
  obtain ⟨s, hs⟩ : ∃ s, exec Sys.next (.init : Sys Nat) waitTwice = some s := ⟨_, rfl⟩
  refine ⟨?_, by decide, by decide⟩
  rw [twoWait, hs]
  have hrun : system.Run (execTrace Sys.next .init waitTwice) s := run_of_exec rfl hs
  exact ⟨_, hrun.restrict hspares⟩

theorem exec_twoServed :
    letI := Target.bits64
    (exec Sys.next twoWait twoServed).map (fun s => (s.queue .read, s.queue .write, s.held)) =
      some ([], [], 0) := by
  decide

theorem patient_twoServed :
    letI := Target.bits64
    ∀ x ∈ execTrace Sys.next twoWait twoServed,
      (x.1.KeepsWriters x.2 ∧ x.1.KeepsReaders x.2) ∧ x.1.Patient x.2 := by
  decide

theorem readers_writers_turns_twoWait :
    letI := Target.bits64
    ∃ b : ((sparing (W := Nat)).phase Sys.Patient).Behaviour,
      b.state 0 = twoWait ∧ ∃ m, ∀ mode, (b.state m).queue mode = [] := by
  let _ : Target := .bits64
  obtain ⟨s, hs, hobs⟩ := Option.map_eq_some_iff.mp exec_twoServed
  simp only [Prod.mk.injEq] at hobs
  obtain ⟨hread, hwrite, hheld⟩ := hobs
  let b := System.Behaviour.ofExec (M := sparing.phase Sys.Patient) twoWait_reachable.1 hs
    fun x hx _ h => ⟨⟨h, (patient_twoServed x hx).1⟩, (patient_twoServed x hx).2⟩
  have hend : ∀ n, 6 ≤ n → b.state n = s := fun n hn => padded_last hs hn
  have hguards : ∀ n, 6 ≤ n →
      ¬ 0 < (b.state n).lock.cells.readGuards + (b.state n).lock.cells.writeGuards := by
    intro n hn
    rw [hend n hn]
    exact Nat.not_lt.mpr (Nat.le_of_eq hheld)
  have hnotified : ∀ n, 6 ≤ n →
      ¬ 0 < ((b.state n).queue .read).numNotified + ((b.state n).queue .write).numNotified := by
    intro n hn
    rw [hend n hn, hread, hwrite]
    exact Nat.lt_irrefl 0
  obtain ⟨m, -, hm⟩ := readers_writers_turns b (b.attends_of_never hguards)
    (b.attends_of_never hnotified) 0
  exact ⟨b, rfl, m, hm⟩

end RwLock

end Unsend

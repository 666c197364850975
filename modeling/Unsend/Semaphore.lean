import Unsend.Runs
import Unsend.WaitLoop

/-!
# The semaphore

The model of `lock/semaphore.rs`: a counter of free permits and the event
its acquirers wait on. `acquire` and `acquire_rc` are the same waiting
loop with different guards, and so are the two guard drops.

`Semaphore.system` puts the operations of any number of callers together:
futures are made, polled with any waker and dropped where they stand;
permits are taken without waiting; guards are dropped. A label that is
not possible (polling a future that has returned, dropping a guard that
does not exist) has no successor.

A release notifies one waiter only if no earlier notification is still
unconsumed, and an acquirer that takes a permit notifies nobody. So two
releases before the first woken acquirer is polled wake one acquirer for
two permits: `twoReleases_strands` is such a run, and
`noneStranded_run_iff` says that polling the only notified acquirer
while a second permit is free and another acquirer sleeps is the one way
to strand somebody.

The permits themselves are safe: free permits and live guards make up the
permits the semaphore was made with (`permits_conserved`).
-/

namespace Unsend

/-- `SemaphoreGuard` or `SemaphoreGuardRc`. -/
inductive GuardKind where
  | ref
  | rc
  deriving DecidableEq

structure Semaphore (W : Type) where
  event : Event Unit W
  permits : Nat

namespace Semaphore

variable {W : Type}

def new (permits : Nat) : Semaphore W := ⟨.new, permits⟩

/-- `if permits > 0 { self.permits.set(permits - 1); Some(guard) }`. -/
def takePermit (guard : GuardKind) (permits : Nat) : Option (GuardKind × Nat) :=
  if 0 < permits then some (guard, permits - 1) else none

def tryWith (s : Semaphore W) (guard : GuardKind) : Option (GuardKind × Semaphore W) :=
  (takePermit guard s.permits).map fun r => (r.1, { s with permits := r.2 })

def tryAcquire (s : Semaphore W) : Option (GuardKind × Semaphore W) := s.tryWith .ref

def tryAcquireRc (s : Semaphore W) : Option (GuardKind × Semaphore W) := s.tryWith .rc

/-- The waiting loop of `acquire` and of `acquire_rc`. -/
def acquireWith (guard : GuardKind) : WaitLoop Nat GuardKind Unit where
  attempt := takePermit guard
  accept _ := none

def acquire : WaitLoop Nat GuardKind Unit := acquireWith .ref

def acquireRc : WaitLoop Nat GuardKind Unit := acquireWith .rc

/-- `SemaphoreGuard::drop` and `SemaphoreGuardRc::drop`. -/
def release (s : Semaphore W) : NotifyOut (Semaphore W) Unit W :=
  let out := s.event.notify (Notify 1) ()
  ⟨⟨out.event, s.permits + 1⟩, out.producer, out.count, out.woken⟩

/-! ## All callers together -/

/-- A semaphore with the futures and guards its callers hold and the
wakers woken so far. -/
structure Sys (W : Type) where
  sem : Semaphore W
  futs : Futures GuardKind
  guards : GuardKind → Nat
  woken : List W

inductive Label (W : Type) where
  /-- `acquire()` or `acquire_rc()` is called at this address. -/
  | call (guard : GuardKind) (f : Ptr)
  | poll (f : Ptr) (waker : W)
  /-- The future is dropped. -/
  | cancel (f : Ptr)
  | tryAcquire (guard : GuardKind)
  | dropGuard (guard : GuardKind)

def Sys.addGuard (s : Sys W) (guard : GuardKind) : Sys W :=
  { s with guards := Function.update s.guards guard (s.guards guard + 1) }

def Sys.init (permits : Nat) : Sys W := ⟨.new permits, fun _ => none, fun _ => 0, []⟩

section System

variable [WillWake W]

/-- What is left of one poll of a future: a guard goes to the caller. -/
def Sys.settle (s : Sys W) (f : Ptr) (guard : GuardKind)
    (out : WaitOut Nat GuardKind Unit W) : Sys W :=
  let s := { s with
    sem := ⟨out.event, out.shared⟩
    futs := Function.update s.futs f (some (guard, out.result.stage))
    woken := s.woken ++ out.woken }
  match out.result with
  | .pending => s
  | .ready g => s.addGuard g

def Sys.pollFuture (s : Sys W) (f : Ptr) (guard : GuardKind) (stage : Stage) (w : W) : Sys W :=
  s.settle f guard ((acquireWith guard).poll f w stage s.sem.event s.sem.permits)

def Sys.next (s : Sys W) : Label W → Option (Sys W)
  | .call guard f =>
      match s.futs f with
      | none => some { s with futs := Function.update s.futs f (some (guard, .unresumed)) }
      | some _ => none
  | .poll f w =>
      match s.futs f with
      | some (guard, .unresumed) => some (s.pollFuture f guard .unresumed w)
      | some (guard, .suspended) => some (s.pollFuture f guard .suspended w)
      | _ => none
  | .cancel f =>
      match s.futs f with
      | none => none
      | some (_, .suspended) =>
          let out := s.sem.event.drop f
          some { s with
            sem := { s.sem with event := out.event }
            futs := Function.update s.futs f none
            woken := s.woken ++ out.woken }
      | some _ => some { s with futs := Function.update s.futs f none }
  | .tryAcquire guard =>
      match s.sem.tryWith guard with
      | none => some s
      | some (g, sem) => some ({ s with sem := sem }.addGuard g)
  | .dropGuard guard =>
      match s.guards guard with
      | 0 => none
      | n + 1 =>
          let out := s.sem.release
          some { s with
            sem := out.event
            guards := Function.update s.guards guard n
            woken := s.woken ++ out.woken }

/-- Every run of a semaphore that starts with `permits` free permits. -/
def system (permits : Nat) : System (Sys W) (Label W) :=
  .ofNext (fun s => s = .init permits) Sys.next

end System

namespace Sys

def queue (s : Sys W) : Queue Unit W := s.sem.event.queue

theorem nodup (s : Sys W) : s.queue.ids.Nodup := s.sem.event.nodup

/-- The acquire future `f` is waiting on the event. -/
def Waits (s : Sys W) (f : Ptr) : Prop := ∃ guard, s.futs f = some (guard, .suspended)

/-- The waiting future `f` is in the notified state. -/
def Notified (s : Sys W) (f : Ptr) : Prop := ∃ b, s.queue.stateOf f = some (.notified () b)

/-- With a permit free and no waiting acquire future notified, none waits. -/
def NoneStranded (s : Sys W) : Prop :=
  0 < s.sem.permits → (∀ f, s.Waits f → ¬ s.Notified f) → ∀ f, ¬ s.Waits f

/-- A poll of the only notified acquirer leaves no second permit behind
while another acquirer is asleep. -/
def Spares (s : Sys W) : Label W → Prop
  | .poll f _ => s.Notified f → s.queue.numNotified = 1 → 0 < s.queue.numWaiting →
      s.sem.permits ≤ 1
  | _ => True

/-- What holds in every reachable state. -/
structure Inv (s : Sys W) : Prop where
  seated : Seated s.futs (fun _ => True) s.queue
  plain : s.queue.Plain

/-- `NoneStranded` in numbers. -/
def Served (s : Sys W) : Prop :=
  0 < s.sem.permits → s.queue.numNotified = 0 → s.queue.numWaiting = 0

theorem noneStranded_iff {s : Sys W} (hi : s.Inv) : s.NoneStranded ↔ s.Served := by
  have hlen := s.queue.length_eq_add
  have hnn : (∀ f, s.Waits f → ¬ s.Notified f) ↔ s.queue.numNotified = 0 := by
    rw [← hi.seated.none_notified s.nodup]
    constructor
    · intro h f k _ hs _ b hst
      exact h f ⟨k, hs⟩ ⟨b, hst⟩
    · rintro h f ⟨k, hs⟩ ⟨b, hst⟩
      exact h f k trivial hs () b hst
  have hw : (∀ f, ¬ s.Waits f) ↔ s.queue.length = 0 := by
    have hsome := hi.seated.some_suspended
    constructor
    · intro h
      by_contra hne
      obtain ⟨f, k, -, hk⟩ := hsome.mpr (Nat.pos_of_ne_zero hne)
      exact h f ⟨k, hk⟩
    · rintro h f ⟨k, hk⟩
      have := hsome.mp ⟨f, k, trivial, hk⟩
      omega
  unfold NoneStranded Served
  rw [hnn, hw]
  constructor
  · intro h hp hn
    have := h hp hn
    omega
  · intro h hp hn
    have := h hp hn
    omega

end Sys

/-! ## What one step does -/

section Steps

variable [WillWake W] {s : Sys W} {f : Ptr} {guard : GuardKind} {stage : Stage} {w : W}

theorem takePermit_some {guard g : GuardKind} {n m : Nat}
    (h : takePermit guard n = some (g, m)) : 0 < n ∧ m = n - 1 := by
  unfold takePermit at h
  split at h
  · cases h
    exact ⟨by assumption, rfl⟩
  · cases h

theorem takePermit_none {guard : GuardKind} {n : Nat} (h : takePermit guard n = none) :
    n = 0 := by
  unfold takePermit at h
  split at h
  · cases h
  · omega

omit [WillWake W] in
theorem settle_fields (s : Sys W) (f : Ptr) (guard : GuardKind)
    (out : WaitOut Nat GuardKind Unit W) :
    (s.settle f guard out).queue = out.view.1 ∧
      (s.settle f guard out).sem.permits = out.view.2.1 ∧
      (s.settle f guard out).futs =
        Function.update s.futs f (some (guard, out.view.2.2.1.stage)) := by
  obtain ⟨e, n, r, woken⟩ := out
  cases r with
  | pending => exact ⟨rfl, rfl, rfl⟩
  | ready g => exact ⟨rfl, rfl, rfl⟩

omit [WillWake W] in
theorem tryWith_eq {sem sem' : Semaphore W} {g : GuardKind}
    (h : sem.tryWith guard = some (g, sem')) :
    sem' = { sem with permits := sem.permits - 1 } := by
  unfold tryWith takePermit at h
  split at h
  · exact (congrArg Prod.snd (Option.some.inj h)).symm
  · cases h

/-- One poll of a future that has not returned. -/
theorem poll_facts (hi : s.Inv) (hf : s.futs f = some (guard, stage))
    (hst : stage ≠ .returned) :
    let s' := s.pollFuture f guard stage w
    s'.Inv ∧
    ((¬ s.Notified f ∧ s'.queue.numNotified = s.queue.numNotified ∧
      s'.sem.permits ≤ s.sem.permits ∧
      (0 < s'.sem.permits → s'.queue.numWaiting = s.queue.numWaiting)) ∨
    (s.Notified f ∧ s.queue.numNotified = s'.queue.numNotified + 1 ∧
      s'.sem.permits = s.sem.permits - 1 ∧
      (0 < s'.sem.permits → s'.queue.numWaiting = s.queue.numWaiting))) := by
  have hs := hi.seated.canPoll trivial hf hst
  intro s'
  obtain ⟨hq, hn, hfuts⟩ : s'.queue = _ ∧ s'.sem.permits = _ ∧ s'.futs = _ :=
    settle_fields s f guard ((acquireWith guard).poll f w stage s.sem.event s.sem.permits)
  refine ⟨⟨?_, ?_⟩, ?_⟩
  · rw [hq, hfuts]
    exact hi.seated.poll trivial (WaitLoop.mem_ids_poll hs)
  · rw [hq]
    exact hi.plain.polled (WaitLoop.polled hs)
  · rw [hq, hn]
    have hnot : s.Notified f ↔ ∃ t b, s.queue.stateOf f = some (.notified t b) :=
      ⟨fun ⟨b, h⟩ => ⟨(), b, h⟩, fun ⟨_, b, h⟩ => ⟨b, h⟩⟩
    rcases WaitLoop.poll_counts (b := acquireWith guard) (w := w) (s := s.sem.permits)
      (fun _ => rfl) hs with ⟨-, h1, h2, h3, h4⟩ | ⟨hway, hget⟩
    · rw [h2]
      exact .inl ⟨fun h => by obtain ⟨t, c, h⟩ := hnot.mp h; exact h1 t c h, h3,
        Nat.le_refl _, fun _ => h4⟩
    · have hpermits : ((acquireWith guard).poll f w stage s.sem.event s.sem.permits).view.2.1 =
            s.sem.permits - 1 ∧
          (0 < s.sem.permits → ((acquireWith guard).poll f w stage s.sem.event
            s.sem.permits).view.1.numWaiting = s.queue.numWaiting) := by
        rcases hget with ⟨a, h1, h2⟩ | ⟨h1, h2, -⟩
        · exact ⟨(takePermit_some h1).2, fun _ => h2⟩
        · have h0 := takePermit_none h1
          exact ⟨by omega, by omega⟩
      obtain ⟨h1, h2⟩ := hpermits
      have h2' :=
        fun h => h2 (Nat.lt_of_lt_of_le h (Nat.le_trans (Nat.le_of_eq h1) (Nat.sub_le ..)))
      rcases hway with ⟨-, h3, h4⟩ | ⟨-, h3, h4⟩
      · exact .inl ⟨fun h => by obtain ⟨t, c, h⟩ := hnot.mp h; exact h3 t c h, h4,
          Nat.le_trans (Nat.le_of_eq h1) (Nat.sub_le ..), h2'⟩
      · exact .inr ⟨hnot.mpr h3, h4, h1, h2'⟩

omit [WillWake W] in
/-- A future that waits nowhere is made or dropped. -/
theorem inv_elsewhere (hi : s.Inv) {fut : Option (GuardKind × Stage)}
    (hold : ∀ k, s.futs f ≠ some (k, .suspended)) (hnew : ∀ k, fut ≠ some (k, .suspended)) :
    ({ s with futs := Function.update s.futs f fut } : Sys W).Inv :=
  ⟨hi.seated.elsewhere (fun k _ => hold k) fun k _ => hnew k, hi.plain⟩

omit [WillWake W] in
/-- A suspended future is dropped: if it was notified, somebody who waits
is notified in its place. -/
theorem cancel_facts (hi : s.Inv) (f : Ptr) :
    let out := s.sem.event.drop f
    let s' : Sys W := { s with
      sem := { s.sem with event := out.event }
      futs := Function.update s.futs f none
      woken := s.woken ++ out.woken }
    s'.Inv ∧ (s.Served → s'.Served) := by
  intro out s'
  have hq : s'.queue = (s.queue.drop f).event := Event.queue_drop ..
  refine ⟨⟨?_, ?_⟩, fun hs hp hn => ?_⟩
  · rw [hq]
    exact hi.seated.drop f
  · rw [hq]
    exact hi.plain.drop s.nodup f
  · have hserved := hs hp
    rw [hq] at hn ⊢
    rcases Queue.drop_cases s.nodup hi.plain f with
      ⟨-, h1, h2, -⟩ | ⟨t, -, ⟨-, -, h1, -⟩ | ⟨h1, h2, h3, -⟩⟩
    · have := hserved (h1.symm.trans hn)
      omega
    · omega
    · omega

omit [WillWake W] in
/-- A guard is dropped: somebody who waits is notified, unless somebody
is already. -/
theorem release_facts (hi : s.Inv) (guards : GuardKind → Nat) :
    let s' : Sys W := { s with
      sem := s.sem.release.event
      guards := guards
      woken := s.woken ++ s.sem.release.woken }
    s'.Inv ∧ s'.Served := by
  intro s'
  have hq : s'.queue = (s.queue.notify (Notify 1) ()).event := Event.queue_notify ..
  refine ⟨⟨?_, ?_⟩, fun _ hn => ?_⟩
  · rw [hq]
    exact hi.seated.congr (Queue.ids_notify ..)
  · rw [hq]
    exact hi.plain.notify rfl ()
  · rw [hq] at hn ⊢
    rcases s.queue.notify_one (n := Notify 1) () rfl rfl with ⟨-, -, h1, -⟩ | ⟨h1, h2⟩
    · omega
    · rw [h2] at hn ⊢
      exact h1 hn

theorem next_poll {s' : Sys W} (h : s.next (.poll f w) = some s') :
    ∃ guard stage, s.futs f = some (guard, stage) ∧ stage ≠ .returned ∧
      s' = s.pollFuture f guard stage w := by
  rw [Sys.next] at h
  split at h
  · rename_i guard hf
    exact ⟨guard, _, hf, by simp, (Option.some.inj h).symm⟩
  · rename_i guard hf
    exact ⟨guard, _, hf, by simp, (Option.some.inj h).symm⟩
  · cases h

/-- A step keeps everybody served and is one that `Spares` allows, or it
polls a notified acquirer. -/
theorem next_facts {s' : Sys W} {l : Label W} (hi : s.Inv) (h : s.next l = some s') :
    s'.Inv ∧
    ((s.Spares l ∧ (s.Served → s'.Served)) ∨
      ∃ f w, l = .poll f w ∧ s.Notified f ∧
        s.queue.numNotified = s'.queue.numNotified + 1 ∧
        s'.sem.permits = s.sem.permits - 1 ∧
        (0 < s'.sem.permits → s'.queue.numWaiting = s.queue.numWaiting)) := by
  cases l with
  | call guard f =>
      rw [Sys.next] at h
      split at h
      · rename_i hf
        cases h
        exact ⟨inv_elsewhere hi (fun k => by rw [hf]; simp) (fun k => by simp),
          .inl ⟨trivial, id⟩⟩
      · cases h
  | poll f w =>
      obtain ⟨guard, stage, hf, hst, rfl⟩ := next_poll h
      obtain ⟨hinv, hcases⟩ := poll_facts (w := w) hi hf hst
      refine ⟨hinv, ?_⟩
      rcases hcases with ⟨h1, h2, h3, h4⟩ | ⟨h1, h2, h3, h4⟩
      · refine .inl ⟨fun h => (h1 h).elim, fun hs hp hn => ?_⟩
        rw [h4 hp]
        exact hs (Nat.lt_of_lt_of_le hp h3) (h2 ▸ hn)
      · exact .inr ⟨f, w, rfl, h1, h2, h3, h4⟩
  | cancel f =>
      rw [Sys.next] at h
      split at h
      · cases h
      · cases h
        obtain ⟨hinv, hserved⟩ := cancel_facts hi f
        exact ⟨hinv, .inl ⟨trivial, hserved⟩⟩
      · rename_i hnot hf
        cases h
        refine ⟨inv_elsewhere hi (fun k hk => ?_) (fun k => by simp), .inl ⟨trivial, id⟩⟩
        exact hnot _ (Option.some.inj (hf.symm.trans hk))
  | tryAcquire guard =>
      rw [Sys.next] at h
      split at h
      · cases h
        exact ⟨hi, .inl ⟨trivial, id⟩⟩
      · rename_i r g sem hr
        cases h
        obtain rfl : sem = { s.sem with permits := s.sem.permits - 1 } := tryWith_eq hr
        refine ⟨⟨hi.seated, hi.plain⟩, .inl ⟨trivial, fun hs hp hn => hs ?_ hn⟩⟩
        exact Nat.lt_of_lt_of_le hp (Nat.sub_le ..)
  | dropGuard guard =>
      rw [Sys.next] at h
      split at h
      · cases h
      · cases h
        obtain ⟨hinv, hserved⟩ := release_facts hi (Function.update s.guards guard _)
        exact ⟨hinv, .inl ⟨trivial, fun _ => hserved⟩⟩

theorem inv_reachable {permits : Nat} (h : (system permits).Reachable s) : s.Inv := by
  refine h.invariant (I := Sys.Inv) ?_ fun s l s' hi hs => (next_facts hi hs).1
  rintro s rfl
  have hq : (Sys.init permits : Sys W).queue = [] := Event.queue_new
  exact ⟨hq ▸ seated_nil, hq ▸ Queue.plain_nil⟩

/-- From a state in which nobody is stranded a step strands somebody
exactly if it is not one that `Spares` allows. -/
theorem served_next_iff {s' : Sys W} {l : Label W} (hi : s.Inv) (hs : s.Served)
    (h : s.next l = some s') : s'.Served ↔ s.Spares l := by
  obtain ⟨-, hcases⟩ := next_facts hi h
  rcases hcases with ⟨hspares, hserved⟩ | ⟨f, w, rfl, hf, hn, hp, hw⟩
  · exact ⟨fun _ => hspares, fun _ => hserved hs⟩
  · constructor
    · intro hs' _ h1 hpos
      by_contra hlt
      have hp' : 0 < s'.sem.permits := by omega
      have := hs' hp' (by omega)
      have := hw hp'
      omega
    · intro hspares hp' h0
      by_contra hne
      have := hw hp'
      have := hspares hf (by omega) (by omega)
      omega

end Steps

/-! ## Stranded acquirers -/

/-- In a run of a semaphore no acquirer is ever stranded exactly if no
step of it polls the only notified acquirer while two permits are free
and another acquirer is asleep. -/
theorem noneStranded_run_iff [WillWake W] (permits : Nat) {tr : List (Sys W × Label W)}
    {s : Sys W} (h : (system permits).Run tr s) :
    ((∀ x ∈ tr, x.1.NoneStranded) ∧ s.NoneStranded) ↔ ∀ x ∈ tr, x.1.Spares x.2 := by
  refine h.always_iff ?_ ?_
  · rintro s rfl _ _ f ⟨k, hk⟩
    cases hk
  · intro s l s' hr hs hstep
    have hi := inv_reachable hr
    have hi' := inv_reachable (hr.step hstep)
    rw [Sys.noneStranded_iff hi'] at *
    exact served_next_iff hi ((Sys.noneStranded_iff hi).mp hs) hstep

/-- Two acquirers wait for two permits; both permits come back before the
first acquirer is polled again. -/
def twoReleases : List (Label Nat) :=
  [.tryAcquire .ref, .tryAcquire .ref, .call .ref 0, .poll 0 10, .call .ref 1, .poll 1 11,
    .dropGuard .ref, .dropGuard .ref, .poll 0 10]

/-- Permits, notified and waiting acquirers. -/
def Sys.numbers (s : Sys Nat) : Nat × Nat × Nat :=
  (s.sem.permits, s.queue.numNotified, s.queue.numWaiting)

theorem exec_twoReleases :
    (exec Sys.next (.init 2) twoReleases).map Sys.numbers = some (1, 0, 1) := by decide

theorem noneStranded_twoReleases : ∃ s : Sys Nat,
    (((∀ x ∈ execTrace Sys.next (.init 2) twoReleases, x.1.NoneStranded) ∧ s.NoneStranded) ↔
      ∀ x ∈ execTrace Sys.next (.init 2) twoReleases, x.1.Spares x.2) := by
  obtain ⟨s, hrun, -⟩ := run_of_observe _ _ _ exec_twoReleases
  exact ⟨s, noneStranded_run_iff 2 hrun⟩

/-- The second acquirer sleeps next to a free permit. -/
theorem twoReleases_strands :
    ¬ ∀ (permits : Nat) (s : Sys Nat), (system permits).Reachable s → s.NoneStranded := by
  intro h
  obtain ⟨s, hrun, hobs⟩ := run_of_observe _ _ _ exec_twoReleases
  have hr : (system 2).Reachable s := ⟨_, hrun⟩
  have hserved := (Sys.noneStranded_iff (inv_reachable hr)).mp (h 2 s hr)
  simp only [Sys.numbers, Prod.mk.injEq] at hobs
  have := hserved (by omega) hobs.2.1
  omega

/-! ## Permits and guards -/

/-- The guards that are alive, of both kinds. -/
def Sys.live (s : Sys W) : Nat := s.guards .ref + s.guards .rc

section Conserved

variable {s s' : Sys W} {f : Ptr} {guard : GuardKind}

theorem live_addGuard (s : Sys W) (guard : GuardKind) : (s.addGuard guard).live = s.live + 1 := by
  cases guard with
  | ref => exact Nat.add_right_comm ..
  | rc => rfl

theorem live_dropGuard {n : Nat} {guards : GuardKind → Nat} (h : guards guard = n + 1) :
    Function.update guards guard n .ref + Function.update guards guard n .rc + 1 =
      guards .ref + guards .rc := by
  cases guard with
  | ref =>
      rw [Function.update_self, Function.update_of_ne (by decide : GuardKind.rc ≠ .ref), h]
      exact Nat.add_right_comm ..
  | rc =>
      rw [Function.update_self, Function.update_of_ne (by decide : GuardKind.ref ≠ .rc), h]
      exact Nat.add_assoc ..

variable [WillWake W]

/-- A poll hands out a guard for the permit it takes. -/
theorem conserved_poll {stage : Stage} (hi : s.Inv) (hf : s.futs f = some (guard, stage))
    (hst : stage ≠ .returned) (w : W) :
    (s.pollFuture f guard stage w).sem.permits + (s.pollFuture f guard stage w).live =
      s.sem.permits + s.live := by
  have hattempt := WaitLoop.poll_attempt (b := acquireWith guard) (w := w) (s := s.sem.permits)
    (fun _ => rfl) (hi.seated.canPoll trivial hf hst)
  unfold Sys.pollFuture
  generalize (acquireWith guard).poll f w stage s.sem.event s.sem.permits = out at hattempt
  obtain ⟨e, n, r, woken⟩ := out
  rcases hattempt with ⟨rfl, rfl⟩ | ⟨g, hget, rfl⟩
  · rfl
  · obtain ⟨hpos, rfl⟩ := takePermit_some hget
    show s.sem.permits - 1 + (Sys.addGuard _ g).live = _
    rw [live_addGuard]
    show s.sem.permits - 1 + (s.live + 1) = _
    omega

/-- A future that is dropped gives nothing back and takes nothing. -/
theorem cancel_keeps (h : s.next (.cancel f) = some s') :
    s'.sem.permits = s.sem.permits ∧ s'.guards = s.guards := by
  rw [Sys.next] at h
  split at h
  · cases h
  · cases h
    exact ⟨rfl, rfl⟩
  · cases h
    exact ⟨rfl, rfl⟩

theorem conserved_next {l : Label W} (hi : s.Inv) (h : s.next l = some s') :
    s'.sem.permits + s'.live = s.sem.permits + s.live := by
  cases l with
  | call guard f =>
      rw [Sys.next] at h
      split at h
      · cases h
        rfl
      · cases h
  | poll f w =>
      obtain ⟨guard, stage, hf, hst, rfl⟩ := next_poll h
      exact conserved_poll hi hf hst w
  | cancel f =>
      obtain ⟨hpermits, hguards⟩ := cancel_keeps h
      rw [hpermits, Sys.live, hguards]
      rfl
  | tryAcquire guard =>
      rw [Sys.next] at h
      split at h
      · cases h
        rfl
      · rename_i g sem hget
        cases h
        obtain ⟨⟨g', n⟩, htake, hsem⟩ := Option.map_eq_some_iff.mp hget
        obtain ⟨hpos, rfl⟩ := takePermit_some htake
        cases hsem
        show s.sem.permits - 1 + (Sys.addGuard _ g').live = _
        rw [live_addGuard]
        show s.sem.permits - 1 + (s.live + 1) = _
        omega
  | dropGuard guard =>
      rw [Sys.next] at h
      split at h
      · cases h
      · rename_i n hn
        cases h
        have := live_dropGuard hn
        show s.sem.permits + 1 + (Function.update s.guards guard n .ref +
          Function.update s.guards guard n .rc) = _
        unfold Sys.live
        omega

/-- Permits and live guards always make up the permits the semaphore was
made with: no more guards are alive, the drop of a guard does not overflow
the counter, and no drop of a future changes it. -/
theorem permits_conserved [Target] {permits : Nat} (hmax : permits ≤ usizeMax)
    (h : (system permits).Reachable s) :
    s.sem.permits + (s.guards .ref + s.guards .rc) = permits ∧
      s.guards .ref + s.guards .rc ≤ permits ∧
      (∀ guard, 0 < s.guards guard → s.sem.permits + 1 ≤ usizeMax) ∧
      ∀ f s', s.next (.cancel f) = some s' → s'.sem.permits = s.sem.permits := by
  have hsum : s.sem.permits + s.live = permits := by
    refine h.invariant_of (I := fun s => s.sem.permits + s.live = permits) ?_ ?_
    · rintro s rfl
      rfl
    · intro s l s' hr hs hstep
      exact (conserved_next (inv_reachable hr) hstep).trans hs
  unfold Sys.live at hsum
  refine ⟨hsum, by omega, fun guard hpos => ?_, fun f s' hc => (cancel_keeps hc).1⟩
  cases guard with
  | ref => omega
  | rc => omega

end Conserved

theorem permits_conserved_twoReleases :
    letI := Target.bits64
    ∃ s : Sys Nat, s.numbers = (1, 0, 1) ∧
      s.sem.permits + (s.guards .ref + s.guards .rc) = 2 := by
  let _ : Target := .bits64
  obtain ⟨s, hrun, hobs⟩ := run_of_observe _ _ _ exec_twoReleases
  exact ⟨s, hobs, (permits_conserved (by decide) ⟨_, hrun⟩).1⟩

end Semaphore

end Unsend

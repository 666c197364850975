import Unsend.RwLockServed

/-!
# The guards of a read/write lock and its counters

The guards that are alive are read off a run: those that its steps have
handed out and not dropped. `counters_agree` compares them with the two
records that the lock keeps of its readers, the counter `readers` and the
borrow flag of `data`, in every state of every run: they agree, a write
guard is alone, the two `expect`s do not panic, and a drop notifies
`no_readers` exactly where it leaves no read guard alive.
-/

namespace Unsend

/-- The number of shared borrows. -/
def Borrow.sharedCount : Borrow → Nat
  | .shared readers => readers
  | .exclusive => 0

namespace Cells

variable [Target] {c c' : Cells}

/-- The guards of a mode. -/
def guards (c : Cells) : Mode → Nat
  | .read => c.readGuards
  | .write => c.writeGuards

theorem guards_tryRead (h : c.tryRead = some c') (mode : Mode) :
    c'.guards mode = c.guards mode + if mode = .read then 1 else 0 := by
  obtain ⟨hfree, -, hfree', hreaders⟩ := tryRead_some h
  cases mode with
  | read => exact hreaders
  | write => exact hfree'.trans hfree.symm

theorem guards_tryWrite (h : c.tryWrite = some c') (mode : Mode) :
    c'.guards mode = c.guards mode + if mode = .write then 1 else 0 := by
  unfold tryWrite at h
  split at h
  · rename_i raw hraw
    cases h
    rw [c.tryWrite_raw] at hraw
    split at hraw
    · rename_i hfree
      cases mode with
      | read => exact hfree.2.symm
      | write => exact (congrArg (· + 1) hfree.1).symm
    · cases hraw
  · cases h

/-- A write guard excludes every other guard. -/
theorem alone (c : Cells) (h : 0 < c.guards .write) :
    c.guards .write = 1 ∧ c.guards .read = 0 := by
  rcases c.agree with ⟨hfree, -⟩ | ⟨hone, hnone, -⟩
  · exact (Nat.ne_of_gt h hfree).elim
  · exact ⟨hone, hnone⟩

theorem sharedCount_eq (c : Cells) : c.raw.data.sharedCount = c.guards .read := by
  rcases c.agree with ⟨-, hdata⟩ | ⟨-, hnone, hdata⟩
  · rw [hdata]
    rfl
  · rw [hdata]
    exact hnone.symm

end Cells

namespace RwLock

section Guards

variable [Target] {W : Type} [WillWake W]

/-! ## Guards that come and go -/

namespace Sys

/-- The step hands out a guard of this mode. -/
def acquires (mode : Mode) : Sys W × Label W → Bool
  | (s, .tryRead) => mode = .read && s.lock.tryRead.isSome
  | (s, .tryWrite) => mode = .write && s.lock.tryWrite.isSome
  | (s, .poll f w) =>
      match s.futs f with
      | some (m, stage) => mode = m &&
          ((loopOf m).poll f w stage (s.lock.site m) s.lock.cells).result.stage = .returned
      | none => false
  | _ => false

/-- The step drops a guard of this mode. -/
def releases (mode : Mode) : Sys W × Label W → Bool
  | (_, .dropRead) => mode = .read
  | (_, .dropWrite) => mode = .write
  | _ => false

/-- The guards of this mode that are alive. -/
def guards (mode : Mode) (tr : List (Sys W × Label W)) : Nat :=
  tr.countP (acquires mode) - tr.countP (releases mode)

end Sys

variable {s s' : Sys W} {tr : List (Sys W × Label W)} {f : Ptr} {w : W} {mode : Mode}

omit [WillWake W] in
theorem guards_loopOf {c c' : Cells} {m : Mode} {u : Unit} (h : (loopOf m).attempt c = some (u, c'))
    (mode : Mode) : c'.guards mode = c.guards mode + if mode = m then 1 else 0 := by
  cases m with
  | read =>
      obtain ⟨c1, hc, he⟩ := Option.map_eq_some_iff.mp h
      cases he
      exact Cells.guards_tryRead hc mode
  | write =>
      obtain ⟨c1, hc, he⟩ := Option.map_eq_some_iff.mp h
      cases he
      exact Cells.guards_tryWrite hc mode

/-- A poll hands out a guard exactly where it returns. -/
theorem guards_poll {stage : Stage} (hi : s.Inv) {m : Mode} (hf : s.futs f = some (m, stage))
    (hst : stage ≠ .returned) (w : W) (mode : Mode) :
    (s.pollFuture f m stage w).lock.cells.guards mode =
      s.lock.cells.guards mode + if Sys.acquires mode (s, .poll f w) then 1 else 0 := by
  have hacc : ∀ m, ∀ t, (loopOf m).accept t = none := by
    intro m t
    cases m with
    | read => rfl
    | write => rfl
  have hattempt := WaitLoop.poll_attempt (b := loopOf m) (w := w) (s := s.lock.cells) (hacc m)
    ((hi.seated m).canPoll rfl hf hst)
  have hacquires : Sys.acquires mode (s, .poll f w) = (decide (mode = m) && decide
      (((loopOf m).poll f w stage (s.lock.site m) s.lock.cells).result.stage = .returned)) := by
    simp only [Sys.acquires, hf]
  rw [hacquires, Sys.pollFuture]
  generalize (loopOf m).poll f w stage (s.lock.site m) s.lock.cells = out at hattempt
  obtain ⟨e, c, r, woken⟩ := out
  rcases hattempt with ⟨rfl, rfl⟩ | ⟨u, hget, rfl⟩
  · simp [Sys.settle, Poll.stage]
  · have hc : c.guards mode = _ := guards_loopOf hget mode
    simpa [Sys.settle, Poll.stage] using hc

theorem guards_next {l : Label W} (hi : s.Inv) (h : s.next l = some s') (mode : Mode) :
    s'.lock.cells.guards mode + (if Sys.releases mode (s, l) then 1 else 0) =
      s.lock.cells.guards mode + if Sys.acquires mode (s, l) then 1 else 0 := by
  cases l with
  | call m f =>
      rw [(next_call hi h).2]
      rfl
  | poll f w =>
      obtain ⟨m, stage, hf, hst, rfl⟩ := next_poll h
      exact guards_poll hi hf hst w mode
  | cancel f =>
      rw [(next_cancel hi h).2.1]
      rfl
  | tryRead =>
      cases h
      cases hc : s.lock.cells.tryRead with
      | none => simp [Sys.acquires, Sys.releases, RwLock.tryRead, hc]
      | some c =>
          have := Cells.guards_tryRead hc mode
          simpa [Sys.acquires, Sys.releases, RwLock.tryRead, hc] using this
  | tryWrite =>
      cases h
      cases hc : s.lock.cells.tryWrite with
      | none => simp [Sys.acquires, Sys.releases, RwLock.tryWrite, hc]
      | some c =>
          have := Cells.guards_tryWrite hc mode
          simpa [Sys.acquires, Sys.releases, RwLock.tryWrite, hc] using this
  | dropRead =>
      obtain ⟨-, hfree, hreaders, -, -⟩ := next_dropRead hi h
      have hfree' := s.lock.cells.writeGuards_of_reading (by omega)
      cases mode with
      | read => exact hreaders.symm
      | write => exact hfree.trans hfree'.symm
  | dropWrite =>
      obtain ⟨-, hfree, hnone, -, -⟩ := next_dropWrite hi h
      rw [Sys.next] at h
      split at h
      · rename_i hpos
        obtain ⟨hone, hnone'⟩ := s.lock.cells.alone hpos
        cases mode with
        | read => exact hnone.trans hnone'.symm
        | write => exact (congrArg (· + 1) hfree).trans hone.symm
      · cases h

/-- The guards that the run has left alive are those the lock counts. -/
theorem guards_run (h : system.Run tr s) (mode : Mode) :
    tr.countP (Sys.acquires mode) = s.lock.cells.guards mode + tr.countP (Sys.releases mode) := by
  refine h.history (I := fun tr s => tr.countP (Sys.acquires mode) =
    s.lock.cells.guards mode + tr.countP (Sys.releases mode)) ?_ ?_
  · rintro s rfl
    cases mode with
    | read => rfl
    | write => rfl
  · intro tr s l s' hr hs hstep
    have := guards_next (inv_reachable ⟨tr, hr⟩) hstep mode
    rw [List.countP_append, List.countP_append, List.countP_singleton, List.countP_singleton, hs]
    omega

theorem guards_eq (h : system.Run tr s) (mode : Mode) :
    Sys.guards mode tr = s.lock.cells.guards mode := by
  unfold Sys.guards
  rw [guards_run h]
  exact Nat.add_sub_cancel ..

/-! ## Who notifies `no_readers` -/

/-- What a step means to the writers that wait. -/
structure Sys.NotifiesAtZero (s : Sys W) (l : Label W) (s' : Sys W) : Prop where
  /-- The drop of the last read guard notifies `no_readers`. -/
  atZero : l = .dropRead → s'.lock.cells.readGuards = 0 →
    s'.lock.noReaders = (s.lock.noReaders.notify (Notify 1) ()).event ∧
      s'.woken = s.woken ++ (s.lock.noReaders.notify (Notify 1) ()).woken
  /-- No other step does; at most a writer is polled or dropped. -/
  elsewhere : ¬ (l = .dropRead ∧ s'.lock.cells.readGuards = 0) →
    s'.lock.noReaders = s.lock.noReaders ∨
      ∃ f stage, s.futs f = some (.write, stage) ∧ (l = .cancel f ∨ ∃ w, l = .poll f w) ∧
        s'.lock.noReaders.queue.numNotified ≤ s.lock.noReaders.queue.numNotified

theorem notifiesAtZero_next {l : Label W} (hi : s.Inv) (h : s.next l = some s') :
    s.NotifiesAtZero l s' := by
  cases l with
  | call m f =>
      refine ⟨fun hc => (by cases hc), fun _ => .inl ?_⟩
      rw [(next_call hi h).2]
  | poll f w =>
      refine ⟨fun hc => (by cases hc), fun _ => ?_⟩
      obtain ⟨m, stage, hf, hst, rfl⟩ := next_poll h
      cases m with
      | read => exact .inl rfl
      | write =>
          refine .inr ⟨f, stage, hf, .inr ⟨w, rfl⟩, ?_⟩
          rcases WaitLoop.poll_counts (b := write) (w := w) (s := s.lock.cells) (fun _ => rfl)
            ((hi.seated .write).canPoll rfl hf hst) with
            ⟨-, -, -, hn, -⟩ | ⟨⟨-, -, hn⟩ | ⟨-, -, hn⟩, -⟩
          · exact Nat.le_of_eq hn
          · exact Nat.le_of_eq hn
          · exact Nat.le.intro hn.symm
  | cancel f =>
      refine ⟨fun hc => (by cases hc), fun _ => ?_⟩
      rw [Sys.next] at h
      split at h
      · cases h
      · rename_i m hf
        cases h
        cases m with
        | read => exact .inl rfl
        | write =>
            refine .inr ⟨f, _, hf, .inl rfl, ?_⟩
            show (s.lock.noReaders.drop f).event.queue.numNotified ≤ _
            rw [Event.queue_drop]
            exact (hi.plain .write).numNotified_drop_le (s.nodup .write) f
      · cases h
        exact .inl rfl
  | tryRead =>
      refine ⟨fun hc => (by cases hc), fun _ => .inl ?_⟩
      cases h
      cases hc : s.lock.cells.tryRead with
      | none => simp [RwLock.tryRead, hc]
      | some c => simp [RwLock.tryRead, hc]
  | tryWrite =>
      refine ⟨fun hc => (by cases hc), fun _ => .inl ?_⟩
      cases h
      cases hc : s.lock.cells.tryWrite with
      | none => simp [RwLock.tryWrite, hc]
      | some c => simp [RwLock.tryWrite, hc]
  | dropRead =>
      rw [Sys.next] at h
      split at h
      · rename_i hpos
        cases h
        obtain ⟨hc, -, ⟨hone, hevent, hwoken⟩ | ⟨hmore, hevent, -⟩⟩ :=
          dropRead_spec s.lock hpos
        · have hzero : (s.lock.dropRead hpos).1.cells.readGuards = 0 := by
            rw [hc]
            exact Nat.sub_eq_zero_of_le (Nat.le_of_eq hone)
          exact ⟨fun _ _ => ⟨hevent, congrArg (s.woken ++ ·) hwoken⟩,
            fun hne => (hne ⟨rfl, hzero⟩).elim⟩
        · have hne : (s.lock.dropRead hpos).1.cells.readGuards ≠ 0 := by
            rw [hc]
            exact Nat.sub_ne_zero_of_lt hmore
          exact ⟨fun _ hzero => (hne hzero).elim, fun _ => .inl hevent⟩
      · cases h
  | dropWrite =>
      refine ⟨fun hc => (by cases hc), fun _ => .inl ?_⟩
      rw [Sys.next] at h
      split at h
      · cases h
        rfl
      · cases h

/-- In every state of every run the two records of the readers are the read
guards that are alive, a write guard is alone, neither `expect` panics, and
`no_readers` is notified by the drops that leave no read guard alive and by
no other step. -/
theorem counters_agree (h : system.Run tr s) :
    s.lock.cells.raw.readers = Sys.guards .read tr ∧
    s.lock.cells.raw.data.sharedCount = Sys.guards .read tr ∧
    (0 < Sys.guards .write tr → Sys.guards .write tr = 1 ∧ Sys.guards .read tr = 0) ∧
    (∀ fault, s.lock.cells.raw.tryRead ≠ .error fault) ∧
    (0 < Sys.guards .read tr → ∀ fault, s.lock.cells.raw.dropRead ≠ .error fault) ∧
    ∀ l s', s.next l = some s' →
      s'.lock.cells.readGuards = Sys.guards .read (tr ++ [(s, l)]) ∧ s.NotifiesAtZero l s' := by
  have hi := inv_reachable ⟨tr, h⟩
  rw [guards_eq h, guards_eq h]
  refine ⟨s.lock.cells.readers_eq, s.lock.cells.sharedCount_eq, s.lock.cells.alone, ?_, ?_, ?_⟩
  · intro fault hf
    cases s.lock.cells.tryRead_raw.symm.trans hf
  · intro hpos fault hf
    cases (s.lock.cells.dropRead_raw hpos).symm.trans hf
  · intro l s' hs
    exact ⟨(guards_eq (h.step hs) .read).symm, notifiesAtZero_next hi hs⟩

end Guards

/-- A reader comes and a writer waits for it. -/
def readThenWrite : List (Label Nat) := [.tryRead, .call .write 0, .poll 0 10]

theorem exec_readThenWrite :
    letI := Target.bits64
    (exec Sys.next .init readThenWrite).map
      (fun s => (s.lock.cells.raw.readers, s.lock.noReaders.queue)) =
        some (1, [(0, .waiting 10)]) := by
  decide

theorem counters_agree_readThenWrite :
    letI := Target.bits64
    ∃ s : Sys Nat, s.lock.cells.raw.readers = 1 ∧
      s.lock.cells.raw.readers = Sys.guards .read (execTrace Sys.next .init readThenWrite) := by
  let _ : Target := .bits64
  obtain ⟨s, hrun, hobs⟩ := run_of_observe _ _ _ exec_readThenWrite
  exact ⟨s, (Prod.mk.inj hobs).1, (counters_agree hrun).1⟩

end RwLock

end Unsend

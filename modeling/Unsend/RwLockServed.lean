import Unsend.RwLock

/-!
# Who is left asleep on a read/write lock

For both kinds of futures: when a free lock may have sleepers that
nobody has woken.

- `writersServed_run_iff`: a writer is stranded on a free lock by the
  drop of a write guard behind which only writers sleep, or by dropping
  the only reader that was woken while the free lock has no other reader
  to pass the notification to, and in no other way;
- `readersServed_run_iff`: a reader is stranded by polling the only
  reader that was woken while others are asleep - it enters and wakes
  nobody - and where the number of shared borrows has reached its limit,
  and in no other way.
-/

namespace Unsend

namespace RwLock

variable [Target] {W : Type}

namespace Sys

/-- No write guard is dropped while a writer but no reader is asleep, and
no reader that was woken on a free lock is dropped while it is the only
one that is awake and no other reader is asleep. -/
def KeepsWriters (s : Sys W) : Label W → Prop
  | .dropWrite => 0 < (s.queue .write).length → (s.queue .write).numNotified = 0 →
      0 < (s.queue .read).length
  | .cancel f => s.Notified .read f → s.lock.cells.readGuards = 0 →
      s.lock.cells.writeGuards = 0 → 0 < (s.queue .write).length →
      (s.queue .write).numNotified = 0 → (s.queue .read).numNotified = 1 →
      0 < (s.queue .read).numWaiting
  | _ => True

/-- Where no write guard is alive, the only reader that was woken is not
polled while others are asleep, and no reader is polled that cannot enter
because there are `isize::MAX` read guards, unless another reader has been
woken. -/
def KeepsReaders (s : Sys W) : Label W → Prop
  | .poll f _ => s.lock.cells.writeGuards = 0 →
      (s.Notified .read f → (s.queue .read).numNotified = 1 →
        (s.queue .read).numWaiting = 0 ∧ s.lock.cells.readGuards < isizeMax) ∧
      (s.futs f = some (.read, .unresumed) → s.lock.cells.readGuards = isizeMax →
        0 < (s.queue .read).numNotified)
  | _ => True

end Sys

section Steps

variable [WillWake W] {s s' : Sys W} {f : Ptr} {mode : Mode} {stage : Stage} {w : W}

theorem inv_reachable (h : system.Reachable s) : s.Inv := by
  refine h.invariant (I := Sys.Inv) ?_ fun s l s' hi hs => ?_
  · rintro s rfl
    have hq : ∀ m, (Sys.init : Sys W).queue m = [] := fun m => by
      cases m with
      | read => exact Event.queue_new
      | write => exact Event.queue_new
    exact ⟨fun m => by rw [hq]; exact seated_nil, fun m => by rw [hq]; exact Queue.plain_nil,
      fun m => by rw [hq]; exact Queue.tracked_nil⟩
  · cases l with
    | call mode f => exact (next_call hi hs).1
    | poll f w =>
        obtain ⟨mode, stage, hf, hst, rfl⟩ := next_poll hs
        exact (poll_inv hi hf hst).1
    | cancel f => exact (next_cancel hi hs).1
    | tryRead => exact (next_try (.inl rfl) hi hs).1
    | tryWrite => exact (next_try (.inr rfl) hi hs).1
    | dropRead => exact (next_dropRead hi hs).1
    | dropWrite => exact (next_dropWrite hi hs).1

omit [WillWake W] in
/-- What the first part of a loop does to the guards: it gets one, or
there is a reason not to. -/
theorem attempt_cases (mode : Mode) (c : Cells) :
    (∃ a c', (loopOf mode).attempt c = some (a, c') ∧
      (mode = .read ∧ c.writeGuards = 0 ∧ c.readGuards < isizeMax ∧ c'.writeGuards = 0 ∧
        c'.readGuards = c.readGuards + 1 ∨ mode = .write ∧ c'.writeGuards = 1)) ∨
    ((loopOf mode).attempt c = none ∧ (c.writeGuards = 1 ∨
      c.writeGuards = 0 ∧ (mode = .read ∧ c.readGuards = isizeMax ∨
        mode = .write ∧ 0 < c.readGuards))) := by
  cases mode with
  | read =>
      cases hc : c.tryRead with
      | some c' =>
          obtain ⟨h1, h2, h3, h4⟩ := Cells.tryRead_some hc
          exact .inl ⟨(), c', by simp [loopOf, read, hc], .inl ⟨rfl, h1, h2, h3, h4⟩⟩
      | none =>
          refine .inr ⟨by simp [loopOf, read, hc], ?_⟩
          rcases Cells.tryRead_none hc with h | ⟨h, h'⟩
          · exact .inl h
          · exact .inr ⟨h, .inl ⟨rfl, h'⟩⟩
  | write =>
      cases hc : c.tryWrite with
      | some c' =>
          exact .inl ⟨(), c', by simp [loopOf, write, hc],
            .inr ⟨rfl, Cells.tryWrite_some hc⟩⟩
      | none =>
          refine .inr ⟨by simp [loopOf, write, hc], ?_⟩
          rcases Cells.tryWrite_none hc with h | ⟨h, h'⟩
          · exact .inl h
          · exact .inr ⟨h, .inr ⟨rfl, h'⟩⟩

/-- One poll in numbers. -/
theorem poll_numbers (hi : s.Inv) (hf : s.futs f = some (mode, stage))
    (hst : stage ≠ .returned) :
    let s' := s.pollFuture f mode stage w
    (stage = .suspended ∧ ¬ s.Notified mode f ∧ s'.lock.cells = s.lock.cells ∧
      (s'.queue mode).numNotified = (s.queue mode).numNotified ∧
      (s'.queue mode).numWaiting = (s.queue mode).numWaiting) ∨
    (((stage = .unresumed ∧ ¬ s.Notified mode f ∧
        (s'.queue mode).numNotified = (s.queue mode).numNotified) ∨
      (stage = .suspended ∧ s.Notified mode f ∧
        (s.queue mode).numNotified = (s'.queue mode).numNotified + 1)) ∧
    ((∃ a, (loopOf mode).attempt s.lock.cells = some (a, s'.lock.cells) ∧
        (s'.queue mode).numWaiting = (s.queue mode).numWaiting) ∨
      ((loopOf mode).attempt s.lock.cells = none ∧ s'.lock.cells = s.lock.cells ∧
        (s'.queue mode).numWaiting = (s.queue mode).numWaiting + 1))) := by
  have hs := (hi.seated mode).canPoll rfl hf hst
  obtain ⟨hq, -⟩ := settle_queue s f mode w
    ((loopOf mode).poll f w stage (s.lock.site mode) s.lock.cells)
  have hcells : (s.pollFuture f mode stage w).lock.cells =
      ((loopOf mode).poll f w stage (s.lock.site mode) s.lock.cells).view.2.1 := rfl
  have hacc : ∀ t, (loopOf mode).accept t = none := by
    intro t
    cases mode with
    | read => rfl
    | write => rfl
  have hnot : stage = .suspended → (s.Notified mode f ↔
      ∃ t c, (s.queue mode).stateOf f = some (.notified t c)) := by
    rintro rfl
    exact and_iff_right hf
  intro s'
  rw [show s'.queue mode = _ from hq, show s'.lock.cells = _ from hcells]
  rcases WaitLoop.poll_counts (b := loopOf mode) (w := w) (s := s.lock.cells) hacc hs with
    ⟨h1, h2, h3, h4, h5⟩ | ⟨hway, hget⟩
  · refine .inl ⟨h1, fun h => ?_, h3, h4, h5⟩
    obtain ⟨t, c, hn⟩ := (hnot h1).mp h
    exact h2 t c hn
  · refine .inr ⟨?_, hget⟩
    rcases hway with ⟨h1, -, h3⟩ | ⟨h1, h2, h3⟩
    · refine .inl ⟨h1, fun h => ?_, h3⟩
      have := h.1.symm.trans hf
      subst h1
      cases this
    · exact .inr ⟨h1, (hnot h1).mpr h2, h3⟩

/-! ## Writers -/

/-- No poll strands a writer: the lock is not free behind it, or nothing
has changed. -/
theorem writersCount_poll (hi : s.Inv) (hs : s.WritersCount)
    (hf : s.futs f = some (mode, stage)) (hst : stage ≠ .returned) :
    (s.pollFuture f mode stage w).WritersCount := by
  have hpos := isizeMax_pos
  obtain ⟨-, hrest⟩ := poll_inv (w := w) hi hf hst
  intro hr hw hlen
  rcases poll_numbers (w := w) hi hf hst with ⟨-, -, hc, hn, hwait⟩ | ⟨-, hget⟩
  · have hsame : ∀ m, ((s.pollFuture f mode stage w).queue m).numNotified =
        (s.queue m).numNotified ∧ ((s.pollFuture f mode stage w).queue m).length =
        (s.queue m).length := by
      intro m
      by_cases hm : m = mode
      · subst hm
        rw [Queue.length_eq_add, Queue.length_eq_add, hn, hwait]
        exact ⟨rfl, rfl⟩
      · rw [hrest m hm]
        exact ⟨rfl, rfl⟩
    rw [hc] at hr hw
    rw [(hsame .write).2] at hlen
    rw [(hsame .write).1, (hsame .read).1]
    exact hs hr hw hlen
  · rcases attempt_cases mode s.lock.cells with ⟨a, c', ha, hg⟩ | ⟨ha, hg⟩
    · rcases hget with ⟨a', hget, -⟩ | ⟨hget, -⟩
      · have hc := ha.symm.trans hget
        simp only [Option.some.injEq, Prod.mk.injEq] at hc
        rw [← hc.2] at hr hw
        omega
      · rw [ha] at hget
        cases hget
    · rcases hget with ⟨a', hget, -⟩ | ⟨-, hc, -⟩
      · rw [ha] at hget
        cases hget
      · rw [hc] at hr hw
        omega

/-- Dropping a waiting future, as the writers see it. -/
theorem writersCount_cancel (hi : s.Inv) (hs : s.WritersCount)
    (h : s.next (.cancel f) = some s') : s'.WritersCount ↔ s.KeepsWriters (.cancel f) := by
  obtain ⟨-, hc, hcases⟩ := next_cancel hi h
  unfold Sys.WritersCount Sys.KeepsWriters
  rw [hc]
  rcases hcases with ⟨hl, hw⟩ | ⟨mode, hw, hrest, hq⟩
  · have hq : ∀ m, s'.queue m = s.queue m := fun m => by rw [Sys.queue, hl]; rfl
    rw [hq, hq]
    exact ⟨fun _ hn => (hw _ hn.1).elim, fun _ => hs⟩
  · have hcount := Queue.drop_cases (s.nodup mode) (hi.plain mode) f
    rw [← hq] at hcount
    cases mode with
    | write =>
        rw [hrest .read (by simp)]
        refine ⟨fun _ hn => ?_, fun _ hr hw' hlen => ?_⟩
        · have := hw.symm.trans hn.1
          cases this
        · have hlen' := (s'.queue .write).length_eq_add
          have hlen'' := (s.queue .write).length_eq_add
          have := hs hr hw'
          omega
    | read =>
        rw [hrest .write (by simp)]
        have hs' := hs
        unfold Sys.WritersCount at hs'
        constructor
        · intro hs1 hn hr hw' hlen h0 h1
          obtain ⟨-, t, b, hst⟩ := hn
          rcases hcount with ⟨hno, -⟩ | ⟨t', -, ⟨-, hpos, -⟩ | ⟨-, h2, -⟩⟩
          · exact (hno t b hst).elim
          · exact hpos
          · have := hs1 hr hw' hlen
            omega
        · intro hk hr hw' hlen
          rcases hcount with ⟨-, h1, -⟩ | ⟨t, hst, ⟨-, -, h1, -⟩ | ⟨h1, h2, h3, -⟩⟩
          · have := hs' hr hw' hlen
            omega
          · omega
          · have hk := hk ⟨hw, t, false, hst⟩ hr hw' hlen
            omega

omit [WillWake W] in
/-- Neither property minds a lock that is taken without waiting. -/
theorem counts_try (hq : ∀ m, s'.queue m = s.queue m)
    (hc : s'.lock.cells = s.lock.cells ∨
      (s.lock.cells.writeGuards = 0 ∧ 0 < s'.lock.cells.readGuards) ∨
      s'.lock.cells.writeGuards = 1) :
    (s.WritersCount → s'.WritersCount) ∧ (s.ReadersCount → s'.ReadersCount) := by
  refine ⟨fun hs hr hw hlen => ?_, fun hs hw hn => ?_⟩
  · rw [hq] at hlen ⊢
    rw [hq]
    rcases hc with hc | ⟨-, hc⟩ | hc
    · rw [hc] at hr hw
      exact hs hr hw hlen
    · omega
    · omega
  · rw [hq] at hn ⊢
    rcases hc with hc | ⟨hc, -⟩ | hc
    · rw [hc] at hw
      exact hs hw hn
    · exact hs hc hn
    · omega

/-- From a state in which no writer is stranded on a free lock, a step
strands one exactly if it is not one that `KeepsWriters` allows. -/
theorem writersCount_next_iff {l : Label W} (hi : s.Inv) (hs : s.WritersCount)
    (h : s.next l = some s') : s'.WritersCount ↔ s.KeepsWriters l := by
  cases l with
  | call mode f =>
      obtain ⟨-, hl⟩ := next_call hi h
      refine iff_of_true ?_ trivial
      unfold Sys.WritersCount Sys.queue
      rw [hl]
      exact hs
  | poll f w =>
      obtain ⟨mode, stage, hf, hst, rfl⟩ := next_poll h
      exact iff_of_true (writersCount_poll hi hs hf hst) trivial
  | cancel f => exact writersCount_cancel hi hs h
  | tryRead =>
      obtain ⟨-, hq, hc⟩ := next_try (.inl rfl) hi h
      exact iff_of_true ((counts_try hq hc).1 hs) trivial
  | tryWrite =>
      obtain ⟨-, hq, hc⟩ := next_try (.inr rfl) hi h
      exact iff_of_true ((counts_try hq hc).1 hs) trivial
  | dropRead =>
      obtain ⟨-, -, -, hread, hwrite⟩ := next_dropRead hi h
      refine iff_of_true (fun hr hw hlen => ?_) trivial
      rcases hwrite with ⟨-, hq⟩ | ⟨hpos, -⟩
      · rw [hq, Queue.length_notify] at hlen
        rw [hq]
        exact .inl ((Queue.notify_one_pos _ (n := Notify 1) () rfl rfl).mpr hlen)
      · omega
  | dropWrite =>
      obtain ⟨-, hw, hr, hwrite, hread⟩ := next_dropWrite hi h
      unfold Sys.WritersCount Sys.KeepsWriters
      rw [hwrite, hread, Queue.notify_one_pos _ (n := Notify 1) () rfl rfl]
      constructor
      · intro hs' hlen h0
        rcases hs' hr hw hlen with hn | hn
        · omega
        · exact hn
      · intro hk _ _ hlen
        by_cases h0 : (s.queue .write).numNotified = 0
        · exact .inr (hk hlen h0)
        · exact .inl (by omega)

/-! ## Readers -/

/-- Polling a writer does not concern the readers: it gets the lock, or
nothing they see has changed. -/
theorem readersCount_poll_write (hi : s.Inv) (hs : s.ReadersCount)
    (hf : s.futs f = some (.write, stage)) (hst : stage ≠ .returned) :
    (s.pollFuture f .write stage w).ReadersCount := by
  obtain ⟨-, hrest⟩ := poll_inv (w := w) hi hf hst
  intro hw hn
  rw [hrest .read (by simp)] at hn ⊢
  rcases poll_numbers (w := w) hi hf hst with
    ⟨-, -, hc, -⟩ | ⟨-, ⟨a, hget, -⟩ | ⟨-, hc, -⟩⟩
  · rw [hc] at hw
    exact hs hw hn
  · rcases attempt_cases .write s.lock.cells with ⟨a', c', ha, ⟨hm, -⟩ | ⟨-, hg⟩⟩ |
      ⟨ha, -⟩
    · cases hm
    · have hc := ha.symm.trans hget
      simp only [Option.some.injEq, Prod.mk.injEq] at hc
      rw [← hc.2] at hw
      omega
    · rw [ha] at hget
      cases hget
  · rw [hc] at hw
    exact hs hw hn

/-- Polling a reader: what becomes of the guards is decided by the guards. -/
theorem readersCount_poll_read (hi : s.Inv) (hs : s.ReadersCount)
    (hf : s.futs f = some (.read, stage)) (hst : stage ≠ .returned) :
    (s.pollFuture f .read stage w).ReadersCount ↔ s.KeepsReaders (.poll f w) := by
  have hb := s.lock.cells.bound
  have hunres : s.futs f = some (.read, .unresumed) ↔ stage = .unresumed := by
    rw [hf]
    simp
  simp only [Sys.KeepsReaders]
  rw [hunres]
  rcases poll_numbers (w := w) hi hf hst with
    ⟨rfl, hnot, hc, hn, hwait⟩ | ⟨hway, hget⟩
  · refine iff_of_true (fun hw hpos => ?_) fun _ => ⟨fun h => (hnot h).elim, by simp⟩
    rw [hc] at hw
    rw [hn]
    exact hs hw (by omega)
  · unfold Sys.ReadersCount at hs ⊢
    rcases attempt_cases .read s.lock.cells with
      ⟨a, c', ha, ⟨-, hw, hlt, hw', hr'⟩ | ⟨hm, -⟩⟩ | ⟨ha, hg⟩
    · rcases hget with ⟨a', hget, hwait⟩ | ⟨hget, -⟩
      · have hc := ha.symm.trans hget
        simp only [Option.some.injEq, Prod.mk.injEq] at hc
        rw [← hc.2, hwait, hw', hw]
        have hs := hs hw
        rcases hway with ⟨rfl, hnot, hn⟩ | ⟨rfl, hnot, hn⟩
        · simp only [hnot, false_imp_iff, true_and, forall_const]
          rw [hn]
          exact iff_of_true hs (fun h => by omega)
        · simp only [hnot, forall_const, reduceCtorEq, false_imp_iff, and_true]
          constructor
          · intro h h1
            refine ⟨?_, hlt⟩
            by_contra h0
            have := h (by omega)
            omega
          · intro h hpos
            by_contra h0
            have := h (by omega)
            omega
      · rw [ha] at hget
        cases hget
    · cases hm
    · rcases hget with ⟨a', hget, -⟩ | ⟨-, hc, hwait⟩
      · rw [ha] at hget
        cases hget
      · rw [hc, hwait]
        rcases hg with hw | ⟨hw, ⟨-, hfull⟩ | ⟨hm, -⟩⟩
        · rw [hw]
          simp
        · rw [hw]
          rcases hway with ⟨rfl, hnot, hn⟩ | ⟨rfl, hnot, hn⟩
          · simp only [hnot, false_imp_iff, true_and, forall_const]
            rw [hn]
            exact ⟨fun h _ => h (by omega), fun h _ => h hfull⟩
          · simp only [hnot, forall_const, reduceCtorEq, false_imp_iff, and_true]
            constructor
            · intro h h1
              have := h (by omega)
              omega
            · intro h _
              by_contra h0
              have := h (by omega)
              omega
        · cases hm

/-- Polling a future, as the readers see it. -/
theorem readersCount_poll (hi : s.Inv) (hs : s.ReadersCount)
    (hf : s.futs f = some (mode, stage)) (hst : stage ≠ .returned) :
    (s.pollFuture f mode stage w).ReadersCount ↔ s.KeepsReaders (.poll f w) := by
  cases mode with
  | read => exact readersCount_poll_read hi hs hf hst
  | write =>
      refine iff_of_true (readersCount_poll_write hi hs hf hst) fun _ =>
        ⟨fun h => ?_, fun h => ?_⟩
      · cases h.1.symm.trans hf
      · cases h.symm.trans hf

/-- From a state in which no reader is stranded, a step strands one
exactly if it is not one that `KeepsReaders` allows. -/
theorem readersCount_next_iff {l : Label W} (hi : s.Inv) (hs : s.ReadersCount)
    (h : s.next l = some s') : s'.ReadersCount ↔ s.KeepsReaders l := by
  cases l with
  | call mode f =>
      obtain ⟨-, hl⟩ := next_call hi h
      refine iff_of_true ?_ trivial
      unfold Sys.ReadersCount Sys.queue
      rw [hl]
      exact hs
  | poll f w =>
      obtain ⟨mode, stage, hf, hst, rfl⟩ := next_poll h
      exact readersCount_poll hi hs hf hst
  | cancel f =>
      obtain ⟨-, hc, hcases⟩ := next_cancel hi h
      refine iff_of_true (fun hw hn => ?_) trivial
      rw [hc] at hw
      have hs := hs hw
      rcases hcases with ⟨hl, -⟩ | ⟨mode, hw, hrest, hq⟩
      · rw [Sys.queue, hl] at hn ⊢
        exact hs hn
      · cases mode with
        | write =>
            rw [hrest .read (by simp)] at hn ⊢
            exact hs hn
        | read =>
            have hcount := Queue.drop_cases (s.nodup .read) (hi.plain .read) f
            rw [← hq] at hcount
            rcases hcount with ⟨-, h1, h2, -⟩ |
              ⟨t, -, ⟨-, -, h1, -⟩ | ⟨h1, h2, h3, -⟩⟩
            · omega
            · omega
            · omega
  | tryRead =>
      obtain ⟨-, hq, hc⟩ := next_try (.inl rfl) hi h
      exact iff_of_true ((counts_try hq hc).2 hs) trivial
  | tryWrite =>
      obtain ⟨-, hq, hc⟩ := next_try (.inr rfl) hi h
      exact iff_of_true ((counts_try hq hc).2 hs) trivial
  | dropRead =>
      obtain ⟨-, -, hg, hread, -⟩ := next_dropRead hi h
      refine iff_of_true (fun _ hn => ?_) trivial
      rw [hread] at hn ⊢
      exact hs (s.lock.cells.writeGuards_of_reading (by omega)) hn
  | dropWrite =>
      obtain ⟨-, -, -, -, hread⟩ := next_dropWrite hi h
      refine iff_of_true (fun _ hn => ?_) trivial
      have hlen := (s'.queue .read).length_eq_add
      rw [hread] at hlen ⊢
      rw [Queue.notify_one_pos _ (n := Notify 1) () rfl rfl]
      rw [hread] at hn
      rw [Queue.length_notify] at hlen
      omega

end Steps

/-! ## Runs -/

/-- In a run of a lock no writer is ever stranded on a free lock exactly if
every step of it is one that `KeepsWriters` allows. -/
theorem writersServed_run_iff [WillWake W] {tr : List (Sys W × Label W)} {s : Sys W}
    (h : system.Run tr s) :
    ((∀ x ∈ tr, x.1.WritersServed) ∧ s.WritersServed) ↔
      ∀ x ∈ tr, x.1.KeepsWriters x.2 := by
  refine h.always_iff ?_ ?_
  · rintro s rfl _ _ ⟨f, hf⟩
    cases hf
  · intro s l s' hr hs hstep
    have hi := inv_reachable hr
    rw [Sys.writersServed_iff (inv_reachable (hr.step hstep))]
    exact writersCount_next_iff hi ((Sys.writersServed_iff hi).mp hs) hstep

/-- In a run of a lock no reader is ever stranded while reading is allowed
exactly if every step of it is one that `KeepsReaders` allows. -/
theorem readersServed_run_iff [WillWake W] {tr : List (Sys W × Label W)} {s : Sys W}
    (h : system.Run tr s) :
    ((∀ x ∈ tr, x.1.ReadersServed) ∧ s.ReadersServed) ↔
      ∀ x ∈ tr, x.1.KeepsReaders x.2 := by
  refine h.always_iff ?_ ?_
  · rintro s rfl _ ⟨f, hf, -⟩
    cases hf
  · intro s l s' hr hs hstep
    have hi := inv_reachable hr
    rw [Sys.readersServed_iff (inv_reachable (hr.step hstep))]
    exact readersCount_next_iff hi ((Sys.readersServed_iff hi).mp hs) hstep

end RwLock

/-! ## Two runs that strand somebody -/

namespace RwLock

/-- Guards, then notified and waiting futures, of readers and of writers. -/
def Sys.numbers [Target] (s : Sys Nat) : (Nat × Nat × Nat) × (Nat × Nat × Nat) :=
  ((s.lock.cells.readGuards, (s.queue .read).numNotified, (s.queue .read).numWaiting),
    (s.lock.cells.writeGuards, (s.queue .write).numNotified, (s.queue .write).numWaiting))

/-- A writer waits for another writer, whose guard is dropped. -/
def writeThenWrite : List (Label Nat) :=
  [.tryWrite, .call .write 0, .poll 0 10, .dropWrite]

theorem exec_writeThenWrite :
    letI := Target.bits64
    (exec Sys.next .init writeThenWrite).map Sys.numbers = some ((0, 0, 0), (0, 0, 1)) := by
  decide

theorem writersServed_writeThenWrite :
    letI := Target.bits64
    ∃ s : Sys Nat,
      (((∀ x ∈ execTrace Sys.next .init writeThenWrite, x.1.WritersServed) ∧
        s.WritersServed) ↔
        ∀ x ∈ execTrace Sys.next .init writeThenWrite, x.1.KeepsWriters x.2) := by
  let _ : Target := .bits64
  obtain ⟨s, hrun, -⟩ := run_of_observe _ _ _ exec_writeThenWrite
  exact ⟨s, writersServed_run_iff hrun⟩

/-- The waiting writer sleeps on a free lock. -/
theorem writeThenWrite_strands :
    ¬ ∀ [Target] (s : Sys Nat), system.Reachable s → s.WritersServed := by
  intro h
  let _ : Target := .bits64
  obtain ⟨s, hrun, hobs⟩ := run_of_observe _ _ _ exec_writeThenWrite
  have hr : system.Reachable s := ⟨_, hrun⟩
  have hserved := (Sys.writersServed_iff (inv_reachable hr)).mp (h s hr)
  simp only [Sys.numbers, Prod.mk.injEq] at hobs
  have hlen := (s.queue .write).length_eq_add
  have := hserved (by omega) (by omega) (by omega)
  omega

/-- Two readers wait for a writer; the one that is woken enters. -/
def oneReaderWoken : List (Label Nat) :=
  [.tryWrite, .call .read 0, .poll 0 10, .call .read 1, .poll 1 11, .dropWrite, .poll 0 10]

theorem exec_oneReaderWoken :
    letI := Target.bits64
    (exec Sys.next .init oneReaderWoken).map Sys.numbers = some ((1, 0, 1), (0, 0, 0)) := by
  decide

theorem readersServed_oneReaderWoken :
    letI := Target.bits64
    ∃ s : Sys Nat,
      (((∀ x ∈ execTrace Sys.next .init oneReaderWoken, x.1.ReadersServed) ∧
        s.ReadersServed) ↔
        ∀ x ∈ execTrace Sys.next .init oneReaderWoken, x.1.KeepsReaders x.2) := by
  let _ : Target := .bits64
  obtain ⟨s, hrun, -⟩ := run_of_observe _ _ _ exec_oneReaderWoken
  exact ⟨s, readersServed_run_iff hrun⟩

/-- The other reader sleeps although the lock is being read. -/
theorem oneReaderWoken_strands :
    ¬ ∀ [Target] (s : Sys Nat), system.Reachable s → s.ReadersServed := by
  intro h
  let _ : Target := .bits64
  obtain ⟨s, hrun, hobs⟩ := run_of_observe _ _ _ exec_oneReaderWoken
  have hr : system.Reachable s := ⟨_, hrun⟩
  have hserved := (Sys.readersServed_iff (inv_reachable hr)).mp (h s hr)
  simp only [Sys.numbers, Prod.mk.injEq] at hobs
  have := hserved (by omega) (by omega)
  omega

end RwLock

end Unsend

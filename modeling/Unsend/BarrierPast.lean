import Unsend.BarrierCount

/-!
# Barriers whose futures are dropped

A future that is dropped while it waits has been counted and is not there
to be released. What remains true of a barrier with such futures is
`past_notified`: nobody who waits is forgotten. A future that has not been
notified finds, were it polled, its own generation and fewer than `n`
arrivals in it.
-/

namespace Unsend

namespace Barrier

variable {W : Type}

/-- The futures in the list that are not notified are of the present
generation. -/
structure Sys.Present [Target] (s : Sys W) : Prop where
  addressed : Addressed s.futs
  present : ∀ y ∈ s.queue, y.2.isNotified = false → ∀ a, s.Pending y.1 a →
    a.localGen = s.barrier.generation

section Steps

variable [Target] {s s' : Sys W} {n : Nat} {f : Ptr} {a : Arrived} {w : W}

/-- A future that does not wait comes or goes. -/
theorem Sys.Present.elsewhere (h : s.Present) {x : Option (Option Arrived × Stage)}
    (haddr : x ≠ none → IsAddress f) (hx : ∀ k, x ≠ some (k, .suspended)) :
    ({ s with futs := Function.update s.futs f x } : Sys W).Present where
  addressed := h.addressed.update haddr
  present y hy hn a ha := h.present y hy hn a (update_eq_suspended hx ha).2

theorem Sys.Present.cancel (h : s.Present) (f : Ptr) (woken : List W) :
    ({ s with
      barrier := { s.barrier with event := (s.barrier.event.drop f).event }
      futs := Function.update s.futs f none
      woken } : Sys W).Present where
  addressed := h.addressed.update fun hne => (hne rfl).elim
  present y hy hn a ha := by
    have hq : (s.barrier.event.drop f).event.queue = (s.queue.drop f).event := Event.queue_drop ..
    change y ∈ (s.barrier.event.drop f).event.queue at hy
    rw [hq] at hy
    have ha := (update_eq_suspended (by simp) ha).2
    rcases Queue.mem_drop hy with ⟨hy, -⟩ | ⟨x, -, -, -, ⟨t, b, t', -, rfl⟩, -⟩
    · exact h.present y hy hn a ha
    · cases hn

variable [WillWake W]

theorem Sys.Present.first (h : s.Present) (hseat : Seated s.futs (fun _ => True) s.queue)
    {k : Option Arrived} (hf : s.futs f = some (k, .unresumed)) : (s.pollFirst f w).Present := by
  have hout : ∀ k', s.futs f ≠ some (k', .suspended) := fun k' hk' => by cases hf.symm.trans hk'
  have habs : f ∉ s.queue.ids := hseat.absent fun k' _ => hout k'
  by_cases hlt : s.barrier.count + 1 < s.barrier.n
  · obtain ⟨h1, -, -, h4, -, h6⟩ := pollFirst_waits (w := w) hlt habs
    have hgen : (s.pollFirst f w).barrier.generation = s.barrier.generation :=
      congrArg Cells.generation h6
    refine ⟨?_, fun y hy hn a ha => ?_⟩
    · rw [h1]
      exact h.addressed.update fun _ => h.addressed f _ hf
    · rw [Sys.Pending, h1] at ha
      rw [h4] at hy
      rw [hgen]
      rcases List.mem_append.mp hy with hy | hy
      · have hne : y.1 ≠ f := fun he => habs (he ▸ Queue.mem_ids_of_mem hy)
        rw [Function.update_of_ne hne] at ha
        exact h.present y hy hn a ha
      · obtain rfl := List.mem_singleton.mp hy
        rw [Function.update_self] at ha
        cases ha
        rfl
  · obtain ⟨h1, -, -, h4, -, -⟩ := pollFirst_leads (f := f) (w := w) hlt
    refine ⟨?_, fun y hy hn => ?_⟩
    · rw [h1]
      exact h.addressed.update fun _ => h.addressed f _ hf
    · -- the leader has notified everybody
      have hlen := hseat.length_le h.addressed s.nodup
      have hnone := s.queue.notify_max (n := Notify usizeMax) () rfl hlen
      rw [h4] at hy
      rw [Queue.numWaiting_eq_zero.mp hnone y hy] at hn
      cases hn

theorem Sys.Present.again (h : s.Present) (hseat : Seated s.futs (fun _ => True) s.queue)
    (hf : s.Pending f a) : (s.pollAgain f a w).Present := by
  obtain ⟨-, -, h3, -, hpolled, h4⟩ := pollAgain_cases (w := w) hseat hf
  have hgen : (s.pollAgain f a w).barrier.generation = s.barrier.generation :=
    congrArg Cells.generation h3
  have haddr : ∀ stage, Addressed (Function.update s.futs f (some (some a, stage))) :=
    fun stage => h.addressed.update fun _ => h.addressed f _ hf
  rcases h4 with ⟨h1, -, hwhy⟩ | ⟨h1, -, -⟩
  · refine ⟨by rw [h1]; exact haddr _, fun y hy hn a' ha' => ?_⟩
    rw [hgen]
    rw [Sys.Pending, h1] at ha'
    rcases hpolled y hy with ⟨hy, hne⟩ | ⟨w', -, rfl⟩
    · rw [Function.update_of_ne hne] at ha'
      exact h.present y hy hn a' ha'
    · rw [Function.update_self] at ha'
      cases ha'
      rcases hwhy with ⟨st, hst, hnot⟩ | hsame
      · exact h.present _ ((Queue.stateOf_eq_some s.nodup).mp hst) hnot a hf
      · exact hsame
  · refine ⟨by rw [h1]; exact haddr _, fun y hy hn a' ha' => ?_⟩
    rw [hgen]
    rw [Sys.Pending, h1] at ha'
    obtain ⟨hne, ha'⟩ := update_eq_suspended (by simp) ha'
    rcases hpolled y hy with ⟨hy, -⟩ | ⟨w', -, rfl⟩
    · exact h.present y hy hn a' ha'
    · exact (hne rfl).elim

theorem present_next {l : Label W} (hseat : Seated s.futs (fun _ => True) s.queue) (h : s.Present)
    (hs : s.next l = some s') : s'.Present := by
  cases l with
  | call f =>
      rw [Sys.next] at hs
      split at hs
      · cases hs
      · split at hs
        · rename_i haddr
          obtain rfl := Option.some.inj hs
          exact h.elsewhere (fun _ => haddr) (by simp)
        · cases hs
  | poll f w =>
      rw [Sys.next] at hs
      split at hs
      · rename_i k hf
        obtain rfl := Option.some.inj hs
        exact h.first hseat hf
      · rename_i a hf
        obtain rfl := Option.some.inj hs
        exact h.again hseat hf
      · cases hs
  | cancel f =>
      rw [Sys.next] at hs
      split at hs
      · cases hs
      · obtain rfl := Option.some.inj hs
        exact h.cancel f _
      · obtain rfl := Option.some.inj hs
        exact h.elsewhere (fun hne => (hne rfl).elim) (by simp)

theorem present_reachable (h : (system n).Reachable s) : s.Present := by
  refine h.invariant_of (I := Sys.Present) ?_ fun s l s' hr hp hs => ?_
  · rintro s rfl
    have hq : (Sys.init n : Sys W).queue = [] := Event.queue_new
    refine ⟨nofun, fun y hy => ?_⟩
    rw [hq] at hy
    cases hy
  · obtain ⟨tr, hr⟩ := hr
    exact present_next (counted_run hr).seated hp hs

theorem attempt_of_mem {y : Ptr × State Unit W} (h : (system n).Reachable s) (hy : y ∈ s.queue)
    (hn : y.2.isNotified = false) (hf : s.Pending y.1 a) :
    (waiting n a.localGen).attempt s.barrier.cells = none := by
  have hgen := (present_reachable h).present y hy hn a hf
  obtain ⟨tr, hr⟩ := h
  obtain ⟨a', -, -, hlt, -⟩ := (counted_run hr).known y.1 _ hf
  exact if_pos ⟨hgen, hlt⟩

/-- A future that waits without having been notified could not go on: the
generation is its own, and not complete. So whoever was left waiting by a
generation that is over has been notified, no matter which futures have
been dropped. -/
theorem past_notified (h : (system n).Reachable s) (hf : s.Pending f a) (hn : ¬ s.Notified f) :
    (waiting n a.localGen).attempt s.barrier.cells = none := by
  have hc : Seated s.futs (fun _ => True) s.queue := by
    obtain ⟨tr, hr⟩ := h
    exact (counted_run hr).seated
  obtain ⟨st, hst⟩ := Queue.mem_ids.mp (hc.present trivial hf)
  refine attempt_of_mem h hst ?_ hf
  cases st with
  | created => rfl
  | waiting w => rfl
  | notified t b => exact (hn ⟨b, (Queue.stateOf_eq_some s.nodup).mpr hst⟩).elim

end Steps

/-- At a barrier for three one future is dropped while it waits, another
one waits on. -/
def dropThenWait : List (Label Nat) := [.call 1, .poll 1 10, .call 2, .poll 2 11, .cancel 1]

theorem exec_dropThenWait :
    letI := Target.bits64
    (exec Sys.next (.init 3) dropThenWait).map (fun s =>
        ((s.futs 2).map fun x => (x.2, x.1.map Arrived.localGen), s.queue.numNotified,
          s.queue.stateOf 2)) =
      some (some (.suspended, some 0), 0, some (.waiting 11)) := by
  decide

theorem past_dropThenWait :
    letI := Target.bits64
    ∃ s : Sys Nat, (waiting 3 0).attempt s.barrier.cells = none := by
  let _ : Target := .bits64
  obtain ⟨s, hrun, hobs⟩ := run_of_observe _ _ _ exec_dropThenWait
  simp only [Prod.mk.injEq] at hobs
  obtain ⟨hf, -, hst⟩ := hobs
  obtain ⟨⟨k, stage⟩, hf, hk⟩ := Option.map_eq_some_iff.mp hf
  obtain ⟨rfl, hk⟩ := Prod.mk.inj hk
  obtain ⟨a, rfl, ha⟩ := Option.map_eq_some_iff.mp hk
  refine ⟨s, ?_⟩
  rw [← ha]
  refine past_notified ⟨_, hrun⟩ hf ?_
  rintro ⟨b, hb⟩
  cases hst.symm.trans hb

end Barrier

end Unsend

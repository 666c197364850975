import Mathlib.Algebra.Order.Group.Multiset
import Mathlib.Data.List.ReduceOption
import Unsend.EventRules

/-!
# Events that hand a value over

The channel and the executor pass values directly to a listener: the tag
of their events is an `Option`, `Some` for a value that is handed over
and `None` for a plain wake-up. What each operation does to the values
the notified listeners hold, as a multiset.
-/

namespace Unsend

section Notifications

variable {T : Type}

/-- `1.tag_with(|| item.take())`, the state being `item`. -/
def handOver : Notification (Option T) (Option T) :=
  (Notify 1).tagWith fun item => (item, none)

/-- `1.tag_with(|| None)`. -/
def wakeOne : Notification Unit (Option T) :=
  (Notify 1).tagWith fun _ => (none, ())

end Notifications

namespace Queue

variable {T W : Type} {q q' : Queue (Option T) W} {p : Ptr}

/-- The values in the tags of the notified listeners. -/
def held (q : Queue (Option T) W) : List T := q.tags.reduceOption

theorem reduceOption_perm {tags tags' : List (Option T)} (h : tags.Perm tags') :
    (tags.reduceOption : Multiset T) = tags'.reduceOption :=
  Multiset.coe_eq_coe.mpr (h.filterMap id)

/-- The value of a tag is one more value. -/
theorem held_of_perm {tag : Option T} (h : q.tags.Perm (tag :: q'.tags)) :
    (q.held : Multiset T) = (tag.toList : Multiset T) + q'.held := by
  refine (reduceOption_perm h).trans ?_
  cases tag with
  | none => exact (zero_add _).symm
  | some item => exact (Multiset.singleton_add item (q'.held : Multiset T)).symm

theorem held_of_tags_eq (h : q.tags = q'.tags) : q.held = q'.held :=
  congrArg List.reduceOption h

theorem held_length_le (q : Queue (Option T) W) : q.held.length ≤ q.length :=
  Nat.le_trans (List.length_filterMap_le ..) (List.length_filterMap_le ..)

theorem held_of_none_notified (h : q.numNotified = 0) : q.held = [] :=
  congrArg List.reduceOption (tags_of_none_notified h)

/-- At most one value has one order. -/
theorem eq_of_short {l l' : List T} (h : (l : Multiset T) = l') (hl : l'.length ≤ 1) :
    l = l' := by
  have hp := Multiset.coe_eq_coe.mp h
  cases l' with
  | nil => exact hp.eq_nil
  | cons a rest =>
      cases rest with
      | nil => exact List.perm_singleton.mp hp
      | cons b rest' => simp at hl

/-- A value is handed to somebody who waits, or stays with its owner. -/
theorem handOver_cases (q : Queue (Option T) W) (item : T) :
    (q.numNotified = 0 ∧ 0 < q.numWaiting ∧
      (q.notify handOver (some item)).event.numNotified = 1 ∧
      ((q.notify handOver (some item)).event.held : Multiset T) = item ::ₘ q.held ∧
      (q.notify handOver (some item)).producer = none) ∨
    ((q.numNotified = 0 → q.numWaiting = 0) ∧
      q.notify handOver (some item) = ⟨q, some item, 0, []⟩) := by
  rcases q.notify_one (n := handOver) (some item) rfl rfl with ⟨h1, h2, h3, -, h4, h5⟩ | h
  · exact .inl ⟨h1, h2, h3, held_of_perm h4, h5⟩
  · exact .inr h

/-- A wake-up notifies somebody who waits, or does nothing. -/
theorem wakeOne_cases (q : Queue (Option T) W) :
    (q.numNotified = 0 ∧ 0 < q.numWaiting ∧
      (q.notify wakeOne ()).event.numNotified = 1 ∧
      ((q.notify wakeOne ()).event.held : Multiset T) = q.held) ∨
    ((q.numNotified = 0 → q.numWaiting = 0) ∧ q.notify wakeOne () = ⟨q, (), 0, []⟩) := by
  rcases q.notify_one (n := wakeOne) () rfl rfl with ⟨h1, h2, h3, -, h4, -⟩ | h
  · exact .inl ⟨h1, h2, h3, (held_of_perm h4).trans (zero_add _)⟩
  · exact .inr h

/-- A wake-up leaves nobody waiting while nobody is notified. -/
theorem wakeOne_served (q : Queue (Option T) W)
    (h : (q.notify wakeOne ()).event.numNotified = 0) :
    (q.notify wakeOne ()).event.numWaiting = 0 := by
  rcases q.wakeOne_cases with ⟨-, -, h1, -⟩ | ⟨h1, h2⟩
  · omega
  · rw [h2] at h ⊢
    exact h1 h

theorem held_wakeOne (q : Queue (Option T) W) :
    ((q.notify wakeOne ()).event.held : Multiset T) = q.held := by
  rcases q.wakeOne_cases with ⟨-, -, -, h⟩ | ⟨-, h⟩
  · exact h
  · rw [h]

/-- A poll takes the tag of a notified listener out, and leaves the
listener waiting otherwise. -/
theorem poll_handed [WillWake W] (hq : q.ids.Nodup) (p : Ptr) (w : W) :
    ((∀ tag b, q.stateOf p ≠ some (.notified tag b)) ∧ (q.poll p w).2 = .pending ∧
      p ∈ (q.poll p w).1.ids ∧ (q.poll p w).1.numNotified = q.numNotified ∧
      (∀ tag b, (q.poll p w).1.stateOf p ≠ some (.notified tag b)) ∧
      (q.poll p w).1.held = q.held) ∨
    ∃ tag b, q.stateOf p = some (.notified tag b) ∧ q.poll p w = (q.erase p, .ready tag) ∧
      q.numNotified = (q.erase p).numNotified + 1 ∧
      (q.held : Multiset T) = (tag.toList : Multiset T) + (q.erase p).held := by
  have hself : ∀ {q' : Queue (Option T) W} {w' : W}, q'.stateOf p = some (.waiting w') →
      ∀ tag b, q'.stateOf p ≠ some (.notified tag b) := by
    intro q' w' h tag b hn
    cases h.symm.trans hn
  cases hp : q.stateOf p with
  | none =>
      have habs := stateOf_eq_none.mp hp
      have hat : stateOf (q ++ [(p, .waiting w)]) p = some (.waiting w) := by
        rw [stateOf, List.find?_append, Option.map_eq_none_iff.mp hp]
        simp
      rw [poll_absent habs]
      exact .inl ⟨fun _ _ => by simp, rfl, by simp, by simp, hself hat,
        held_of_tags_eq (by simp)⟩
  | some st =>
      cases hst : st.isNotified with
      | false =>
          obtain ⟨w', -, he⟩ := poll_waiting (w := w) hp hst
          obtain ⟨h1, h2, -, h4⟩ := setState_waiting hq hp hst (isNotified_waiting w')
          obtain ⟨l, m, rfl, -, hs⟩ := stateOf_split hq hp
          rw [he]
          refine .inl ⟨?_, rfl, ?_, h2, ?_, held_of_tags_eq h4⟩
          · rintro tag b ⟨⟩
            cases hst
          · rw [h1]
            exact stateOf_mem_ids hp
          · refine @hself _ w' ((stateOf_eq_some ?_).mpr ?_)
            · rw [h1]; exact hq
            · rw [hs]; simp
      | true =>
          cases st with
          | created => cases hst
          | waiting task => cases hst
          | notified tag b =>
              obtain ⟨h1, -, h3⟩ := erase_notified hq hp
              exact .inr ⟨tag, b, rfl, poll_notified hp, h1, held_of_perm h3⟩

/-- What the drop of a listener does to the value it holds: nothing is
lost exactly if the value, if there is one, can be passed on, because
nobody else is notified and somebody waits. -/
theorem drop_handed (hq : q.ids.Nodup) (hpl : q.Plain) (p : Ptr) :
    (q.held : Multiset T) = (q.drop p).event.held + (q.drop p).discarded.join.toList ∧
      ((q.drop p).discarded.join = none ↔
        ∀ item b, q.stateOf p = some (.notified (some item) b) →
          q.numNotified = 1 ∧ 0 < q.numWaiting) := by
  rcases drop_cases hq hpl p with
    ⟨h1, -, -, h4, h5⟩ | ⟨tag, hp, ⟨h1, h2, -, -, h4, h5⟩ | ⟨h1, -, -, h4, h5⟩⟩
  · rw [h5, held_of_tags_eq h4]
    refine ⟨(add_zero _).symm, iff_of_true rfl ?_⟩
    intro item b hp
    exact (h1 _ _ hp).elim
  · rw [h5, show ((q.drop p).event.held : Multiset T) = q.held from reduceOption_perm h4]
    exact ⟨(add_zero _).symm, iff_of_true rfl fun _ _ _ => ⟨h1, h2⟩⟩
  · rw [h5, held_of_perm h4, add_comm]
    refine ⟨rfl, ?_⟩
    cases tag with
    | none =>
        refine iff_of_true rfl ?_
        intro item b hp'
        cases hp.symm.trans hp'
    | some item =>
        refine iff_of_false (by simp) ?_
        intro h
        obtain ⟨h2, h3⟩ := h item false hp
        have := h1 h2
        omega

/-! ## Who is woken -/

/-- The waker that a plain notification of one listener wakes, if any. -/
def nextWoken (q : Queue T W) : List W := if q.numNotified = 0 then q.wakers 1 else []

theorem wakers_of_none_waiting {q : Queue T W} (h : q.numWaiting = 0) (k : Nat) :
    q.wakers k = [] := by
  have hnone : q.filter (fun x => !x.2.isNotified) = [] := by
    rw [List.filter_eq_nil_iff]
    intro x hx
    rw [numWaiting_eq_zero.mp h x hx]
    simp
  rw [wakers, hnone, List.take_nil]
  rfl

theorem nextWoken_eq (q : Queue T W) : q.nextWoken = q.wakers (q.reach false 1) := by
  rw [reach_one, nextWoken]
  by_cases hn : q.numNotified = 0
  · by_cases hw : 0 < q.numWaiting
    · rw [if_pos hn, if_pos ⟨hn, hw⟩]
    · have hnone : q.numWaiting = 0 := Nat.eq_zero_of_not_pos hw
      rw [if_pos hn, wakers_of_none_waiting hnone, wakers_of_none_waiting hnone]
  · rw [if_neg hn, if_neg fun h => hn h.1, wakers_zero]

theorem length_nextWoken (q : Queue T W) : q.nextWoken.length ≤ 1 := by
  have hone : (q.wakers 1).length ≤ 1 := by
    unfold wakers
    cases q.filter (fun x => !x.2.isNotified) with
    | nil => simp
    | cons x rest =>
        rw [List.take_succ_cons, List.take_zero, List.flatMap_cons, List.flatMap_nil,
          List.append_nil]
        cases x.2 with
        | waiting w => exact Nat.le_refl _
        | _ => exact Nat.zero_le _
  unfold nextWoken
  split
  · exact hone
  · exact Nat.zero_le _

theorem woken_notify_one (q : Queue T W) {σ : Type} {n : Notification σ T} (s : σ)
    (hc : n.count = 1) (hp : n.isAdditional = false) : (q.notify n s).woken = q.nextWoken := by
  rw [nextWoken_eq, notify, hc, hp]

/-- The drop of a notified listener wakes somebody where its tag is passed
on, and leaves nobody to wake; any other drop wakes nobody. -/
theorem woken_drop (hq : q.ids.Nodup) (hpl : q.Plain) (p : Ptr) :
    ((∃ tag b, q.stateOf p = some (.notified tag b)) ∧
      (q.drop p).woken = (q.erase p).nextWoken ∧ (q.drop p).event.nextWoken = [] ∧
      ((q.drop p).discarded = none ∨ (q.erase p).nextWoken = [])) ∨
    ((∀ tag b, q.stateOf p ≠ some (.notified tag b)) ∧
      (q.drop p).woken = [] ∧ (q.drop p).event = q.erase p ∧ (q.drop p).discarded = none) := by
  unfold drop
  cases hst : q.stateOf p with
  | none =>
      refine .inr ⟨nofun, rfl, ?_, rfl⟩
      exact (erase_of_notMem (stateOf_eq_none.mp hst)).symm
  | some st =>
      cases st with
      | created => exact .inr ⟨nofun, rfl, rfl, rfl⟩
      | waiting w => exact .inr ⟨nofun, rfl, rfl, rfl⟩
      | notified tag b =>
          obtain rfl := hpl p tag b ((stateOf_eq_some hq).mp hst)
          refine .inl ⟨⟨tag, false, rfl⟩, ?_⟩
          show ((q.erase p).pass tag false).woken = _ ∧
            ((q.erase p).pass tag false).event.nextWoken = _ ∧
            (((q.erase p).pass tag false).discarded = none ∨ _)
          unfold pass
          by_cases hr : (q.erase p).reach false 1 = 0
          · have hnil : (q.erase p).nextWoken = [] := by rw [nextWoken_eq, hr, wakers_zero]
            rw [if_pos hr]
            exact ⟨hnil.symm, hnil, .inr hnil⟩
          · have hone : (q.erase p).reach false 1 = 1 := by
              rw [reach_one] at hr ⊢
              split at hr
              · rename_i h
                rw [if_pos h]
              · exact (hr rfl).elim
            have hmany : ((q.erase p).assign false [tag]).numNotified ≠ 0 := by
              rw [(count_assign ..).1, List.length_singleton]
              rw [reach_one] at hone
              split at hone
              · omega
              · cases hone
            rw [if_neg hr, nextWoken_eq, hone]
            refine ⟨rfl, ?_, .inl rfl⟩
            show nextWoken _ = []
            rw [nextWoken, if_neg hmany]

end Queue

end Unsend

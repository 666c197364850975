import Mathlib.Data.List.Perm.Subperm
import Unsend.EventRun

/-!
# Reasoning about an event by counting

The rules a user of an event reasons with. What matters to a channel, a
lock or an executor is how many listeners are notified and how many
still wait after each operation, which tags the notified ones hold, and
which wakers were woken; where in the list a listener stands does not.

- `poll_absent`, `poll_waiting`, `poll_notified`: the three outcomes of a
  poll;
- `notify_one`: a plain notification of one listener hands its tag over
  exactly if nobody is notified and somebody waits, and does nothing
  otherwise; `pass_one` says the same of a tag that is passed on;
- `erase_notified`, `erase_waiting`: what a removed entry takes along;
- `Plain`: no notification was an additional one;
- `Tracked`: every listener's latest waker is the one it waits with, or
  has been woken since.
-/

namespace Unsend

theorem Notification.length_produce {σ T : Type} (n : Notification σ T) :
    ∀ (k : Nat) (s : σ), (n.produce k s).1.length = k
  | 0, _ => rfl
  | k + 1, s => by
      simp only [Notification.produce, List.length_cons]
      rw [Notification.length_produce n k]

namespace Queue

variable {σ T W : Type} {q : Queue T W} {p : Ptr}

/-! ## Notifications -/

theorem reach_le (q : Queue T W) (b : Bool) (k : Nat) : q.reach b k ≤ q.numWaiting :=
  Nat.min_le_right ..

/-- A plain notification of one listener takes effect only where nobody
is notified yet. -/
theorem reach_one (q : Queue T W) :
    q.reach false 1 = if q.numNotified = 0 ∧ 0 < q.numWaiting then 1 else 0 := by
  simp only [reach, Bool.false_eq_true, if_false]
  split <;> omega

theorem wakers_zero (q : Queue T W) : q.wakers 0 = [] := rfl

theorem notify_of_reach_zero {n : Notification σ T} {s : σ}
    (h : q.reach n.isAdditional n.count = 0) : q.notify n s = ⟨q, s, 0, []⟩ := by
  simp [notify, h, Notification.produce, wakers_zero]

section Notify

variable (q) (n : Notification σ T) (s : σ)

theorem ids_notify : (q.notify n s).event.ids = q.ids := ids_assign ..

theorem numNotified_notify : (q.notify n s).event.numNotified =
    q.numNotified + q.reach n.isAdditional n.count := by
  have hr := q.reach_le n.isAdditional n.count
  rw [notify, (count_assign ..).1, n.length_produce, Nat.min_eq_left hr]

theorem numWaiting_notify : (q.notify n s).event.numWaiting =
    q.numWaiting - q.reach n.isAdditional n.count := by
  rw [notify, (count_assign ..).2, n.length_produce]

theorem tags_notify : (q.notify n s).event.tags.Perm
    ((n.produce (q.reach n.isAdditional n.count) s).1 ++ q.tags) := by
  refine tags_assign _ _ _ ?_
  rw [n.length_produce]
  exact q.reach_le ..

end Notify

/-- A plain notification of one listener: handed over, or without effect. -/
theorem notify_one (q : Queue T W) {n : Notification σ T} (s : σ) (hc : n.count = 1)
    (hp : n.isAdditional = false) :
    (q.numNotified = 0 ∧ 0 < q.numWaiting ∧
      (q.notify n s).event.numNotified = 1 ∧
      (q.notify n s).event.numWaiting + 1 = q.numWaiting ∧
      (q.notify n s).event.tags.Perm ((n.next s).1 :: q.tags) ∧
      (q.notify n s).producer = (n.next s).2) ∨
    ((q.numNotified = 0 → q.numWaiting = 0) ∧ q.notify n s = ⟨q, s, 0, []⟩) := by
  have hr := q.reach_one
  by_cases h : q.numNotified = 0 ∧ 0 < q.numWaiting
  · left
    rw [if_pos h] at hr
    have hnn := q.numNotified_notify n s
    have hnw := q.numWaiting_notify n s
    have ht := q.tags_notify n s
    rw [hc, hp, hr] at hnn hnw ht
    refine ⟨h.1, h.2, by omega, by omega, ht, ?_⟩
    simp only [notify, hc, hp, hr]
    rfl
  · right
    rw [if_neg h] at hr
    refine ⟨by omega, notify_of_reach_zero ?_⟩
    rw [hc, hp, hr]

/-- After a plain notification of one listener somebody is notified, if
anybody listens. -/
theorem notify_one_pos (q : Queue T W) {n : Notification σ T} (s : σ) (hc : n.count = 1)
    (hp : n.isAdditional = false) :
    0 < (q.notify n s).event.numNotified ↔ 0 < q.length := by
  have hlen := q.length_eq_add
  rcases q.notify_one s hc hp with ⟨h1, h2, h3, -⟩ | ⟨h1, h2⟩
  · exact iff_of_true (by omega) (by omega)
  · rw [h2]
    exact ⟨fun h => by simp only at h; omega, fun h => by simp only; omega⟩

theorem length_notify (q : Queue T W) (n : Notification σ T) (s : σ) :
    (q.notify n s).event.length = q.length := by
  have h := congrArg List.length (q.ids_notify n s)
  rwa [length_ids, length_ids] at h

/-- Distinct listeners have distinct addresses. -/
theorem length_le_usizeMax [Target] (hq : q.ids.Nodup) (h : ∀ p ∈ q.ids, IsAddress p) :
    q.length ≤ usizeMax := by
  have hsub : q.ids ⊆ List.range' 1 usizeMax := by
    intro p hp
    obtain ⟨h1, h2⟩ := h p hp
    rw [List.mem_range'_1, Nat.add_comm]
    exact ⟨h1, Nat.lt_succ_of_le h2⟩
  have hle := (List.Nodup.subperm hq hsub).length_le
  rwa [length_ids, List.length_range'] at hle

/-- A notification of `usize::MAX` listeners reaches everybody. -/
theorem notify_max [Target] (q : Queue T W) {n : Notification σ T} (s : σ)
    (hc : n.count = usizeMax) (hq : q.length ≤ usizeMax) :
    (q.notify n s).event.numWaiting = 0 := by
  have hlen := q.length_eq_add
  rw [numWaiting_notify, reach, hc]
  split
  · omega
  · omega

/-- A tag passed on by a plain notification: taken, or discarded. -/
theorem pass_one (q : Queue T W) (t : T) :
    (q.numNotified = 0 ∧ 0 < q.numWaiting ∧
      (q.pass t false).event.numNotified = 1 ∧
      (q.pass t false).event.numWaiting + 1 = q.numWaiting ∧
      (q.pass t false).event.tags.Perm (t :: q.tags) ∧
      (q.pass t false).discarded = none) ∨
    ((q.numNotified = 0 → q.numWaiting = 0) ∧
      q.pass t false = ⟨q, none, [], some t⟩) := by
  have hr := q.reach_one
  by_cases h : q.numNotified = 0 ∧ 0 < q.numWaiting
  · left
    rw [if_pos h] at hr
    have hne : ¬ q.reach false 1 = 0 := by omega
    obtain ⟨hnn, hnw⟩ := count_assign false [t] q
    simp only [List.length_cons, List.length_nil] at hnn hnw
    have hp : q.pass t false = ⟨q.assign false [t], none, q.wakers 1, none⟩ := by
      rw [pass, if_neg hne]
    rw [hp]
    refine ⟨h.1, h.2, ?_, ?_, ?_, rfl⟩
    · show (q.assign false [t]).numNotified = 1
      omega
    · show (q.assign false [t]).numWaiting + 1 = q.numWaiting
      omega
    · exact tags_assign false [t] q h.2
  · right
    rw [if_neg h] at hr
    exact ⟨by omega, by rw [pass, if_pos hr]⟩

theorem ids_pass (q : Queue T W) (t : T) (b : Bool) : (q.pass t b).event.ids = q.ids := by
  unfold pass
  split
  · rfl
  · exact ids_assign ..

/-- The entries after handing out tags: those that were there, and waiting
ones that are now notified, whose wakers are among the first. -/
theorem mem_assign {b : Bool} :
    ∀ {ts : List T} {q : Queue T W} {y : Ptr × State T W}, y ∈ assign b ts q →
      y ∈ q ∨ ∃ x ∈ q, x.2.isNotified = false ∧
        (∃ t, y = (x.1, .notified t b)) ∧ ∀ w ∈ x.2.wakers, w ∈ q.wakers ts.length
  | [], q, y, h => by rw [assign_nil] at h; exact .inl h
  | _ :: _, [], y, h => by cases h
  | t :: ts, x :: q, y, h => by
      rw [assign] at h
      cases hx : x.2.isNotified with
      | true =>
          have hw : ∀ k, wakers (x :: q) k = wakers q k := fun k => by
            rw [wakers, List.filter_cons_of_neg (by simp [hx])]; rfl
          rw [if_pos hx] at h
          rcases List.mem_cons.mp h with rfl | h
          · exact .inl (List.mem_cons_self ..)
          · rcases mem_assign h with h | ⟨z, hz, hn, ht, hzw⟩
            · exact .inl (List.mem_cons_of_mem _ h)
            · exact .inr ⟨z, List.mem_cons_of_mem _ hz, hn, ht, by rw [hw]; exact hzw⟩
      | false =>
          have hw : ∀ k, wakers (x :: q) (k + 1) = x.2.wakers ++ wakers q k := fun k => by
            rw [wakers, List.filter_cons_of_pos (by simp [hx])]; rfl
          rw [if_neg (by simp [hx])] at h
          rw [List.length_cons, hw]
          rcases List.mem_cons.mp h with rfl | h
          · exact .inr ⟨x, List.mem_cons_self .., hx, ⟨t, rfl⟩,
              fun w hw => List.mem_append_left _ hw⟩
          · rcases mem_assign h with h | ⟨z, hz, hn, ht, hzw⟩
            · exact .inl (List.mem_cons_of_mem _ h)
            · exact .inr ⟨z, List.mem_cons_of_mem _ hz, hn, ht,
                fun w hw => List.mem_append_right _ (hzw w hw)⟩

theorem mem_notify {n : Notification σ T} {s : σ} {y : Ptr × State T W}
    (h : y ∈ (q.notify n s).event) :
    y ∈ q ∨ ∃ x ∈ q, x.2.isNotified = false ∧
      (∃ t, y = (x.1, .notified t n.isAdditional)) ∧
      ∀ w ∈ x.2.wakers, w ∈ (q.notify n s).woken := by
  rcases mem_assign h with h | ⟨x, hx, hn, ht, hw⟩
  · exact .inl h
  · rw [n.length_produce] at hw
    exact .inr ⟨x, hx, hn, ht, hw⟩

theorem mem_pass {t : T} {b : Bool} {y : Ptr × State T W} (h : y ∈ (q.pass t b).event) :
    y ∈ q ∨ ∃ x ∈ q, x.2.isNotified = false ∧ (∃ t, y = (x.1, .notified t b)) ∧
      ∀ w ∈ x.2.wakers, w ∈ (q.pass t b).woken := by
  unfold pass at h ⊢
  split at h
  · exact .inl h
  · rename_i hr
    rw [if_neg hr]
    exact mem_assign h

/-! ## Removal and replacement of one entry -/

theorem mem_erase {y : Ptr × State T W} : y ∈ q.erase p ↔ y ∈ q ∧ y.1 ≠ p := by
  simp [erase]

theorem ids_nodup_erase (hq : q.ids.Nodup) (p : Ptr) : (q.erase p).ids.Nodup :=
  (q.ids_erase_sub p).nodup hq

theorem erase_notified (hq : q.ids.Nodup) {t : T} {b : Bool}
    (h : q.stateOf p = some (.notified t b)) :
    q.numNotified = (q.erase p).numNotified + 1 ∧
      q.numWaiting = (q.erase p).numWaiting ∧ q.tags.Perm (t :: (q.erase p).tags) := by
  obtain ⟨l, m, rfl, he, -⟩ := stateOf_split hq h
  rw [he]
  refine ⟨?_, ?_, ?_⟩
  · simp; omega
  · simp
  · simp only [tags_append, tags_cons, heldTag_notified, Option.toList_some]
    exact List.perm_middle

theorem erase_waiting (hq : q.ids.Nodup) {st : State T W} (h : q.stateOf p = some st)
    (hst : st.isNotified = false) :
    q.numNotified = (q.erase p).numNotified ∧
      q.numWaiting = (q.erase p).numWaiting + 1 ∧ q.tags = (q.erase p).tags := by
  obtain ⟨l, m, rfl, he, -⟩ := stateOf_split hq h
  rw [he]
  refine ⟨?_, ?_, ?_⟩
  · simp [hst]
  · simp [hst]; omega
  · simp [heldTag_of_not_notified hst]

theorem setState_waiting (hq : q.ids.Nodup) {st st' : State T W}
    (h : q.stateOf p = some st) (hst : st.isNotified = false)
    (hst' : st'.isNotified = false) :
    (q.setState p st').ids = q.ids ∧ (q.setState p st').numNotified = q.numNotified ∧
      (q.setState p st').numWaiting = q.numWaiting ∧ (q.setState p st').tags = q.tags := by
  obtain ⟨l, m, rfl, -, hs⟩ := stateOf_split hq h
  rw [hs st']
  simp [hst, hst', heldTag_of_not_notified hst, heldTag_of_not_notified hst']

theorem mem_setState {st : State T W} {y : Ptr × State T W} (h : y ∈ q.setState p st) :
    (y ∈ q ∧ y.1 ≠ p) ∨ (y = (p, st) ∧ p ∈ q.ids) := by
  obtain ⟨x, hx, rfl⟩ := List.mem_map.mp h
  split
  · rename_i he
    exact .inr ⟨rfl, he ▸ mem_ids_of_mem hx⟩
  · rename_i hne
    exact .inl ⟨hx, hne⟩

theorem stateOf_mem_ids {st : State T W} (h : q.stateOf p = some st) : p ∈ q.ids := by
  by_contra hp
  rw [stateOf_eq_none.mpr hp] at h
  cases h

/-- `p` is the only listener, if there is one. -/
theorem erase_eq_nil (h : ∀ r ∈ q.ids, r = p) : q.erase p = [] := by
  refine List.eq_nil_iff_forall_not_mem.mpr fun x hx => ?_
  obtain ⟨hm, hne⟩ := mem_erase.mp hx
  exact hne (h x.1 (mem_ids_of_mem hm))

theorem length_le_one (hq : q.ids.Nodup) (h : q.erase p = []) : q.length ≤ 1 := by
  rw [← length_ids]
  have hall : ∀ r ∈ q.ids, r = p := by
    intro r hr
    by_contra hne
    have hm : r ∈ (q.erase p).ids := mem_ids_erase.mpr ⟨hr, hne⟩
    rw [h] at hm
    cases hm
  cases hids : q.ids with
  | nil => exact Nat.zero_le _
  | cons a rest =>
      rw [hids] at hq hall
      cases rest with
      | nil => exact Nat.le_refl _
      | cons b rest' =>
          have hb := hall b (List.mem_cons_of_mem _ (List.mem_cons_self ..))
          rw [hall a (List.mem_cons_self ..), ← hb] at hq
          exact absurd (List.mem_cons_self ..) (List.nodup_cons.mp hq).1

/-- Where nobody waits, everybody is notified. -/
theorem notified_of_mem (hq : q.ids.Nodup) (h : q.numWaiting = 0) (hp : p ∈ q.ids) :
    ∃ t b, q.stateOf p = some (.notified t b) := by
  obtain ⟨st, hm⟩ := mem_ids.mp hp
  have hst := numWaiting_eq_zero.mp h _ hm
  cases st with
  | created => cases hst
  | waiting w => cases hst
  | notified t b => exact ⟨t, b, (stateOf_eq_some hq).mpr hm⟩

theorem exists_notified (hq : q.ids.Nodup) (h : 0 < q.numNotified) :
    ∃ p ∈ q.ids, ∃ t b, q.stateOf p = some (.notified t b) := by
  obtain ⟨⟨p, st⟩, hm, hst⟩ := List.countP_pos_iff.mp h
  cases st with
  | created => cases hst
  | waiting w => cases hst
  | notified t b => exact ⟨p, mem_ids_of_mem hm, t, b, (stateOf_eq_some hq).mpr hm⟩

/-! ## The outcomes of `poll` and `drop` -/

section Poll

variable [WillWake W] {w : W}

theorem poll_absent (h : p ∉ q.ids) :
    q.poll p w = (q ++ [(p, .waiting w)], .pending) := by
  rw [poll, stateOf_eq_none.mpr h]

/-- The waker a poll leaves: the new one, or the old one where it wakes
the same task. -/
theorem poll_waiting {st : State T W} (h : q.stateOf p = some st)
    (hst : st.isNotified = false) :
    ∃ w', (w' = w ∨ willWake w' w = true) ∧
      q.poll p w = (q.setState p (.waiting w'), .pending) := by
  cases st with
  | created => exact ⟨w, .inl rfl, by rw [poll, h]⟩
  | waiting task =>
      refine ⟨if willWake task w then task else w, ?_, by rw [poll, h]⟩
      split
      · rename_i hw; exact .inr hw
      · exact .inl rfl
  | notified t b => cases hst

theorem poll_notified {t : T} {b : Bool} (h : q.stateOf p = some (.notified t b)) :
    q.poll p w = (q.erase p, .ready t) := by
  rw [poll, h]

end Poll

/-- A poll of `p` leaves the other listeners where they are. -/
theorem mem_ids_poll [WillWake W] (hq : q.ids.Nodup) {r : Ptr} (hr : r ≠ p) (w : W) :
    r ∈ (q.poll p w).1.ids ↔ r ∈ q.ids := by
  cases hp : q.stateOf p with
  | none =>
      rw [poll_absent (stateOf_eq_none.mp hp)]
      simp [hr]
  | some st =>
      cases hst : st.isNotified with
      | false =>
          obtain ⟨w', -, he⟩ := poll_waiting (w := w) hp hst
          rw [he, (setState_waiting hq hp hst (isNotified_waiting w')).1]
      | true =>
          cases st with
          | notified t b => rw [poll_notified hp, mem_ids_erase, and_iff_left hr]
          | created => cases hst
          | waiting task => cases hst

theorem drop_absent (h : p ∉ q.ids) : q.drop p = ⟨q, none, [], none⟩ := by
  rw [drop, stateOf_eq_none.mpr h]

theorem drop_waiting {st : State T W} (h : q.stateOf p = some st)
    (hst : st.isNotified = false) : q.drop p = ⟨q.erase p, none, [], none⟩ := by
  cases st with
  | notified t b => cases hst
  | created => rw [drop, h]
  | waiting task => rw [drop, h]

theorem drop_notified {t : T} {b : Bool} (h : q.stateOf p = some (.notified t b)) :
    q.drop p = (q.erase p).pass t b := by
  rw [drop, h]

theorem ids_drop (q : Queue T W) (p : Ptr) : (q.drop p).event.ids = (q.erase p).ids := by
  cases h : q.stateOf p with
  | none =>
      rw [stateOf_eq_none] at h
      rw [drop_absent h, erase_of_notMem h]
  | some st =>
      cases hst : st.isNotified with
      | false => rw [drop_waiting h hst]
      | true =>
          cases st with
          | notified t b => rw [drop_notified h, ids_pass]
          | created => cases hst
          | waiting task => cases hst

theorem numWaiting_pass_le (q : Queue T W) (t : T) (b : Bool) :
    (q.pass t b).event.numWaiting ≤ q.numWaiting := by
  unfold pass
  split
  · exact Nat.le_refl _
  · rw [(count_assign ..).2]
    exact Nat.sub_le ..

theorem numWaiting_drop_le (hq : q.ids.Nodup) (p : Ptr) :
    (q.drop p).event.numWaiting ≤ q.numWaiting := by
  cases hp : q.stateOf p with
  | none =>
      have hd := drop_absent (stateOf_eq_none.mp hp)
      exact Nat.le_of_eq (congrArg (fun out => out.event.numWaiting) hd)
  | some st =>
      cases hst : st.isNotified with
      | false =>
          rw [drop_waiting hp hst, (erase_waiting hq hp hst).2.1]
          exact Nat.le_succ _
      | true =>
          cases st with
          | created => cases hst
          | waiting task => cases hst
          | notified t b =>
              rw [drop_notified hp, (erase_notified hq hp).2.1]
              exact numWaiting_pass_le ..

theorem mem_drop {y : Ptr × State T W} (h : y ∈ (q.drop p).event) :
    (y ∈ q ∧ y.1 ≠ p) ∨ ∃ x ∈ q, x.1 ≠ p ∧ x.2.isNotified = false ∧
      (∃ t b t', q.stateOf p = some (.notified t b) ∧ y = (x.1, .notified t' b)) ∧
      ∀ w ∈ x.2.wakers, w ∈ (q.drop p).woken := by
  cases hp : q.stateOf p with
  | none =>
      have hn := stateOf_eq_none.mp hp
      rw [drop_absent hn] at h
      exact .inl ⟨h, fun he => hn (he ▸ mem_ids_of_mem h)⟩
  | some st =>
      cases hst : st.isNotified with
      | false =>
          rw [drop_waiting hp hst] at h
          exact .inl (mem_erase.mp h)
      | true =>
          cases st with
          | notified t b =>
              rw [drop_notified hp] at h ⊢
              rcases mem_pass h with h | ⟨x, hx, hn, ⟨t', rfl⟩, hw⟩
              · exact .inl (mem_erase.mp h)
              · have hx := mem_erase.mp hx
                exact .inr ⟨x, hx.1, hx.2, hn, ⟨t, b, t', rfl, rfl⟩, hw⟩
          | created => cases hst
          | waiting task => cases hst

/-- `q'` is `q` without `p`, or with `p` waiting with a waker like `w`. -/
def Polled [WillWake W] (q : Queue T W) (p : Ptr) (w : W) (q' : Queue T W) : Prop :=
  ∀ y ∈ q', (y ∈ q ∧ y.1 ≠ p) ∨
    ∃ w', (w' = w ∨ willWake w' w = true) ∧ y = (p, .waiting w')

theorem polled_poll [WillWake W] (q : Queue T W) (p : Ptr) (w : W) :
    q.Polled p w (q.poll p w).1 := by
  intro y h
  cases hp : q.stateOf p with
  | none =>
      have hn := stateOf_eq_none.mp hp
      rw [poll_absent hn] at h
      rcases List.mem_append.mp h with h | h
      · exact .inl ⟨h, fun he => hn (he ▸ mem_ids_of_mem h)⟩
      · exact .inr ⟨w, .inl rfl, List.mem_singleton.mp h⟩
  | some st =>
      cases hst : st.isNotified with
      | false =>
          obtain ⟨w', hw, he⟩ := poll_waiting (w := w) hp hst
          rw [he] at h
          rcases mem_setState h with h | ⟨rfl, -⟩
          · exact .inl h
          · exact .inr ⟨w', hw, rfl⟩
      | true =>
          cases st with
          | notified t b =>
              rw [poll_notified hp] at h
              exact .inl (mem_erase.mp h)
          | created => cases hst
          | waiting task => cases hst

/-! ## Plain notifications -/

/-- No entry was notified by an additional notification. -/
def Plain (q : Queue T W) : Prop := ∀ p t b, (p, .notified t b) ∈ q → b = false

theorem plain_nil : Plain ([] : Queue T W) := fun _ _ _ h => (List.not_mem_nil h).elim

theorem Plain.erase (h : q.Plain) (p : Ptr) : (q.erase p).Plain :=
  fun p' t b hm => h p' t b (mem_erase.mp hm).1

theorem Plain.notify (h : q.Plain) {n : Notification σ T} (hn : n.isAdditional = false)
    (s : σ) : (q.notify n s).event.Plain := by
  intro p t b hm
  rcases mem_notify hm with hm | ⟨x, -, -, ⟨t', he⟩, -⟩
  · exact h p t b hm
  · cases he; exact hn

theorem Plain.polled [WillWake W] (h : q.Plain) {w : W} {q' : Queue T W}
    (hq : q.Polled p w q') : q'.Plain := by
  intro p' t b hm
  rcases hq _ hm with hm | ⟨w', -, he⟩
  · exact h p' t b hm.1
  · cases he

theorem Plain.stateOf (h : q.Plain) (hq : q.ids.Nodup) {t : T} {b : Bool}
    (hp : q.stateOf p = some (.notified t b)) : b = false :=
  h p t b ((stateOf_eq_some hq).mp hp)

theorem Plain.drop (h : q.Plain) (hq : q.ids.Nodup) (p : Ptr) : (q.drop p).event.Plain := by
  intro p' t b hm
  rcases mem_drop hm with hm | ⟨x, -, -, -, ⟨t0, b0, t', hp, he⟩, -⟩
  · exact h p' t b hm.1
  · cases he; exact h.stateOf hq hp

/-- What the drop of a listener does where all notifications are plain.
The tag of a notified listener goes to somebody who waits if nobody else
is notified, and is discarded otherwise. -/
theorem drop_cases (hq : q.ids.Nodup) (hpl : q.Plain) (p : Ptr) :
    ((∀ t b, q.stateOf p ≠ some (.notified t b)) ∧
      (q.drop p).event.numNotified = q.numNotified ∧
      (q.drop p).event.numWaiting ≤ q.numWaiting ∧
      (q.drop p).event.tags = q.tags ∧ (q.drop p).discarded = none) ∨
    ∃ t, q.stateOf p = some (.notified t false) ∧
      ((q.numNotified = 1 ∧ 0 < q.numWaiting ∧ (q.drop p).event.numNotified = 1 ∧
        (q.drop p).event.numWaiting + 1 = q.numWaiting ∧
        (q.drop p).event.tags.Perm q.tags ∧ (q.drop p).discarded = none) ∨
      ((q.numNotified = 1 → q.numWaiting = 0) ∧
        q.numNotified = (q.drop p).event.numNotified + 1 ∧
        (q.drop p).event.numWaiting = q.numWaiting ∧
        q.tags.Perm (t :: (q.drop p).event.tags) ∧ (q.drop p).discarded = some t)) := by
  cases hp : q.stateOf p with
  | none =>
      rw [drop_absent (stateOf_eq_none.mp hp)]
      exact .inl ⟨fun _ _ => by simp, rfl, Nat.le_refl _, rfl, rfl⟩
  | some st =>
      cases hst : st.isNotified with
      | false =>
          obtain ⟨h1, h2, h3⟩ := erase_waiting hq hp hst
          rw [drop_waiting hp hst]
          refine .inl ⟨fun _ _ h => ?_, h1.symm, ?_, h3.symm, rfl⟩
          · cases h
            cases hst
          · rw [h2]
            exact Nat.le_succ _
      | true =>
          cases st with
          | created => cases hst
          | waiting task => cases hst
          | notified t b =>
              obtain rfl := hpl.stateOf hq hp
              obtain ⟨h1, h2, h3⟩ := erase_notified hq hp
              rw [drop_notified hp]
              refine .inr ⟨t, rfl, ?_⟩
              rcases (q.erase p).pass_one t with ⟨h4, h5, h6, h7, h8, h9⟩ | ⟨h4, h5⟩
              · exact .inl ⟨by omega, by omega, h6, by omega, h8.trans h3.symm, h9⟩
              · rw [h5]
                exact .inr ⟨fun h => by rw [h2]; exact h4 (by omega), h1, h2.symm, h3, rfl⟩

/-- A listener that is dropped leaves no more notified ones behind. -/
theorem Plain.numNotified_drop_le (hpl : q.Plain) (hq : q.ids.Nodup) (p : Ptr) :
    (q.drop p).event.numNotified ≤ q.numNotified := by
  rcases drop_cases hq hpl p with ⟨-, h1, -, -⟩ |
    ⟨t, -, ⟨h0, -, h1, -⟩ | ⟨-, h1, -, -⟩⟩
  · omega
  · omega
  · omega

/-- If one of the listeners is notified before the drop, one of those that
are left is notified after it. -/
theorem Plain.served_drop (hpl : q.Plain) (hq : q.ids.Nodup) (p : Ptr)
    (hs : 0 < q.length → 0 < q.numNotified) (hlen : 0 < (q.drop p).event.length) :
    0 < (q.drop p).event.numNotified := by
  have hsum := q.length_eq_add
  have hsum' := (q.drop p).event.length_eq_add
  rcases drop_cases hq hpl p with ⟨-, h1, h2, -⟩ |
    ⟨t, -, ⟨-, -, h1, -⟩ | ⟨h1, h2, h3, -⟩⟩
  · have := hs (by omega)
    omega
  · omega
  · omega

/-! ## Wakers -/

/-- A waker that wakes `w`'s task is in the log at position `n` or later. -/
def WokenSince [WillWake W] (log : List W) (n : Nat) (w : W) : Prop :=
  ∃ w' ∈ log.drop n, w' = w ∨ willWake w' w = true

/-- `latest p` is the waker of the latest poll of `p` and the number of
wakers that had been woken by then: an entry waits with that waker, or
was woken since it was notified. -/
def Tracked [WillWake W] (q : Queue T W) (log : List W) (latest : Ptr → Option (W × Nat)) :
    Prop :=
  ∀ p st, (p, st) ∈ q → ∃ w n, latest p = some (w, n) ∧ n ≤ log.length ∧
    match st with
    | .created => False
    | .waiting w' => w' = w ∨ willWake w' w = true
    | .notified _ _ => WokenSince log n w

section Tracked

variable [WillWake W] {log : List W} {latest : Ptr → Option (W × Nat)}

theorem WokenSince.append {n : Nat} {w : W} (h : WokenSince log n w) (hn : n ≤ log.length)
    (more : List W) : WokenSince (log ++ more) n w := by
  obtain ⟨w', hm, hw⟩ := h
  refine ⟨w', ?_, hw⟩
  rw [List.drop_append_of_le_length hn]
  exact List.mem_append_left _ hm

theorem tracked_nil : Tracked ([] : Queue T W) log latest :=
  fun _ _ h => (List.not_mem_nil h).elim

/-- More wakers are woken, and entries leave. -/
theorem Tracked.mono (h : q.Tracked log latest) {q' : Queue T W} (hq : ∀ x ∈ q', x ∈ q)
    (more : List W) : q'.Tracked (log ++ more) latest := by
  intro p st hm
  obtain ⟨w, n, hp, hn, hst⟩ := h p st (hq _ hm)
  refine ⟨w, n, hp, ?_, ?_⟩
  · rw [List.length_append]; omega
  · cases st with
    | created => exact hst
    | waiting w' => exact hst
    | notified t b => exact WokenSince.append hst hn more

/-- An entry that is notified together with its wakers being woken. -/
theorem Tracked.mark (h : q.Tracked log latest) {x : Ptr × State T W} (hx : x ∈ q)
    (hn : x.2.isNotified = false) {woken : List W} (hw : ∀ w ∈ x.2.wakers, w ∈ woken) :
    ∃ w n, latest x.1 = some (w, n) ∧ n ≤ (log ++ woken).length ∧
      WokenSince (log ++ woken) n w := by
  obtain ⟨p, st⟩ := x
  obtain ⟨w, n, hp, hle, hst⟩ := h p st hx
  cases st with
  | created => exact hst.elim
  | notified t b => cases hn
  | waiting w' =>
      refine ⟨w, n, hp, ?_, w', ?_, hst⟩
      · rw [List.length_append]; omega
      · rw [List.drop_append_of_le_length hle]
        exact List.mem_append_right _ (hw w' (List.mem_singleton.mpr rfl))

theorem Tracked.notify (h : q.Tracked log latest) (n : Notification σ T) (s : σ) :
    (q.notify n s).event.Tracked (log ++ (q.notify n s).woken) latest := by
  intro p st hm
  rcases mem_notify hm with hm | ⟨x, hx, hn, ⟨t, he⟩, hw⟩
  · exact h.mono (fun _ => id) _ p st hm
  · cases he
    exact h.mark hx hn hw

theorem Tracked.drop (h : q.Tracked log latest) (p : Ptr) :
    (q.drop p).event.Tracked (log ++ (q.drop p).woken) latest := by
  intro p' st hm
  rcases mem_drop hm with hm | ⟨x, hx, -, hn, ⟨t, b, t', -, he⟩, hw⟩
  · exact h.mono (fun _ => id) _ p' st hm.1
  · cases he
    exact h.mark hx hn hw

theorem Tracked.polled (h : q.Tracked log latest) {w : W} {q' : Queue T W}
    (hq : q.Polled p w q') :
    q'.Tracked log (Function.update latest p (some (w, log.length))) := by
  intro p' st hm
  rcases hq _ hm with ⟨hm, hne⟩ | ⟨w', hw, he⟩
  · obtain ⟨w0, n, hp, hrest⟩ := h p' st hm
    exact ⟨w0, n, by rw [Function.update_of_ne hne, hp], hrest⟩
  · cases he
    exact ⟨w, log.length, Function.update_self .., Nat.le_refl _, hw⟩

/-- A future that does not wait here was polled. -/
theorem Tracked.elsewhere (h : q.Tracked log latest) (hp : p ∉ q.ids) (x : Option (W × Nat)) :
    q.Tracked log (Function.update latest p x) := by
  intro p' st hm
  obtain ⟨w, n, hl, hrest⟩ := h p' st hm
  have hne : p' ≠ p := fun he => hp (he ▸ mem_ids_of_mem hm)
  exact ⟨w, n, by rw [Function.update_of_ne hne, hl], hrest⟩

/-- A notified listener has been woken since it was last polled. -/
theorem Tracked.woken (h : q.Tracked log latest) (hn : 0 < q.numNotified) :
    ∃ p t b w n, (p, .notified t b) ∈ q ∧ latest p = some (w, n) ∧ WokenSince log n w := by
  obtain ⟨⟨p, st⟩, hm, hst⟩ := List.countP_pos_iff.mp hn
  cases st with
  | created => cases hst
  | waiting w => cases hst
  | notified t b =>
      obtain ⟨w, n, hp, -, hw⟩ := h p _ hm
      exact ⟨p, t, b, w, n, hm, hp, hw⟩

end Tracked

end Queue

end Unsend

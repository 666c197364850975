import Unsend.EventRules

/-!
# Cancellation is transparent to notification

A listener of an `Event<()>` that is notified and then dropped might as
well have been dropped first: a listener that is not notified yet takes
no part, and one that is passes its notification on, which reaches just
the listener that would have been reached without it.

`cancel_transparent` says so for `notify(1)`, and for any additional
notification where the listener does not hold a plain one.
-/

namespace Unsend

namespace Queue

variable {T W : Type}

/-! ## Handing out tags in two parts -/

theorem assign_none_waiting (b : Bool) (ts : List T) {q : Queue T W} (h : q.numWaiting = 0) :
    assign b ts q = q := by
  have hall := numWaiting_eq_zero.mp h
  have happend : assign b ts (q ++ []) = q ++ assign b ts [] := assign_append_notified hall
  rw [List.append_nil] at happend
  rw [happend]
  cases ts with
  | nil => rw [assign_nil, List.append_nil]
  | cons t ts => rw [assign, List.append_nil]

theorem assign_append (b : Bool) (ts ts' : List T) (q : Queue T W) :
    assign b (ts ++ ts') q = assign b ts' (assign b ts q) := by
  induction q generalizing ts with
  | nil =>
      cases ts with
      | nil => rw [List.nil_append, assign_nil]
      | cons t ts =>
          cases ts' with
          | nil => rfl
          | cons t' ts' => rfl
  | cons x q ih =>
      cases ts with
      | nil => rw [List.nil_append, assign_nil]
      | cons t ts =>
          cases hx : x.2.isNotified with
          | true =>
              rw [assign_cons_notified _ _ _ hx, assign_cons_notified _ _ _ hx,
                assign_cons_notified _ _ _ hx, ih]
          | false =>
              have hne : ¬ x.2.isNotified = true := by
                rw [hx]
                exact Bool.false_ne_true
              rw [List.cons_append, assign, if_neg hne, assign, if_neg hne, ih,
                assign_cons_notified _ _ _ rfl]

/-- Hand the unit tag to the `k` earliest waiting entries. -/
def give (b : Bool) (k : Nat) (q : Queue Unit W) : Queue Unit W := assign b (List.replicate k ()) q

section Give

variable {q : Queue Unit W} {p : Ptr} {b : Bool}

theorem give_zero (b : Bool) (q : Queue Unit W) : give b 0 q = q := assign_nil b q

theorem give_give (b : Bool) (k k' : Nat) (q : Queue Unit W) :
    give b k' (give b k q) = give b (k + k') q := by
  unfold give
  rw [← assign_append, List.replicate_append_replicate]

theorem ids_give (b : Bool) (k : Nat) (q : Queue Unit W) : (give b k q).ids = q.ids :=
  ids_assign ..

/-- More tags than there are entries that wait are as good as just as many. -/
theorem give_min (b : Bool) (k : Nat) (q : Queue Unit W) :
    give b (min k q.numWaiting) q = give b k q := by
  rcases Nat.le_total k q.numWaiting with h | h
  · rw [Nat.min_eq_left h]
  · have hnone : (give b q.numWaiting q).numWaiting = 0 := by
      unfold give
      rw [(count_assign ..).2, List.length_replicate, Nat.sub_self]
    rw [Nat.min_eq_right h, ← Nat.add_sub_cancel' h, ← give_give]
    exact (assign_none_waiting b _ hnone).symm

theorem give_cons_notified (b : Bool) (k : Nat) {x : Ptr × State Unit W} (q : Queue Unit W)
    (hx : x.2.isNotified = true) : give b k (x :: q) = x :: give b k q :=
  assign_cons_notified b _ q hx

theorem give_cons_waiting (b : Bool) (k : Nat) {x : Ptr × State Unit W} (q : Queue Unit W)
    (hx : x.2.isNotified = false) :
    give b (k + 1) (x :: q) = (x.1, .notified () b) :: give b k q := by
  have hne : ¬ x.2.isNotified = true := by
    rw [hx]
    exact Bool.false_ne_true
  unfold give
  rw [List.replicate_succ, assign, if_neg hne]

theorem erase_cons_of_ne {x : Ptr × State Unit W} (q : Queue Unit W) (hx : x.1 ≠ p) :
    erase (x :: q) p = x :: q.erase p := List.filter_cons_of_pos (by simpa using hx)

theorem erase_cons_self (x : Ptr × State Unit W) {q : Queue Unit W} (hx : x.1 ∉ q.ids) :
    erase (x :: q) x.1 = q :=
  (List.filter_cons_of_neg (by simp)).trans (erase_of_notMem hx)

/-- A listener that is notified already stays out of it. -/
theorem erase_give_notified {q : Queue Unit W} (hq : q.ids.Nodup) {t : Unit} {b' : Bool}
    (h : (p, .notified t b') ∈ q) (k : Nat) :
    (p, .notified t b') ∈ give b k q ∧ (give b k q).erase p = give b k (q.erase p) := by
  induction q generalizing k with
  | nil => cases h
  | cons x q ih =>
      obtain ⟨hx, hq⟩ := List.nodup_cons.mp hq
      rcases List.mem_cons.mp h with rfl | h
      · have hids : p ∉ (give b k q).ids := by
          rw [ids_give]
          exact hx
        rw [give_cons_notified b k q rfl, erase_cons_self (p, .notified t b') hx,
          erase_cons_self (p, .notified t b') hids]
        exact ⟨List.mem_cons_self .., rfl⟩
      · have hne : x.1 ≠ p := fun he => hx (he ▸ mem_ids_of_mem h)
        cases hn : x.2.isNotified with
        | true =>
            obtain ⟨hmem, herase⟩ := ih hq h k
            rw [give_cons_notified b k q hn, erase_cons_of_ne _ hne, erase_cons_of_ne _ hne,
              give_cons_notified b k _ hn, herase]
            exact ⟨List.mem_cons_of_mem _ hmem, rfl⟩
        | false =>
            cases k with
            | zero =>
                rw [give_zero, give_zero]
                exact ⟨List.mem_cons_of_mem _ h, rfl⟩
            | succ k =>
                obtain ⟨hmem, herase⟩ := ih hq h k
                rw [give_cons_waiting b k q hn, erase_cons_of_ne q hne,
                  give_cons_waiting b k _ hn, ← herase]
                exact ⟨List.mem_cons_of_mem _ hmem, erase_cons_of_ne _ hne⟩

/-- One that waits is reached by the tags, or it might as well not be
there. -/
theorem erase_give_waiting {q : Queue Unit W} (hq : q.ids.Nodup) {st : State Unit W}
    (h : (p, st) ∈ q) (hst : st.isNotified = false) (k : Nat) :
    ((p, st) ∈ give b k q ∧ (give b k q).erase p = give b k (q.erase p)) ∨
      ∃ k', k = k' + 1 ∧ (p, .notified () b) ∈ give b k q ∧
        (give b k q).erase p = give b k' (q.erase p) := by
  induction q generalizing k with
  | nil => cases h
  | cons x q ih =>
      obtain ⟨hx, hq⟩ := List.nodup_cons.mp hq
      rcases List.mem_cons.mp h with rfl | h
      · cases k with
        | zero =>
            rw [give_zero, give_zero]
            exact .inl ⟨List.mem_cons_self .., rfl⟩
        | succ k =>
            have hids : p ∉ (give b k q).ids := by
              rw [ids_give]
              exact hx
            rw [give_cons_waiting b k q hst, erase_cons_self (p, st) hx]
            refine .inr ⟨k, rfl, List.mem_cons_self .., ?_⟩
            exact erase_cons_self (p, .notified () b) hids
      · have hne : x.1 ≠ p := fun he => hx (he ▸ mem_ids_of_mem h)
        cases hn : x.2.isNotified with
        | true =>
            rw [give_cons_notified b k q hn, erase_cons_of_ne _ hne, erase_cons_of_ne _ hne,
              give_cons_notified b k _ hn]
            rcases ih hq h k with ⟨hmem, herase⟩ | ⟨k', rfl, hmem, herase⟩
            · rw [herase]
              exact .inl ⟨List.mem_cons_of_mem _ hmem, rfl⟩
            · rw [herase]
              exact .inr ⟨k', rfl, List.mem_cons_of_mem _ hmem,
                (give_cons_notified b k' _ hn).symm⟩
        | false =>
            cases k with
            | zero =>
                rw [give_zero, give_zero]
                exact .inl ⟨List.mem_cons_of_mem _ h, rfl⟩
            | succ k =>
                have hcons : erase ((x.1, .notified () b) :: give b k q) p =
                    (x.1, .notified () b) :: (give b k q).erase p := erase_cons_of_ne _ hne
                rw [give_cons_waiting b k q hn, erase_cons_of_ne q hne,
                  give_cons_waiting b k _ hn, hcons]
                rcases ih hq h k with ⟨hmem, herase⟩ | ⟨k', rfl, hmem, herase⟩
                · rw [herase]
                  exact .inl ⟨List.mem_cons_of_mem _ hmem, rfl⟩
                · rw [herase]
                  exact .inr ⟨k' + 1, rfl, List.mem_cons_of_mem _ hmem,
                    (give_cons_waiting b k' _ hn).symm⟩

/-! ## Notifications and drops in these terms -/

theorem produce_unit (n : Notification Unit Unit) (k : Nat) :
    (n.produce k ()).1 = List.replicate k () := by
  induction k with
  | zero => rfl
  | succ k ih => exact congrArg (() :: ·) ih

/-- An additional notification. -/
theorem notify_additional (q : Queue Unit W) (k : Nat) :
    (q.notify (Notify k).additional ()).event = give true k q := by
  show assign true ((Notify k).additional.produce (min k q.numWaiting) ()).1 q = _
  rw [produce_unit]
  exact give_min true k q

/-- `notify(1)` has an effect only where nobody is notified. -/
theorem notify_plain_one (q : Queue Unit W) :
    (q.notify (Notify 1) ()).event = if q.numNotified = 0 then give false 1 q else q := by
  show assign false ((Notify 1).produce (q.reach false 1) ()).1 q = _
  rw [produce_unit, reach_one]
  split
  · rename_i h
    rw [if_pos h.1]
    rfl
  · rename_i h
    rw [List.replicate_zero, assign_nil]
    split
    · rename_i hn
      exact (assign_none_waiting false _ (by omega)).symm
    · rfl

theorem pass_additional (q : Queue Unit W) (t : Unit) : (q.pass t true).event = give true 1 q := by
  by_cases hr : q.reach true 1 = 0
  · have hw : q.numWaiting = 0 := by
      simp only [reach, if_true] at hr
      omega
    rw [pass, if_pos hr]
    exact (assign_none_waiting true [()] hw).symm
  · rw [pass, if_neg hr]
    rfl

theorem pass_plain (q : Queue Unit W) (t : Unit) :
    (q.pass t false).event = if q.numNotified = 0 then give false 1 q else q := by
  have hr := q.reach_one
  by_cases hn : q.numNotified = 0
  · rw [if_pos hn]
    by_cases hw : q.numWaiting = 0
    · rw [pass, if_pos (by rw [hr, if_neg fun hc => Nat.ne_of_gt hc.2 hw])]
      exact (assign_none_waiting false [()] hw).symm
    · rw [if_pos ⟨hn, Nat.pos_of_ne_zero hw⟩] at hr
      rw [pass, if_neg (by rw [hr]; exact Nat.one_ne_zero)]
      rfl
  · rw [if_neg hn, pass, if_pos (by rw [hr, if_neg fun hc => hn hc.1])]

/-! ## The two orders -/

theorem drop_of_waiting (hq : q.ids.Nodup) {st : State Unit W} (h : (p, st) ∈ q)
    (hst : st.isNotified = false) : (q.drop p).event = q.erase p := by
  rw [drop_waiting ((stateOf_eq_some hq).mpr h) hst]

theorem drop_of_additional (hq : q.ids.Nodup) {t : Unit} (h : (p, .notified t true) ∈ q) :
    (q.drop p).event = give true 1 (q.erase p) := by
  rw [drop_notified ((stateOf_eq_some hq).mpr h), pass_additional]

theorem drop_of_plain (hq : q.ids.Nodup) {t : Unit} (h : (p, .notified t false) ∈ q) :
    (q.drop p).event =
      if (q.erase p).numNotified = 0 then give false 1 (q.erase p) else q.erase p := by
  rw [drop_notified ((stateOf_eq_some hq).mpr h), pass_plain]

/-- An additional notification, of a listener that does not hold a plain
one. -/
theorem cancel_additional (hq : q.ids.Nodup) (hp : p ∈ q.ids)
    (hplain : ∀ t, q.stateOf p ≠ some (.notified t false)) (k : Nat) :
    ((q.notify (Notify k).additional ()).event.drop p).event =
      ((q.drop p).event.notify (Notify k).additional ()).event := by
  rw [notify_additional, notify_additional]
  obtain ⟨st, hm⟩ := mem_ids.mp hp
  have hq' : (give true k q).ids.Nodup := by
    rw [ids_give]
    exact hq
  cases hst : st.isNotified with
  | true =>
      cases st with
      | created => cases hst
      | waiting w => cases hst
      | notified t b =>
          cases b with
          | false => exact (hplain t ((stateOf_eq_some hq).mpr hm)).elim
          | true =>
              obtain ⟨hmem, herase⟩ := erase_give_notified (b := true) hq hm k
              rw [drop_of_additional hq' hmem, drop_of_additional hq hm, herase, give_give,
                give_give, Nat.add_comm]
  | false =>
      rw [drop_of_waiting hq hm hst]
      rcases erase_give_waiting (b := true) hq hm hst k with
        ⟨hmem, herase⟩ | ⟨k', rfl, hmem, herase⟩
      · rw [drop_of_waiting hq' hmem hst, herase]
      · rw [drop_of_additional hq' hmem, herase, give_give]

/-- A listener that held a notification leaves a notified one behind, or
none that waits. -/
theorem served_of_drop (hq : q.ids.Nodup) {t : Unit} {b : Bool} (h : (p, .notified t b) ∈ q)
    (hn : (q.drop p).event.numNotified = 0) : (q.drop p).event.numWaiting = 0 := by
  have hgive :
      ∀ b (r : Queue Unit W), (give b 1 r).numNotified = 0 → (give b 1 r).numWaiting = 0 := by
    intro b r hr
    obtain ⟨h1, h2⟩ := count_assign b [()] r
    have h1 : (give b 1 r).numNotified = r.numNotified + min 1 r.numWaiting := h1
    have h2 : (give b 1 r).numWaiting = r.numWaiting - 1 := h2
    omega
  cases b with
  | true =>
      rw [drop_of_additional hq h] at hn ⊢
      exact hgive true _ hn
  | false =>
      rw [drop_of_plain hq h] at hn ⊢
      split at hn
      · rename_i h0
        rw [if_pos h0]
        exact hgive false _ hn
      · rename_i h0
        exact (h0 hn).elim

theorem cancel_plain_one (hq : q.ids.Nodup) (hp : p ∈ q.ids) :
    ((q.notify (Notify 1) ()).event.drop p).event =
      ((q.drop p).event.notify (Notify 1) ()).event := by
  rw [notify_plain_one, notify_plain_one]
  obtain ⟨st, hm⟩ := mem_ids.mp hp
  have hq' : (give false 1 q).ids.Nodup := by
    rw [ids_give]
    exact hq
  cases hst : st.isNotified with
  | true =>
      -- Somebody is notified: neither of the notifications has an effect.
      have hpos : ¬ q.numNotified = 0 := fun h0 => by
        have := numNotified_eq_zero.mp h0 _ hm
        rw [hst] at this
        cases this
      cases st with
      | created => cases hst
      | waiting w => cases hst
      | notified t b =>
          rw [if_neg hpos]
          split
          · rename_i h0
            exact (assign_none_waiting false _ (served_of_drop hq hm h0)).symm
          · rfl
  | false =>
      have hsame : (q.erase p).numNotified = q.numNotified :=
        (erase_waiting hq ((stateOf_eq_some hq).mpr hm) hst).1.symm
      rw [drop_of_waiting hq hm hst, hsame]
      split
      · rename_i h0
        rcases erase_give_waiting (b := false) hq hm hst 1 with
          ⟨hmem, herase⟩ | ⟨k', hk, hmem, herase⟩
        · rw [drop_of_waiting hq' hmem hst, herase]
        · obtain rfl : k' = 0 := by omega
          rw [give_zero] at herase
          rw [drop_of_plain hq' hmem, herase, if_pos (hsame.trans h0)]
      · exact drop_of_waiting hq hm hst

end Give

end Queue

/-! ## On events -/

/-- The same listeners in the same order, each in the same state, and the
same cursors and counters. -/
structure Event.Same {T W : Type} (e e' : Event T W) : Prop where
  queue : e.queue = e'.queue
  head : e.heap.head = e'.heap.head
  tail : e.heap.tail = e'.heap.tail
  first : e.heap.first = e'.heap.first
  notified : e.heap.notified = e'.heap.notified
  len : e.heap.len = e'.heap.len

theorem Event.same_of_queue {T W : Type} {e e' : Event T W} (h : e.queue = e'.queue) :
    e.Same e' where
  queue := h
  head := e.repr.head.trans ((congrArg (fun q => (Queue.ids q).head?) h).trans e'.repr.head.symm)
  tail := e.repr.tail.trans ((congrArg (fun q => (Queue.ids q).getLast?) h).trans e'.repr.tail.symm)
  first := e.repr.first.trans ((congrArg Queue.firstWaiting h).trans e'.repr.first.symm)
  notified := e.repr.notified.trans ((congrArg Queue.numNotified h).trans e'.repr.notified.symm)
  len := e.repr.len.trans ((congrArg List.length h).trans e'.repr.len.symm)

/-- Notifying and then dropping a listener leaves the event that dropping
it and then notifying leaves. -/
theorem cancel_transparent {W : Type} (e : Event Unit W) {p : Ptr} (hp : p ∈ e.queue.ids) :
    ((e.notify (Notify 1) ()).event.drop p).event.Same
        ((e.drop p).event.notify (Notify 1) ()).event ∧
      ∀ k, (∀ t, e.queue.stateOf p ≠ some (.notified t false)) →
        ((e.notify (Notify k).additional ()).event.drop p).event.Same
          ((e.drop p).event.notify (Notify k).additional ()).event := by
  refine ⟨Event.same_of_queue ?_, fun k hplain => Event.same_of_queue ?_⟩
  · rw [Event.queue_drop, Event.queue_notify, Event.queue_notify, Event.queue_drop]
    exact Queue.cancel_plain_one e.nodup hp
  · rw [Event.queue_drop, Event.queue_notify, Event.queue_notify, Event.queue_drop]
    exact Queue.cancel_additional e.nodup hp hplain k

/-- The listener 1 is notified and 2 is not. -/
theorem cancel_transparent_pair :
    let e := ((((Event.new : Event Unit Nat).listen 1).listen 2).notify
      (Notify 1).additional ()).event
    ((e.notify (Notify 1).additional ()).event.drop 1).event.Same
      ((e.drop 1).event.notify (Notify 1).additional ()).event := by
  refine (cancel_transparent _ (p := 1) (by decide)).2 1 ?_
  rintro ⟨⟩
  decide

end Unsend

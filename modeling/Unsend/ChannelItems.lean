import Unsend.Channel

/-!
# Where the items of a channel are

What one step does to the items and to the receivers that wait, and two
properties of whole runs:

- `kept_run_iff`: every accepted item is in the queue, held by a notified
  `recv()` future or returned, until a `recv()` future is dropped that
  holds an item while another one is notified or none waits: there the
  event discards the item;
- `receiversServed_run_iff`: no receiver sleeps beside a queued item with
  nobody notified, until the only notified future is polled and leaves an
  item behind that had been queued because that future was notified.
-/

namespace Unsend

namespace Channel

variable {T W : Type}

namespace Sys

def queue (s : Sys T W) : Queue (Option T) W := s.chan.event.queue

theorem nodup (s : Sys T W) : s.queue.ids.Nodup := s.chan.event.nodup

/-- The items in the tags of the notified listeners. -/
def held (s : Sys T W) : List T := s.queue.held

/-- The `recv()` future `f` is pending. -/
def Pending (s : Sys T W) (f : Ptr) : Prop := ∃ r, s.futs f = some (r, .suspended)

/-- The pending future `f` has been notified with this tag. -/
def NotifiedWith (s : Sys T W) (f : Ptr) (tag : Option T) : Prop :=
  ∃ b, s.queue.stateOf f = some (.notified tag b)

/-- While a receiver is alive, every accepted item is in exactly one place:
returned, in the queue, or held by one notified future, which is pending. -/
def Kept (s : Sys T W) : Prop :=
  s.chan.handles.rx ≠ [] →
    s.accepted.Perm (s.returned ++ s.chan.data ++ s.held) ∧
      ∀ f tag, s.NotifiedWith f tag → s.Pending f

/-- With an item queued and no pending future notified, none waits. -/
def ReceiversServed (s : Sys T W) : Prop :=
  s.chan.data ≠ [] → (∀ f, s.Pending f → ∀ tag, ¬ s.NotifiedWith f tag) →
    ∀ f, ¬ s.Pending f

/-- A future that holds an item is dropped only where the item can be
passed on: no other future is notified, and another one waits. -/
def KeepsItems (s : Sys T W) : Label T W → Prop
  | .cancel f => ∀ item, s.NotifiedWith f (some item) →
      s.queue.numNotified = 1 ∧ 0 < s.queue.numWaiting
  | _ => True

/-- The only notified future is not polled while others wait, unless that
leaves the queue empty. -/
def KeepsReceivers (s : Sys T W) : Label T W → Prop
  | .poll f _ => ∀ tag, s.NotifiedWith f tag → s.queue.numNotified = 1 →
      0 < s.queue.numWaiting → (if tag.isSome then s.chan.data else s.chan.data.tail) = []
  | _ => True

/-- What holds in every reachable state. -/
structure Inv (s : Sys T W) : Prop where
  seated : Seated s.futs (fun _ => True) s.queue
  plain : s.queue.Plain
  borrowed : ∀ f r stage, s.futs f = some (r, stage) →
    r ∈ s.chan.handles.rx ∧ f ∈ s.borrowers r

/-! ### The same in numbers -/

/-- The items of `Kept`, without their order. -/
def Balanced (s : Sys T W) : Prop :=
  (s.accepted : Multiset T) = s.returned + s.chan.data + s.held

/-- `ReceiversServed` in numbers. -/
def Served (s : Sys T W) : Prop :=
  s.chan.data ≠ [] → s.queue.numNotified = 0 → s.queue.numWaiting = 0

/-- What the two properties look at. -/
def view (s : Sys T W) : Queue (Option T) W × List T × List T × List T :=
  (s.queue, s.chan.data, s.accepted, s.returned)

theorem balanced_of_view {s : Sys T W} {q : Queue (Option T) W} {data acc ret : List T}
    (h : s.view = (q, data, acc, ret)) :
    s.Balanced ↔ (acc : Multiset T) = ret + data + q.held := by
  cases h
  exact Iff.rfl

theorem served_of_view {s : Sys T W} {q : Queue (Option T) W} {data acc ret : List T}
    (h : s.view = (q, data, acc, ret)) :
    s.Served ↔ (data ≠ [] → q.numNotified = 0 → q.numWaiting = 0) := by
  cases h
  exact Iff.rfl

theorem notifiedWith_pending {s : Sys T W} (hi : s.Inv) {f : Ptr} {tag : Option T}
    (h : s.NotifiedWith f tag) : s.Pending f := by
  obtain ⟨b, hb⟩ := h
  obtain ⟨r, -, hr⟩ := (hi.seated f).mp (Queue.stateOf_mem_ids hb)
  exact ⟨r, hr⟩

theorem kept_iff {s : Sys T W} (hi : s.Inv) :
    s.Kept ↔ (s.chan.handles.rx ≠ [] → s.Balanced) := by
  unfold Kept Balanced
  rw [Multiset.coe_add, Multiset.coe_add, Multiset.coe_eq_coe]
  refine imp_congr_right fun _ => and_iff_left ?_
  intro f tag h
  exact notifiedWith_pending hi h

theorem receiversServed_iff {s : Sys T W} (hi : s.Inv) : s.ReceiversServed ↔ s.Served := by
  have hlen := s.queue.length_eq_add
  have hnn : (∀ f, s.Pending f → ∀ tag, ¬ s.NotifiedWith f tag) ↔
      s.queue.numNotified = 0 := by
    rw [← hi.seated.none_notified s.nodup]
    constructor
    · intro h f r _ hs tag b hst
      exact h f ⟨r, hs⟩ tag ⟨b, hst⟩
    · rintro h f ⟨r, hs⟩ tag ⟨b, hst⟩
      exact h f r trivial hs tag b hst
  have hw : (∀ f, ¬ s.Pending f) ↔ s.queue.length = 0 := by
    have hsome := hi.seated.some_suspended
    constructor
    · intro h
      by_contra hne
      obtain ⟨f, r, -, hr⟩ := hsome.mpr (Nat.pos_of_ne_zero hne)
      exact h f ⟨r, hr⟩
    · rintro h f ⟨r, hr⟩
      have := hsome.mp ⟨f, r, trivial, hr⟩
      omega
  unfold ReceiversServed Served
  rw [hnn, hw]
  constructor
  · intro h hd hn
    have := h hd hn
    omega
  · intro h hd hn
    have := h hd hn
    omega

end Sys

/-! ## What one step does -/

section Steps

variable [Target] {s s' : Sys T W} {item : T} {f r : Ptr} {stage : Stage} {w : W}

omit [Target] in
theorem send_closed {c : Channel T W} (hc : c.closed = true) (item : T) :
    c.send item = (c, .error {}, []) := by
  rw [send, if_pos hc]

omit [Target] in
theorem send_handed {c : Channel T W} (hc : c.closed = false)
    (hn : (c.event.notify handOver (some item)).producer = none) :
    c.send item = ({ c with event := (c.event.notify handOver (some item)).event }, .ok (),
      (c.event.notify handOver (some item)).woken) := by
  simp only [send, hc, hn, Bool.false_eq_true, if_false]

omit [Target] in
theorem send_queued {c : Channel T W} (hc : c.closed = false)
    (hn : (c.event.notify handOver (some item)).producer = some item) :
    c.send item = (⟨c.data ++ [item], false, c.handles,
      (c.event.notify handOver (some item)).event⟩, .ok (),
      (c.event.notify handOver (some item)).woken) := by
  simp only [send, hc, hn, Bool.false_eq_true, if_false]

omit [Target] in
/-- A send is refused, hands its item over, or queues it. -/
theorem send_view (s : Sys T W) (item : T) :
    let q := (s.queue.notify handOver (some item)).event
    (s.send item).futs = s.futs ∧ (s.send item).borrowers = s.borrowers ∧
    (s.send item).chan.handles = s.chan.handles ∧
    ((s.send item).view = s.view ∨
      (s.queue.numNotified = 0 ∧ q.numNotified = 1 ∧
        (q.held : Multiset T) = item ::ₘ s.held ∧
        (s.send item).view = (q, s.chan.data, s.accepted ++ [item], s.returned)) ∨
      ((s.queue.numNotified = 0 → s.queue.numWaiting = 0) ∧
        (s.send item).view =
          (s.queue, s.chan.data ++ [item], s.accepted ++ [item], s.returned))) := by
  have hq := s.chan.event.queue_notify handOver (some item)
  have hp := s.chan.event.notify_producer handOver (some item)
  intro q
  cases hc : s.chan.closed with
  | true =>
      rw [Sys.send, send_closed hc]
      exact ⟨rfl, rfl, rfl, .inl rfl⟩
  | false =>
      rcases s.queue.handOver_cases item with ⟨h1, -, h3, h4, h5⟩ | ⟨h1, h2⟩
      · rw [Sys.send, send_handed hc (hp.trans h5)]
        refine ⟨rfl, rfl, rfl, .inr (.inl ⟨h1, h3, h4, ?_⟩)⟩
        exact Prod.ext hq rfl
      · have hsome := hp.trans (congrArg NotifyOut.producer h2)
        rw [Sys.send, send_queued hc hsome]
        refine ⟨rfl, rfl, rfl, .inr (.inr ⟨h1, ?_⟩)⟩
        exact Prod.ext (hq.trans (congrArg NotifyOut.event h2)) rfl

omit [Target] in
theorem send_inv (hi : s.Inv) (item : T) : (s.send item).Inv := by
  obtain ⟨hf, hbo, hh, hv⟩ := send_view s item
  have hq : (s.send item).queue.ids = s.queue.ids ∧ (s.send item).queue.Plain := by
    rcases hv with hv | ⟨-, -, -, hv⟩ | ⟨-, hv⟩
    · rw [show (s.send item).queue = _ from congrArg Prod.fst hv]
      exact ⟨rfl, hi.plain⟩
    · rw [show (s.send item).queue = _ from congrArg Prod.fst hv]
      exact ⟨s.queue.ids_notify .., hi.plain.notify rfl _⟩
    · rw [show (s.send item).queue = _ from congrArg Prod.fst hv]
      exact ⟨rfl, hi.plain⟩
  refine ⟨?_, hq.2, ?_⟩
  · rw [hf]
    exact hi.seated.congr hq.1
  · rw [hf, hbo, hh]
    exact hi.borrowed

omit [Target] in
/-- A send loses nothing, and it queues an item only where somebody is
notified or nobody waits. -/
theorem send_facts (item : T) :
    (s.Balanced ↔ (s.send item).Balanced) ∧ (s.Served → (s.send item).Served) := by
  obtain ⟨-, -, -, hv | ⟨h1, h3, h4, hv⟩ | ⟨h1, hv⟩⟩ := send_view s item
  · rw [Sys.balanced_of_view hv, Sys.served_of_view hv]
    exact ⟨Iff.rfl, id⟩
  · rw [Sys.balanced_of_view hv, Sys.served_of_view hv, h4]
    refine ⟨?_, fun _ _ h0 => by omega⟩
    rw [← Multiset.coe_add, Multiset.coe_singleton, ← Multiset.singleton_add,
      add_comm ({item} : Multiset T), ← add_assoc, add_left_inj]
    exact Iff.rfl
  · rw [Sys.balanced_of_view hv, Sys.served_of_view hv]
    refine ⟨?_, fun _ _ => h1⟩
    rw [← Multiset.coe_add, ← Multiset.coe_add, Multiset.coe_singleton, ← add_assoc,
      add_right_comm, add_left_inj]
    exact Iff.rfl

/-! ### Polling a future -/

omit [Target] in
/-- The loop of `recv` from its top takes the first item, if there is one. -/
theorem enter_facts (f : Ptr) (w : W) (q : Queue (Option T) W) (b : Buffer T) :
    let out := recv.enter f w q b
    out.1.numNotified = q.numNotified ∧ out.1.tags = q.tags ∧ out.2.1.data = b.data.tail ∧
      Channel.returned out.2.2.1 ++ out.2.1.data = b.data ∧
      (out.2.1.data ≠ [] → out.1.numWaiting = q.numWaiting) := by
  obtain ⟨data, closed⟩ := b
  unfold WaitLoop.enter
  cases data with
  | cons item data => exact ⟨rfl, rfl, rfl, rfl, fun _ => rfl⟩
  | nil =>
      cases closed with
      | true => exact ⟨rfl, rfl, rfl, rfl, fun _ => rfl⟩
      | false =>
          refine ⟨?_, ?_, rfl, rfl, fun h => (h rfl).elim⟩
          · show Queue.numNotified (q ++ [(f, .waiting w)]) = _
            simp
          · show Queue.tags (q ++ [(f, .waiting w)]) = _
            simp

/-- What a poll does to the items and to the listeners. -/
structure PollFacts (s s' : Sys T W) (f : Ptr) : Prop where
  accepted : s'.accepted = s.accepted
  kept : (s'.returned + s'.chan.data + s'.held : Multiset T) = s.returned + s.chan.data + s.held
  listeners :
    ((∀ tag, ¬ s.NotifiedWith f tag) ∧ s'.queue.numNotified = s.queue.numNotified ∧
      (s'.chan.data ≠ [] → s.chan.data ≠ [] ∧ s'.queue.numWaiting = s.queue.numWaiting)) ∨
    ∃ tag, s.NotifiedWith f tag ∧ s.queue.numNotified = s'.queue.numNotified + 1 ∧
      s'.chan.data = (if tag.isSome then s.chan.data else s.chan.data.tail) ∧
      (s'.chan.data ≠ [] → s'.queue.numWaiting = s.queue.numWaiting)

variable [WillWake W]

omit [Target] in
/-- One poll, as queue, buffer and result see it. -/
theorem view_poll (hi : s.Inv) (hf : s.futs f = some (r, stage)) (hst : stage ≠ .returned) :
    let out := (recv.poll f w stage s.chan.event ⟨s.chan.data, s.chan.closed⟩).view
    (Channel.returned out.2.2.1 + out.2.1.data + out.1.held : Multiset T) =
        s.chan.data + s.held ∧
    (((∀ tag, ¬ s.NotifiedWith f tag) ∧ out.1.numNotified = s.queue.numNotified ∧
        (out.2.1.data ≠ [] → s.chan.data ≠ [] ∧ out.1.numWaiting = s.queue.numWaiting)) ∨
      ∃ tag, s.NotifiedWith f tag ∧ s.queue.numNotified = out.1.numNotified + 1 ∧
        out.2.1.data = (if tag.isSome then s.chan.data else s.chan.data.tail) ∧
        (out.2.1.data ≠ [] → out.1.numWaiting = s.queue.numWaiting)) := by
  have hs := hi.seated.canPoll trivial hf hst
  rcases WaitLoop.poll_cases (b := recv) (w := w) (s := ⟨s.chan.data, s.chan.closed⟩) hs with
    ⟨hp, hv⟩ | ⟨st, w', hp, hst, -, hv⟩ | ⟨tag, c, hp, hv⟩
  · obtain ⟨h1, h2, h3, h4, h5⟩ :=
      enter_facts f w s.chan.event.queue ⟨s.chan.data, s.chan.closed⟩
    rw [hv]
    refine ⟨?_, .inl ⟨?_, h1, fun h => ⟨?_, h5 h⟩⟩⟩
    · rw [Multiset.coe_add, h4, Queue.held_of_tags_eq h2]
      rfl
    · rintro tag ⟨c, hc⟩
      exact hp (Queue.stateOf_mem_ids hc)
    · intro h0
      rw [h3, h0] at h
      exact h rfl
  · obtain ⟨-, h2, h3, h4⟩ :=
      Queue.setState_waiting s.chan.event.nodup hp hst (isNotified_waiting w')
    rw [hv]
    refine ⟨?_, .inl ⟨?_, h2, fun h => ⟨h, h3⟩⟩⟩
    · rw [Queue.held_of_tags_eq h4]
      show (0 : Multiset T) + s.chan.data + s.held = _
      rw [zero_add]
    · rintro tag ⟨c, hc⟩
      cases hp.symm.trans hc
      cases hst
  · obtain ⟨h1, h2, h3⟩ := Queue.erase_notified s.nodup hp
    have hheld : (s.held : Multiset T) = _ := Queue.held_of_perm h3
    rw [hv]
    cases tag with
    | some item =>
        refine ⟨?_, .inr ⟨some item, ⟨c, hp⟩, h1, rfl, fun _ => h2.symm⟩⟩
        rw [hheld, ← add_assoc, add_comm (s.chan.data : Multiset T)]
        rfl
    | none =>
        obtain ⟨h4, h5, h6, h7, h8⟩ :=
          enter_facts f w (s.chan.event.queue.erase f) ⟨s.chan.data, s.chan.closed⟩
        refine ⟨?_, .inr ⟨none, ⟨c, hp⟩, ?_, h6, fun h => (h8 h).trans h2.symm⟩⟩
        · show (_ + _ + ((recv.enter f w (s.chan.event.queue.erase f) _).1.held) :
            Multiset T) = _
          rw [show recv.accept (none : Option T) = none from rfl, Multiset.coe_add, h7,
            Queue.held_of_tags_eq h5, hheld]
          exact congrArg _ (zero_add _).symm
        · rw [h1]
          exact congrArg (· + 1) h4.symm

omit [Target] in
theorem poll_facts (hi : s.Inv) (hf : s.futs f = some (r, stage)) (hst : stage ≠ .returned) :
    (s.pollFuture f r stage w).Inv ∧ PollFacts s (s.pollFuture f r stage w) f := by
  have hs := hi.seated.canPoll trivial hf hst
  have hfuts : (s.pollFuture f r stage w).futs = Function.update s.futs f _ := rfl
  refine ⟨⟨hi.seated.poll trivial (WaitLoop.mem_ids_poll hs),
    hi.plain.polled (WaitLoop.polled hs), fun f' r' stage' hf' => ?_⟩, ?_⟩
  · by_cases he : f' = f
    · subst he
      rw [hfuts, Function.update_self] at hf'
      obtain rfl : r = r' := congrArg Prod.fst (Option.some.inj hf')
      exact hi.borrowed f' r stage hf
    · rw [hfuts, Function.update_of_ne he] at hf'
      exact hi.borrowed f' r' stage' hf'
  · obtain ⟨hkept, hlisteners⟩ := view_poll (w := w) hi hf hst
    refine ⟨rfl, ?_, hlisteners⟩
    show ((s.returned ++ _ : List T) + _ + _ : Multiset T) = _
    rw [← Multiset.coe_add, Multiset.add_assoc, Multiset.add_assoc, Multiset.add_assoc,
      ← hkept, Multiset.add_assoc]
    rfl

/-! ### Steps, label by label -/

theorem next_send {item : T} (h : s.next (.send item) = some s') :
    0 < s.chan.handles.tx ∧ s' = s.send item := by
  rw [Sys.next] at h
  split at h
  · rename_i hpos
    exact ⟨hpos, (Option.some.inj h).symm⟩
  · cases h

theorem next_cloneSender (h : s.next .cloneSender = some s') :
    0 < s.chan.handles.tx ∧
      s' = { s with chan := { s.chan with handles := s.chan.handles.cloneSender } } := by
  rw [Sys.next] at h
  split at h
  · rename_i hpos
    exact ⟨hpos, (Option.some.inj h).symm⟩
  · cases h

theorem next_dropSender (h : s.next .dropSender = some s') :
    ∃ hpos : 0 < s.chan.handles.tx, s' = { s with
      chan := (s.chan.dropSender hpos).1
      woken := s.woken ++ (s.chan.dropSender hpos).2 } := by
  rw [Sys.next] at h
  split at h
  · rename_i hpos
    exact ⟨hpos, (Option.some.inj h).symm⟩
  · cases h

theorem next_cloneReceiver {r' : Ptr} (h : s.next (.cloneReceiver r r') = some s') :
    (r ∈ s.chan.handles.rx ∧ r' ∉ s.chan.handles.rx) ∧
      s' = { s with chan := { s.chan with handles := s.chan.handles.cloneReceiver r' } } := by
  rw [Sys.next] at h
  split at h
  · rename_i hr
    exact ⟨hr, (Option.some.inj h).symm⟩
  · cases h

theorem next_dropReceiver (h : s.next (.dropReceiver r) = some s') :
    ∃ hr : r ∈ s.chan.handles.rx, s.borrowers r = [] ∧ s' = { s with
      chan := (s.chan.dropReceiver r hr).1
      woken := s.woken ++ (s.chan.dropReceiver r hr).2 } := by
  rw [Sys.next] at h
  split at h
  · rename_i hr
    split at h
    · rename_i hb
      exact ⟨hr, hb, (Option.some.inj h).symm⟩
    · cases h
  · cases h

theorem next_tryRecv (h : s.next (.tryRecv r) = some s') :
    r ∈ s.chan.handles.rx ∧ s' = { s with
      chan := s.chan.tryRecv.1
      returned := s.returned ++ Channel.returned (.ready s.chan.tryRecv.2) } := by
  rw [Sys.next] at h
  split at h
  · rename_i hr
    exact ⟨hr, (Option.some.inj h).symm⟩
  · cases h

theorem next_call (h : s.next (.call r f) = some s') :
    s.futs f = none ∧ (r ∈ s.chan.handles.rx ∧ IsAddress f) ∧ s' = { s with
      futs := Function.update s.futs f (some (r, .unresumed))
      borrowers := Function.update s.borrowers r (f :: s.borrowers r) } := by
  rw [Sys.next] at h
  split at h
  · cases h
  · rename_i hf
    split at h
    · rename_i hr
      exact ⟨hf, hr, (Option.some.inj h).symm⟩
    · cases h

theorem next_poll (h : s.next (.poll f w) = some s') :
    ∃ r stage, s.futs f = some (r, stage) ∧ stage ≠ .returned ∧
      s' = s.pollFuture f r stage w := by
  rw [Sys.next] at h
  split at h
  · rename_i r hf
    exact ⟨r, _, hf, by simp, (Option.some.inj h).symm⟩
  · rename_i r hf
    exact ⟨r, _, hf, by simp, (Option.some.inj h).symm⟩
  · cases h

theorem next_cancel (h : s.next (.cancel f) = some s') :
    ∃ r stage, s.futs f = some (r, stage) ∧
      ((stage = .suspended ∧ s' = { s with
          chan := { s.chan with event := (s.chan.event.drop f).event }
          woken := s.woken ++ (s.chan.event.drop f).woken }.forget f r) ∨
        (stage ≠ .suspended ∧ s' = s.forget f r)) := by
  rw [Sys.next] at h
  split at h
  · cases h
  · rename_i r hf
    exact ⟨r, _, hf, .inl ⟨rfl, (Option.some.inj h).symm⟩⟩
  · rename_i r stage hnot hf
    refine ⟨r, stage, hf, .inr ⟨fun hst => ?_, (Option.some.inj h).symm⟩⟩
    exact hnot hst

/-! ### Dropping a future -/

theorem cancel_facts (hi : s.Inv) (h : s.next (.cancel f) = some s') :
    s'.Inv ∧ s.chan.handles.rx ≠ [] ∧ s'.chan.handles = s.chan.handles ∧
      s'.view = ((s.queue.drop f).event, s.chan.data, s.accepted, s.returned) := by
  have hforget : ∀ {r stage}, s.futs f = some (r, stage) → ∀ f' r' stage',
      Function.update s.futs f none f' = some (r', stage') → r' ∈ s.chan.handles.rx ∧
        f' ∈ Function.update s.borrowers r ((s.borrowers r).filter (· ≠ f)) r' := by
    intro r stage hf f' r' stage' hf'
    by_cases he : f' = f
    · rw [he, Function.update_self] at hf'
      cases hf'
    · rw [Function.update_of_ne he] at hf'
      obtain ⟨h1, h2⟩ := hi.borrowed f' r' stage' hf'
      refine ⟨h1, ?_⟩
      by_cases hr : r' = r
      · subst hr
        rw [Function.update_self]
        exact List.mem_filter.mpr ⟨h2, by simpa using he⟩
      · rw [Function.update_of_ne hr]
        exact h2
  have hrx : ∀ {r stage}, s.futs f = some (r, stage) → s.chan.handles.rx ≠ [] :=
    fun hf => List.ne_nil_of_mem (hi.borrowed f _ _ hf).1
  obtain ⟨r, stage, hf, ⟨rfl, rfl⟩ | ⟨hst, rfl⟩⟩ := next_cancel h
  · have hq := s.chan.event.queue_drop f
    refine ⟨⟨?_, ?_, hforget hf⟩, hrx hf, rfl, Prod.ext hq rfl⟩
    · show Seated _ _ (s.chan.event.drop f).event.queue
      rw [hq]
      exact hi.seated.drop f
    · show (s.chan.event.drop f).event.queue.Plain
      rw [hq]
      exact hi.plain.drop s.nodup f
  · have hout : ∀ k, s.futs f ≠ some (k, .suspended) := fun k hk =>
      hst (congrArg Prod.snd (Option.some.inj (hf.symm.trans hk)))
    have habs : f ∉ s.queue.ids := hi.seated.absent fun k _ => hout k
    refine ⟨⟨hi.seated.elsewhere (fun k _ => hout k) fun k _ => by simp, hi.plain,
      hforget hf⟩, hrx hf, rfl, ?_⟩
    rw [Queue.drop_absent habs]
    rfl

/-- Dropping a future keeps the items exactly if `KeepsItems` says so, and
never strands a receiver. -/
theorem cancel_iff (hi : s.Inv) (h : s.next (.cancel f) = some s') :
    (s.Balanced → (s'.Balanced ↔ s.KeepsItems (.cancel f))) ∧ (s.Served → s'.Served) := by
  obtain ⟨-, -, -, hv⟩ := cancel_facts hi h
  rw [Sys.balanced_of_view hv, Sys.served_of_view hv]
  refine ⟨fun hb => ?_, fun hs hd h0 => ?_⟩
  · obtain ⟨hheld, hlost⟩ := Queue.drop_handed s.nodup hi.plain f
    have hkeeps : s.KeepsItems (.cancel f) ↔ (s.queue.drop f).discarded.join = none := by
      rw [hlost]
      exact ⟨fun h item b hn => h item ⟨b, hn⟩, fun h item ⟨b, hn⟩ => h item b hn⟩
    have hb' : (s.accepted : Multiset T) = s.returned + s.chan.data + s.queue.held := hb
    rw [hkeeps, hb', Multiset.add_right_inj, hheld]
    cases (s.queue.drop f).discarded.join with
    | none => exact iff_of_true (add_zero _) rfl
    | some item => exact iff_of_false (by simp) (by simp)
  · rcases Queue.drop_cases s.nodup hi.plain f with
      ⟨-, h2, h3, -, -⟩ | ⟨tag, -, ⟨h2, -, h4, -, -, -⟩ | ⟨h2, h3, h4, -, -⟩⟩
    · have := hs hd (h2.symm.trans h0)
      omega
    · omega
    · omega

/-! ### Closing -/

/-- Closing hands out nothing but `None`. -/
theorem produce_closing : ∀ k : Nat,
    ((closing : Notification Unit (Option T)).produce k ()).1 = List.replicate k none
  | 0 => rfl
  | k + 1 => by
      rw [List.replicate_succ, ← produce_closing k]
      rfl

omit [WillWake W] in
theorem held_closing (q : Queue (Option T) W) :
    ((q.notify closing ()).event.held : Multiset T) = q.held := by
  refine (Queue.reduceOption_perm (q.tags_notify closing ())).trans ?_
  rw [List.reduceOption_append, produce_closing, List.reduceOption_replicate_none,
    List.nil_append]
  rfl

/-- A step that touches the handles only, or also closes the channel. -/
def Closes (s s' : Sys T W) : Prop :=
  s'.futs = s.futs ∧ s'.borrowers = s.borrowers ∧ (s'.view = s.view ∨
    s'.view = ((s.queue.notify closing ()).event, s.chan.data, s.accepted, s.returned))

omit [WillWake W] in
theorem closes_facts (hi : s.Inv) (hc : Closes s s')
    (hrx : ∀ f r stage, s.futs f = some (r, stage) → r ∈ s'.chan.handles.rx) :
    s'.Inv ∧ (s.Balanced ↔ s'.Balanced) ∧ (s.Served → s'.Served) := by
  obtain ⟨hf, hbo, hv⟩ := hc
  have hq : s'.queue.ids = s.queue.ids ∧ s'.queue.Plain := by
    rcases hv with hv | hv
    · rw [show s'.queue = s.queue from congrArg Prod.fst hv]
      exact ⟨rfl, hi.plain⟩
    · rw [show s'.queue = _ from congrArg Prod.fst hv]
      exact ⟨s.queue.ids_notify .., hi.plain.notify rfl _⟩
  refine ⟨⟨?_, hq.2, fun f r stage h => ?_⟩, ?_⟩
  · rw [hf]
    exact hi.seated.congr hq.1
  · rw [hf] at h
    rw [hbo]
    exact ⟨hrx f r stage h, (hi.borrowed f r stage h).2⟩
  · rcases hv with hv | hv
    · rw [Sys.balanced_of_view hv, Sys.served_of_view hv]
      exact ⟨Iff.rfl, id⟩
    · rw [Sys.balanced_of_view hv, Sys.served_of_view hv]
      constructor
      · rw [held_closing]
        exact Iff.rfl
      · intro _ _ h0
        have hmax : 0 < usizeMax := Nat.lt_of_le_of_lt (Nat.zero_le _) isizeMax_lt_usizeMax
        rw [Queue.numNotified_notify] at h0
        rw [Queue.numWaiting_notify]
        have hreach : s.queue.reach false usizeMax =
            min (usizeMax - s.queue.numNotified) s.queue.numWaiting := rfl
        change _ + s.queue.reach false usizeMax = 0 at h0
        change _ - s.queue.reach false usizeMax = 0
        omega

omit [WillWake W] in
theorem closes_close (s : Sys T W) (handles : Handles) :
    Closes s { s with
      chan := (Channel.close { s.chan with handles }).1
      woken := s.woken ++ (Channel.close { s.chan with handles }).2 } :=
  ⟨rfl, rfl, .inr (Prod.ext (s.chan.event.queue_notify closing ()) rfl)⟩

omit [WillWake W] in
theorem dropSender_closes (s : Sys T W) (h : 0 < s.chan.handles.tx) :
    Closes s { s with
      chan := (s.chan.dropSender h).1
      woken := s.woken ++ (s.chan.dropSender h).2 } ∧
    (s.chan.dropSender h).1.handles.rx = s.chan.handles.rx := by
  simp only [dropSender]
  split
  · exact ⟨closes_close s _, rfl⟩
  · exact ⟨⟨rfl, rfl, .inl rfl⟩, rfl⟩

omit [WillWake W] in
theorem dropReceiver_closes (s : Sys T W) (h : r ∈ s.chan.handles.rx) :
    Closes s { s with
      chan := (s.chan.dropReceiver r h).1
      woken := s.woken ++ (s.chan.dropReceiver r h).2 } ∧
    (s.chan.dropReceiver r h).1.handles.rx = s.chan.handles.rx.erase r := by
  simp only [dropReceiver]
  split
  · exact ⟨closes_close s _, rfl⟩
  · exact ⟨⟨rfl, rfl, .inl rfl⟩, rfl⟩

/-! ### All steps -/

omit [Target] [WillWake W] in
/-- `try_recv` returns the first item, if there is one. -/
theorem tryRecv_view (s : Sys T W) :
    ({ s with
      chan := s.chan.tryRecv.1
      returned := s.returned ++ Channel.returned (.ready s.chan.tryRecv.2) } : Sys T W).view =
      (s.queue, s.chan.data.tail, s.accepted, s.returned ++ s.chan.data.head?.toList) := by
  unfold tryRecv
  cases hd : s.chan.data with
  | nil =>
      refine Prod.ext rfl (Prod.ext hd (Prod.ext rfl ?_))
      rfl
  | cons item data => rfl

/-- Neither a poll nor a dropped future: the items stay balanced, and
nobody is stranded. -/
theorem next_facts {l : Label T W} (hi : s.Inv) (h : s.next l = some s')
    (hpoll : ∀ f w, l ≠ .poll f w) (hcancel : ∀ f, l ≠ .cancel f) :
    s'.Inv ∧ (s'.chan.handles.rx ≠ [] → s.chan.handles.rx ≠ []) ∧
      (s.Balanced ↔ s'.Balanced) ∧ (s.Served → s'.Served) := by
  cases l with
  | send item =>
      obtain ⟨-, rfl⟩ := next_send h
      refine ⟨send_inv hi item, ?_, send_facts item⟩
      rw [(send_view s item).2.2.1]
      exact id
  | cloneSender =>
      obtain ⟨-, rfl⟩ := next_cloneSender h
      exact ⟨⟨hi.seated, hi.plain, hi.borrowed⟩, id, Iff.rfl, id⟩
  | dropSender =>
      obtain ⟨hpos, rfl⟩ := next_dropSender h
      obtain ⟨hc, hrx⟩ := dropSender_closes s hpos
      obtain ⟨h1, h2⟩ := closes_facts hi hc fun f r stage hf => by
        rw [hrx]
        exact (hi.borrowed f r stage hf).1
      exact ⟨h1, fun h => hrx ▸ h, h2⟩
  | cloneReceiver r r' =>
      obtain ⟨hr, rfl⟩ := next_cloneReceiver h
      refine ⟨⟨hi.seated, hi.plain, fun f r stage hf => ?_⟩,
        fun _ => List.ne_nil_of_mem hr.1, Iff.rfl, id⟩
      obtain ⟨h1, h2⟩ := hi.borrowed f r stage hf
      exact ⟨List.mem_cons_of_mem _ h1, h2⟩
  | dropReceiver r =>
      obtain ⟨hr, hb, rfl⟩ := next_dropReceiver h
      obtain ⟨hc, hrx⟩ := dropReceiver_closes s hr
      obtain ⟨h1, h2⟩ := closes_facts hi hc fun f r' stage hf => by
        obtain ⟨h1, h2⟩ := hi.borrowed f r' stage hf
        rw [hrx]
        refine (List.mem_erase_of_ne fun he => ?_).mpr h1
        rw [he, hb] at h2
        cases h2
      exact ⟨h1, fun _ => List.ne_nil_of_mem hr, h2⟩
  | tryRecv r =>
      obtain ⟨-, rfl⟩ := next_tryRecv h
      have hv := tryRecv_view s
      have hhandles : s.chan.tryRecv.1.handles = s.chan.handles := by
        unfold tryRecv
        split
        · rfl
        · rfl
      refine ⟨⟨?_, ?_, ?_⟩, fun h => hhandles ▸ h, ?_⟩
      · rw [show Sys.queue _ = s.queue from congrArg Prod.fst hv]
        exact hi.seated
      · rw [show Sys.queue _ = s.queue from congrArg Prod.fst hv]
        exact hi.plain
      · show ∀ f r stage, _ → r ∈ s.chan.tryRecv.1.handles.rx ∧ _
        rw [hhandles]
        exact hi.borrowed
      · rw [Sys.balanced_of_view hv, Sys.served_of_view hv]
        have hdata : s.chan.data.head?.toList ++ s.chan.data.tail = s.chan.data := by
          cases s.chan.data with
          | nil => rfl
          | cons item data => rfl
        refine ⟨?_, fun hs ht => hs fun h0 => ht (by rw [h0]; rfl)⟩
        rw [← Multiset.coe_add, add_assoc (s.returned : Multiset T), Multiset.coe_add, hdata]
        exact Iff.rfl
  | call r f =>
      obtain ⟨hf, hr, rfl⟩ := next_call h
      refine ⟨⟨hi.seated.elsewhere (fun k _ => by rw [hf]; simp) (fun k _ => by simp),
        hi.plain, fun f' r' stage hf' => ?_⟩, id, Iff.rfl, id⟩
      show r' ∈ s.chan.handles.rx ∧ f' ∈ Function.update s.borrowers r (f :: s.borrowers r) r'
      change Function.update s.futs f (some (r, .unresumed)) f' = some (r', stage) at hf'
      by_cases he : f' = f
      · rw [he, Function.update_self] at hf'
        obtain rfl : r = r' := congrArg Prod.fst (Option.some.inj hf')
        rw [Function.update_self, he]
        exact ⟨hr.1, List.mem_cons_self ..⟩
      · rw [Function.update_of_ne he] at hf'
        obtain ⟨h1, h2⟩ := hi.borrowed f' r' stage hf'
        refine ⟨h1, ?_⟩
        by_cases hr' : r' = r
        · rw [hr', Function.update_self]
          exact List.mem_cons_of_mem _ (hr' ▸ h2)
        · rw [Function.update_of_ne hr']
          exact h2
  | poll f w => exact (hpoll f w rfl).elim
  | cancel f => exact (hcancel f rfl).elim

theorem inv_next {l : Label T W} (hi : s.Inv) (h : s.next l = some s') : s'.Inv := by
  cases l with
  | poll f w =>
      obtain ⟨r, stage, hf, hst, rfl⟩ := next_poll h
      exact (poll_facts hi hf hst).1
  | cancel f => exact (cancel_facts hi h).1
  | _ => exact (next_facts hi h (by simp) (by simp)).1

theorem inv_reachable {r : Ptr} (h : (system r).Reachable s) : s.Inv := by
  refine h.invariant (I := Sys.Inv) ?_ fun s l s' hi hs => inv_next hi hs
  rintro s rfl
  have hq : (Sys.init r : Sys T W).queue = [] := Event.queue_new
  exact ⟨hq ▸ seated_nil, hq ▸ Queue.plain_nil, fun _ _ _ h => by cases h⟩

/-- From a state that keeps its items, a step loses one exactly if it is
not one that `KeepsItems` allows. -/
theorem balanced_next_iff {l : Label T W} (hi : s.Inv)
    (hb : s.chan.handles.rx ≠ [] → s.Balanced) (h : s.next l = some s') :
    (s'.chan.handles.rx ≠ [] → s'.Balanced) ↔ s.KeepsItems l := by
  cases l with
  | poll f w =>
      obtain ⟨r, stage, hf, hst, rfl⟩ := next_poll h
      obtain ⟨-, hacc, hkept, -⟩ := poll_facts (w := w) hi hf hst
      refine iff_of_true (fun hrx => ?_) trivial
      unfold Sys.Balanced at hb ⊢
      rw [hacc, hkept]
      exact hb hrx
  | cancel f =>
      obtain ⟨-, hrx, hh, -⟩ := cancel_facts hi h
      rw [hh, ← (cancel_iff hi h).1 (hb hrx)]
      exact ⟨fun h => h hrx, fun h _ => h⟩
  | _ =>
      obtain ⟨-, hrx, hbal, -⟩ := next_facts hi h (by simp) (by simp)
      exact iff_of_true (fun hne => hbal.mp (hb (hrx hne))) trivial

/-- From a state in which no receiver is stranded, a step strands one
exactly if it is not one that `KeepsReceivers` allows. -/
theorem served_next_iff {l : Label T W} (hi : s.Inv) (hs : s.Served)
    (h : s.next l = some s') : s'.Served ↔ s.KeepsReceivers l := by
  cases l with
  | poll f w =>
      obtain ⟨r, stage, hf, hst, rfl⟩ := next_poll h
      obtain ⟨-, -, -, hlisteners⟩ := poll_facts (w := w) hi hf hst
      rcases hlisteners with ⟨h1, h2, h3⟩ | ⟨tag, h1, h2, h3, h4⟩
      · refine iff_of_true (fun hd h0 => ?_) fun tag ht => (h1 tag ht).elim
        obtain ⟨hd', hw⟩ := h3 hd
        rw [hw]
        exact hs hd' (h2 ▸ h0)
      · constructor
        · intro hs' tag' ht' hone hpos
          obtain ⟨b, hb⟩ := h1
          obtain ⟨b', hb'⟩ := ht'
          cases hb.symm.trans hb'
          rw [← h3]
          by_contra hne
          have := hs' hne (by omega)
          have := h4 hne
          omega
        · intro hk hd h0
          by_contra hpos
          have := h4 hd
          exact hd (h3.trans (hk tag h1 (by omega) (by omega)))
  | cancel f => exact iff_of_true ((cancel_iff hi h).2 hs) trivial
  | _ => exact iff_of_true ((next_facts hi h (by simp) (by simp)).2.2.2 hs) trivial

end Steps

/-! ## Runs -/

/-- In a run of a channel every accepted item stays in exactly one place,
as long as a receiver is alive, exactly if every step is one that
`KeepsItems` allows. -/
theorem kept_run_iff [Target] [WillWake W] (r : Ptr) {tr : List (Sys T W × Label T W)}
    {s : Sys T W} (h : (system r).Run tr s) :
    ((∀ x ∈ tr, x.1.Kept) ∧ s.Kept) ↔ ∀ x ∈ tr, x.1.KeepsItems x.2 := by
  refine h.always_iff ?_ ?_
  · rintro s rfl
    have hi : (Sys.init r : Sys T W).Inv := inv_reachable (.start rfl)
    have hq : (Sys.init r : Sys T W).queue = [] := Event.queue_new
    refine (Sys.kept_iff hi).mpr fun _ => ?_
    rw [Sys.Balanced, Sys.held, hq]
    rfl
  · intro s l s' hr hk hstep
    have hi := inv_reachable hr
    rw [Sys.kept_iff (inv_next hi hstep)]
    exact balanced_next_iff hi ((Sys.kept_iff hi).mp hk) hstep

/-- In a run of a channel no receiver is ever stranded exactly if every
step is one that `KeepsReceivers` allows. -/
theorem receiversServed_run_iff [Target] [WillWake W] (r : Ptr)
    {tr : List (Sys T W × Label T W)} {s : Sys T W} (h : (system r).Run tr s) :
    ((∀ x ∈ tr, x.1.ReceiversServed) ∧ s.ReceiversServed) ↔
      ∀ x ∈ tr, x.1.KeepsReceivers x.2 := by
  refine h.always_iff ?_ ?_
  · rintro s rfl hd
    exact (hd rfl).elim
  · intro s l s' hr hs hstep
    have hi := inv_reachable hr
    rw [Sys.receiversServed_iff (inv_next hi hstep)]
    exact served_next_iff hi ((Sys.receiversServed_iff hi).mp hs) hstep

/-! ## Two runs that go wrong -/

/-- The only future is handed an item and dropped. -/
def handedThenDropped : List (Label Nat Nat) :=
  [.call 0 1, .poll 1 10, .send 5, .cancel 1]

theorem exec_handedThenDropped :
    letI := Target.bits64
    (exec Sys.next (.init 0) handedThenDropped).map
      (fun s => (s.chan.handles.rx, s.accepted, s.returned ++ s.chan.data ++ s.held)) =
        some ([0], [5], []) := by
  decide

theorem kept_handedThenDropped :
    letI := Target.bits64
    ∃ s : Sys Nat Nat,
      (((∀ x ∈ execTrace Sys.next (.init 0) handedThenDropped, x.1.Kept) ∧ s.Kept) ↔
        ∀ x ∈ execTrace Sys.next (.init 0) handedThenDropped, x.1.KeepsItems x.2) := by
  let _ : Target := .bits64
  obtain ⟨s, hrun, -⟩ := run_of_observe _ _ _ exec_handedThenDropped
  exact ⟨s, kept_run_iff 0 hrun⟩

/-- The accepted item is nowhere, although its receiver is alive. -/
theorem handedThenDropped_loses :
    ¬ ∀ [Target] (r : Ptr) (s : Sys Nat Nat), (system r).Reachable s → s.Kept := by
  intro h
  let _ : Target := .bits64
  obtain ⟨s, hrun, hobs⟩ := run_of_observe _ _ _ exec_handedThenDropped
  simp only [Prod.mk.injEq] at hobs
  obtain ⟨hrx, hacc, hplaced⟩ := hobs
  obtain ⟨hperm, -⟩ := h 0 s ⟨_, hrun⟩ (by rw [hrx]; simp)
  rw [hacc, hplaced] at hperm
  exact absurd hperm.length_eq (by decide)

/-- Two futures wait, two items are sent, and the first future is polled. -/
def twoSends : List (Label Nat Nat) :=
  [.call 0 1, .poll 1 10, .call 0 2, .poll 2 11, .send 5, .send 6, .poll 1 10]

theorem exec_twoSends :
    letI := Target.bits64
    (exec Sys.next (.init 0) twoSends).map
      (fun s => (s.chan.data, s.queue.numNotified, s.queue.numWaiting)) = some ([6], 0, 1) := by
  decide

theorem receiversServed_twoSends :
    letI := Target.bits64
    ∃ s : Sys Nat Nat,
      (((∀ x ∈ execTrace Sys.next (.init 0) twoSends, x.1.ReceiversServed) ∧
          s.ReceiversServed) ↔
        ∀ x ∈ execTrace Sys.next (.init 0) twoSends, x.1.KeepsReceivers x.2) := by
  let _ : Target := .bits64
  obtain ⟨s, hrun, -⟩ := run_of_observe _ _ _ exec_twoSends
  exact ⟨s, receiversServed_run_iff 0 hrun⟩

/-- The second future sleeps beside the second item. -/
theorem twoSends_strands :
    ¬ ∀ [Target] (r : Ptr) (s : Sys Nat Nat), (system r).Reachable s →
      s.ReceiversServed := by
  intro h
  let _ : Target := .bits64
  obtain ⟨s, hrun, hobs⟩ := run_of_observe _ _ _ exec_twoSends
  have hr : (system 0).Reachable s := ⟨_, hrun⟩
  have hserved := (Sys.receiversServed_iff (inv_reachable hr)).mp (h 0 s hr)
  simp only [Prod.mk.injEq] at hobs
  obtain ⟨h3, h5, h6⟩ := hobs
  have := hserved (by rw [h3]; simp) h5
  omega

end Channel

end Unsend

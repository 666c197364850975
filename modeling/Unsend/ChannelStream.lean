import Unsend.ChannelClosing

/-!
# One consumer: the channel is a stream

A channel with one receiver, on which at most one `recv()` future is
outstanding at a time. Such a future is never dropped before it has
returned, and `try_recv` is called only while none is pending
(`OneConsumer`). Then at most one listener is in the list, and items
come to the receiver in the order in which they were accepted, whether
they are handed over or queued (`stream_ordered`).
-/

namespace Unsend

namespace Channel

variable {T W : Type}

/-- The `recv()` future `f` has not returned. -/
def Sys.Outstanding (s : Sys T W) (f : Ptr) : Prop :=
  ∃ r stage, s.futs f = some (r, stage) ∧ stage ≠ .returned

/-- What a single consumer does: nobody else receives, and one `recv()`
is awaited before the next receive. -/
def Sys.OneConsumer (s : Sys T W) : Label T W → Prop
  | .cloneReceiver _ _ => False
  | .call _ _ => ∀ f, ¬ s.Outstanding f
  | .cancel f => ¬ s.Outstanding f
  | .tryRecv _ => ∀ f, ¬ s.Pending f
  | _ => True

def Sys.Alone (s : Sys T W) : Prop := ∀ f f', s.Outstanding f → s.Outstanding f' → f = f'

/-- The accepted items, in order: returned, handed over, queued. -/
def Sys.Ordered (s : Sys T W) : Prop := s.accepted = s.returned ++ s.held ++ s.chan.data

theorem ordered_of_view {s : Sys T W} {q : Queue (Option T) W} {data acc ret : List T}
    (h : s.view = (q, data, acc, ret)) : s.Ordered ↔ acc = ret ++ q.held ++ data := by
  cases h
  exact Iff.rfl

section Steps

variable [Target] {s s' : Sys T W} {f r : Ptr} {stage : Stage} {w : W}

omit [Target] in
/-- The only listener is that of the future that has not returned. -/
theorem erase_alone (ha : s.Alone) (hi : s.Inv) (hf : s.futs f = some (r, stage))
    (hst : stage ≠ .returned) : s.queue.erase f = [] := by
  refine Queue.erase_eq_nil fun f' hf' => ?_
  obtain ⟨r', -, hr'⟩ := (hi.seated f').mp hf'
  exact ha f' f ⟨r', _, hr', by simp⟩ ⟨r, _, hf, hst⟩

omit [Target] in
theorem length_alone (ha : s.Alone) (hi : s.Inv) : s.queue.length ≤ 1 := by
  cases hids : s.queue.ids with
  | nil => rw [← Queue.length_ids, hids]; exact Nat.zero_le _
  | cons f rest =>
      obtain ⟨r, -, hr⟩ := (hi.seated f).mp (hids ▸ List.mem_cons_self ..)
      exact Queue.length_le_one s.nodup (erase_alone ha hi hr (by simp))

/-! ## What one step does to the order -/

omit [Target] in
/-- An item is handed over only where nothing is held and nothing queued. -/
theorem send_ordered (ha : s.Alone) (hi : s.Inv) (hs : s.Served) (ho : s.Ordered) (item : T) :
    (s.send item).Ordered := by
  obtain ⟨-, -, -, hv | ⟨h1, h3, h4, hv⟩ | ⟨-, hv⟩⟩ := send_view s item
  · exact (ordered_of_view hv).mpr ho
  · have hlen := s.queue.length_eq_add
    have hlen' := (s.queue.notify handOver (some item)).event.length_eq_add
    have hone := length_alone ha hi
    have hn := s.queue.length_notify handOver (some item)
    have hheld : s.held = [] := Queue.held_of_none_notified h1
    have hdata : s.chan.data = [] := by
      by_contra hd
      have := hs hd h1
      omega
    rw [ordered_of_view hv, ho, hheld, hdata]
    rw [hheld] at h4
    rw [Queue.eq_of_short h4 (Nat.le_refl 1)]
    simp
  · rw [ordered_of_view hv, ho]
    simp [Sys.held]

/-- Closing hands out no item. -/
theorem closes_ordered (ha : s.Alone) (hi : s.Inv) (hc : Closes s s') (ho : s.Ordered) :
    s'.Ordered := by
  obtain ⟨-, -, hv | hv⟩ := hc
  · exact (ordered_of_view hv).mpr ho
  · have hlen : s.held.length ≤ 1 := (Queue.held_length_le _).trans (length_alone ha hi)
    rw [ordered_of_view hv, Queue.eq_of_short (held_closing s.queue) hlen]
    exact ho

omit [Target] in
theorem queue_nil (hi : s.Inv) (h : ∀ f, ¬ s.Pending f) : s.queue = [] := by
  refine List.eq_nil_iff_forall_not_mem.mpr fun x hx => ?_
  obtain ⟨r, -, hr⟩ := (hi.seated x.1).mp (Queue.mem_ids_of_mem hx)
  exact h x.1 ⟨r, hr⟩

omit [Target] in
theorem tryRecv_ordered (hq : s.queue = []) (ho : s.Ordered) :
    ({ s with
      chan := s.chan.tryRecv.1
      returned := s.returned ++ Channel.returned (.ready s.chan.tryRecv.2) } :
        Sys T W).Ordered := by
  have hheld : s.queue.held = [] := by rw [hq]; rfl
  rw [ordered_of_view (tryRecv_view s), hheld]
  unfold Sys.Ordered Sys.held at ho
  rw [hheld] at ho
  rw [ho]
  cases s.chan.data with
  | nil => simp
  | cons item data => simp

variable [WillWake W]

omit [Target] in
/-- A poll by the only future returns the next item, the one it was handed
before those that are queued, or reports that nothing is left. -/
theorem view_poll_ordered (ha : s.Alone) (hi : s.Inv) (hf : s.futs f = some (r, stage))
    (hst : stage ≠ .returned) :
    let out := (recv.poll f w stage s.chan.event ⟨s.chan.data, s.chan.closed⟩).view
    Channel.returned out.2.2.1 ++ out.1.held ++ out.2.1.data = s.held ++ s.chan.data ∧
      (out.2.2.1 = .ready (.error {}) → s.held = []) := by
  have hs := hi.seated.canPoll trivial hf hst
  have he : s.chan.event.queue.erase f = [] := erase_alone ha hi hf hst
  -- the loop from its top, which finds the list empty
  have henter : let out := recv.enter f w ([] : Queue (Option T) W) ⟨s.chan.data, s.chan.closed⟩
      Channel.returned out.2.2.1 ++ out.1.held ++ out.2.1.data = s.chan.data := by
    obtain ⟨-, h2, -, h4, -⟩ :=
      enter_facts f w ([] : Queue (Option T) W) ⟨s.chan.data, s.chan.closed⟩
    intro out
    have hheld : out.1.held = [] := congrArg List.reduceOption h2
    rw [hheld, List.append_nil]
    exact h4
  rcases WaitLoop.poll_cases (b := recv) (w := w) (s := ⟨s.chan.data, s.chan.closed⟩) hs with
    ⟨hp, hv⟩ | ⟨st, w', hp, hst, -, hv⟩ | ⟨tag, c, hp, hv⟩
  · have hq : s.chan.event.queue = [] := (Queue.erase_of_notMem hp).symm.trans he
    have hheld : s.held = [] := congrArg Queue.held hq
    rw [hv, hq, hheld]
    exact ⟨henter, fun _ => rfl⟩
  · obtain ⟨-, -, -, h4⟩ := Queue.setState_waiting s.nodup hp hst (isNotified_waiting w')
    rw [hv]
    refine ⟨?_, fun h => by cases h⟩
    exact congrArg (· ++ s.chan.data) (Queue.held_of_tags_eq h4)
  · have hheld : s.held = tag.toList := by
      obtain ⟨-, -, h3⟩ := Queue.erase_notified s.nodup hp
      rw [show s.queue.erase f = [] from he, Queue.tags_nil, List.perm_singleton] at h3
      rw [Sys.held, Queue.held, h3]
      cases tag with
      | none => rfl
      | some item => rfl
    rw [hv, he, hheld]
    cases tag with
    | none => exact ⟨henter, fun _ => rfl⟩
    | some item => exact ⟨by simp [recv, Channel.returned, Queue.held], fun h => by cases h⟩

omit [Target] in
theorem poll_ordered (ha : s.Alone) (hi : s.Inv) (ho : s.Ordered)
    (hf : s.futs f = some (r, stage)) (hst : stage ≠ .returned) :
    (s.pollFuture f r stage w).Ordered := by
  obtain ⟨hview, -⟩ := view_poll_ordered (w := w) ha hi hf hst
  unfold Sys.Ordered at ho ⊢
  show s.accepted = (s.returned ++ _) ++ _ ++ _
  rw [ho, List.append_assoc, List.append_assoc, List.append_assoc, ← hview, List.append_assoc]
  rfl

/-! ## Runs -/

/-- What holds in every state of a channel with one consumer. -/
structure Sys.Consumed (s : Sys T W) : Prop where
  alone : s.Alone
  served : s.Served
  ordered : s.Ordered

/-- Only a call starts a future. -/
theorem outstanding_next {l : Label T W} (h : s.next l = some s') (hcall : ∀ r f, l ≠ .call r f)
    {f : Ptr} (hf : s'.Outstanding f) : s.Outstanding f := by
  cases l with
  | send item =>
      obtain ⟨-, rfl⟩ := next_send h
      exact hf
  | cloneSender =>
      obtain ⟨-, rfl⟩ := next_cloneSender h
      exact hf
  | dropSender =>
      obtain ⟨_, rfl⟩ := next_dropSender h
      exact hf
  | cloneReceiver r r' =>
      obtain ⟨-, rfl⟩ := next_cloneReceiver h
      exact hf
  | dropReceiver r =>
      obtain ⟨_, -, rfl⟩ := next_dropReceiver h
      exact hf
  | tryRecv r =>
      obtain ⟨-, rfl⟩ := next_tryRecv h
      exact hf
  | call r f => exact (hcall r f rfl).elim
  | poll f' w =>
      obtain ⟨r, stage, hf', hst, rfl⟩ := next_poll h
      obtain ⟨r', stage', hs, hst'⟩ := hf
      by_cases he : f = f'
      · exact he ▸ ⟨r, stage, hf', hst⟩
      · refine ⟨r', stage', ?_, hst'⟩
        rw [← hs]
        exact (Function.update_of_ne he _ _).symm
  | cancel f' =>
      obtain ⟨r', stage', hs, hst'⟩ := hf
      have hup : s'.futs = Function.update s.futs f' none := by
        obtain ⟨r, stage, -, ⟨-, rfl⟩ | ⟨-, rfl⟩⟩ := next_cancel h
        · rfl
        · rfl
      by_cases he : f = f'
      · rw [hup, he, Function.update_self] at hs
        cases hs
      · rw [hup, Function.update_of_ne he] at hs
        exact ⟨r', stage', hs, hst'⟩

theorem alone_next {l : Label T W} (ha : s.Alone) (hc : s.OneConsumer l)
    (h : s.next l = some s') : s'.Alone := by
  cases l with
  | call r f =>
      obtain ⟨-, -, rfl⟩ := next_call h
      have honly : ∀ f', Sys.Outstanding { s with
          futs := Function.update s.futs f (some (r, .unresumed))
          borrowers := Function.update s.borrowers r (f :: s.borrowers r) } f' → f' = f := by
        rintro f' ⟨r', stage', hs, hst⟩
        by_contra he
        exact hc f' ⟨r', stage', (Function.update_of_ne he _ _).symm.trans hs, hst⟩
      exact fun f₁ f₂ h₁ h₂ => (honly f₁ h₁).trans (honly f₂ h₂).symm
  | _ =>
      have hout := fun f => outstanding_next (f := f) h (by simp)
      exact fun f₁ f₂ h₁ h₂ => ha f₁ f₂ (hout f₁ h₁) (hout f₂ h₂)

/-- A single consumer keeps the order. -/
theorem ordered_next {l : Label T W} (hi : s.Inv) (hcons : s.Consumed) (hc : s.OneConsumer l)
    (h : s.next l = some s') : s'.Ordered := by
  obtain ⟨ha, hs, ho⟩ := hcons
  cases l with
  | send item =>
      obtain ⟨-, rfl⟩ := next_send h
      exact send_ordered ha hi hs ho item
  | cloneSender =>
      obtain ⟨-, rfl⟩ := next_cloneSender h
      exact ho
  | cloneReceiver r r' => exact hc.elim
  | dropSender =>
      obtain ⟨hpos, rfl⟩ := next_dropSender h
      exact closes_ordered ha hi (dropSender_closes s hpos).1 ho
  | dropReceiver r =>
      obtain ⟨hr, -, rfl⟩ := next_dropReceiver h
      exact closes_ordered ha hi (dropReceiver_closes s hr).1 ho
  | tryRecv r =>
      obtain ⟨-, rfl⟩ := next_tryRecv h
      exact tryRecv_ordered (queue_nil hi hc) ho
  | call r f =>
      obtain ⟨-, -, rfl⟩ := next_call h
      exact ho
  | poll f w =>
      obtain ⟨r, stage, hf, hst, rfl⟩ := next_poll h
      exact poll_ordered ha hi ho hf hst
  | cancel f =>
      obtain ⟨-, -, -, hv⟩ := cancel_facts hi h
      have habs : f ∉ s.queue.ids := by
        intro hm
        obtain ⟨r, -, hr⟩ := (hi.seated f).mp hm
        exact hc ⟨r, _, hr, by simp⟩
      rw [Queue.drop_absent habs] at hv
      exact (ordered_of_view hv).mpr ho

theorem consumed_next {l : Label T W} (hi : s.Inv) (hcons : s.Consumed) (hc : s.OneConsumer l)
    (h : s.next l = some s') : s'.Consumed := by
  refine ⟨alone_next hcons.alone hc h, (served_next_iff hi hcons.served h).mpr ?_,
    ordered_next hi hcons hc h⟩
  -- with one listener there is nobody left waiting beside a notified one
  have hlen := s.queue.length_eq_add
  have hone := length_alone hcons.alone hi
  cases l with
  | poll f w =>
      intro tag _ h1 hpos
      omega
  | _ => trivial

end Steps

/-- The values come out in the order they went in, and the end is
reported only at the end. -/
structure Sys.Stream (s : Sys T W) [WillWake W] : Prop where
  order : s.returned <+: s.accepted
  /-- The future `f` is polled and reports that the channel is closed. -/
  closed : ∀ f r stage w, s.futs f = some (r, stage) → stage ≠ .returned →
    (recv.poll f w stage s.chan.event ⟨s.chan.data, s.chan.closed⟩).result =
      .ready (.error {}) → s.chan.handles.tx = 0 ∧ s.returned = s.accepted
  empty : (∀ f, ¬ s.Pending f) → s.chan.tryRecv.2 = .error .empty → s.returned = s.accepted

theorem stream_ordered [Target] [WillWake W] {r₀ : Ptr} {s : Sys T W}
    (h : ((system r₀).restrict Sys.OneConsumer).Reachable s) : s.Stream := by
  have hr := h.unrestrict
  have hi := inv_reachable hr
  have hcl := closing_reachable hr
  have hcons : s.Consumed := by
    refine System.Reachable.of_restrict (P := Sys.Consumed) ?_ ?_ h
    · rintro s rfl
      have hq : (Sys.init r₀ : Sys T W).queue = [] := Event.queue_new
      refine ⟨?_, fun hd => (hd rfl).elim, ?_⟩
      · rintro f f' ⟨r, stage, ⟨⟩, -⟩
      · show [] = [] ++ Queue.held _ ++ []
        rw [hq]
        rfl
    · intro s l s' hr hP hstep hc
      exact consumed_next (inv_reachable hr) hP hc hstep
  have hall : s.held = [] → s.chan.data = [] → s.returned = s.accepted := by
    intro hheld hdata
    have ho := hcons.ordered
    rw [Sys.Ordered, hheld, hdata] at ho
    simpa using ho.symm
  refine ⟨?_, ?_, ?_⟩
  · exact ⟨s.held ++ s.chan.data, by rw [← List.append_assoc]; exact hcons.ordered.symm⟩
  · intro f r stage w hf hst hres
    obtain ⟨-, h2⟩ := view_poll_ordered (w := w) hcons.alone hi hf hst
    obtain ⟨-, -, h3⟩ := view_poll_closing (w := w) hi hf hst
    obtain ⟨hd, hc⟩ := h3 hres
    have hrx := List.ne_nil_of_mem (hi.borrowed f r stage hf).1
    exact ⟨(hcl.flag.mp hc).resolve_right hrx, hall (h2 hres) hd⟩
  · intro hno he
    have hheld : s.held = [] := by rw [Sys.held, queue_nil hi hno]; rfl
    refine hall hheld ?_
    unfold tryRecv at he
    split at he
    · cases he
    · assumption

/-- The first item is handed over, the second one queued. -/
def handedAndQueued : List (Label Nat Nat) :=
  [.call 0 1, .poll 1 10, .send 5, .send 6, .dropSender, .poll 1 10]

theorem exec_handedAndQueued :
    letI := Target.bits64
    (exec Sys.next (.init 0) handedAndQueued).map
      (fun s => (s.accepted, s.returned)) = some ([5, 6], [5]) := by
  decide

theorem stream_handedAndQueued :
    letI := Target.bits64
    ∃ s : Sys Nat Nat, s.accepted = [5, 6] ∧ s.returned = [5] ∧ s.Stream := by
  let _ : Target := .bits64
  obtain ⟨s, hrun, hobs⟩ := run_of_observe _ _ _ exec_handedAndQueued
  simp only [Prod.mk.injEq] at hobs
  have hr : ((system 0).restrict Sys.OneConsumer).Reachable s := by
    refine ⟨_, hrun.restrict fun x hx => ?_⟩
    rcases List.mem_cons.mp hx with rfl | hx
    · rintro f ⟨r, stage, ⟨⟩, -⟩
    · have hl : x.2 ∈ handedAndQueued.tail := label_mem_of_execTrace hx
      revert hl
      cases x.2 with
      | call r f => simp [handedAndQueued]
      | cancel f => simp [handedAndQueued]
      | tryRecv r => simp [handedAndQueued]
      | cloneReceiver r r' => simp [handedAndQueued]
      | _ => exact fun _ => trivial
  exact ⟨s, hobs.1, hobs.2, stream_ordered hr⟩

end Channel

end Unsend

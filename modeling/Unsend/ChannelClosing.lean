import Unsend.ChannelItems

/-!
# Closing a channel

After every run of a channel the counters are the numbers of live handles,
those that the run has made and not dropped (`handles_run`), the flag
`closed` says that one of them is zero, and a closed channel has nobody
left to wake: every `recv()` future in the list is notified, and none is
put there again (`closing_reported`).

The last drop of a handle of either kind notifies `usize::MAX` listeners.
A future has an address of its own, so that is everybody
(`Queue.notify_max`).
-/

namespace Unsend

namespace Channel

variable {T W : Type}

/-- What the flag and the event say about the handles. -/
structure Sys.Closing [Target] (s : Sys T W) : Prop where
  flag : s.chan.closed = true ↔ s.chan.handles.tx = 0 ∨ s.chan.handles.rx = []
  /-- In a closed channel nobody is left to notify. -/
  reached : s.chan.closed = true → s.queue.numWaiting = 0
  addressed : Addressed s.futs

/-- `s'` is `s` after a step that neither touches the handles nor the flag,
and enrolls nobody in a closed channel. -/
structure Sys.Quiet [Target] (s s' : Sys T W) : Prop where
  handles : s'.chan.handles = s.chan.handles
  closed : s'.chan.closed = s.chan.closed
  waiting : s.chan.closed = true → s'.queue.numWaiting ≤ s.queue.numWaiting
  ids : s.chan.closed = true → ∀ f ∈ s'.queue.ids, f ∈ s.queue.ids
  addressed : Addressed s.futs → Addressed s'.futs

section Steps

variable [Target] {s s' : Sys T W} {f r : Ptr} {stage : Stage} {w : W}

theorem Sys.Closing.quiet (h : s.Closing) (hq : s.Quiet s') : s'.Closing where
  flag := by
    rw [hq.closed, hq.handles]
    exact h.flag
  reached hc := by
    rw [hq.closed] at hc
    exact Nat.le_zero.mp (h.reached hc ▸ hq.waiting hc)
  addressed := hq.addressed h.addressed

/-! ## Closing -/

/-- After a step that may close the channel: the handles are these, and
the flag is set if the count that went down is zero. -/
structure Sys.Dropped (s s' : Sys T W) (handles : Handles) (last : Prop) : Prop where
  handles_eq : s'.chan.handles = handles
  futs : s'.futs = s.futs
  step : (¬ last ∧ s'.chan.closed = s.chan.closed ∧ s'.queue = s.queue) ∨
    (last ∧ s'.chan.closed = true ∧ s'.queue = (s.queue.notify closing ()).event)

theorem dropSender_dropped (s : Sys T W) (h : 0 < s.chan.handles.tx) :
    s.Dropped { s with
        chan := (s.chan.dropSender h).1
        woken := s.woken ++ (s.chan.dropSender h).2 }
      (s.chan.handles.dropSender h) ((s.chan.handles.dropSender h).tx = 0) := by
  have hs := (s.chan.handles.dropSender h).senders_eq
  rw [← hs]
  simp only [dropSender]
  split
  · rename_i h0
    exact ⟨rfl, rfl, .inr ⟨h0, rfl, s.chan.event.queue_notify closing ()⟩⟩
  · rename_i h0
    exact ⟨rfl, rfl, .inl ⟨h0, rfl, rfl⟩⟩

theorem dropReceiver_dropped (s : Sys T W) (h : r ∈ s.chan.handles.rx) :
    s.Dropped { s with
        chan := (s.chan.dropReceiver r h).1
        woken := s.woken ++ (s.chan.dropReceiver r h).2 }
      (s.chan.handles.dropReceiver r h) ((s.chan.handles.dropReceiver r h).rx = []) := by
  have hs := (s.chan.handles.dropReceiver r h).receivers_eq
  rw [← List.length_eq_zero_iff, ← hs]
  simp only [dropReceiver]
  split
  · rename_i h0
    exact ⟨rfl, rfl, .inr ⟨h0, rfl, s.chan.event.queue_notify closing ()⟩⟩
  · rename_i h0
    exact ⟨rfl, rfl, .inl ⟨h0, rfl, rfl⟩⟩

/-- The drop of a handle closes the channel if it was the last one of its
kind, and then reaches every listener. -/
theorem Sys.Closing.drop (h : s.Closing) (hi : s.Inv) {handles : Handles} {last : Prop}
    (hd : s.Dropped s' handles last)
    (hlast : (handles.tx = 0 ∨ handles.rx = []) ↔
      last ∨ (s.chan.handles.tx = 0 ∨ s.chan.handles.rx = [])) : s'.Closing := by
  obtain ⟨hh, hf, ⟨hl, hc, hq⟩ | ⟨hl, hc, hq⟩⟩ := hd
  · refine ⟨?_, ?_, hf ▸ h.addressed⟩
    · rw [hc, hh, hlast, or_iff_right hl]
      exact h.flag
    · rw [hc, hq]
      exact h.reached
  · refine ⟨?_, fun _ => ?_, hf ▸ h.addressed⟩
    · rw [hh, hlast]
      exact iff_of_true hc (.inl hl)
    · rw [hq]
      exact s.queue.notify_max () rfl (hi.seated.length_le h.addressed s.nodup)

/-! ## The other steps -/

omit [Target] in
/-- An open channel accepts the item and stays open. -/
theorem send_open {c : Channel T W} (hc : c.closed = false) (item : T) :
    (c.send item).1.closed = false ∧ (c.send item).2.1 = .ok () := by
  rw [send, if_neg (by rw [hc]; simp)]
  dsimp only
  split
  · exact ⟨hc, rfl⟩
  · exact ⟨hc, rfl⟩

omit [Target] in
theorem send_quiet (s : Sys T W) (item : T) :
    (s.send item).chan.closed = s.chan.closed ∧
      (s.chan.closed = true → (s.send item).chan = s.chan) := by
  cases hc : s.chan.closed with
  | true =>
      have hs : (s.send item).chan = s.chan := congrArg Prod.fst (send_closed hc item)
      exact ⟨by rw [hs, hc], fun _ => hs⟩
  | false =>
      exact ⟨(send_open hc item).1, fun h => by cases h⟩

variable [WillWake W]

omit [Target] [WillWake W] in
/-- From its top, the loop of `recv` waits only in a channel that is open,
and it reports a closed one only where nothing is queued. -/
theorem enter_closing (f : Ptr) (w : W) (q : Queue (Option T) W) (b : Buffer T) :
    let out := recv.enter f w q b
    out.2.1.closed = b.closed ∧ (b.closed = true → out.1 = q) ∧
      (out.2.2.1 = .ready (.error {}) → b.data = [] ∧ b.closed = true) := by
  obtain ⟨data, closed⟩ := b
  unfold WaitLoop.enter
  cases data with
  | cons item data => exact ⟨rfl, fun _ => rfl, fun h => by cases h⟩
  | nil =>
      cases closed with
      | true => exact ⟨rfl, fun _ => rfl, fun _ => ⟨rfl, rfl⟩⟩
      | false => exact ⟨rfl, fun h => (by cases h), fun h => by cases h⟩

omit [Target] in
/-- A poll in a closed channel enrolls nobody. -/
theorem view_poll_closing (hi : s.Inv) (hf : s.futs f = some (r, stage))
    (hst : stage ≠ .returned) :
    let out := (recv.poll f w stage s.chan.event ⟨s.chan.data, s.chan.closed⟩).view
    out.2.1.closed = s.chan.closed ∧
      (s.chan.closed = true → out.1.numWaiting ≤ s.queue.numWaiting ∧
        ∀ r ∈ out.1.ids, r ∈ s.queue.ids) ∧
      (out.2.2.1 = .ready (.error {}) → s.chan.data = [] ∧ s.chan.closed = true) := by
  have hs := hi.seated.canPoll trivial hf hst
  rcases WaitLoop.poll_cases (b := recv) (w := w) (s := ⟨s.chan.data, s.chan.closed⟩) hs with
    ⟨-, hv⟩ | ⟨st, w', hp, hst, -, hv⟩ | ⟨tag, c, hp, hv⟩
  · obtain ⟨h1, h2, h3⟩ :=
      enter_closing f w s.chan.event.queue ⟨s.chan.data, s.chan.closed⟩
    rw [hv]
    refine ⟨h1, fun hc => ?_, h3⟩
    rw [h2 hc]
    exact ⟨Nat.le_refl _, fun _ h => h⟩
  · obtain ⟨h1, -, h3, -⟩ :=
      Queue.setState_waiting s.chan.event.nodup hp hst (isNotified_waiting w')
    rw [hv]
    refine ⟨rfl, fun _ => ⟨Nat.le_of_eq h3, fun r hr => ?_⟩, fun h => by cases h⟩
    rw [h1] at hr
    exact hr
  · have herase : (s.queue.erase f).numWaiting ≤ s.queue.numWaiting ∧
        ∀ r ∈ (s.queue.erase f).ids, r ∈ s.queue.ids :=
      ⟨Nat.le_of_eq (Queue.erase_notified s.nodup hp).2.1.symm,
        fun r hr => (Queue.mem_ids_erase.mp hr).1⟩
    rw [hv]
    cases tag with
    | some item => exact ⟨rfl, fun _ => herase, fun h => by cases h⟩
    | none =>
        obtain ⟨h1, h2, h3⟩ :=
          enter_closing f w (s.chan.event.queue.erase f) ⟨s.chan.data, s.chan.closed⟩
        refine ⟨h1, fun hc => ?_, h3⟩
        rw [show (recv.accept none : Option (Except ChannelClosed T)) = none from rfl, h2 hc]
        exact herase

theorem quiet_next {l : Label T W} (hi : s.Inv) (h : s.next l = some s')
    (hclone : l ≠ .cloneSender ∧ ∀ r r', l ≠ .cloneReceiver r r')
    (hdrop : l ≠ .dropSender ∧ ∀ r, l ≠ .dropReceiver r) : s.Quiet s' := by
  cases l with
  | send item =>
      obtain ⟨-, rfl⟩ := next_send h
      obtain ⟨h1, h2⟩ := send_quiet s item
      have hq : s.chan.closed = true → (s.send item).queue = s.queue := fun hc =>
        congrArg (fun c => c.event.queue) (h2 hc)
      refine ⟨(send_view s item).2.2.1, h1, fun hc => ?_, fun hc f hf => hq hc ▸ hf, id⟩
      exact Nat.le_of_eq (congrArg Queue.numWaiting (hq hc))
  | cloneSender => exact (hclone.1 rfl).elim
  | cloneReceiver r r' => exact (hclone.2 r r' rfl).elim
  | dropSender => exact (hdrop.1 rfl).elim
  | dropReceiver r => exact (hdrop.2 r rfl).elim
  | tryRecv r =>
      obtain ⟨-, rfl⟩ := next_tryRecv h
      unfold tryRecv
      split
      · exact ⟨rfl, rfl, fun _ => Nat.le_refl _, fun _ _ hf => hf, id⟩
      · exact ⟨rfl, rfl, fun _ => Nat.le_refl _, fun _ _ hf => hf, id⟩
  | call r f =>
      obtain ⟨-, hr, rfl⟩ := next_call h
      exact ⟨rfl, rfl, fun _ => Nat.le_refl _, fun _ _ hf => hf,
        fun ha => ha.update fun _ => hr.2⟩
  | poll f w =>
      obtain ⟨r, stage, hf, hst, rfl⟩ := next_poll h
      obtain ⟨h1, h2, -⟩ := view_poll_closing (w := w) hi hf hst
      exact ⟨rfl, h1, fun hc => (h2 hc).1, fun hc => (h2 hc).2,
        fun ha => ha.update fun _ => ha f _ hf⟩
  | cancel f =>
      have hv := (cancel_facts hi h).2.2.2
      have hq : s'.queue = (s.queue.drop f).event := congrArg Prod.fst hv
      have hids : ∀ r ∈ s'.queue.ids, r ∈ s.queue.ids := by
        intro r hr
        rw [hq, Queue.ids_drop, Queue.mem_ids_erase] at hr
        exact hr.1
      have hw : s'.queue.numWaiting ≤ s.queue.numWaiting := by
        rw [hq]
        exact Queue.numWaiting_drop_le s.nodup f
      obtain ⟨r, stage, -, ⟨-, rfl⟩ | ⟨-, rfl⟩⟩ := next_cancel h
      · exact ⟨rfl, rfl, fun _ => hw, fun _ => hids,
          fun ha => ha.update fun hne => (hne rfl).elim⟩
      · exact ⟨rfl, rfl, fun _ => hw, fun _ => hids,
          fun ha => ha.update fun hne => (hne rfl).elim⟩

/-- Every step keeps the flag true to the handles, and once it is set
enrolls nobody. -/
theorem closing_next {l : Label T W} (hi : s.Inv) (hcl : s.Closing) (h : s.next l = some s') :
    s'.Closing ∧ (s.chan.closed = true →
      s'.chan.closed = true ∧ ∀ f ∈ s'.queue.ids, f ∈ s.queue.ids) := by
  have hdropped : ∀ {handles last}, s.Dropped s' handles last → s.chan.closed = true →
      s'.chan.closed = true ∧ ∀ f ∈ s'.queue.ids, f ∈ s.queue.ids := by
    rintro handles last ⟨-, -, ⟨-, hc, hq⟩ | ⟨-, hc, hq⟩⟩ hclosed
    · exact ⟨hc.trans hclosed, fun f hf => hq ▸ hf⟩
    · refine ⟨hc, fun f hf => ?_⟩
      rw [hq, Queue.ids_notify] at hf
      exact hf
  cases l with
  | cloneSender =>
      obtain ⟨hpos, rfl⟩ := next_cloneSender h
      refine ⟨⟨?_, hcl.reached, hcl.addressed⟩, fun hc => ⟨hc, fun _ hf => hf⟩⟩
      refine hcl.flag.trans (or_congr_left ?_)
      exact iff_of_false (Nat.ne_of_gt hpos) (Nat.succ_ne_zero _)
  | cloneReceiver r r' =>
      obtain ⟨hr, rfl⟩ := next_cloneReceiver h
      refine ⟨⟨?_, hcl.reached, hcl.addressed⟩, fun hc => ⟨hc, fun _ hf => hf⟩⟩
      refine hcl.flag.trans (or_congr_right ?_)
      exact iff_of_false (List.ne_nil_of_mem hr.1) (List.cons_ne_nil _ _)
  | dropSender =>
      obtain ⟨hpos, rfl⟩ := next_dropSender h
      have hd := dropSender_dropped s hpos
      refine ⟨hcl.drop hi hd ?_, hdropped hd⟩
      have hne : s.chan.handles.tx ≠ 0 := Nat.ne_of_gt hpos
      rw [or_iff_right hne]
      exact Iff.rfl
  | dropReceiver r =>
      obtain ⟨hr, -, rfl⟩ := next_dropReceiver h
      have hd := dropReceiver_dropped s hr
      refine ⟨hcl.drop hi hd ?_, hdropped hd⟩
      rw [or_iff_left (List.ne_nil_of_mem hr)]
      exact or_comm
  | _ =>
      have hq := quiet_next hi h (by simp) (by simp)
      exact ⟨hcl.quiet hq, fun hc => ⟨hq.closed.trans hc, hq.ids hc⟩⟩

theorem closing_reachable {r : Ptr} (h : (system r).Reachable s) : s.Closing := by
  refine h.invariant_of (I := Sys.Closing) ?_ ?_
  · rintro s rfl
    refine ⟨iff_of_false (by simp [Sys.init, new]) (by simp [Sys.init, new, Handles.new]),
      ?_, ?_⟩
    · rintro ⟨⟩
    · rintro f x ⟨⟩
  · intro s l s' hr hcl hstep
    exact (closing_next (inv_reachable hr) hcl hstep).1

end Steps

/-! ## The handles that are alive -/

section Handles

variable [Target] {r₀ : Ptr} {s : Sys T W} {tr : List (Sys T W × Label T W)}

def isCloneSender : Label T W → Bool
  | .cloneSender => true
  | _ => false

def isDropSender : Label T W → Bool
  | .dropSender => true
  | _ => false

/-- How many `Sender`s are alive after a run: the first one and its clones,
less those that were dropped. -/
def liveSenders (tr : List (Sys T W × Label T W)) : Nat :=
  1 + tr.countP (isCloneSender ·.2) - tr.countP (isDropSender ·.2)

/-- A step makes or drops a `Receiver`. -/
def stepReceivers (live : List Ptr) : Label T W → List Ptr
  | .cloneReceiver _ r => r :: live
  | .dropReceiver r => live.erase r
  | _ => live

/-- The `Receiver`s that are alive after a run that began with the one at
`r₀`. -/
def liveReceivers (r₀ : Ptr) (tr : List (Sys T W × Label T W)) : List Ptr :=
  tr.foldl (fun live x => stepReceivers live x.2) [r₀]

variable [WillWake W]

/-- The channel's record of its handles is that of the run. -/
theorem handles_run (h : (system r₀).Run tr s) :
    s.chan.handles.tx = liveSenders tr ∧ s.chan.handles.rx = liveReceivers r₀ tr := by
  have hcount : s.chan.handles.tx + tr.countP (isDropSender ·.2) =
      1 + tr.countP (isCloneSender ·.2) ∧ s.chan.handles.rx = liveReceivers r₀ tr := by
    refine h.history (I := fun tr s => s.chan.handles.tx + tr.countP (isDropSender ·.2) =
      1 + tr.countP (isCloneSender ·.2) ∧ s.chan.handles.rx = liveReceivers r₀ tr) ?_ ?_
    · rintro s rfl
      exact ⟨rfl, rfl⟩
    · intro tr s l s' hr ⟨htx, hrx⟩ hs
      have hlive :
          liveReceivers r₀ (tr ++ [(s, l)]) = stepReceivers (liveReceivers r₀ tr) l := by
        rw [liveReceivers, List.foldl_append]
        rfl
      rw [hlive, ← hrx, List.countP_append, List.countP_append]
      have hi := inv_reachable ⟨tr, hr⟩
      cases l with
      | cloneSender =>
          obtain ⟨-, rfl⟩ := next_cloneSender hs
          refine ⟨?_, rfl⟩
          show s.chan.handles.tx + 1 + (_ + 0) = 1 + (_ + 1)
          omega
      | dropSender =>
          obtain ⟨hpos, rfl⟩ := next_dropSender hs
          rw [(dropSender_dropped s hpos).handles_eq]
          refine ⟨?_, rfl⟩
          show s.chan.handles.tx - 1 + (_ + 1) = 1 + (_ + 0)
          omega
      | cloneReceiver r r' =>
          obtain ⟨-, rfl⟩ := next_cloneReceiver hs
          exact ⟨htx, rfl⟩
      | dropReceiver r =>
          obtain ⟨hr', -, rfl⟩ := next_dropReceiver hs
          rw [(dropReceiver_dropped s hr').handles_eq]
          exact ⟨htx, rfl⟩
      | _ =>
          have hq := quiet_next hi hs (by simp) (by simp)
          rw [hq.handles]
          exact ⟨htx, rfl⟩
  refine ⟨?_, hcount.2⟩
  unfold liveSenders
  omega

end Handles

/-! ## What is reported -/

/-- Closing reaches everybody, and nobody else is told of it. The handles
that are alive are those that the run `tr` has made and not dropped. -/
structure Sys.ClosingReported [Target] [WillWake W] (r₀ : Ptr)
    (tr : List (Sys T W × Label T W)) (s : Sys T W) : Prop where
  senders : s.chan.handles.senders = liveSenders tr
  receivers : s.chan.handles.receivers = (liveReceivers r₀ tr).length
  closed : s.chan.closed = true ↔ s.chan.handles.senders = 0 ∨ s.chan.handles.receivers = 0
  /-- A sender that is alive sends. -/
  send : ∀ item, 0 < liveSenders tr →
    ((s.chan.send item).2.1 = .error {} ↔ liveReceivers r₀ tr = []) ∧
      (liveReceivers r₀ tr = [] → (s.chan.send item).1 = s.chan)
  notified : s.chan.closed = true → ∀ f ∈ s.queue.ids, ∃ tag, s.NotifiedWith f tag
  inserted : s.chan.closed = true → ∀ s', (system r₀).Steps s s' →
    s'.chan.closed = true ∧ ∀ f ∈ s'.queue.ids, f ∈ s.queue.ids
  /-- The future `f` is polled. -/
  recv : ∀ f r stage w, s.futs f = some (r, stage) → stage ≠ .returned →
    (recv.poll f w stage s.chan.event ⟨s.chan.data, s.chan.closed⟩).result =
      .ready (.error {}) → s.chan.data = [] ∧ liveSenders tr = 0
  tryRecv : ∀ r ∈ liveReceivers r₀ tr, s.chan.tryRecv.2 = .error .closed →
    s.chan.data = [] ∧ liveSenders tr = 0

/-- Once closed, a channel stays closed and enrolls nobody. -/
theorem closed_steps [Target] [WillWake W] {r₀ : Ptr} {s s' : Sys T W}
    (h : (system r₀).Reachable s) (hc : s.chan.closed = true) (hs : (system r₀).Steps s s') :
    s'.chan.closed = true ∧ ∀ f ∈ s'.queue.ids, f ∈ s.queue.ids := by
  induction hs with
  | refl => exact ⟨hc, fun _ hf => hf⟩
  | tail hsteps hl ih =>
      obtain ⟨l, hl⟩ := hl
      have hr := h.steps hsteps
      obtain ⟨hc', hids⟩ := (closing_next (inv_reachable hr) (closing_reachable hr) hl).2 ih.1
      exact ⟨hc', fun f hf => ih.2 f (hids f hf)⟩

theorem closing_reported [Target] [WillWake W] {r₀ : Ptr} {s : Sys T W}
    {tr : List (Sys T W × Label T W)} (hrun : (system r₀).Run tr s) :
    s.ClosingReported r₀ tr := by
  have h : (system r₀).Reachable s := ⟨tr, hrun⟩
  have hi := inv_reachable h
  have hcl := closing_reachable h
  obtain ⟨hlive, hlive'⟩ := handles_run hrun
  -- a receiver is alive wherever a closed channel is reported
  have htx : ∀ r ∈ s.chan.handles.rx, s.chan.closed = true → s.chan.handles.tx = 0 :=
    fun r hr hc => (hcl.flag.mp hc).resolve_right (List.ne_nil_of_mem hr)
  refine ⟨s.chan.handles.senders_eq.trans hlive,
    s.chan.handles.receivers_eq.trans (congrArg List.length hlive'), ?_, ?_, ?_, ?_, ?_, ?_⟩
  · rw [hcl.flag, s.chan.handles.senders_eq, s.chan.handles.receivers_eq,
      List.length_eq_zero_iff]
  · rw [← hlive, ← hlive']
    intro item hpos
    have hflag : s.chan.closed = true ↔ s.chan.handles.rx = [] :=
      hcl.flag.trans (or_iff_right (Nat.ne_of_gt hpos))
    refine ⟨?_, fun hrx => congrArg Prod.fst (send_closed (hflag.mpr hrx) item)⟩
    rw [← hflag]
    cases hc : s.chan.closed with
    | true => simp [send_closed hc]
    | false =>
        rw [(send_open hc item).2]
        exact iff_of_false (by simp) (by simp)
  · intro hc f hf
    obtain ⟨tag, b, hst⟩ := Queue.notified_of_mem s.nodup (hcl.reached hc) hf
    exact ⟨tag, b, hst⟩
  · exact fun hc s' hs => closed_steps h hc hs
  · rw [← hlive]
    intro f r stage w hf hst hres
    obtain ⟨-, -, h3⟩ := view_poll_closing (w := w) hi hf hst
    obtain ⟨hd, hc⟩ := h3 hres
    exact ⟨hd, htx r (hi.borrowed f r stage hf).1 hc⟩
  · rw [← hlive, ← hlive']
    intro r hr he
    unfold tryRecv at he
    split at he
    · cases he
    · rename_i hd
      refine ⟨hd, htx r hr ?_⟩
      by_contra hc
      rw [if_neg hc] at he
      cases he

/-- A future that waits is woken by the last sender's drop, and reports it. -/
def senderDropped : List (Label Nat Nat) :=
  [.cloneReceiver 0 1, .call 0 1, .poll 1 10, .call 1 2, .poll 2 11, .send 5, .dropSender]

theorem exec_senderDropped :
    letI := Target.bits64
    (exec Sys.next (.init 0) senderDropped).map
      (fun s => (s.chan.closed, s.queue.numNotified)) = some (true, 2) := by
  decide

theorem closing_senderDropped :
    letI := Target.bits64
    ∃ s : Sys Nat Nat, s.chan.closed = true ∧ s.queue.numNotified = 2 ∧
      s.ClosingReported 0 (execTrace Sys.next (.init 0) senderDropped) := by
  let _ : Target := .bits64
  obtain ⟨s, hrun, hobs⟩ := run_of_observe _ _ _ exec_senderDropped
  simp only [Prod.mk.injEq] at hobs
  exact ⟨s, hobs.1, hobs.2, closing_reported hrun⟩

end Channel

end Unsend

import Unsend.EventTags

/-!
# What a notification does, exactly

A notification is a count under any chain of `additional`, `tag` and
`tag_with`. Which listeners it reaches depends on the count and on
whether the chain has an `additional`; the tags come from the outermost
tag layer; and who is woken depends on who was polled since it was
inserted, and with which waker.

`notify_exact` states all of it for an event in any state that earlier
notifications, polls and drops have led to.
-/

namespace Unsend

/-! ## Chains -/

/-- A notification as its callers write it, by the state of its tag
producer and the type of its tags. -/
inductive Chain : Type → Type → Type 1
  | notify (count : Nat) : Chain Unit Unit
  | additional {σ T : Type} (inner : Chain σ T) : Chain σ T
  | tag {σ S T : Type} (inner : Chain σ S) (tag : T) : Chain Unit T
  | tagWith {σ S ρ T : Type} (inner : Chain σ S) (tagFn : ρ → T × ρ) : Chain ρ T

namespace Chain

/-- The notification that the chain builds. -/
def notification : {σ T : Type} → Chain σ T → Notification σ T
  | _, _, .notify count => Notify count
  | _, _, .additional inner => inner.notification.additional
  | _, _, .tag inner t => inner.notification.tag t
  | _, _, .tagWith inner tagFn => inner.notification.tagWith tagFn

/-- The count that the chain starts from. -/
def count : {σ T : Type} → Chain σ T → Nat
  | _, _, .notify count => count
  | _, _, .additional inner => inner.count
  | _, _, .tag inner _ => inner.count
  | _, _, .tagWith inner _ => inner.count

/-- Is there an `additional` in the chain? -/
def hasAdditional : {σ T : Type} → Chain σ T → Bool
  | _, _, .notify _ => false
  | _, _, .additional _ => true
  | _, _, .tag inner _ => inner.hasAdditional
  | _, _, .tagWith inner _ => inner.hasAdditional

/-- `next_tag` of the outermost tag layer. -/
def nextTag : {σ T : Type} → Chain σ T → σ → T × σ
  | _, _, .notify _, _ => ((), ())
  | _, _, .additional inner, s => inner.nextTag s
  | _, _, .tag _ t, _ => (t, ())
  | _, _, .tagWith _ tagFn, s => tagFn s

section Chain

variable {σ T : Type}

theorem notification_count (c : Chain σ T) : c.notification.count = c.count := by
  induction c with
  | notify count => rfl
  | additional inner ih => exact ih
  | tag inner t ih => exact ih
  | tagWith inner tagFn ih => exact ih

theorem notification_isAdditional (c : Chain σ T) :
    c.notification.isAdditional = c.hasAdditional := by
  induction c with
  | notify count => rfl
  | additional inner ih => rfl
  | tag inner t ih => exact ih
  | tagWith inner tagFn ih => exact ih

theorem notification_nextTag (c : Chain σ T) (s : σ) :
    c.notification.nextTag s = .ok (c.nextTag s) := by
  induction c with
  | notify count => rfl
  | additional inner ih => exact ih s
  | tag inner t ih => rfl
  | tagWith inner tagFn ih => rfl

theorem notification_next (c : Chain σ T) (s : σ) : c.notification.next s = c.nextTag s :=
  Except.ok.inj ((c.notification.nextTag_eq s).symm.trans (c.notification_nextTag s))

end Chain

end Chain

/-- The results of `k` calls of a closure and what it has captured then. -/
def calls {σ T : Type} (f : σ → T × σ) : Nat → σ → List T × σ
  | 0, s => ([], s)
  | k + 1, s => ((f s).1 :: (calls f k (f s).2).1, (calls f k (f s).2).2)

/-- A notification that counts the calls of its `next_tag`. -/
def Notification.counted {σ T : Type} (n : Notification σ T) : Notification (σ × Nat) T where
  count := n.count
  isAdditional := n.isAdditional
  nextTag s := .ok ((n.next s.1).1, (n.next s.1).2, s.2 + 1)
  total _ := ⟨_, rfl⟩

section Produce

variable {σ T : Type}

theorem produce_eq_calls {f : σ → T × σ} {n : Notification σ T} (h : ∀ s, n.next s = f s)
    (k : Nat) (s : σ) : n.produce k s = calls f k s := by
  induction k generalizing s with
  | zero => rfl
  | succ k ih =>
      rw [calls, Notification.produce, h s]
      simp only [ih]

theorem produce_counted (n : Notification σ T) (k : Nat) (s : σ) (c : Nat) :
    n.counted.produce k (s, c) = ((n.produce k s).1, (n.produce k s).2, c + k) := by
  have hnext : ∀ s, n.counted.next s = ((n.next s.1).1, (n.next s.1).2, s.2 + 1) := fun s =>
    Except.ok.inj (n.counted.nextTag_eq s).symm
  induction k generalizing s c with
  | zero => rfl
  | succ k ih =>
      rw [Notification.produce, Notification.produce, hnext]
      simp only [ih, Prod.mk.injEq, true_and]
      omega

end Produce

/-! ## The listeners a notification reaches -/

namespace Queue

variable {σ T W : Type} {q : Queue T W}

/-- The entries of `m`, notified with these tags. -/
def mark (additional : Bool) (m : Queue T W) (tags : List T) : Queue T W :=
  List.zipWith (fun x t => (x.1, .notified t additional)) m tags

/-- As many tags as there are entries that wait are handed to just these. -/
theorem assign_waiting {b : Bool} {m : Queue T W} (hm : ∀ x ∈ m, x.2.isNotified = false)
    {ts : List T} (hlen : ts.length = m.length) (r : Queue T W) :
    assign b ts (m ++ r) = mark b m ts ++ r := by
  induction m generalizing ts with
  | nil =>
      obtain rfl := List.length_eq_zero_iff.mp hlen
      exact assign_nil b r
  | cons x m ih =>
      cases ts with
      | nil => cases hlen
      | cons t ts =>
          have hx : ¬ x.2.isNotified = true := by
            rw [hm x (List.mem_cons_self ..)]
            exact Bool.false_ne_true
          rw [List.cons_append, assign, if_neg hx,
            ih (fun y hy => hm y (List.mem_cons_of_mem _ hy)) (Nat.succ.inj hlen)]
          rfl

/-- The queue as a notification of `k` listeners finds it: those that are
notified already, those that it reaches and the others. -/
theorem split_reach (hq : q.NotifiedPrefix) {k : Nat} (hk : k ≤ q.numWaiting) :
    ∃ a m b, q = a ++ m ++ b ∧ m.length = k ∧ (∀ x ∈ a, x.2.isNotified = true) ∧
      (∀ x ∈ m, x.2.isNotified = false) ∧ ∀ x ∈ b, x.2.isNotified = false := by
  obtain ⟨a, r, rfl, ha, hr⟩ := hq.split
  have hcount : numWaiting (a ++ r) = r.length := by
    rw [numWaiting_append, numWaiting_eq_zero.mpr ha, r.length_eq_add, numNotified_eq_zero.mpr hr]
  refine ⟨a, r.take k, List.drop k r, ?_, ?_, ha, ?_, ?_⟩
  · rw [List.append_assoc, List.take_append_drop]
  · rw [List.length_take]
    omega
  · exact fun x hx => hr x (List.mem_of_mem_take hx)
  · exact fun x hx => hr x (List.mem_of_mem_drop hx)

theorem wakers_split {a m b : Queue T W} (ha : ∀ x ∈ a, x.2.isNotified = true)
    (hm : ∀ x ∈ m, x.2.isNotified = false) :
    wakers (a ++ m ++ b) m.length = m.flatMap fun x => x.2.wakers := by
  have hfa : a.filter (fun x => !x.2.isNotified) = [] :=
    List.filter_eq_nil_iff.mpr fun x hx => by rw [ha x hx]; exact nofun
  have hfm : m.filter (fun x => !x.2.isNotified) = m :=
    List.filter_eq_self.mpr fun x hx => by rw [hm x hx]; rfl
  rw [wakers, List.filter_append, List.filter_append, hfa, hfm, List.nil_append,
    List.take_left]

theorem notify_split {n : Notification σ T} (hq : q.NotifiedPrefix) (s : σ) :
    ∃ a m b, q = a ++ m ++ b ∧ m.length = q.reach n.isAdditional n.count ∧
      (∀ x ∈ a, x.2.isNotified = true) ∧ (∀ x ∈ m, x.2.isNotified = false) ∧
      (∀ x ∈ b, x.2.isNotified = false) ∧
      (q.notify n s).event = a ++ mark n.isAdditional m (n.produce m.length s).1 ++ b ∧
      (q.notify n s).woken = m.flatMap fun x => x.2.wakers := by
  obtain ⟨a, m, b, rfl, hlen, ha, hm, hb⟩ := split_reach hq (q.reach_le n.isAdditional n.count)
  refine ⟨a, m, b, rfl, hlen, ha, hm, hb, ?_, ?_⟩
  · show assign _ _ _ = _
    rw [← hlen, List.append_assoc, assign_append_notified ha,
      assign_waiting hm (n.length_produce ..), List.append_assoc]
  · show wakers _ _ = _
    rw [← hlen]
    exact wakers_split ha hm

end Queue

/-! ## Who was polled -/

namespace EventTags

variable {T W : Type}

/-- What a step says about the polls of the listener at `p` since its
insertion: it is inserted, and not polled yet, or it is polled. -/
def pollOf (p : Ptr) : Sys T W × Op T W → Option (Option W)
  | (s, .listen p') => if p' = p ∧ p ∉ s.queue.ids then some none else none
  | (_, .poll p' w) => if p' = p then some (some w) else none
  | (_, .notify _ _) => none
  | (_, .drop _) => none

/-- The waker of the latest poll of the listener at `p` since it was
inserted. -/
def lastPoll (tr : List (Sys T W × Op T W)) (p : Ptr) : Option W :=
  (System.latest (pollOf p) tr).join

section Polled

variable [WillWake W] {tr : List (Sys T W × Op T W)} {s : Sys T W}

/-- A listener that is not notified keeps the waker of its latest poll, or
one that wakes the same task. -/
def Keeps (w : Option W) : State T W → Prop
  | .created => w = none
  | .waiting task => ∃ w', w = some w' ∧ (task = w' ∨ willWake task w' = true)
  | .notified _ _ => True

omit [WillWake W] in
theorem lastPoll_none {p : Ptr} {op : Op T W} (h : pollOf p (s, op) = none) :
    lastPoll (tr ++ [(s, op)]) p = lastPoll tr p :=
  congrArg Option.join (System.latest_of_none h tr)

omit [WillWake W] in
theorem lastPoll_some {p : Ptr} {op : Op T W} {w : Option W} (h : pollOf p (s, op) = some w) :
    lastPoll (tr ++ [(s, op)]) p = w :=
  congrArg Option.join (System.latest_of_some h tr)

theorem keeps_apply (h : ∀ x ∈ s.queue, Keeps (lastPoll tr x.1) x.2) (op : Op T W) :
    ∀ x ∈ (s.apply op).queue, Keeps (lastPoll (tr ++ [(s, op)]) x.1) x.2 := by
  intro x hx
  cases op with
  | listen p =>
      have hx : x ∈ s.queue.listen p := (s.event.queue_listen p) ▸ hx
      rw [Queue.listen] at hx
      split at hx
      · rename_i hp
        have hnone : pollOf x.1 (s, .listen p) = none := if_neg fun hc => hc.2 (hc.1 ▸ hp)
        rw [lastPoll_none hnone]
        exact h x hx
      · rename_i hp
        rcases List.mem_append.mp hx with hx | hx
        · have hnone : pollOf x.1 (s, .listen p) = none :=
            if_neg fun hc => hc.2 (Queue.mem_ids_of_mem hx)
          rw [lastPoll_none hnone]
          exact h x hx
        · obtain rfl := List.mem_singleton.mp hx
          exact lastPoll_some (if_pos ⟨rfl, hp⟩)
  | poll p w =>
      have hx : x ∈ (s.queue.poll p w).1 := (s.event.queue_poll p w) ▸ hx
      rcases s.queue.polled_poll p w x hx with ⟨hx, hne⟩ | ⟨w', hw, rfl⟩
      · have hnone : pollOf x.1 (s, .poll p w) = none := if_neg fun he => hne he.symm
        rw [lastPoll_none hnone]
        exact h x hx
      · exact ⟨w, lastPoll_some (if_pos rfl), hw⟩
  | notify n t =>
      have hx : x ∈ (s.queue.notify n t).event := (s.event.queue_notify n t) ▸ hx
      rw [lastPoll_none rfl]
      rcases Queue.mem_notify hx with hx | ⟨y, -, -, ⟨tag, rfl⟩, -⟩
      · exact h x hx
      · trivial
  | drop p =>
      have hx : x ∈ (s.queue.drop p).event := (s.event.queue_drop p) ▸ hx
      rw [lastPoll_none rfl]
      rcases Queue.mem_drop hx with hx | ⟨y, -, -, -, ⟨tag, b, t', -, rfl⟩, -⟩
      · exact h x hx.1
      · trivial

theorem keeps_run (h : system.Run tr s) : ∀ x ∈ s.queue, Keeps (lastPoll tr x.1) x.2 := by
  refine h.history (I := fun tr s => ∀ x ∈ s.queue, Keeps (lastPoll tr x.1) x.2) ?_ ?_
  · rintro s rfl x hx
    rw [show (Sys.init : Sys T W).queue = [] from Event.queue_new] at hx
    cases hx
  · intro tr s op s' _ hs hstep
    cases hstep
    exact keeps_apply hs op

/-- The wakers of listeners that are not notified are those of their
latest polls. -/
theorem wakers_of_polls {m : Queue T W} (hm : ∀ x ∈ m, x.2.isNotified = false)
    (h : ∀ x ∈ m, Keeps (lastPoll tr x.1) x.2) :
    List.Forall₂ (fun w task => task = w ∨ willWake task w = true)
      (m.filterMap fun x => lastPoll tr x.1) (m.flatMap fun x => x.2.wakers) := by
  induction m with
  | nil => exact .nil
  | cons x m ih =>
      have ih := ih (fun y hy => hm y (List.mem_cons_of_mem _ hy))
        fun y hy => h y (List.mem_cons_of_mem _ hy)
      obtain ⟨p, st⟩ := x
      have hx := h _ (List.mem_cons_self ..)
      cases st with
      | created =>
          have hx : lastPoll tr p = none := hx
          rw [List.filterMap_cons, List.flatMap_cons, hx]
          exact ih
      | waiting task =>
          obtain ⟨w, hw, hsame⟩ := hx
          rw [List.filterMap_cons, List.flatMap_cons, hw]
          exact .cons hsame ih
      | notified t b => cases hm _ (List.mem_cons_self ..)

/-- The effect of `notify`, of any chain over any count, on an event that
any run has led to, `a` being the listeners that are notified already. -/
theorem notify_exact {σ : Type} (h : system.Run tr s) (c : Chain σ T) (st : σ) :
    ∃ a m b,
      s.queue = a ++ m ++ b ∧ (∀ x ∈ a, x.2.isNotified = true) ∧
      (∀ x ∈ m ++ b, x.2.isNotified = false) ∧
      m.length = (if c.hasAdditional then min c.count s.queue.numWaiting
        else min (c.count - s.queue.numNotified) s.queue.numWaiting) ∧
      (s.event.notify c.notification st).count = m.length ∧
      (s.event.notify c.notification st).event.queue =
        a ++ Queue.mark c.hasAdditional m (calls c.nextTag m.length st).1 ++ b ∧
      (s.event.notify c.notification st).producer = (calls c.nextTag m.length st).2 ∧
      (s.event.notify c.notification.counted (st, 0)).producer =
        ((calls c.nextTag m.length st).2, m.length) ∧
      List.Forall₂ (fun w task => task = w ∨ willWake task w = true)
        (m.filterMap fun x => lastPoll tr x.1) (s.event.notify c.notification st).woken := by
  obtain ⟨a, m, b, hq, hlen, ha, hm, hb, hevent, hwoken⟩ :=
    Queue.notify_split (n := c.notification) s.event.notifiedPrefix st
  have hcalls : c.notification.produce m.length st = calls c.nextTag m.length st :=
    produce_eq_calls c.notification_next m.length st
  have hkeeps : ∀ x ∈ m, Keeps (lastPoll tr x.1) x.2 := by
    intro x hx
    refine keeps_run h x ?_
    show x ∈ s.event.queue
    rw [hq]
    exact List.mem_append_left _ (List.mem_append_right _ hx)
  refine ⟨a, m, b, hq, ha, List.forall_mem_append.mpr ⟨hm, hb⟩, ?_, ?_, ?_, ?_, ?_, ?_⟩
  · rw [hlen, Queue.reach, c.notification_count, c.notification_isAdditional]
    split
    · rfl
    · rfl
  · rw [Event.notify_count]
    exact hlen.symm
  · rw [Event.queue_notify, hevent, hcalls, c.notification_isAdditional]
  · rw [Event.notify_producer, ← hcalls, hlen]
    rfl
  · rw [Event.notify_producer, ← hcalls]
    refine (congrArg Prod.snd (produce_counted c.notification _ st 0)).trans ?_
    rw [Nat.zero_add, hlen]
    rfl
  · rw [Event.notify_woken, hwoken]
    exact wakers_of_polls hm hkeeps

end Polled

/-- The listeners 1 and 3 were polled, 1 twice, and 2 was not. -/
def polledAndListening : List (Op Nat Nat) := [.poll 1 10, .listen 2, .poll 3 30, .poll 1 11]

theorem exec_polledAndListening :
    (exec (fun s op => some (Sys.apply s op)) .init polledAndListening).map
      (fun s : Sys Nat Nat => s.queue) =
        some [(1, .waiting 11), (2, .created), (3, .waiting 30)] := by
  decide

/-- Two tags, of which the second goes to the listener that was not polled. -/
theorem notify_exact_polled :
    ∃ (s : Sys Nat Nat) (a m b : Queue Nat Nat),
      s.queue = a ++ m ++ b ∧
      (s.event.notify ((Chain.notify 2).tagWith fun n => (n, n + 1)).additional.notification
        7).count = m.length ∧
      List.Forall₂ (fun w task => task = w ∨ willWake task w = true)
        (m.filterMap fun x => lastPoll (execTrace (fun s op => some (Sys.apply s op)) .init
          polledAndListening) x.1)
        (s.event.notify ((Chain.notify 2).tagWith fun n => (n, n + 1)).additional.notification
          7).woken := by
  obtain ⟨s, hrun, -⟩ := run_of_observe _ _ _ exec_polledAndListening
  obtain ⟨a, m, b, hq, -, -, -, hcount, -, -, -, hwoken⟩ :=
    notify_exact hrun ((Chain.notify 2).tagWith fun n => (n, n + 1)).additional 7
  exact ⟨s, a, m, b, hq, hcount, hwoken⟩

end EventTags

end Unsend

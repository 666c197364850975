import Unsend.EventRules

/-!
# A notification that is cut short by a panic

`Inner::notify` calls code of its users in the middle of its loop: the
tag producer, when the cursor has moved on and the entry is not notified
yet, and a waker, when the entry is notified and not counted yet. Where
such a call panics and the panic is caught, the event is left behind as
it is then.

`notifyPanicking` is `notify` with one call that panics, given by its
number among the calls of its kind; where that call is not made it is
`notify` (`notifyPanicking_cases`). `panics_intact_iff` states that the
event is never left intact by a call that panics.
-/

namespace Unsend

/-- A call of user code in the loop: the `i`-th call of `next_tag`, which
is a closure's or a tag's `clone`, or of a waker's `wake`. -/
inductive UserCall where
  | nextTag (i : Nat)
  | wake (i : Nat)
  deriving DecidableEq

namespace Heap

variable {σ T W : Type}

/-- The loop of `Inner::notify` with one call that panics, where `tags`
and `wakes` calls have been made before; with the event that is left
behind, whether it has panicked. -/
def notifyLoopPanicking (n : Notification σ T) (panics : UserCall) :
    Nat → Heap T W → σ → (tags wakes : Nat) → Heap T W × Bool
  | 0, h, _, _, _ => (h, false)
  | count + 1, h, s, tags, wakes =>
      match h.first with
      | none => (h, false)
      | some e =>
          let state := (h.listeners e).entry.state
          let h := h.advance e
          if panics = .nextTag tags then (h, true)
          else
            let (tag, s) := n.next s
            let h := h.setState e (.notified tag n.isAdditional)
            if state.wakers ≠ [] ∧ panics = .wake wakes then (h, true)
            else notifyLoopPanicking n panics count h.bump s (tags + 1)
              (wakes + state.wakers.length)

def notifyInnerPanicking (h : Heap T W) (n : Notification σ T) (s : σ) (panics : UserCall) :
    Heap T W × Bool :=
  if n.isAdditional then notifyLoopPanicking n panics n.count h s 0 0
  else if n.count ≤ h.notified then (h, false)
  else notifyLoopPanicking n panics (n.count - h.notified) h s 0 0

/-- `Event::notify`. -/
def notifyPanicking (h : Heap T W) (n : Notification σ T) (s : σ) (panics : UserCall) :
    Heap T W × Bool :=
  if n.isAdditional then
    if h.len = 0 then (h, false) else h.notifyInnerPanicking n s panics
  else
    if h.notified > n.count then (h, false) else h.notifyInnerPanicking n s panics

/-- `notified` is the number of listeners that are notified, and `first` is
the first one that is not. -/
structure Intact (h : Heap T W) : Prop where
  notified : h.notified = h.view.numNotified
  first : h.first = h.view.firstWaiting

end Heap

/-- The call is made, where `tags` to `tags'` and `wakes` to `wakes'` are. -/
def UserCall.Among (tags tags' wakes wakes' : Nat) : UserCall → Prop
  | nextTag i => tags ≤ i ∧ i < tags'
  | wake i => wakes ≤ i ∧ i < wakes'

/-- The call is made by this notification, to the listeners that it
reaches. -/
def Queue.Makes {σ T W : Type} (q : Queue T W) (n : Notification σ T) (call : UserCall) : Prop :=
  call.Among 0 (q.reach n.isAdditional n.count) 0
    (q.wakers (q.reach n.isAdditional n.count)).length

section Unwind

variable {σ T W : Type} {h : Heap T W} {q a b : Queue T W} {p : Ptr} {st : State T W}
  {n : Notification σ T} {panics : UserCall}

theorem Repr.intact (hr : Repr h q) : h.Intact := by
  have hview := hr.view_eq
  refine ⟨?_, ?_⟩
  · rw [hview]
    exact hr.notified
  · rw [hview]
    exact hr.first

/-! ## What a panic leaves behind -/

/-- The tag producer panics: the cursor has moved past a listener that is
not notified. -/
theorem not_intact_advance (hr : Repr h (a ++ (p, st) :: b)) (hf : h.first = some p) :
    ¬ (h.advance p).Intact := by
  intro hi
  have hview : (h.advance p).view = a ++ (p, st) :: b := hr.view_eq
  have hfirst : h.nextOf p = some p := by
    have := hi.first
    rw [hview, ← hr.first, hf] at this
    exact this
  have hseg := hr.seg
  have hnd := hr.nodup
  rw [Queue.ids_append, Queue.ids_cons] at hseg hnd
  have hnext : h.nextOf p = b.ids.head? := by simpa using (Links.seg_append.mp hseg).2.2.1
  have hmem : p ∈ b.ids := List.mem_of_mem_head? (hnext.symm.trans hfirst)
  exact (List.nodup_cons.mp (List.nodup_append.mp hnd).2.1).1 hmem

/-- A waker panics: a listener that is notified is not counted. -/
theorem not_intact_setState (hr : Repr h (a ++ (p, st) :: b))
    (ha : ∀ x ∈ a, x.2.isNotified = true) (hst : st.isNotified = false) (t : T) (flag : Bool) :
    ¬ ((h.advance p).setState p (.notified t flag)).Intact := by
  intro hi
  have hr1 := (repr_mark hr ha hst t flag).2
  have hview : ((h.advance p).setState p (.notified t flag)).view =
      a ++ (p, .notified t flag) :: b := hr1.view_eq
  have h1 := hi.notified
  have h2 := hr1.notified
  rw [hview] at h1
  rw [← h1] at h2
  exact (Nat.succ_ne_self _) h2

/-! ## The loop -/

theorem length_wakers_le (st : State T W) : st.wakers.length ≤ 1 := by
  cases st with
  | created => exact Nat.zero_le 1
  | waiting w => exact Nat.le_refl 1
  | notified t b => exact Nat.zero_le 1

theorem among_zero (tags wakes : Nat) : ¬ panics.Among tags (tags + 0) wakes (wakes + 0) := by
  cases panics with
  | nextTag i => exact fun hc => Nat.not_lt.mpr hc.1 hc.2
  | wake i => exact fun hc => Nat.not_lt.mpr hc.1 hc.2

/-- The calls of a turn that does not panic are not the one that does. -/
theorem among_succ {tags tags' wakes wakes' : Nat} (ht : panics ≠ .nextTag tags)
    (hw : ∀ i, wakes ≤ i → i < wakes' → panics ≠ .wake i) {wakes'' : Nat}
    (hle : wakes ≤ wakes') :
    panics.Among tags tags' wakes wakes'' ↔ panics.Among (tags + 1) tags' wakes' wakes'' := by
  cases panics with
  | nextTag i =>
      have hne : i ≠ tags := fun he => ht (by rw [he])
      simp only [UserCall.Among]
      omega
  | wake i =>
      have hge : wakes ≤ i → wakes' ≤ i := fun h1 => Nat.not_lt.mp fun h2 => hw i h1 h2 rfl
      simp only [UserCall.Among]
      omega

/-- The loop makes the call and leaves an event that is not intact, or it
does what it does without the panic. -/
theorem notifyLoopPanicking_cases (n : Notification σ T) (panics : UserCall) (count : Nat) (s : σ)
    (tags wakes : Nat) (hr : Repr h (a ++ b)) (ha : ∀ x ∈ a, x.2.isNotified = true)
    (hb : ∀ x ∈ b, x.2.isNotified = false) :
    let out := Heap.notifyLoopPanicking n panics count h s tags wakes
    let calls := panics.Among tags (tags + min count b.length) wakes
      (wakes + ((b.take (min count b.length)).flatMap fun x => x.2.wakers).length)
    (calls ∧ out.2 = true ∧ ¬ out.1.Intact) ∨
      (¬ calls ∧ out.2 = false ∧ ∃ r,
        Heap.notifyLoop n.toNotificationSealed count h s = .ok r ∧ r.event = out.1) := by
  induction count generalizing h a b s tags wakes with
  | zero =>
      refine .inr ⟨?_, rfl, ⟨h, s, 0, []⟩, rfl, rfl⟩
      rw [Nat.zero_min]
      exact among_zero tags wakes
  | succ count ih =>
      cases b with
      | nil =>
          have hf : h.first = none := by
            rw [hr.first, List.append_nil]
            exact Queue.firstWaiting_eq_none.mpr ha
          rw [Heap.notifyLoopPanicking, Heap.notifyLoop, hf, List.length_nil, Nat.min_zero]
          exact .inr ⟨among_zero tags wakes, rfl, ⟨h, s, 0, []⟩, rfl, rfl⟩
      | cons x b =>
          obtain ⟨p, st⟩ := x
          have hst : st.isNotified = false := hb _ (List.mem_cons_self ..)
          obtain ⟨hf, hr1⟩ := repr_mark hr ha hst (n.next s).1 n.isAdditional
          have hstate : (h.listeners p).entry.state = st :=
            hr.state p st (List.mem_append_right a (List.mem_cons_self ..))
          have hk : min (count + 1) ((p, st) :: b).length = min count b.length + 1 :=
            Nat.add_min_add_right ..
          rw [hk, List.take_succ_cons, List.flatMap_cons, List.length_append,
            Heap.notifyLoopPanicking, hf]
          simp only [hstate]
          by_cases ht : panics = .nextTag tags
          · -- `next_tag` panics.
            rw [if_pos ht]
            refine .inl ⟨?_, rfl, not_intact_advance hr hf⟩
            rw [ht]
            exact ⟨Nat.le_refl _, Nat.lt_add_of_pos_right (Nat.succ_pos _)⟩
          · rw [if_neg ht]
            by_cases hw : st.wakers ≠ [] ∧ panics = .wake wakes
            · -- The waker panics.
              rw [if_pos hw]
              refine .inl ⟨?_, rfl, not_intact_setState hr ha hst _ _⟩
              have hpos := List.length_pos_of_ne_nil hw.1
              rw [hw.2]
              exact ⟨Nat.le_refl _, by omega⟩
            · rw [if_neg hw]
              have hwakes :
                  ∀ i, wakes ≤ i → i < wakes + st.wakers.length → panics ≠ .wake i := by
                intro i h1 h2 hi
                have hone := length_wakers_le st
                have hi' : i = wakes := by omega
                refine hw ⟨fun hnil => ?_, hi' ▸ hi⟩
                rw [hnil] at h2
                exact Nat.not_lt.mpr h1 h2
              rw [List.append_cons] at hr1
              have hrec := ih (n.next s).2 (tags + 1) (wakes + st.wakers.length) hr1
                (List.forall_mem_append.mpr ⟨ha, List.forall_mem_singleton.mpr rfl⟩)
                fun y hy => hb y (List.mem_cons_of_mem _ hy)
              rw [among_succ ht hwakes (Nat.le_add_right ..), Nat.add_comm (min count b.length) 1,
                ← Nat.add_assoc tags, ← Nat.add_assoc wakes]
              refine hrec.imp_right ?_
              rintro ⟨hcalls, hout, r, hloop, hevent⟩
              refine ⟨hcalls, hout,
                ⟨r.event, r.producer, r.count + 1, st.wakers ++ r.woken⟩, ?_, hevent⟩
              rw [Heap.notifyLoop, hf]
              simp only [hstate, n.nextTag_eq, ok_bind, hloop]

/-- Where no listener is reached no call is made. -/
theorem not_makes_of_reach_zero (h0 : q.reach n.isAdditional n.count = 0) :
    ¬ q.Makes n panics := by
  unfold Queue.Makes
  rw [h0]
  exact among_zero 0 0

theorem notifyInnerPanicking_cases (n : Notification σ T) (panics : UserCall) (hr : Repr h q)
    (s : σ) :
    let out := h.notifyInnerPanicking n s panics
    (q.Makes n panics ∧ out.2 = true ∧ ¬ out.1.Intact) ∨
      (¬ q.Makes n panics ∧ out.2 = false ∧ ∃ r,
        h.notifyInner n.toNotificationSealed s = .ok r ∧ r.event = out.1) := by
  obtain ⟨a, b, rfl, ha, hb⟩ := hr.notifiedPrefix.split
  obtain ⟨hfb, hnw⟩ := Queue.waiting_append ha hb
  have hloop := fun count => notifyLoopPanicking_cases n panics count s 0 0 hr ha hb
  unfold Heap.notifyInnerPanicking Heap.notifyInner
  cases hadd : n.isAdditional with
  | true =>
      have hmakes : (a ++ b).Makes n panics ↔ panics.Among 0 (0 + min n.count b.length) 0
          (0 + ((b.take (min n.count b.length)).flatMap fun x => x.2.wakers).length) := by
        simp only [Queue.Makes, Queue.reach, Queue.wakers, hadd, hfb, hnw, if_true, Nat.zero_add]
      rw [if_pos rfl, if_pos rfl, hmakes]
      exact hloop n.count
  | false =>
      rw [if_neg Bool.false_ne_true, if_neg Bool.false_ne_true]
      by_cases hle : n.count ≤ h.notified
      · rw [if_pos hle, if_pos hle]
        refine .inr ⟨not_makes_of_reach_zero ?_, rfl, _, rfl, rfl⟩
        rw [hr.notified] at hle
        simp only [Queue.reach, hadd, Bool.false_eq_true, if_false]
        omega
      · have hmakes : (a ++ b).Makes n panics ↔
            panics.Among 0 (0 + min (n.count - h.notified) b.length) 0
              (0 + ((b.take (min (n.count - h.notified) b.length)).flatMap
                fun x => x.2.wakers).length) := by
          simp only [Queue.Makes, Queue.reach, Queue.wakers, hadd, hfb, hnw, Bool.false_eq_true,
            if_false, Nat.zero_add, ← hr.notified]
        rw [if_neg hle, if_neg hle, hmakes]
        exact hloop (n.count - h.notified)

/-- The same of the whole of `notify`. -/
theorem notifyPanicking_cases (n : Notification σ T) (panics : UserCall) (hr : Repr h q) (s : σ) :
    let out := h.notifyPanicking n s panics
    (q.Makes n panics ∧ out.2 = true ∧ ¬ out.1.Intact) ∨
      (¬ q.Makes n panics ∧ out.2 = false ∧ ∃ r,
        h.notify n.toNotificationSealed s = .ok r ∧ r.event = out.1) := by
  have hinner := notifyInnerPanicking_cases n panics hr s
  unfold Heap.notifyPanicking Heap.notify
  cases hadd : n.isAdditional with
  | true =>
      rw [if_pos rfl, if_pos rfl]
      by_cases hlen : h.len = 0
      · rw [if_pos hlen, if_pos hlen]
        refine .inr ⟨not_makes_of_reach_zero ?_, rfl, _, rfl, rfl⟩
        have := q.length_eq_add
        rw [hr.len] at hlen
        simp only [Queue.reach]
        omega
      · rw [if_neg hlen, if_neg hlen]
        exact hinner
  | false =>
      rw [if_neg Bool.false_ne_true, if_neg Bool.false_ne_true]
      by_cases hgt : h.notified > n.count
      · rw [if_pos hgt, if_pos hgt]
        refine .inr ⟨not_makes_of_reach_zero ?_, rfl, _, rfl, rfl⟩
        rw [hr.notified] at hgt
        simp only [Queue.reach, hadd, Bool.false_eq_true, if_false]
        omega
      · rw [if_neg hgt, if_neg hgt]
        exact hinner

/-- The call that panics is made or it is not, and a notification that
makes it does not leave the event intact. -/
theorem panics_intact_iff (e : Event T W) (n : Notification σ T) (s : σ) (panics : UserCall) :
    ((e.heap.notifyPanicking n s panics).2 = true ↔ e.queue.Makes n panics) ∧
      ((e.heap.notifyPanicking n s panics).1.Intact ↔ ¬ e.queue.Makes n panics) := by
  rcases notifyPanicking_cases n panics e.repr s with
    ⟨hmakes, hpanicked, hbroken⟩ | ⟨hmakes, hreturned, r, hr, hevent⟩
  · exact ⟨iff_of_true hpanicked hmakes, iff_of_false hbroken (not_not_intro hmakes)⟩
  · refine ⟨iff_of_false ?_ hmakes, iff_of_true ?_ hmakes⟩
    · rw [hreturned]
      exact Bool.false_ne_true
    · obtain ⟨h', hn, hr'⟩ := repr_notify e.repr n s
      cases hr.symm.trans hn
      rw [← hevent]
      exact hr'.intact

end Unwind

/-- The waker of the only listener panics, and the drop of this listener
underflows the counter. -/
theorem wake_panics_underflow :
    let out :=
      ((Event.new : Event Unit Nat).poll 1 10).1.heap.notifyPanicking (Notify 1) () (.wake 0)
    out.2 = true ∧ ¬ out.1.Intact ∧ out.1.drop 1 = .error .underflow := by
  refine ⟨rfl, fun hi => ?_, rfl⟩
  have := hi.notified
  revert this
  decide

end Unsend

import Unsend.EventRules

/-!
# Futures that wait in a loop

`acquire`, `read`, `write` and `recv` are one async function with
different insides: create a listener, then

    loop {
        if let Some(out) = attempt() { return out; }
        if let Some(out) = accept(listener.await) { return out; }
    }

where the locks accept no tag. `WaitLoop` names the two insides; `poll`
runs the future from where it was left to its next suspension point or
to its end. The loop goes around at most once more in one poll, because
a listener that has just been inserted is never notified
(`loop_isSome`): no bound is lost by running it with fuel.

`poll_start`, `poll_resume_waiting` and `poll_resume_notified` say what one
poll does to the queue and to the shared state the attempt works on.
-/

namespace Unsend

/-- Where an `async fn` has been left. -/
inductive Stage where
  | unresumed
  | suspended
  | returned
  deriving DecidableEq

/-- A future that is not resumed yet has no listener in the queue, a
suspended one has. -/
def Stage.CanPoll {T W : Type} (stage : Stage) (p : Ptr) (q : Queue T W) : Prop :=
  (stage = .unresumed ∧ p ∉ q.ids) ∨ (stage = .suspended ∧ p ∈ q.ids)

/-- Where a poll leaves an `async fn`. -/
def Poll.stage {A : Type} : Poll A → Stage
  | .pending => .suspended
  | .ready _ => .returned

/-- The insides of a waiting loop over shared state `S`. -/
structure WaitLoop (S A T : Type) where
  attempt : S → Option (A × S)
  accept : T → Option A

/-- What one poll of a waiting future leaves behind. -/
structure WaitOut (S A T W : Type) where
  event : Event T W
  shared : S
  result : Poll A
  woken : List W

/-- The same without the heap. -/
def WaitOut.view {S A T W : Type} (out : WaitOut S A T W) :
    Queue T W × S × Poll A × List W :=
  (out.event.queue, out.shared, out.result, out.woken)

namespace WaitLoop

variable {S A T W : Type} [WillWake W] (b : WaitLoop S A T) (p : Ptr) (w : W)

/-- `return`, which drops the listener. -/
def finish (e : Event T W) (s : S) (a : A) : WaitOut S A T W :=
  let out := e.drop p
  ⟨out.event, s, .ready a, out.woken⟩

/-- `listener.await`, going on with `next` if the tag is not accepted. -/
def await (next : Event T W → S → Option (WaitOut S A T W)) (e : Event T W) (s : S) :
    Option (WaitOut S A T W) :=
  match e.poll p w with
  | (e, .pending) => some ⟨e, s, .pending, []⟩
  | (e, .ready tag) =>
      match b.accept tag with
      | some a => some (finish p e s a)
      | none => next e s

def loop : Nat → Event T W → S → Option (WaitOut S A T W)
  | 0, _, _ => none
  | fuel + 1, e, s =>
      match b.attempt s with
      | some (a, s) => some (finish p e s a)
      | none => b.await p w (loop fuel) e s

/-! ## The loop ends -/

section Ends

variable {b p w} {e : Event T W} {s : S}

theorem loop_succ_of_absent (fuel : Nat) (hp : p ∉ e.queue.ids) :
    (b.loop p w (fuel + 1) e s).isSome = true := by
  rw [loop]
  cases b.attempt s with
  | some r => rfl
  | none =>
      have hpend : (e.poll p w).2 = .pending := by
        rw [Event.poll_result, Queue.poll_absent hp]
      obtain ⟨e', he⟩ : ∃ e', e.poll p w = (e', .pending) := ⟨_, Prod.ext rfl hpend⟩
      simp only [await, he]
      rfl

/-- A listener that was polled to its end is no longer in the list. -/
theorem absent_of_ready {e' : Event T W} {tag : T} (h : e.poll p w = (e', .ready tag)) :
    p ∉ e'.queue.ids := by
  have hq : e'.queue = (e.queue.poll p w).1 := by rw [← Event.queue_poll, h]
  have hr : (e.queue.poll p w).2 = .ready tag := by rw [← Event.poll_result, h]
  cases hp : e.queue.stateOf p with
  | none =>
      rw [Queue.poll_absent (Queue.stateOf_eq_none.mp hp)] at hr
      cases hr
  | some st =>
      cases hst : st.isNotified with
      | false =>
          obtain ⟨w', -, he⟩ := Queue.poll_waiting (w := w) hp hst
          rw [he] at hr
          cases hr
      | true =>
          cases st with
          | created => cases hst
          | waiting task => cases hst
          | notified t b =>
              rw [hq, Queue.poll_notified hp]
              exact fun hm => (Queue.mem_ids_erase.mp hm).2 rfl

theorem await_isSome (fuel : Nat) :
    (b.await p w (b.loop p w (fuel + 1)) e s).isSome = true := by
  unfold await
  split
  · rfl
  · rename_i e' tag h
    split
    · rfl
    · exact loop_succ_of_absent fuel (absent_of_ready h)

theorem loop_isSome (fuel : Nat) : (b.loop p w (fuel + 2) e s).isSome = true := by
  rw [loop]
  cases b.attempt s with
  | some r => rfl
  | none => exact await_isSome fuel

end Ends

/-- Poll the future: from its start, or from its `await`. -/
def poll (stage : Stage) (e : Event T W) (s : S) : WaitOut S A T W :=
  match stage with
  | .unresumed => (b.loop p w 2 e s).get (loop_isSome 0)
  | _ => (b.await p w (b.loop p w 1) e s).get (await_isSome 0)

/-! ## What a poll does -/

/-- The loop from its top, as the queue sees it. -/
def enter (q : Queue T W) (s : S) : Queue T W × S × Poll A × List W :=
  match b.attempt s with
  | some (a, s) => (q, s, .ready a, [])
  | none => (q ++ [(p, .waiting w)], s, .pending, [])

section Spec

variable {b p w} {e : Event T W} {s : S}

omit [WillWake W] in
theorem finish_view (hp : p ∉ e.queue.ids) (a : A) :
    (finish p e s a).view = (e.queue, s, .ready a, []) := by
  simp [finish, WaitOut.view, Queue.drop_absent hp]

theorem loop_view {fuel : Nat} {out : WaitOut S A T W} (hp : p ∉ e.queue.ids)
    (h : b.loop p w (fuel + 1) e s = some out) : out.view = b.enter p w e.queue s := by
  rw [loop] at h
  unfold enter
  cases ha : b.attempt s with
  | some r =>
      rw [ha] at h
      cases h
      exact finish_view hp r.1
  | none =>
      rw [ha] at h
      have hpoll := Queue.poll_absent (w := w) hp
      have hq := e.queue_poll p w
      have hr := e.poll_result p w
      rw [hpoll] at hq hr
      simp only [await] at h
      split at h
      · rename_i e' he
        cases h
        rw [he] at hq
        simp [WaitOut.view, hq]
      · rename_i e' tag he
        rw [he] at hr
        cases hr

theorem poll_start (hp : p ∉ e.queue.ids) :
    (b.poll p w .unresumed e s).view = b.enter p w e.queue s :=
  loop_view hp (Option.some_get _).symm

/-- Resumed before it is notified, the future only renews its waker. -/
theorem poll_resume_waiting {st : State T W} (hp : e.queue.stateOf p = some st)
    (hst : st.isNotified = false) :
    ∃ w', (w' = w ∨ willWake w' w = true) ∧ (b.poll p w .suspended e s).view =
      (e.queue.setState p (.waiting w'), s, .pending, []) := by
  obtain ⟨w', hw, hpoll⟩ := Queue.poll_waiting (w := w) hp hst
  have hq := e.queue_poll p w
  have hr := e.poll_result p w
  rw [hpoll] at hq hr
  refine ⟨w', hw, ?_⟩
  have h : b.await p w (b.loop p w 1) e s = some (b.poll p w .suspended e s) :=
    (Option.some_get _).symm
  simp only [await] at h
  split at h
  · rename_i e' he
    rw [he] at hq
    rw [← Option.some.inj h]
    simp [WaitOut.view, hq]
  · rename_i e' tag he
    rw [he] at hr
    cases hr

/-- Resumed with a tag, the future leaves the list; it returns if it
accepts the tag and starts over if not. -/
theorem poll_resume_notified {t : T} {c : Bool}
    (hp : e.queue.stateOf p = some (.notified t c)) :
    (b.poll p w .suspended e s).view =
      match b.accept t with
      | some a => (e.queue.erase p, s, .ready a, [])
      | none => b.enter p w (e.queue.erase p) s := by
  have hpoll := Queue.poll_notified (w := w) hp
  have hq := e.queue_poll p w
  have hr := e.poll_result p w
  rw [hpoll] at hq hr
  have h : b.await p w (b.loop p w 1) e s = some (b.poll p w .suspended e s) :=
    (Option.some_get _).symm
  simp only [await] at h
  split at h
  · rename_i e' he
    rw [he] at hr
    cases hr
  · rename_i e' tag he
    have habs := absent_of_ready he
    rw [he] at hq hr
    cases hr
    rw [← show e'.queue = e.queue.erase p from hq]
    split at h
    · rename_i a ha
      rw [← Option.some.inj h]
      exact finish_view habs a
    · rename_i ha
      exact loop_view habs h

/-- The three ways to poll a future that has not returned. -/
theorem poll_cases {stage : Stage} (hs : stage.CanPoll p e.queue) :
    (p ∉ e.queue.ids ∧ (b.poll p w stage e s).view = b.enter p w e.queue s) ∨
    (∃ st w', e.queue.stateOf p = some st ∧ st.isNotified = false ∧
      (w' = w ∨ willWake w' w = true) ∧
      (b.poll p w stage e s).view = (e.queue.setState p (.waiting w'), s, .pending, [])) ∨
    (∃ t c, e.queue.stateOf p = some (.notified t c) ∧ (b.poll p w stage e s).view =
      match b.accept t with
      | some a => (e.queue.erase p, s, .ready a, [])
      | none => b.enter p w (e.queue.erase p) s) := by
  rcases hs with ⟨rfl, hp⟩ | ⟨rfl, hp⟩
  · exact .inl ⟨hp, poll_start hp⟩
  · obtain ⟨st, hm⟩ := Queue.mem_ids.mp hp
    have hp := (Queue.stateOf_eq_some e.nodup).mpr hm
    cases hst : st.isNotified with
    | false =>
        obtain ⟨w', hw, hv⟩ := poll_resume_waiting (b := b) (w := w) (s := s) hp hst
        exact .inr (.inl ⟨st, w', hp, hst, hw, hv⟩)
    | true =>
        cases st with
        | created => cases hst
        | waiting task => cases hst
        | notified t c => exact .inr (.inr ⟨t, c, hp, poll_resume_notified hp⟩)

/-- A waiting future wakes nobody. -/
theorem poll_woken {stage : Stage} (hs : stage.CanPoll p e.queue) :
    (b.poll p w stage e s).woken = [] := by
  have hent : ∀ q : Queue T W, (b.enter p w q s).2.2.2 = [] := by
    intro q
    unfold enter
    cases b.attempt s with
    | some r => rfl
    | none => rfl
  have hv : (b.poll p w stage e s).view.2.2.2 = [] := by
    rcases poll_cases (b := b) (w := w) (s := s) hs with
      ⟨-, hv⟩ | ⟨st, w', -, -, -, hv⟩ | ⟨t, c, -, hv⟩
    · rw [hv, hent]
    · rw [hv]
    · rw [hv]
      cases b.accept t with
      | some a => rfl
      | none => exact hent _
  exact hv

omit [WillWake W] in
theorem mem_ids_enter {q : Queue T W} (hp : p ∉ q.ids) (r : Ptr) :
    r ∈ (b.enter p w q s).1.ids ↔
      if r = p then (b.enter p w q s).2.2.1 = .pending else r ∈ q.ids := by
  unfold enter
  cases b.attempt s with
  | some a =>
      by_cases hr : r = p
      · subst hr; simp [hp]
      · simp [hr]
  | none =>
      by_cases hr : r = p
      · simp [hr]
      · simp [hr]

/-- A future is in the list after a poll exactly if it is still pending;
the others stay where they are. -/
theorem mem_ids_poll {stage : Stage} (hs : stage.CanPoll p e.queue) (r : Ptr) :
    r ∈ (b.poll p w stage e s).view.1.ids ↔
      if r = p then (b.poll p w stage e s).view.2.2.1 = .pending else r ∈ e.queue.ids := by
  have herase : ∀ {r}, r ≠ p → (r ∈ (e.queue.erase p).ids ↔ r ∈ e.queue.ids) :=
      fun hr => by
    rw [Queue.mem_ids_erase, and_iff_left hr]
  rcases poll_cases (b := b) (w := w) (s := s) hs with
    ⟨hp, hv⟩ | ⟨st, w', hp, hst, -, hv⟩ | ⟨t, c, hp, hv⟩
  · rw [hv]
    exact mem_ids_enter hp r
  · rw [hv]
    have hids := (Queue.setState_waiting e.nodup hp hst (isNotified_waiting w')).1
    by_cases hr : r = p
    · subst hr; simp [hids, Queue.stateOf_mem_ids hp]
    · simp [hr, hids]
  · have hpe : p ∉ (e.queue.erase p).ids := fun hm => (Queue.mem_ids_erase.mp hm).2 rfl
    rw [hv]
    cases b.accept t with
    | some a =>
        by_cases hr : r = p
        · subst hr; simpa using hpe
        · simp [hr, herase hr]
    | none =>
        have := mem_ids_enter (b := b) (w := w) (s := s) hpe r
        by_cases hr : r = p
        · subst hr; simpa using this
        · simpa [hr, herase hr] using this

omit [WillWake W] in
theorem mem_enter {q : Queue T W} {y : Ptr × State T W} (h : y ∈ (b.enter p w q s).1) :
    y ∈ q ∨ y = (p, .waiting w) := by
  unfold enter at h
  cases ha : b.attempt s with
  | some a => rw [ha] at h; exact .inl h
  | none =>
      rw [ha] at h
      exact (List.mem_append.mp h).imp_right List.mem_singleton.mp

/-- To the other listeners a poll of the future is a poll of its listener. -/
theorem polled {stage : Stage} (hs : stage.CanPoll p e.queue) :
    e.queue.Polled p w (b.poll p w stage e s).view.1 := by
  intro y hy
  rcases poll_cases (b := b) (w := w) (s := s) hs with
    ⟨hp, hv⟩ | ⟨st, w', hp, hst, hw, hv⟩ | ⟨t, c, hp, hv⟩
  · rw [hv] at hy
    rcases mem_enter hy with hy | rfl
    · exact .inl ⟨hy, fun he => hp (he ▸ Queue.mem_ids_of_mem hy)⟩
    · exact .inr ⟨w, .inl rfl, rfl⟩
  · rw [hv] at hy
    rcases Queue.mem_setState hy with hy | ⟨rfl, -⟩
    · exact .inl hy
    · exact .inr ⟨w', hw, rfl⟩
  · rw [hv] at hy
    cases ha : b.accept t with
    | some a =>
        rw [ha] at hy
        exact .inl (Queue.mem_erase.mp hy)
    | none =>
        rw [ha] at hy
        rcases mem_enter hy with hy | rfl
        · exact .inl (Queue.mem_erase.mp hy)
        · exact .inr ⟨w, .inl rfl, rfl⟩

omit [WillWake W] in
theorem enter_counts (b : WaitLoop S A T) (p : Ptr) (w : W) (q : Queue T W) (s : S) :
    let out := b.enter p w q s
    out.1.numNotified = q.numNotified ∧
    ((∃ a, b.attempt s = some (a, out.2.1) ∧ out.1.numWaiting = q.numWaiting) ∨
      (b.attempt s = none ∧ out.2.1 = s ∧ out.1.numWaiting = q.numWaiting + 1)) := by
  unfold enter
  cases ha : b.attempt s with
  | some r => exact ⟨rfl, .inl ⟨r.1, rfl, rfl⟩⟩
  | none => simp

/-- A poll of a lock's future, which accepts no tag, in numbers: a future
that is not notified yet only renews its waker; otherwise it starts its
loop over, by its first poll or by leaving the notified listeners, and
gets its guard or goes to sleep. -/
theorem poll_counts {stage : Stage} (hacc : ∀ t, b.accept t = none)
    (hs : stage.CanPoll p e.queue) :
    let out := (b.poll p w stage e s).view
    (stage = .suspended ∧ (∀ t c, e.queue.stateOf p ≠ some (.notified t c)) ∧
      out.2.1 = s ∧
      out.1.numNotified = e.queue.numNotified ∧ out.1.numWaiting = e.queue.numWaiting) ∨
    (((stage = .unresumed ∧ (∀ t c, e.queue.stateOf p ≠ some (.notified t c)) ∧
        out.1.numNotified = e.queue.numNotified) ∨
      (stage = .suspended ∧ (∃ t c, e.queue.stateOf p = some (.notified t c)) ∧
        e.queue.numNotified = out.1.numNotified + 1)) ∧
    ((∃ a, b.attempt s = some (a, out.2.1) ∧ out.1.numWaiting = e.queue.numWaiting) ∨
      (b.attempt s = none ∧ out.2.1 = s ∧
        out.1.numWaiting = e.queue.numWaiting + 1))) := by
  rcases poll_cases (b := b) (w := w) (s := s) hs with
    ⟨hp, hv⟩ | ⟨st, w', hp, hst, -, hv⟩ | ⟨t, c, hp, hv⟩
  · obtain ⟨h1, h2⟩ := b.enter_counts p w e.queue s
    rw [hv]
    refine .inr ⟨.inl ⟨?_, fun t c h => hp (Queue.stateOf_mem_ids h), h1⟩, h2⟩
    rcases hs with ⟨h, -⟩ | ⟨-, h⟩
    · exact h
    · exact (hp h).elim
  · obtain ⟨-, h2, h3, -⟩ := Queue.setState_waiting e.nodup hp hst (isNotified_waiting w')
    rw [hv]
    refine .inl ⟨?_, fun t c h => ?_, rfl, h2, h3⟩
    · rcases hs with ⟨-, h⟩ | ⟨h, -⟩
      · exact (h (Queue.stateOf_mem_ids hp)).elim
      · exact h
    · cases hp.symm.trans h
      cases hst
  · obtain ⟨h1, h2⟩ := b.enter_counts p w (e.queue.erase p) s
    obtain ⟨h3, h4, -⟩ := Queue.erase_notified e.nodup hp
    rw [hv, hacc t]
    refine .inr ⟨.inr ⟨?_, ⟨t, c, hp⟩, ?_⟩, ?_⟩
    · rcases hs with ⟨-, h⟩ | ⟨h, -⟩
      · exact (h (Queue.stateOf_mem_ids hp)).elim
      · exact h
    · rw [h3]
      exact congrArg (· + 1) h1.symm
    · rw [h4]
      exact h2

/-- What a poll of a lock's future returns, and what it does to the shared
state, is its attempt's. -/
theorem poll_attempt {stage : Stage} (hacc : ∀ t, b.accept t = none)
    (hs : stage.CanPoll p e.queue) :
    let out := (b.poll p w stage e s).view
    (out.2.2.1 = .pending ∧ out.2.1 = s) ∨
      ∃ a, b.attempt s = some (a, out.2.1) ∧ out.2.2.1 = .ready a := by
  have henter : ∀ q : Queue T W, let out := b.enter p w q s
      (out.2.2.1 = .pending ∧ out.2.1 = s) ∨
        ∃ a, b.attempt s = some (a, out.2.1) ∧ out.2.2.1 = .ready a := by
    intro q
    unfold enter
    cases b.attempt s with
    | none => exact .inl ⟨rfl, rfl⟩
    | some r => exact .inr ⟨r.1, rfl, rfl⟩
  rcases poll_cases (b := b) (w := w) (s := s) hs with
    ⟨-, hv⟩ | ⟨st, w', -, -, -, hv⟩ | ⟨t, c, -, hv⟩
  · rw [hv]
    exact henter _
  · rw [hv]
    exact .inl ⟨rfl, rfl⟩
  · rw [hv, hacc t]
    exact henter _

end Spec

end WaitLoop

/-! ## Who is in the list -/

/-- The futures of a component: what each is for and where it was left. -/
abbrev Futures (K : Type) := Ptr → Option (K × Stage)

/-- The listeners of the queue are those of the suspended futures that
wait there. -/
def Seated {K T W : Type} (futs : Futures K) (here : K → Prop) (q : Queue T W) : Prop :=
  ∀ p, p ∈ q.ids ↔ ∃ k, here k ∧ futs p = some (k, .suspended)

section Seated

variable {K T W : Type} {futs : Futures K} {here : K → Prop} {q : Queue T W}

theorem Poll.stage_eq_suspended {A : Type} {r : Poll A} :
    r.stage = .suspended ↔ r = .pending := by
  cases r with
  | pending => simp [Poll.stage]
  | ready a => simp [Poll.stage]

theorem seated_nil : Seated (fun _ => none) here ([] : Queue T W) := fun p => by simp

theorem Seated.congr (h : Seated futs here q) {q' : Queue T W} (hq : q'.ids = q.ids) :
    Seated futs here q' := fun p => by rw [hq]; exact h p

theorem Seated.update (h : Seated futs here q) {q' : Queue T W} {p : Ptr}
    {fut : Option (K × Stage)} (hq : ∀ r, r ≠ p → (r ∈ q'.ids ↔ r ∈ q.ids))
    (hp : p ∈ q'.ids ↔ ∃ k, here k ∧ fut = some (k, .suspended)) :
    Seated (Function.update futs p fut) here q' := by
  intro r
  by_cases hr : r = p
  · subst hr; rw [hp, Function.update_self]
  · rw [hq r hr, h r, Function.update_of_ne hr]

/-- The future `p` was polled. -/
theorem Seated.poll (h : Seated futs here q) {q' : Queue T W} {p : Ptr} {k : K}
    (hk : here k) {A : Type} {r : Poll A}
    (hq : ∀ r', r' ∈ q'.ids ↔ if r' = p then r = .pending else r' ∈ q.ids) :
    Seated (Function.update futs p (some (k, r.stage))) here q' := by
  refine h.update (fun r' hr' => by rw [hq r', if_neg hr']) ?_
  rw [hq p, if_pos rfl, ← Poll.stage_eq_suspended]
  constructor
  · exact fun hs => ⟨k, hk, by rw [hs]⟩
  · rintro ⟨k', -, he⟩
    exact congrArg Prod.snd (Option.some.inj he)

/-- The future `p` was dropped, and its listener with it. -/
theorem Seated.drop (h : Seated futs here q) (p : Ptr) :
    Seated (Function.update futs p none) here (q.drop p).event := by
  refine h.update (fun r hr => ?_) ?_
  · rw [Queue.ids_drop, Queue.mem_ids_erase, and_iff_left hr]
  · rw [Queue.ids_drop, Queue.mem_ids_erase]
    simp

/-- A future that does not wait here comes, goes or moves elsewhere. -/
theorem Seated.elsewhere (h : Seated futs here q) {p : Ptr} {fut : Option (K × Stage)}
    (hold : ∀ k, here k → futs p ≠ some (k, .suspended))
    (hnew : ∀ k, here k → fut ≠ some (k, .suspended)) :
    Seated (Function.update futs p fut) here q := by
  refine h.update (fun _ _ => Iff.rfl) ((h p).trans ?_)
  exact ⟨fun ⟨k, hk, he⟩ => (hold k hk he).elim, fun ⟨k, hk, he⟩ => (hnew k hk he).elim⟩

theorem Seated.absent (h : Seated futs here q) {p : Ptr}
    (hp : ∀ k, here k → futs p ≠ some (k, .suspended)) : p ∉ q.ids := by
  intro hm
  obtain ⟨k, hk, hs⟩ := (h p).mp hm
  exact hp k hk hs

theorem Seated.present (h : Seated futs here q) {p : Ptr} {k : K} (hk : here k)
    (hp : futs p = some (k, .suspended)) : p ∈ q.ids := (h p).mpr ⟨k, hk, hp⟩

theorem Seated.canPoll (h : Seated futs here q) {p : Ptr} {k : K} {stage : Stage}
    (hk : here k) (hp : futs p = some (k, stage)) (hst : stage ≠ .returned) :
    stage.CanPoll p q := by
  cases stage with
  | unresumed => exact .inl ⟨rfl, h.absent fun k' _ => by rw [hp]; simp⟩
  | suspended => exact .inr ⟨rfl, h.present hk hp⟩
  | returned => exact (hst rfl).elim

/-- No suspended future is notified: the count. -/
theorem Seated.none_notified (h : Seated futs here q) (hq : q.ids.Nodup) :
    (∀ p k, here k → futs p = some (k, .suspended) →
        ∀ t b, q.stateOf p ≠ some (.notified t b)) ↔ q.numNotified = 0 := by
  rw [Queue.numNotified_eq_zero]
  constructor
  · rintro hno ⟨p, st⟩ hm
    obtain ⟨k, hk, hs⟩ := (h p).mp (Queue.mem_ids_of_mem hm)
    cases st with
    | created => rfl
    | waiting w => rfl
    | notified t b => exact (hno p k hk hs t b ((Queue.stateOf_eq_some hq).mpr hm)).elim
  · intro hall p k _ _ t b hst
    have := hall _ ((Queue.stateOf_eq_some hq).mp hst)
    cases this

/-- Some suspended future is not notified: the count. -/
theorem Seated.some_waiting (h : Seated futs here q) (hq : q.ids.Nodup) :
    (∃ p k, here k ∧ futs p = some (k, .suspended) ∧
        ∀ t b, q.stateOf p ≠ some (.notified t b)) ↔ 0 < q.numWaiting := by
  rw [Queue.numWaiting, List.countP_pos_iff]
  constructor
  · rintro ⟨p, k, hk, hs, hno⟩
    obtain ⟨st, hm⟩ := Queue.mem_ids.mp (h.present hk hs)
    refine ⟨_, hm, ?_⟩
    cases st with
    | created => rfl
    | waiting w => rfl
    | notified t b => exact (hno t b ((Queue.stateOf_eq_some hq).mpr hm)).elim
  · rintro ⟨⟨p, st⟩, hm, hst⟩
    obtain ⟨k, hk, hs⟩ := (h p).mp (Queue.mem_ids_of_mem hm)
    refine ⟨p, k, hk, hs, fun t b hp => ?_⟩
    rw [(Queue.stateOf_eq_some hq).mpr hm] at hp
    cases hp
    cases hst

/-- The futures have distinct addresses, and so have their listeners. -/
def Addressed {K : Type} [Target] (futs : Futures K) : Prop :=
  ∀ f x, futs f = some x → IsAddress f

/-- A future comes or goes, or is left elsewhere. -/
theorem Addressed.update [Target] (h : Addressed futs) {f : Ptr} {y : Option (K × Stage)}
    (hy : y ≠ none → IsAddress f) : Addressed (Function.update futs f y) := by
  intro f' x hx
  by_cases he : f' = f
  · rw [he, Function.update_self] at hx
    exact he ▸ hy (by rw [hx]; simp)
  · rw [Function.update_of_ne he] at hx
    exact h f' x hx

theorem Seated.length_le [Target] (h : Seated futs here q) (ha : Addressed futs)
    (hq : q.ids.Nodup) : q.length ≤ usizeMax := by
  refine Queue.length_le_usizeMax hq fun f hf => ?_
  obtain ⟨k, -, hk⟩ := (h f).mp hf
  exact ha f _ hk

theorem Seated.some_suspended (h : Seated futs here q) :
    (∃ p k, here k ∧ futs p = some (k, .suspended)) ↔ 0 < q.length := by
  rw [← Queue.length_ids, List.length_pos_iff_exists_mem]
  exact exists_congr fun p => (h p).symm

end Seated

end Unsend

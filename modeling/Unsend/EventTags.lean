import Mathlib.Algebra.Order.Group.Multiset
import Mathlib.Tactic.Abel
import Unsend.EventRules
import Unsend.Runs

/-!
# Every tag is accounted for

Runs of one event, by any number of listeners and in any order, with
notifications of every kind. Next to the event the system records the
tags that `next_tag` has produced, those that polls have returned and
those that were discarded, each with the `additional` flag it travels
with.

`tags_accounted`: a tag that was produced is held by a notified listener,
or was returned by a poll, or was discarded; it is discarded only where
a listener is dropped that nobody can take over from, and otherwise goes
to the first listener that is not notified.
-/

namespace Unsend

/-! ## What one operation does to the tags -/

namespace Queue

variable {σ T W : Type} {q : Queue T W} {p : Ptr}

theorem marked_notify (q : Queue T W) (n : Notification σ T) (s : σ) :
    (q.notify n s).event.marked.Perm
      ((n.produce (q.notify n s).count s).1.map (·, n.isAdditional) ++ q.marked) := by
  refine marked_assign _ _ _ ?_
  rw [n.length_produce]
  exact q.reach_le ..

theorem marked_erase_notified (hq : q.ids.Nodup) {t : T} {b : Bool}
    (h : q.stateOf p = some (.notified t b)) :
    q.marked.Perm ((t, b) :: (q.erase p).marked) := by
  obtain ⟨l, m, rfl, he, -⟩ := stateOf_split hq h
  rw [he]
  simp only [marked_append, marked_cons, mark_notified, Option.toList_some]
  exact List.perm_middle

theorem marked_erase_waiting (hq : q.ids.Nodup) {st : State T W} (h : q.stateOf p = some st)
    (hst : st.isNotified = false) : (q.erase p).marked = q.marked := by
  obtain ⟨l, m, rfl, he, -⟩ := stateOf_split hq h
  rw [he]
  simp [mark_of_not_notified hst]

theorem marked_setState (hq : q.ids.Nodup) {st st' : State T W} (h : q.stateOf p = some st)
    (hst : st.isNotified = false) (hst' : st'.isNotified = false) :
    (q.setState p st').marked = q.marked := by
  obtain ⟨l, m, rfl, -, hs⟩ := stateOf_split hq h
  rw [hs st']
  simp [mark_of_not_notified hst, mark_of_not_notified hst']

/-- One tag is handed to the first listener that is not notified. -/
theorem assign_one {b : Bool} {t : T} : ∀ {q : Queue T W}, q.ids.Nodup → 0 < q.numWaiting →
    ∃ r, q.firstWaiting = some r ∧ assign b [t] q = q.setState r (.notified t b) := by
  intro q
  induction q with
  | nil =>
      intro _ h
      cases h
  | cons x q ih =>
      intro hq h
      obtain ⟨hx, hq'⟩ := List.nodup_cons.mp hq
      cases hn : x.2.isNotified with
      | false =>
          refine ⟨x.1, by simp [firstWaiting, hn], ?_⟩
          rw [assign, if_neg (by simp [hn]), assign_nil]
          show _ = (if x.1 = x.1 then (x.1, State.notified t b) else x) :: setState q x.1 _
          rw [if_pos rfl, setState_of_notMem hx]
      | true =>
          rw [numWaiting_cons, if_pos hn] at h
          obtain ⟨r, hr, he⟩ := ih hq' h
          have hne : x.1 ≠ r := by
            rintro rfl
            obtain ⟨y, hy, hyr⟩ := Option.map_eq_some_iff.mp hr
            exact hx (hyr ▸ mem_ids_of_mem (List.mem_of_find?_eq_some hy))
          refine ⟨r, ?_, ?_⟩
          · rw [firstWaiting, List.find?_cons_of_neg (by simp [hn])]
            exact hr
          · rw [assign, if_pos hn, he]
            show _ = (if x.1 = r then (r, State.notified t b) else x) :: setState q r _
            rw [if_neg hne]

/-- A tag is discarded where nobody waits, or where it need not be passed
on; otherwise the first listener that is not notified takes it. -/
theorem pass_cases (hq : q.ids.Nodup) (t : T) (b : Bool) :
    ((q.numWaiting = 0 ∨ (b = false ∧ 0 < q.numNotified)) ∧
      (q.pass t b).discarded = some t ∧ (q.pass t b).event = q) ∨
    (¬ (q.numWaiting = 0 ∨ (b = false ∧ 0 < q.numNotified)) ∧
      (q.pass t b).discarded = none ∧ (q.pass t b).event.marked.Perm ((t, b) :: q.marked) ∧
      ∃ r, q.firstWaiting = some r ∧ (q.pass t b).event = q.setState r (.notified t b)) := by
  have hreach : q.reach b 1 = 0 ↔ q.numWaiting = 0 ∨ (b = false ∧ 0 < q.numNotified) := by
    cases b with
    | true => simp [reach]
    | false =>
        simp only [reach, Bool.false_eq_true, if_false, true_and]
        omega
  unfold pass
  split
  · rename_i h
    exact .inl ⟨hreach.mp h, rfl, rfl⟩
  · rename_i h
    have hw : 0 < q.numWaiting := by
      rw [hreach, not_or] at h
      exact Nat.pos_of_ne_zero h.1
    exact .inr ⟨fun hd => h (hreach.mpr hd), rfl, marked_assign b [t] q hw, assign_one hq hw⟩

end Queue

/-! ## Runs of one event -/

namespace EventTags

variable {T W : Type}

/-- An event with the tags produced, returned by polls and discarded. -/
structure Sys (T W : Type) where
  event : Event T W
  produced : List (T × Bool)
  returned : List (T × Bool)
  discarded : List (T × Bool)

namespace Sys

def init : Sys T W := ⟨.new, [], [], []⟩

def queue (s : Sys T W) : Queue T W := s.event.queue

theorem nodup (s : Sys T W) : s.queue.ids.Nodup := s.event.nodup

/-- The flag the listener at `p` was notified with. -/
def flag (s : Sys T W) (p : Ptr) : Bool :=
  match s.queue.stateOf p with
  | some (.notified _ additional) => additional
  | _ => false

variable [WillWake W]

def apply (s : Sys T W) : Op T W → Sys T W
  | .listen p => { s with event := s.event.listen p }
  | .poll p w =>
      let out := s.event.poll p w
      { s with
        event := out.1
        returned := match out.2 with
          | .ready tag => s.returned ++ [(tag, s.flag p)]
          | .pending => s.returned }
  | .notify n t =>
      let out := s.event.notify n t
      { s with
        event := out.event
        produced := s.produced ++ (n.produce out.count t).1.map (·, n.isAdditional) }
  | .drop p =>
      let out := s.event.drop p
      { s with
        event := out.event
        discarded := s.discarded ++ (out.discarded.map (·, s.flag p)).toList }

end Sys

/-- Every run of one event. -/
def system [WillWake W] : System (Sys T W) (Op T W) :=
  .ofNext (· = .init) fun s op => some (s.apply op)

/-- The tag of the listener at `p` need not be passed on: nobody else is
left that is not notified, or somebody else is notified and the tag is
not an additional one. -/
def Sys.Idle (s : Sys T W) (p : Ptr) (additional : Bool) : Prop :=
  (s.queue.erase p).numWaiting = 0 ∨
    (additional = false ∧ 0 < (s.queue.erase p).numNotified)

/-- Where the tags are. -/
structure Sys.Accounted [WillWake W] (s : Sys T W) : Prop where
  places : (s.produced : Multiset (T × Bool)) = s.queue.marked + s.returned + s.discarded
  /-- A poll returns the tag its listener holds. -/
  returns : ∀ p w t, (s.event.poll p w).2 = .ready t →
    ∃ b, s.queue.stateOf p = some (.notified t b) ∧
      (s.apply (.poll p w)).returned = s.returned ++ [(t, b)]
  /-- A tag is discarded only where its listener is dropped. -/
  discards : ∀ op, (s.apply op).discarded ≠ s.discarded →
    ∃ p t b, op = .drop p ∧ s.queue.stateOf p = some (.notified t b) ∧ s.Idle p b ∧
      (s.apply op).discarded = s.discarded ++ [(t, b)]
  /-- Otherwise the first listener that is not notified takes it. -/
  passes : ∀ p t b, s.queue.stateOf p = some (.notified t b) →
    (s.apply (.drop p)).discarded = s.discarded →
      ∃ r, (s.queue.erase p).firstWaiting = some r ∧
        (s.apply (.drop p)).queue = (s.queue.erase p).setState r (.notified t b)

section Steps

variable [WillWake W] {s : Sys T W} {p : Ptr}

omit [WillWake W] in
theorem flag_eq {t : T} {b : Bool} (h : s.queue.stateOf p = some (.notified t b)) :
    s.flag p = b := by
  unfold Sys.flag
  rw [h]

theorem poll_facts (s : Sys T W) (p : Ptr) (w : W) :
    ((∀ t, (s.event.poll p w).2 ≠ .ready t) ∧
      (s.apply (.poll p w)).queue.marked = s.queue.marked) ∨
      ∃ t b, s.queue.stateOf p = some (.notified t b) ∧ (s.event.poll p w).2 = .ready t ∧
        s.queue.marked.Perm ((t, b) :: (s.apply (.poll p w)).queue.marked) := by
  have hq : (s.apply (.poll p w)).queue = (s.queue.poll p w).1 := Event.queue_poll ..
  rw [hq, Event.poll_result]
  cases hp : s.queue.stateOf p with
  | none =>
      rw [show s.event.queue = s.queue from rfl, Queue.poll_absent (Queue.stateOf_eq_none.mp hp)]
      refine .inl ⟨fun t ht => (by cases ht), ?_⟩
      rw [Queue.marked_append]
      exact List.append_nil _
  | some st =>
      cases hst : st.isNotified with
      | false =>
          obtain ⟨w', -, he⟩ := Queue.poll_waiting (w := w) hp hst
          rw [show s.event.queue = s.queue from rfl, he]
          exact .inl ⟨fun t ht => (by cases ht),
            Queue.marked_setState s.event.nodup hp hst (isNotified_waiting w')⟩
      | true =>
          cases st with
          | created => cases hst
          | waiting task => cases hst
          | notified t b =>
              rw [show s.event.queue = s.queue from rfl, Queue.poll_notified hp]
              exact .inr ⟨t, b, rfl, rfl, Queue.marked_erase_notified s.event.nodup hp⟩

/-- A drop discards the tag of its listener, passes it on, or finds none. -/
theorem drop_facts (s : Sys T W) (p : Ptr) :
    ((∀ t b, s.queue.stateOf p ≠ some (.notified t b)) ∧
      (s.apply (.drop p)).queue.marked = s.queue.marked ∧
      (s.apply (.drop p)).discarded = s.discarded) ∨
    ∃ t b, s.queue.stateOf p = some (.notified t b) ∧
      s.queue.marked.Perm ((t, b) :: (s.queue.erase p).marked) ∧
      ((s.Idle p b ∧ (s.apply (.drop p)).queue = s.queue.erase p ∧
          (s.apply (.drop p)).discarded = s.discarded ++ [(t, b)]) ∨
        ((s.apply (.drop p)).discarded = s.discarded ∧
          (s.apply (.drop p)).queue.marked.Perm ((t, b) :: (s.queue.erase p).marked) ∧
          ∃ r, (s.queue.erase p).firstWaiting = some r ∧
            (s.apply (.drop p)).queue = (s.queue.erase p).setState r (.notified t b))) := by
  have hq : (s.apply (.drop p)).queue = (s.queue.drop p).event := Event.queue_drop ..
  have hd : (s.apply (.drop p)).discarded =
      s.discarded ++ ((s.queue.drop p).discarded.map (·, s.flag p)).toList := by
    show s.discarded ++ _ = _
    rw [Event.drop_discarded]
    rfl
  rw [hq, hd]
  cases hp : s.queue.stateOf p with
  | none =>
      rw [Queue.drop_absent (Queue.stateOf_eq_none.mp hp)]
      exact .inl ⟨fun t b h => (by cases h), rfl, List.append_nil _⟩
  | some st =>
      cases hst : st.isNotified with
      | false =>
          rw [Queue.drop_waiting hp hst]
          refine .inl ⟨?_, Queue.marked_erase_waiting s.nodup hp hst,
            List.append_nil _⟩
          rintro t b h
          obtain rfl := Option.some.inj h
          cases hst
      | true =>
          cases st with
          | created => cases hst
          | waiting task => cases hst
          | notified t b =>
              have hnd := Queue.ids_nodup_erase s.nodup p
              rw [Queue.drop_notified hp, flag_eq hp]
              refine .inr ⟨t, b, rfl, Queue.marked_erase_notified s.nodup hp, ?_⟩
              rcases Queue.pass_cases hnd t b with ⟨hi, hd, he⟩ | ⟨-, hd, hm, hr⟩
              · rw [hd, he]
                exact .inl ⟨hi, rfl, rfl⟩
              · rw [hd]
                exact .inr ⟨List.append_nil _, hm, hr⟩

theorem listen_marked (s : Sys T W) (p : Ptr) :
    (s.apply (.listen p)).queue.marked = s.queue.marked := by
  have hq : (s.apply (.listen p)).queue = s.queue.listen p := Event.queue_listen ..
  rw [hq, Queue.listen]
  split
  · rfl
  · rw [Queue.marked_append]
    exact List.append_nil _

theorem notify_marked {σ : Type} (s : Sys T W) (n : Notification σ T) (t : σ) :
    ∃ new : List (T × Bool), (s.apply (.notify n t)).produced = s.produced ++ new ∧
      (s.apply (.notify n t)).queue.marked.Perm (new ++ s.queue.marked) := by
  refine ⟨_, rfl, ?_⟩
  have hq : (s.apply (.notify n t)).queue = (s.queue.notify n t).event := Event.queue_notify ..
  rw [hq, Event.notify_count]
  exact Queue.marked_notify ..

/-- Every tag produced is held, returned or discarded. -/
def Sys.Places (s : Sys T W) : Prop :=
  (s.produced : Multiset (T × Bool)) = s.queue.marked + s.returned + s.discarded

/-- No operation loses a tag or makes one up. -/
theorem places_apply (h : s.Places) (op : Op T W) : (s.apply op).Places := by
  unfold Sys.Places at h ⊢
  cases op with
  | listen p =>
      rw [listen_marked]
      exact h
  | poll p w =>
      have hr : (s.apply (.poll p w)).returned = match (s.event.poll p w).2 with
        | .ready tag => s.returned ++ [(tag, s.flag p)]
        | .pending => s.returned := rfl
      show (s.produced : Multiset (T × Bool)) = _ + _ + (s.discarded : Multiset (T × Bool))
      rcases poll_facts s p w with ⟨hno, hm⟩ | ⟨t, b, hp, ht, hm⟩
      · rw [hm, hr]
        cases hout : (s.event.poll p w).2 with
        | ready t => exact absurd hout (hno t)
        | pending => exact h
      · rw [hr, ht, flag_eq hp, h, Multiset.coe_eq_coe.mpr hm, ← Multiset.cons_coe,
          ← Multiset.coe_add, Multiset.coe_singleton, ← Multiset.singleton_add]
        abel
  | notify n t =>
      obtain ⟨new, hp, hm⟩ := notify_marked s n t
      rw [hp, Multiset.coe_eq_coe.mpr hm, ← Multiset.coe_add, ← Multiset.coe_add, h]
      show _ = _ + (s.returned : Multiset (T × Bool)) + (s.discarded : Multiset (T × Bool))
      abel
  | drop p =>
      show (s.produced : Multiset (T × Bool)) = _ + (s.returned : Multiset (T × Bool)) + _
      rcases drop_facts s p with ⟨-, hm, hd⟩ |
        ⟨t, b, -, hm, ⟨-, hq, hd⟩ | ⟨hd, hq, -⟩⟩
      · rw [hm, hd]
        exact h
      · rw [hq, hd, h, Multiset.coe_eq_coe.mpr hm, ← Multiset.cons_coe, ← Multiset.coe_add,
          Multiset.coe_singleton, ← Multiset.singleton_add]
        abel
      · rw [hd, Multiset.coe_eq_coe.mpr (hq.trans hm.symm)]
        exact h

end Steps

/-- Every tag is accounted for: a notified listener holds it, a poll
returned it, or it was discarded at the drop of its listener, which
happens only where nobody may take it over. -/
theorem tags_accounted [WillWake W] {s : Sys T W} (h : system.Reachable s) : s.Accounted where
  places := by
    refine h.invariant (I := Sys.Places) ?_ ?_
    · rintro s rfl
      show (0 : Multiset (T × Bool)) = (Queue.marked (Event.new : Event T W).queue) + 0 + 0
      rw [Event.queue_new]
      rfl
    · rintro s op s' hs hstep
      obtain rfl := Option.some.inj hstep
      exact places_apply hs op
  returns p w t ht := by
    rcases poll_facts s p w with ⟨hno, -⟩ | ⟨t', b, hp, ht', -⟩
    · exact absurd ht (hno t)
    · obtain rfl : t' = t := by
        rw [ht'] at ht
        cases ht
        rfl
      refine ⟨b, hp, ?_⟩
      show (match (s.event.poll p w).2 with
        | .ready tag => s.returned ++ [(tag, s.flag p)]
        | .pending => s.returned) = _
      rw [ht', flag_eq hp]
  discards op hne := by
    cases op with
    | listen p => exact absurd rfl hne
    | poll p w => exact absurd rfl hne
    | notify n t => exact absurd rfl hne
    | drop p =>
        rcases drop_facts s p with ⟨-, -, hd⟩ | ⟨t, b, hp, -, ⟨hi, -, hd⟩ | ⟨hd, -⟩⟩
        · exact absurd hd hne
        · exact ⟨p, t, b, rfl, hp, hi, hd⟩
        · exact absurd hd hne
  passes p t b hp hd := by
    rcases drop_facts s p with ⟨hno, -⟩ | ⟨t', b', hp', -, hcase⟩
    · exact absurd hp (hno t b)
    · obtain ⟨rfl, rfl⟩ : t' = t ∧ b' = b := by
        rw [hp'] at hp
        cases hp
        exact ⟨rfl, rfl⟩
      rcases hcase with ⟨-, -, hd'⟩ | ⟨-, -, hr⟩
      · rw [hd'] at hd
        simp at hd
      · exact hr

/-- Two listeners wait, the first is notified and dropped, which passes
its tag to the second; another one is dropped with nobody left. -/
def passedOn : List (Op Nat Nat) :=
  [.poll 0 10, .poll 1 11, .notify ((Notify 1).tag 5) (), .drop 0, .poll 1 11,
    .poll 0 10, .notify ((Notify 1).tag 6) (), .drop 0]

theorem exec_passedOn :
    (exec (fun s op => some (Sys.apply s op)) (Sys.init : Sys Nat Nat) passedOn).map
      (fun s => (s.returned, s.discarded)) = some ([(5, false)], [(6, false)]) := by decide

theorem tags_passedOn : ∃ s : Sys Nat Nat, s.returned = [(5, false)] ∧
    s.discarded = [(6, false)] ∧ s.Accounted := by
  obtain ⟨s, hrun, hobs⟩ := run_of_observe _ _ _ exec_passedOn
  simp only [Prod.mk.injEq] at hobs
  exact ⟨s, hobs.1, hobs.2, tags_accounted ⟨_, hrun⟩⟩

end EventTags

end Unsend

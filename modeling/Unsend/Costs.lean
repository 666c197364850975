import Mathlib.Algebra.Order.BigOperators.Group.List
import Mathlib.Algebra.Order.Ring.Nat
import Unsend.EventRules
import Unsend.Runs

/-!
# Counting steps against a potential

`System.Run.paid` is the rule for amortized bounds: if every step costs one
unit of a potential, apart from what the step itself is allowed to add, then
a run is no longer than what its steps were allowed in all.

`Queue.cost` is the part of a potential that a list of listeners has: a cost
for each entry. What the operations on the list do to it is bounded by what
the change of a single entry does.
-/

namespace Unsend

namespace System

variable {S L : Type*} {M : System S L} {Φ : S → Nat} {allowance : S × L → Nat}

theorem Run.paid (hinit : ∀ s, M.init s → Φ s = 0)
    (hstep : ∀ s l s', M.Reachable s → M.step s l s' → Φ s' + 1 ≤ Φ s + allowance (s, l))
    {tr : List (S × L)} {s : S} (h : M.Run tr s) :
    Φ s + tr.length ≤ (tr.map allowance).sum := by
  induction h with
  | start h0 => simp [hinit _ h0]
  | step hr hs ih =>
      have := hstep _ _ _ hr.reachable.2 hs
      simp
      omega

end System

namespace Queue

variable {T W : Type}

/-- What the entries of a list cost. -/
def cost (f : Ptr → State T W → Nat) (q : Queue T W) : Nat := (q.map fun x => f x.1 x.2).sum

section Cost

variable {f f' : Ptr → State T W → Nat} {q : Queue T W} {p : Ptr} {st st' : State T W} {c : Nat}

@[simp] theorem cost_nil : cost f ([] : Queue T W) = 0 := rfl

@[simp] theorem cost_cons (x : Ptr × State T W) (q : Queue T W) :
    cost f (x :: q) = f x.1 x.2 + cost f q := List.sum_cons

@[simp] theorem cost_append (q r : Queue T W) : cost f (q ++ r) = cost f q + cost f r := by
  simp [cost]

theorem cost_mono (h : ∀ x ∈ q, f' x.1 x.2 ≤ f x.1 x.2) : cost f' q ≤ cost f q :=
  List.sum_le_sum h

theorem cost_erase (hq : q.ids.Nodup) (hp : q.stateOf p = some st) :
    cost f q = f p st + cost f (q.erase p) := by
  obtain ⟨l, m, hl, herase, -⟩ := stateOf_split hq hp
  rw [herase, hl]
  simp
  omega

theorem cost_erase_le (p : Ptr) : cost f (q.erase p) ≤ cost f q := by
  exact List.Sublist.sum_le_sum (List.filter_sublist.map _) fun _ _ => Nat.zero_le _

theorem cost_setState (hq : q.ids.Nodup) (hp : q.stateOf p = some st) (st' : State T W) :
    cost f (q.setState p st') = f p st' + cost f (q.erase p) := by
  obtain ⟨l, m, hl, herase, hset⟩ := stateOf_split hq hp
  rw [herase, hset]
  simp
  omega

/-- Only the entry of one listener costs more, and not much. -/
theorem cost_le_add (hq : q.ids.Nodup) (hne : ∀ r st, r ≠ p → f' r st ≤ f r st)
    (hp : ∀ st, f' p st ≤ f p st + c) : cost f' q ≤ cost f q + c := by
  have hrest : ∀ {r : Queue T W}, p ∉ r.ids → cost f' r ≤ cost f r := fun hr =>
    cost_mono fun x hx => hne _ _ fun he => hr (he ▸ mem_ids_of_mem hx)
  cases hst : q.stateOf p with
  | none => exact Nat.le_add_right_of_le (hrest (stateOf_eq_none.mp hst))
  | some st =>
      rw [cost_erase hq hst, cost_erase hq hst]
      have := hrest (r := q.erase p) fun hm => (mem_ids_erase.mp hm).2 rfl
      have := hp st
      omega

/-- One listener is notified. -/
theorem cost_assign_one {t : T} {b : Bool}
    (h : ∀ p st, st.isNotified = false → f p (.notified t b) ≤ f p st + c) :
    cost f (q.assign b [t]) ≤ cost f q + c := by
  induction q with
  | nil => exact Nat.zero_le _
  | cons x q ih =>
      cases hx : x.2.isNotified with
      | true =>
          rw [assign_cons_notified _ _ _ hx, cost_cons, cost_cons]
          omega
      | false =>
          have := h x.1 x.2 hx
          rw [assign, hx, if_neg (by simp), assign_nil, cost_cons, cost_cons]
          show f x.1 (.notified t b) + _ ≤ _
          omega

theorem cost_notify_one {σ : Type} {n : Notification σ T} (s : σ) (hc : n.count = 1)
    (hp : n.isAdditional = false)
    (h : ∀ p st, st.isNotified = false → f p (.notified (n.next s).1 false) ≤ f p st + c) :
    cost f (q.notify n s).event ≤ cost f q + c := by
  have hr := q.reach_one
  by_cases hone : q.numNotified = 0 ∧ 0 < q.numWaiting
  · rw [if_pos hone] at hr
    have hq : (q.notify n s).event = q.assign false [(n.next s).1] := by
      simp only [notify, hc, hp, hr]
      rfl
    rw [hq]
    exact cost_assign_one h
  · rw [if_neg hone] at hr
    rw [notify_of_reach_zero (by rw [hc, hp, hr])]
    exact Nat.le_add_right ..

theorem cost_pass {t : T} {b : Bool}
    (h : ∀ p st, st.isNotified = false → f p (.notified t b) ≤ f p st + c) :
    cost f (q.pass t b).event ≤ cost f q + c := by
  unfold pass
  split
  · exact Nat.le_add_right ..
  · exact cost_assign_one h

/-- A listener is dropped, and its notification may be passed on. -/
theorem cost_drop (hq : q.ids.Nodup) (p : Ptr)
    (h : ∀ p' t b st, st.isNotified = false →
      f p' (.notified t b) ≤ f p' st + f p (.notified t b) + c) :
    cost f (q.drop p).event ≤ cost f q + c := by
  cases hp : q.stateOf p with
  | none =>
      rw [drop_absent (stateOf_eq_none.mp hp)]
      exact Nat.le_add_right ..
  | some st =>
      cases hst : st.isNotified with
      | false =>
          rw [drop_waiting hp hst]
          exact Nat.le_add_right_of_le (cost_erase_le p)
      | true =>
          cases st with
          | created => cases hst
          | waiting task => cases hst
          | notified t b =>
              rw [drop_notified hp, cost_erase hq hp]
              have := cost_pass (q := q.erase p) (f := f) (c := f p (.notified t b) + c)
                fun p' st hst => (Nat.add_assoc ..) ▸ h p' t b st hst
              omega

variable [WillWake W]

/-- A listener is polled that has not been notified. -/
theorem cost_poll_waiting (hq : q.ids.Nodup) {w : W}
    (hp : ∀ t b, q.stateOf p ≠ some (.notified t b))
    (h : ∀ w', f p (.waiting w') = 0) : cost f (q.poll p w).1 ≤ cost f (q.erase p) := by
  cases hst : q.stateOf p with
  | none =>
      have habs := stateOf_eq_none.mp hst
      rw [poll_absent habs, erase_of_notMem habs, cost_append]
      simp [h]
  | some st =>
      have hno : st.isNotified = false := by
        cases st with
        | notified t b => exact (hp t b hst).elim
        | _ => rfl
      obtain ⟨w', -, he⟩ := poll_waiting (w := w) hst hno
      rw [he, cost_setState hq hst, h]
      omega

end Cost

end Queue

end Unsend

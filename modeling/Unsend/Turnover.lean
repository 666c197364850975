import Unsend.Liveness
import Unsend.WaitLoop

/-!
# Those who wait for what others hold

A component that hands out guards and wakes one of those who wait when a
guard comes back, in numbers (`Load`): how many wait, how many of them have
been notified, and how many guards are held. A step serves somebody who was
notified, gives a guard back, or does neither; new ones do not come.

`Load.drains`: if nobody waits un-notified while no guard is held and
nobody is notified, guards are given back and those who are notified are
served at some time, then there is a time when nobody waits any more.
-/

namespace Unsend

structure Load where
  waiting : Nat
  notified : Nat
  held : Nat

namespace Load

/-- Somebody who was notified is polled or goes away. -/
inductive Serves (c c' : Load) : Prop
  | gets (held : c'.held = c.held + 1) (notified : c.notified = c'.notified + 1)
      (waiting : c'.waiting = c.waiting)
  /-- The guard has been taken by somebody else. -/
  | waits (held : c'.held = c.held) (notified : c.notified = c'.notified + 1)
      (waiting : c'.waiting = c.waiting + 1)
  | goes (held : c'.held = c.held) (notified : c.notified = c'.notified + 1)
      (waiting : c'.waiting = c.waiting)
  /-- The notification is passed on. -/
  | passes (held : c'.held = c.held) (notified : c'.notified = c.notified)
      (waiting : c.waiting = c'.waiting + 1)

/-- A guard is given back. -/
inductive Releases (c c' : Load) : Prop
  | still (held : c.held = c'.held + 1) (notified : c'.notified = c.notified)
      (waiting : c'.waiting = c.waiting)
  | wakes (held : c.held = c'.held + 1) (notified : c'.notified = c.notified + 1)
      (waiting : c.waiting = c'.waiting + 1)

/-- Nothing happens, except that somebody may give up. -/
structure Rests (c c' : Load) : Prop where
  held : c'.held = c.held
  notified : c'.notified = c.notified
  waiting : c'.waiting ≤ c.waiting

/-- What is left to do. -/
def left (c : Load) : Nat := 4 * c.notified + 3 * c.waiting + 2 * c.held

variable {c c' : Load}

theorem rests_refl (c : Load) : c.Rests c := ⟨rfl, rfl, Nat.le_refl _⟩

theorem Serves.left_lt (h : c.Serves c') : c'.left < c.left := by
  unfold left
  cases h with
  | gets held notified waiting => omega
  | waits held notified waiting => omega
  | goes held notified waiting => omega
  | passes held notified waiting => omega

theorem Releases.left_lt (h : c.Releases c') : c'.left < c.left := by
  unfold left
  cases h with
  | still held notified waiting => omega
  | wakes held notified waiting => omega

theorem Rests.left_le (h : c.Rests c') : c'.left ≤ c.left := by
  obtain ⟨held, notified, waiting⟩ := h
  unfold left
  omega

section Drains

variable {S L : Type*} {M : System S L} {load : S → Load} {serves releases : S → L → Prop}

/-- What a step of `M` does to the load. -/
def Moves (load : S → Load) (serves releases : S → L → Prop) (s : S) (l : L)
    (s' : S) : Prop :=
  (serves s l ∧ (load s).Serves (load s')) ∨ (releases s l ∧ (load s).Releases (load s')) ∨
    (¬ serves s l ∧ ¬ releases s l ∧ (load s).Rests (load s'))

/-- Guards are wanted back while one is held, and service while somebody is
notified. -/
def Wants (load : S → Load) (service : Bool) (s : S) : Prop :=
  if service then 0 < (load s).notified else 0 < (load s).held

theorem drains (b : M.Behaviour)
    (hmoves : ∀ s l s', M.Reachable s → M.step s l s' → Moves load serves releases s l s')
    (hidle : ∀ s, M.Reachable s → (load s).held = 0 → (load s).notified = 0 →
      (load s).waiting = 0)
    (hserves : b.Attends (fun s => 0 < (load s).notified) serves)
    (hreleases : b.Attends (fun s => 0 < (load s).held) releases) (n : Nat) :
    ∃ m, n ≤ m ∧ (load (b.state m)).waiting = 0 ∧ (load (b.state m)).notified = 0 := by
  let wanted : Bool → S → L → Prop := fun service => if service then serves else releases
  refine b.eventually (P := Wants load) (A := wanted) (μ := fun s => (load s).left)
    (D := fun s => (load s).waiting = 0 ∧ (load s).notified = 0) ?_ ?_ ?_ ?_ n
  · intro service
    cases service with
    | true => exact hserves
    | false => exact hreleases
  · intro s l s' hr hs
    rcases hmoves s l s' hr hs with ⟨-, h⟩ | ⟨-, h⟩ | ⟨-, -, h⟩
    · exact Nat.le_of_lt h.left_lt
    · exact Nat.le_of_lt h.left_lt
    · exact h.left_le
  · intro s hr hdone
    by_cases hn : 0 < (load s).notified
    · exact ⟨true, hn⟩
    · refine ⟨false, Nat.pos_of_ne_zero fun hg => hdone ⟨hidle s hr hg ?_, ?_⟩⟩
      · exact Nat.eq_zero_of_not_pos hn
      · exact Nat.eq_zero_of_not_pos hn
  · intro service s l s' hr hs hw
    rcases hmoves s l s' hr hs with ⟨-, h⟩ | ⟨-, h⟩ | ⟨hno, hno', h⟩
    · exact .inl h.left_lt
    · exact .inl h.left_lt
    · cases service with
      | true => exact .inr ⟨Nat.lt_of_lt_of_eq hw h.notified.symm, hno⟩
      | false => exact .inr ⟨Nat.lt_of_lt_of_eq hw h.held.symm, hno'⟩

end Drains

end Load

/-! ## The load of a list of listeners -/

/-- The load of a component with this list and `held` guards. -/
def Queue.load {T W : Type} (q : Queue T W) (held : Nat) : Load :=
  ⟨q.numWaiting, q.numNotified, held⟩

/-- The load of a component that has one more list. -/
def Load.beside {T W : Type} (c : Load) (q : Queue T W) : Load :=
  ⟨c.waiting + q.numWaiting, c.notified + q.numNotified, c.held⟩

section Beside

variable {T W : Type} {c c' : Load}

/-! A list that is not touched makes no difference. -/

theorem Load.Serves.beside (h : c.Serves c') (q : Queue T W) :
    (c.beside q).Serves (c'.beside q) := by
  cases h with
  | gets held notified waiting =>
      exact .gets held (by simp only [Load.beside]; omega) (by simp only [Load.beside]; omega)
  | waits held notified waiting =>
      exact .waits held (by simp only [Load.beside]; omega) (by simp only [Load.beside]; omega)
  | goes held notified waiting =>
      exact .goes held (by simp only [Load.beside]; omega) (by simp only [Load.beside]; omega)
  | passes held notified waiting =>
      exact .passes held (by simp only [Load.beside]; omega) (by simp only [Load.beside]; omega)

theorem Load.Releases.beside (h : c.Releases c') (q : Queue T W) :
    (c.beside q).Releases (c'.beside q) := by
  cases h with
  | still held notified waiting =>
      exact .still held (by simp only [Load.beside]; omega) (by simp only [Load.beside]; omega)
  | wakes held notified waiting =>
      exact .wakes held (by simp only [Load.beside]; omega) (by simp only [Load.beside]; omega)

theorem Load.Rests.beside (h : c.Rests c') (q : Queue T W) :
    (c.beside q).Rests (c'.beside q) :=
  ⟨h.held, congrArg (· + _) h.notified, Nat.add_le_add_right h.waiting _⟩

end Beside

/-- The listener at `p` has been notified. -/
def Queue.Told {T W : Type} (q : Queue T W) (p : Ptr) : Prop :=
  ∃ t b, q.stateOf p = some (.notified t b)

section Load

variable {T σ W : Type} {q : Queue T W} {p : Ptr} {held : Nat}

/-- A listener is dropped where all notifications are plain. -/
theorem Queue.load_drop (hq : q.ids.Nodup) (hpl : q.Plain) (p : Ptr) (held : Nat) :
    (¬ q.Told p ∧ (q.load held).Rests ((q.drop p).event.load held)) ∨
      (q.Told p ∧ (q.load held).Serves ((q.drop p).event.load held)) := by
  rcases Queue.drop_cases hq hpl p with
    ⟨hno, h1, h2, -⟩ | ⟨t, hst, ⟨h0, -, h1, h2, -⟩ | ⟨-, h1, h2, -⟩⟩
  · exact .inl ⟨fun ⟨t, b, h⟩ => hno t b h, rfl, h1, h2⟩
  · exact .inr ⟨⟨t, false, hst⟩, .passes rfl (h1.trans h0.symm) h2.symm⟩
  · exact .inr ⟨⟨t, false, hst⟩, .goes rfl h1 h2⟩

/-- A guard is given back, and one listener notified. -/
theorem Queue.load_notify (q : Queue T W) {n : Notification σ T} (s : σ) (hc : n.count = 1)
    (hp : n.isAdditional = false) (held : Nat) :
    (q.load (held + 1)).Releases ((q.notify n s).event.load held) := by
  rcases q.notify_one s hc hp with ⟨h0, -, h1, h2, -⟩ | ⟨-, hsame⟩
  · exact .wakes rfl (h1.trans (congrArg (· + 1) h0.symm)) h2.symm
  · rw [hsame]
    exact .still rfl rfl rfl

variable [WillWake W]

/-- The guards that are held after a poll that hands one out if it is
ready. -/
def Poll.heldAfter {A : Type} (held : Nat) : Poll A → Nat
  | .pending => held
  | .ready _ => held + 1

/-- A suspended future that takes a guard if it can is polled. -/
theorem WaitLoop.load_poll {S A : Type} {b : WaitLoop S A T} {e : Event T W} {w : W} {s : S}
    (hacc : ∀ t, b.accept t = none) (hp : p ∈ e.queue.ids) (held : Nat) :
    let out := (b.poll p w .suspended e s).view
    (¬ e.queue.Told p ∧ (e.queue.load held).Rests (out.1.load (out.2.2.1.heldAfter held))) ∨
      (e.queue.Told p ∧ (e.queue.load held).Serves (out.1.load (out.2.2.1.heldAfter held))) := by
  rcases WaitLoop.poll_cases (b := b) (w := w) (s := s) (.inr ⟨rfl, hp⟩) with
    ⟨hno, -⟩ | ⟨st, w', hst, hn, -, hv⟩ | ⟨t, c, hst, hv⟩
  · exact (hno hp).elim
  · obtain ⟨-, h2, h3, -⟩ := Queue.setState_waiting e.nodup hst hn (isNotified_waiting w')
    rw [hv]
    refine .inl ⟨?_, rfl, h2, Nat.le_of_eq h3⟩
    rintro ⟨t, c, h⟩
    cases hst.symm.trans h
    cases hn
  · obtain ⟨h3, h4, -⟩ := Queue.erase_notified e.nodup hst
    rw [hv, hacc t]
    refine .inr ⟨⟨t, c, hst⟩, ?_⟩
    obtain ⟨h1, h2⟩ := b.enter_counts p w (e.queue.erase p) s
    unfold WaitLoop.enter at h1 h2 ⊢
    cases ha : b.attempt s with
    | some r => exact .gets rfl h3 h4.symm
    | none =>
        rw [ha] at h1 h2
        obtain ⟨a, ha, -⟩ | ⟨-, -, h2⟩ := h2
        · cases ha
        · exact .waits rfl (h3.trans (congrArg (· + 1) h1.symm))
            (h2.trans (congrArg (· + 1) h4.symm))

end Load

end Unsend

import Unsend.WaitLoop

/-!
# Waiting in line

`Line` hands out tickets: whoever begins to wait draws one, and it counts
when he gets what he waited for. `Line.InOrder` says that those who have
been served, and after them those who still wait, have drawn their tickets
in this order.

`Line.Kept` is what keeps a component that is waited for in order: only the
first one in its list is ever notified, and while he is, there is something
to take. Polls, drops and releases keep it as long as nobody takes anything
past those who wait.
-/

namespace Unsend

/-- The ticket each listener drew last, the tickets of those who have been
served, and the next ticket. -/
structure Line where
  ticket : Ptr → Nat
  served : List Nat
  next : Nat

/-- What a step means to a line. -/
inductive Line.Move where
  | joins (p : Ptr)
  | isServed (p : Ptr)
  | stays

/-- What a poll means to a line. -/
def Stage.move (p : Ptr) : Stage → Stage → Line.Move
  | .unresumed, .suspended => .joins p
  | .suspended, .returned => .isServed p
  | _, _ => .stays

/-- What a step means to a line, by what becomes of the future at `p`. -/
def Futures.move {K : Type} (p : Ptr) (futs futs' : Futures K) : Line.Move :=
  match futs p, futs' p with
  | some (_, stage), some (_, stage') => stage.move p stage'
  | _, _ => .stays

namespace Line

def new : Line := ⟨fun _ => 0, [], 0⟩

def move (l : Line) : Move → Line
  | .joins p => { l with ticket := Function.update l.ticket p l.next, next := l.next + 1 }
  | .isServed p => { l with served := l.served ++ [l.ticket p] }
  | .stays => l

/-- The line after the steps of a run. -/
def after {X : Type} (move : X → Move) (tr : List X) : Line :=
  tr.foldl (fun l x => l.move (move x)) .new

theorem after_append {X : Type} (move : X → Move) (tr : List X) (x : X) :
    after move (tr ++ [x]) = (after move tr).move (move x) := by
  simp [after]

/-- The tickets of those who have been served and of those who wait. -/
def tickets (l : Line) (waiting : List Ptr) : List Nat := l.served ++ waiting.map l.ticket

/-- Tickets are served, and wait, in the order in which they were drawn. -/
structure InOrder (l : Line) (waiting : List Ptr) : Prop where
  sorted : (l.tickets waiting).Pairwise (· < ·)
  drawn : ∀ n ∈ l.tickets waiting, n < l.next

section InOrder

variable {l : Line} {waiting waiting' : List Ptr} {p : Ptr}

theorem inOrder_new : Line.new.InOrder [] := ⟨.nil, fun _ h => by cases h⟩

theorem InOrder.sublist (h : l.InOrder waiting) (hsub : waiting'.Sublist waiting) :
    l.InOrder waiting' := by
  have htickets : (l.tickets waiting').Sublist (l.tickets waiting) :=
    (hsub.map l.ticket).append_left l.served
  exact ⟨h.sorted.sublist htickets, fun n hn => h.drawn n (htickets.subset hn)⟩

/-- One more draws a ticket. -/
theorem InOrder.joins (h : l.InOrder waiting) (hp : p ∉ waiting) :
    (l.move (.joins p)).InOrder (waiting ++ [p]) := by
  have htickets : (l.move (.joins p)).tickets (waiting ++ [p]) = l.tickets waiting ++ [l.next] := by
    have hrest : waiting.map (Function.update l.ticket p l.next) = waiting.map l.ticket :=
      List.map_congr_left fun r hr => Function.update_of_ne (ne_of_mem_of_not_mem hr hp) ..
    show l.served ++ (waiting ++ [p]).map (Function.update l.ticket p l.next) = _
    rw [List.map_append, hrest, ← List.append_assoc]
    simp [tickets]
  constructor
  · rw [htickets]
    refine List.pairwise_append.mpr ⟨h.sorted, List.pairwise_singleton .., fun n hn m hm => ?_⟩
    obtain rfl := List.mem_singleton.mp hm
    exact h.drawn n hn
  · intro n hn
    rw [htickets] at hn
    show n < l.next + 1
    rcases List.mem_append.mp hn with hn | hn
    · exact Nat.lt_succ_of_lt (h.drawn n hn)
    · exact List.mem_singleton.mp hn ▸ Nat.lt_succ_self _

/-- The first one is served. -/
theorem InOrder.isServed (h : l.InOrder (p :: waiting)) :
    (l.move (.isServed p)).InOrder waiting := by
  have htickets : (l.move (.isServed p)).tickets waiting = l.tickets (p :: waiting) := by
    simp [tickets, move]
  constructor
  · rw [htickets]
    exact h.sorted
  · rw [htickets]
    exact h.drawn

end InOrder

end Line

/-! ## The line of a list of listeners -/

section Turn

variable {T W : Type} {q : Queue T W} {p : Ptr}

/-- If only one listener is notified, it is the first one. -/
theorem Queue.NotifiedPrefix.head (h : q.NotifiedPrefix) (hq : q.ids.Nodup)
    (hone : q.numNotified ≤ 1) {t : T} {b : Bool} (hp : q.stateOf p = some (.notified t b)) :
    q.ids = p :: (q.erase p).ids := by
  obtain ⟨l, m, rfl, herase, -⟩ := Queue.stateOf_split hq hp
  have hl : l = [] := by
    refine List.eq_nil_iff_forall_not_mem.mpr fun x hx => ?_
    -- whoever stands before it is notified as well
    have hn : x.2.isNotified = true :=
      (List.pairwise_append.mp h).2.2 x hx _ (List.mem_cons_self ..) rfl
    have hzero : Queue.numNotified l = 0 := by
      simp only [Queue.numNotified_append, Queue.numNotified_cons, isNotified_notified,
        if_true] at hone
      omega
    rw [Queue.numNotified_eq_zero.mp hzero x hx] at hn
    cases hn
  subst hl
  rw [herase]
  rfl

end Turn

/-- What keeps a component in order: the first one in line may be notified,
and then there is something to take. -/
structure Line.Kept {S T W : Type} (l : Line) (free : S → Prop) (q : Queue T W)
    (s : S) : Prop where
  inOrder : l.InOrder q.ids
  one : q.numNotified ≤ 1
  free : 0 < q.numNotified → free s

section Kept

variable {S T W A σ : Type} {l : Line} {free : S → Prop} {q : Queue T W} {s s' : S}

theorem Line.kept_nil (s : S) : Line.new.Kept free ([] : Queue T W) s :=
  ⟨inOrder_new, Nat.zero_le _, fun h => (Nat.lt_irrefl 0 h).elim⟩

/-- A listener is dropped. -/
theorem Line.Kept.drop (h : l.Kept free q s) (hq : q.ids.Nodup) (hpl : q.Plain) (p : Ptr) :
    l.Kept free (q.drop p).event s := by
  have hle := hpl.numNotified_drop_le hq p
  refine ⟨h.inOrder.sublist ?_, Nat.le_trans hle h.one, fun hn => h.free (by omega)⟩
  rw [Queue.ids_drop]
  exact List.filter_sublist.map _

/-- Something is given back, and one listener notified. -/
theorem Line.Kept.notify (h : l.Kept free q s) {n : Notification σ T} (x : σ) (hc : n.count = 1)
    (hp : n.isAdditional = false) (hfree : free s') : l.Kept free (q.notify n x).event s' := by
  refine ⟨?_, ?_, fun _ => hfree⟩
  · rw [Queue.ids_notify]
    exact h.inOrder
  · rcases q.notify_one x hc hp with ⟨-, -, h1, -⟩ | ⟨-, hsame⟩
    · exact Nat.le_of_eq h1
    · rw [hsame]
      exact h.one

/-- Nothing is taken past those who wait. -/
theorem Line.Kept.take (h : l.Kept free q s) (hq : q = []) : l.Kept free q s' := by
  subst hq
  exact ⟨h.inOrder, h.one, fun hn => (Nat.lt_irrefl 0 hn).elim⟩

variable [WillWake W]

/-- A future is polled that takes what is free, if nobody waits or if it is
its turn. -/
theorem Line.Kept.poll {b : WaitLoop S A T} {e : Event T W} {p : Ptr} {w : W} {stage : Stage}
    (hacc : ∀ t, b.accept t = none) (hfree : ∀ s, (b.attempt s).isSome = true ↔ free s)
    (hs : stage.CanPoll p e.queue) (h : l.Kept free e.queue s)
    (hturn : stage = .unresumed → free s → e.queue = []) :
    let out := (b.poll p w stage e s).view
    (l.move (stage.move p out.2.2.1.stage)).Kept free out.1 out.2.1 := by
  rcases WaitLoop.poll_cases (b := b) (w := w) (s := s) hs with
    ⟨hp, hv⟩ | ⟨st, w', hst, hn, -, hv⟩ | ⟨t, c, hst, hv⟩
  · obtain ⟨rfl, -⟩ | ⟨-, hp'⟩ := hs
    · rw [hv]
      unfold WaitLoop.enter
      cases ha : b.attempt s with
      | some r => exact h.take (hturn rfl ((hfree s).mp (by rw [ha]; rfl)))
      | none =>
          have hone : Queue.numNotified (e.queue ++ [(p, .waiting w)]) = e.queue.numNotified := by
            simp
          refine ⟨?_, hone.symm ▸ h.one, hone.symm ▸ h.free⟩
          rw [Queue.ids_append]
          exact h.inOrder.joins hp
    · exact (hp hp').elim
  · obtain ⟨-, hno⟩ | ⟨rfl, -⟩ := hs
    · exact (hno (Queue.stateOf_mem_ids hst)).elim
    · obtain ⟨hids, h2, -, -⟩ := Queue.setState_waiting e.nodup hst hn (isNotified_waiting w')
      rw [hv]
      exact ⟨hids.symm ▸ h.inOrder, h2.symm ▸ h.one, h2.symm ▸ h.free⟩
  · obtain ⟨-, hno⟩ | ⟨rfl, -⟩ := hs
    · exact (hno (Queue.stateOf_mem_ids hst)).elim
    · obtain ⟨h3, -, -⟩ := Queue.erase_notified e.nodup hst
      have hone := h.one
      obtain ⟨r, hr⟩ := Option.isSome_iff_exists.mp ((hfree s).mpr (h.free (by omega)))
      have hzero : (e.queue.erase p).numNotified = 0 := by omega
      rw [hv, hacc t]
      unfold WaitLoop.enter
      rw [hr]
      refine ⟨?_, hzero.symm ▸ Nat.zero_le 1, fun hn => ?_⟩
      · exact (e.notifiedPrefix.head e.nodup hone hst ▸ h.inOrder).isServed
      · exact (Nat.lt_irrefl 0 (hzero ▸ hn)).elim

end Kept

end Unsend

import Mathlib.Data.List.Nodup
import Unsend.EventQueue
import Unsend.Links

/-!
# The pointer structure refines the queue

`Repr h q`: the heap `h` represents the abstract queue `q`. This is the
invariant of `event.rs` in full - links, cursors, counters and the
notified prefix - and every operation of the heap succeeds on it and
leads to a heap that represents what the same operation makes of the
queue, with the same results (`repr_listen`, `repr_poll`, `repr_notify`,
`repr_drop`).

The pointer writes are seen through four projections (`nextOf`,
`prevOf`, `stateOf`, `inListOf`), on which each write is one function
update; the link half is then the library's `seg_push` and `seg_unlink`.
-/

namespace Unsend

open Links

/-! ## The four projections of the listeners' memory -/

namespace Heap

variable {σ T W : Type}

def nextOf (h : Heap T W) (p : Ptr) : Option Ptr := (h.listeners p).entry.next

def prevOf (h : Heap T W) (p : Ptr) : Option Ptr := (h.listeners p).entry.prev

def stateOf (h : Heap T W) (p : Ptr) : State T W := (h.listeners p).entry.state

def inListOf (h : Heap T W) (p : Ptr) : Bool := (h.listeners p).inList

section Writes

variable (h : Heap T W) (p : Ptr)

theorem setEntry_fields (e : Entry T W) :
    (h.setEntry p e).head = h.head ∧ (h.setEntry p e).tail = h.tail ∧
    (h.setEntry p e).first = h.first ∧ (h.setEntry p e).notified = h.notified ∧
    (h.setEntry p e).len = h.len := ⟨rfl, rfl, rfl, rfl, rfl⟩

theorem setInList_fields (b : Bool) :
    (h.setInList p b).head = h.head ∧ (h.setInList p b).tail = h.tail ∧
    (h.setInList p b).first = h.first ∧ (h.setInList p b).notified = h.notified ∧
    (h.setInList p b).len = h.len := ⟨rfl, rfl, rfl, rfl, rfl⟩

theorem setNext_fields (v : Option Ptr) :
    (h.setNext p v).head = h.head ∧ (h.setNext p v).tail = h.tail ∧
    (h.setNext p v).first = h.first ∧ (h.setNext p v).notified = h.notified ∧
    (h.setNext p v).len = h.len := ⟨rfl, rfl, rfl, rfl, rfl⟩

theorem setPrev_fields (v : Option Ptr) :
    (h.setPrev p v).head = h.head ∧ (h.setPrev p v).tail = h.tail ∧
    (h.setPrev p v).first = h.first ∧ (h.setPrev p v).notified = h.notified ∧
    (h.setPrev p v).len = h.len := ⟨rfl, rfl, rfl, rfl, rfl⟩

@[simp] theorem nextOf_setEntry (e : Entry T W) :
    (h.setEntry p e).nextOf = Function.update h.nextOf p e.next := by
  funext r
  by_cases hr : r = p <;> simp [nextOf, setEntry, hr]

@[simp] theorem prevOf_setEntry (e : Entry T W) :
    (h.setEntry p e).prevOf = Function.update h.prevOf p e.prev := by
  funext r
  by_cases hr : r = p <;> simp [prevOf, setEntry, hr]

@[simp] theorem stateOf_setEntry (e : Entry T W) :
    (h.setEntry p e).stateOf = Function.update h.stateOf p e.state := by
  funext r
  by_cases hr : r = p <;> simp [stateOf, setEntry, hr]

@[simp] theorem inListOf_setEntry (e : Entry T W) :
    (h.setEntry p e).inListOf = h.inListOf := by
  funext r
  by_cases hr : r = p <;> simp [inListOf, setEntry, hr]

@[simp] theorem nextOf_setInList (b : Bool) : (h.setInList p b).nextOf = h.nextOf := by
  funext r
  by_cases hr : r = p <;> simp [nextOf, setInList, hr]

@[simp] theorem prevOf_setInList (b : Bool) : (h.setInList p b).prevOf = h.prevOf := by
  funext r
  by_cases hr : r = p <;> simp [prevOf, setInList, hr]

@[simp] theorem stateOf_setInList (b : Bool) :
    (h.setInList p b).stateOf = h.stateOf := by
  funext r
  by_cases hr : r = p <;> simp [stateOf, setInList, hr]

@[simp] theorem inListOf_setInList (b : Bool) :
    (h.setInList p b).inListOf = Function.update h.inListOf p b := by
  funext r
  by_cases hr : r = p <;> simp [inListOf, setInList, hr]

@[simp] theorem nextOf_setNext (v : Option Ptr) :
    (h.setNext p v).nextOf = Function.update h.nextOf p v := nextOf_setEntry ..

@[simp] theorem prevOf_setNext (v : Option Ptr) : (h.setNext p v).prevOf = h.prevOf :=
  (prevOf_setEntry ..).trans (Function.update_eq_self ..)

@[simp] theorem stateOf_setNext (v : Option Ptr) :
    (h.setNext p v).stateOf = h.stateOf :=
  (stateOf_setEntry ..).trans (Function.update_eq_self ..)

@[simp] theorem inListOf_setNext (v : Option Ptr) :
    (h.setNext p v).inListOf = h.inListOf := inListOf_setEntry ..

@[simp] theorem nextOf_setPrev (v : Option Ptr) : (h.setPrev p v).nextOf = h.nextOf :=
  (nextOf_setEntry ..).trans (Function.update_eq_self ..)

@[simp] theorem prevOf_setPrev (v : Option Ptr) :
    (h.setPrev p v).prevOf = Function.update h.prevOf p v := prevOf_setEntry ..

@[simp] theorem stateOf_setPrev (v : Option Ptr) :
    (h.setPrev p v).stateOf = h.stateOf :=
  (stateOf_setEntry ..).trans (Function.update_eq_self ..)

@[simp] theorem inListOf_setPrev (v : Option Ptr) :
    (h.setPrev p v).inListOf = h.inListOf := inListOf_setEntry ..

@[simp] theorem nextOf_setState (st : State T W) :
    (h.setState p st).nextOf = h.nextOf :=
  (nextOf_setEntry ..).trans (Function.update_eq_self ..)

@[simp] theorem prevOf_setState (st : State T W) :
    (h.setState p st).prevOf = h.prevOf :=
  (prevOf_setEntry ..).trans (Function.update_eq_self ..)

@[simp] theorem stateOf_setState (st : State T W) :
    (h.setState p st).stateOf = Function.update h.stateOf p st := stateOf_setEntry ..

@[simp] theorem inListOf_setState (st : State T W) :
    (h.setState p st).inListOf = h.inListOf := inListOf_setEntry ..

@[simp] theorem nextOf_mk (a b c : Option Ptr) (m n : Nat) :
    nextOf (T := T) (W := W) ⟨a, b, c, m, n, h.listeners⟩ = h.nextOf := rfl

@[simp] theorem prevOf_mk (a b c : Option Ptr) (m n : Nat) :
    prevOf (T := T) (W := W) ⟨a, b, c, m, n, h.listeners⟩ = h.prevOf := rfl

@[simp] theorem stateOf_mk (a b c : Option Ptr) (m n : Nat) :
    stateOf (T := T) (W := W) ⟨a, b, c, m, n, h.listeners⟩ = h.stateOf := rfl

@[simp] theorem inListOf_mk (a b c : Option Ptr) (m n : Nat) :
    inListOf (T := T) (W := W) ⟨a, b, c, m, n, h.listeners⟩ = h.inListOf := rfl

end Writes

/-! ## What `insert` and `unlink` write -/

theorem insert_fields (h : Heap T W) (p : Ptr) :
    (h.insert p).nextOf = relink (Function.update h.nextOf p none) h.tail (some p) ∧
    (h.insert p).prevOf = Function.update h.prevOf p h.tail ∧
    (h.insert p).stateOf = Function.update h.stateOf p .created ∧
    (h.insert p).inListOf = Function.update h.inListOf p true ∧
    (h.insert p).head = (if h.tail = none then some p else h.head) ∧
    (h.insert p).tail = some p ∧ (h.insert p).first = h.first.or (some p) ∧
    (h.insert p).notified = h.notified ∧ (h.insert p).len = h.len + 1 := by
  cases ht : h.tail <;> cases hf : h.first <;>
    simp [insert, setInList_fields, setNext_fields, setEntry_fields, ht, hf, relink]

theorem unlink_fields (h : Heap T W) (p : Ptr) :
    (h.unlink p).nextOf = relink h.nextOf (h.prevOf p) (h.nextOf p) ∧
    (h.unlink p).prevOf = relink h.prevOf (h.nextOf p) (h.prevOf p) ∧
    (h.unlink p).stateOf = h.stateOf ∧ (h.unlink p).inListOf = h.inListOf ∧
    (h.unlink p).head = (if h.prevOf p = none then h.nextOf p else h.head) ∧
    (h.unlink p).tail = (if h.nextOf p = none then h.prevOf p else h.tail) ∧
    (h.unlink p).first = (if h.first = some p then h.nextOf p else h.first) ∧
    (h.unlink p).notified = h.notified ∧ (h.unlink p).len = h.len := by
  by_cases hf : h.first = some p <;> cases hp : (h.listeners p).entry.prev <;>
    cases hn : (h.listeners p).entry.next <;>
    simp [unlink, setNext_fields, setPrev_fields, hf, hp, hn, relink,
      show h.nextOf p = _ from hn, show h.prevOf p = _ from hp]

end Heap

/-! ## Representation -/

/-- The heap `h` represents the queue `q`. -/
structure Repr {T W : Type} (h : Heap T W) (q : Queue T W) : Prop where
  /-- `next` and `prev` link the listeners of `q`, in this order. -/
  seg : Seg h.nextOf h.prevOf none q.ids none
  head : h.head = q.ids.head?
  tail : h.tail = q.ids.getLast?
  first : h.first = q.firstWaiting
  notified : h.notified = q.numNotified
  len : h.len = q.length
  state : ∀ p st, (p, st) ∈ q → h.stateOf p = st
  inList : ∀ p, h.inListOf p = true ↔ p ∈ q.ids
  nodup : q.ids.Nodup
  notifiedPrefix : q.NotifiedPrefix

section Refine

variable {σ T W : Type} {h : Heap T W} {q : Queue T W}

theorem repr_new : Repr (Heap.new : Heap T W) [] where
  seg := trivial
  head := rfl
  tail := rfl
  first := rfl
  notified := rfl
  len := rfl
  state _ _ h := (List.not_mem_nil h).elim
  inList p := by simp [Heap.new, Heap.inListOf, Listener.new]
  nodup := List.nodup_nil
  notifiedPrefix := List.Pairwise.nil

theorem Repr.stateOf_eq (hr : Repr h q) {p : Ptr} (hp : p ∈ q.ids) :
    q.stateOf p = some (h.stateOf p) := by
  obtain ⟨st, hst⟩ := Queue.mem_ids.mp hp
  rw [(Queue.stateOf_eq_some hr.nodup).mpr hst, hr.state p st hst]

theorem Repr.not_inList (hr : Repr h q) {p : Ptr} :
    h.inListOf p = false ↔ p ∉ q.ids := by
  rw [← hr.inList p, Bool.not_eq_true]

/-- In a queue with a notified prefix the waiting entries are a suffix. -/
theorem Queue.NotifiedPrefix.waiting_after {l m : Queue T W} {x : Ptr × State T W}
    (h : NotifiedPrefix (l ++ x :: m)) (hx : x.2.isNotified = false) :
    ∀ y ∈ m, y.2.isNotified = false := by
  intro y hy
  cases hn : y.2.isNotified with
  | false => rfl
  | true =>
      have hxm := (List.pairwise_cons.mp (List.pairwise_append.mp h).2.1).1 y hy hn
      rw [hx] at hxm; cases hxm

theorem Queue.firstWaiting_append (a b : Queue T W) :
    firstWaiting (a ++ b) = a.firstWaiting.or b.firstWaiting := by
  simp only [firstWaiting, List.find?_append]
  cases List.find? (fun x => !x.2.isNotified) a <;> rfl

theorem Queue.firstWaiting_eq_none {a : Queue T W} :
    a.firstWaiting = none ↔ ∀ x ∈ a, x.2.isNotified = true := by
  simp [firstWaiting]

theorem Queue.firstWaiting_of_waiting {b : Queue T W}
    (hb : ∀ x ∈ b, x.2.isNotified = false) : b.firstWaiting = b.ids.head? := by
  cases b with
  | nil => rfl
  | cons x b => simp [firstWaiting, hb x (List.mem_cons_self ..)]

theorem Queue.firstWaiting_mem {a : Queue T W} {p : Ptr}
    (h : a.firstWaiting = some p) : ∃ st, (p, st) ∈ a ∧ st.isNotified = false := by
  simp only [firstWaiting, Option.map_eq_some_iff] at h
  obtain ⟨x, hx, rfl⟩ := h
  exact ⟨x.2, List.mem_of_find?_eq_some hx, by simpa using List.find?_some hx⟩

/-! ## Insertion -/

theorem repr_insert (hr : Repr h q) {p : Ptr} (hp : p ∉ q.ids) :
    Repr (h.insert p) (q ++ [(p, .created)]) := by
  obtain ⟨hn, hv, hs, hi, hhd, htl, hf, hno, hle⟩ := h.insert_fields p
  have hids : Queue.ids (q ++ [(p, (.created : State T W))]) = q.ids ++ [p] := by simp
  refine ⟨?_, ?_, ?_, ?_, ?_, ?_, ?_, ?_, ?_, ?_⟩
  · rw [hn, hv, hids, hr.tail]
    exact seg_push hr.nodup hp hr.seg
  · rw [hhd, hids, hr.tail, hr.head]
    cases hq : q.ids with
    | nil => rfl
    | cons a l => simp
  · rw [htl, hids, List.getLast?_concat]
  · rw [hf, Queue.firstWaiting_append, hr.first]; rfl
  · rw [hno, hr.notified]; simp
  · rw [hle, hr.len]; simp
  · intro r st hm
    rw [hs]
    rcases List.mem_append.mp hm with hm | hm
    · have hne : r ≠ p := fun he => hp (he ▸ Queue.mem_ids_of_mem hm)
      rw [Function.update_of_ne hne, hr.state r st hm]
    · obtain ⟨rfl, rfl⟩ := Prod.mk.injEq .. |>.mp (List.mem_singleton.mp hm)
      exact Function.update_self ..
  · intro r
    rw [hi, hids, List.mem_append, List.mem_singleton, Function.update_apply]
    by_cases hrp : r = p
    · simp [hrp]
    · simp [hrp, hr.inList r]
  · rw [hids]
    simpa using hr.nodup.concat hp
  · refine List.pairwise_append.mpr ⟨hr.notifiedPrefix, by simp, ?_⟩
    intro x _ y hy hn
    rw [List.mem_singleton.mp hy] at hn; cases hn

theorem repr_listen (hr : Repr h q) (p : Ptr) : Repr (h.listen p) (q.listen p) := by
  unfold Heap.listen Queue.listen
  by_cases hp : p ∈ q.ids
  · have hin : (h.listeners p).inList = true := (hr.inList p).mpr hp
    rwa [if_pos hin, if_pos hp]
  · have hin : (h.listeners p).inList = false := hr.not_inList.mpr hp
    rw [if_neg hp, hin]
    exact repr_insert hr hp

/-! ## State changes in place -/

/-- The entries hold the states of the list, when one of them is replaced
in both. -/
theorem state_replaced {l m : Queue T W} {p : Ptr} {st st' : State T W}
    (hnd : (Queue.ids (l ++ (p, st) :: m)).Nodup)
    (hstate : ∀ r s, (r, s) ∈ l ++ (p, st) :: m → h.stateOf r = s) :
    ∀ r s, (r, s) ∈ l ++ (p, st') :: m → (h.setState p st').stateOf r = s := by
  intro r s hrs
  rw [Heap.stateOf_setState]
  by_cases hrp : r = p
  · rw [hrp] at hrs ⊢
    rw [Function.update_self]
    have hnd' : (Queue.ids (l ++ (p, st') :: m)).Nodup := by simpa using hnd
    have h1 := (Queue.stateOf_eq_some hnd').mpr hrs
    have h2 := (Queue.stateOf_eq_some hnd').mpr
      (List.mem_append_right l (List.mem_cons_self (a := (p, st')) ..))
    exact Option.some.inj (h2.symm.trans h1)
  · rw [Function.update_of_ne hrp]
    refine hstate r s ?_
    simp only [List.mem_append, List.mem_cons, Prod.mk.injEq, hrp, false_and,
      false_or] at hrs ⊢
    exact hrs

/-- Replacing a waiting state by another. -/
theorem repr_setState (hr : Repr h q) {p : Ptr} {st st' : State T W}
    (hm : q.stateOf p = some st) (hst : st.isNotified = false)
    (hst' : st'.isNotified = false) : Repr (h.setState p st') (q.setState p st') := by
  obtain ⟨l, m, rfl, -, hset⟩ := Queue.stateOf_split hr.nodup hm
  rw [hset st']
  have hids : Queue.ids (l ++ (p, st') :: m) = Queue.ids (l ++ (p, st) :: m) := by simp
  refine ⟨?_, ?_, ?_, ?_, ?_, ?_, ?_, ?_, ?_, ?_⟩
  · rw [hids]; simpa using hr.seg
  · rw [hids]; exact hr.head
  · rw [hids]; exact hr.tail
  · refine (hr.first).trans ?_
    rw [Queue.firstWaiting_append, Queue.firstWaiting_append]
    simp [Queue.firstWaiting, hst, hst']
  · refine (hr.notified).trans ?_
    simp [hst, hst']
  · refine (hr.len).trans ?_
    simp
  · exact state_replaced hr.nodup hr.state
  · intro r; rw [hids]; simpa using hr.inList r
  · rw [hids]; exact hr.nodup
  · have hp := hr.notifiedPrefix
    simp only [Queue.NotifiedPrefix, List.pairwise_append, List.pairwise_cons,
      List.forall_mem_cons, hst, hst', Bool.false_eq_true, false_implies,
      true_and] at hp ⊢
    exact hp

/-! ## Notification -/

/-- `k` calls of `next_tag` return, with these tags. -/
inductive Produces (n : NotificationSealed σ T) : Nat → σ → List T → σ → Prop
  | zero {s : σ} : Produces n 0 s [] s
  | succ {k : Nat} {s s1 s2 : σ} {t : T} {ts : List T} : n.nextTag s = .ok (t, s1) →
      Produces n k s1 ts s2 → Produces n (k + 1) s (t :: ts) s2

theorem produces_total (n : Notification σ T) :
    ∀ (k : Nat) (s : σ),
      Produces n.toNotificationSealed k s (n.produce k s).1 (n.produce k s).2
  | 0, _ => .zero
  | k + 1, s => .succ (n.nextTag_eq s) (produces_total n k (n.next s).2)

theorem Produces.length {n : NotificationSealed σ T} {k : Nat} {s s' : σ}
    {ts : List T} (h : Produces n k s ts s') : ts.length = k := by
  induction h with
  | zero => rfl
  | succ _ _ ih => rw [List.length_cons, ih]

/-- One turn of the loop: the entry `first` points to becomes notified
and the cursor moves on. -/
theorem repr_mark {a b : Queue T W} {p : Ptr} {st : State T W}
    (hr : Repr h (a ++ (p, st) :: b)) (ha : ∀ x ∈ a, x.2.isNotified = true)
    (hst : st.isNotified = false) (t : T) (additional : Bool) :
    h.first = some p ∧
    Repr ((h.advance p).setState p (.notified t additional)).bump
      (a ++ (p, .notified t additional) :: b) := by
  have hwait := hr.notifiedPrefix.waiting_after hst
  have hids : Queue.ids (a ++ (p, (.notified t additional : State T W)) :: b)
      = Queue.ids (a ++ (p, st) :: b) := by simp
  have hnext : h.nextOf p = b.ids.head? := by
    have hs := hr.seg
    rw [Queue.ids_append, Queue.ids_cons] at hs
    simpa using (seg_append.mp hs).2.2.1
  refine ⟨?_, ?_, ?_, ?_, ?_, ?_, ?_, ?_, ?_, ?_, ?_⟩
  · rw [hr.first, Queue.firstWaiting_append, Queue.firstWaiting_eq_none.mpr ha]
    simp [Queue.firstWaiting, hst]
  · rw [hids]
    exact seg_congr (fun r _ => congrFun (Heap.nextOf_setState (h.advance p) p _) r)
      (fun r _ => congrFun (Heap.prevOf_setState (h.advance p) p _) r) hr.seg
  · rw [hids]; exact hr.head
  · rw [hids]; exact hr.tail
  · show h.nextOf p = _
    rw [hnext, Queue.firstWaiting_append, Queue.firstWaiting_eq_none.mpr ha,
      ← Queue.firstWaiting_of_waiting hwait]
    simp [Queue.firstWaiting]
  · show h.notified + 1 = _
    rw [hr.notified]
    simp [hst]; omega
  · refine (hr.len).trans ?_
    simp
  · exact state_replaced (h := h.advance p) hr.nodup hr.state
  · intro r
    rw [hids, ← hr.inList r]
    exact iff_of_eq (congrArg (· = true)
      (congrFun (Heap.inListOf_setState (h.advance p) p _) r))
  · rw [hids]; exact hr.nodup
  · rw [List.append_cons]
    refine Queue.notifiedPrefix_append (fun x hx => ?_) hwait
    rcases List.mem_append.mp hx with hx | hx
    · exact ha x hx
    · rw [List.mem_singleton.mp hx]; rfl

/-- The loop marks waiting entries from the front until its count or the
entries run out. -/
theorem notifyLoop_repr {n : NotificationSealed σ T} :
    ∀ {count : Nat} {h : Heap T W} {a b : Queue T W} {s s' : σ} {ts : List T},
      Repr h (a ++ b) → (∀ x ∈ a, x.2.isNotified = true) →
      (∀ x ∈ b, x.2.isNotified = false) →
      Produces n (min count b.length) s ts s' →
      ∃ h', Heap.notifyLoop n count h s = .ok ⟨h', s', min count b.length,
          (b.take (min count b.length)).flatMap fun x => x.2.wakers⟩ ∧
        Repr h' (a ++ Queue.assign n.isAdditional ts b)
  | 0, h, a, b, s, s', ts, hr, _, _, hp => by
      rw [Nat.zero_min] at hp ⊢
      cases hp
      exact ⟨h, by simp [Heap.notifyLoop], by simpa using hr⟩
  | count + 1, h, a, [], s, s', ts, hr, ha, _, hp => by
      have hf : h.first = none := by
        rw [hr.first, List.append_nil]
        exact Queue.firstWaiting_eq_none.mpr ha
      rw [List.length_nil, Nat.min_zero] at hp ⊢
      cases hp
      exact ⟨h, by simp [Heap.notifyLoop, hf], by simpa using hr⟩
  | count + 1, h, a, (p, st) :: b, s, s', ts, hr, ha, hb, hp => by
      have hst : st.isNotified = false := hb _ (List.mem_cons_self ..)
      rw [List.length_cons, Nat.add_min_add_right] at hp ⊢
      cases hp with
      | @succ _ _ s1 _ t ts hnext hp =>
          obtain ⟨hf, hr1⟩ := repr_mark hr ha hst t n.isAdditional
          have hpst : h.stateOf p = st :=
            hr.state p st (List.mem_append_right a (List.mem_cons_self ..))
          rw [List.append_cons] at hr1
          obtain ⟨h', hloop, hr'⟩ := notifyLoop_repr (b := b) hr1
            (fun x hx => (List.mem_append.mp hx).elim (ha x)
              fun hx => by rw [List.mem_singleton.mp hx]; rfl)
            (fun x hx => hb x (List.mem_cons_of_mem _ hx)) hp
          refine ⟨h', ?_, ?_⟩
          · rw [Heap.notifyLoop, hf]
            simp only [hnext, ok_bind, hloop, List.take_succ_cons, List.flatMap_cons]
            rw [show (h.listeners p).entry.state = st from hpst]
          · rw [← List.append_cons] at hr'
            rwa [Queue.assign, if_neg (by simp [hst])]

/-- The listeners that are not notified come last. -/
theorem Queue.waiting_append {a b : Queue T W} (ha : ∀ x ∈ a, x.2.isNotified = true)
    (hb : ∀ x ∈ b, x.2.isNotified = false) :
    (a ++ b).filter (fun x => !x.2.isNotified) = b ∧ Queue.numWaiting (a ++ b) = b.length := by
  have hfb : (a ++ b).filter (fun x => !x.2.isNotified) = b := by
    rw [List.filter_append, List.filter_eq_nil_iff.mpr fun x hx => by simp [ha x hx],
      List.filter_eq_self.mpr fun x hx => by simp [hb x hx], List.nil_append]
  refine ⟨hfb, ?_⟩
  rw [Queue.numWaiting, List.countP_eq_length_filter, hfb]

theorem repr_notifyInner (hr : Repr h q) {n : NotificationSealed σ T} {s s' : σ}
    {ts : List T} (hp : Produces n (q.reach n.isAdditional n.count) s ts s') :
    ∃ h', h.notifyInner n s = .ok ⟨h', s', q.reach n.isAdditional n.count,
        q.wakers (q.reach n.isAdditional n.count)⟩ ∧
      Repr h' (q.assign n.isAdditional ts) := by
  obtain ⟨a, b, rfl, ha, hb⟩ := hr.notifiedPrefix.split
  obtain ⟨hfb, hnw⟩ := Queue.waiting_append ha hb
  simp only [Queue.reach, Queue.wakers, hfb, hnw] at hp ⊢
  rw [Queue.assign_append_notified ha]
  unfold Heap.notifyInner
  cases hadd : n.isAdditional with
  | true =>
      simp only [hadd, if_true] at hp ⊢
      have := notifyLoop_repr hr ha hb hp
      rwa [hadd] at this
  | false =>
      simp only [hadd, Bool.false_eq_true, if_false, ← hr.notified] at hp ⊢
      by_cases hle : n.count ≤ h.notified
      · rw [Nat.sub_eq_zero_of_le hle, Nat.zero_min] at hp ⊢
        cases hp
        rw [if_pos hle]
        exact ⟨h, by simp, by simpa using hr⟩
      · rw [if_neg hle]
        have := notifyLoop_repr hr ha hb hp
        rwa [hadd] at this

theorem repr_notify (hr : Repr h q) (n : Notification σ T) (s : σ) :
    ∃ h', h.notify n.toNotificationSealed s = .ok ⟨h', (q.notify n s).producer,
        (q.notify n s).count, (q.notify n s).woken⟩ ∧
      Repr h' (q.notify n s).event := by
  have hp := produces_total n (q.reach n.isAdditional n.count) s
  obtain ⟨h', hin, hr'⟩ := repr_notifyInner hr hp
  -- both early returns are taken only where no entry is reached
  have hskip : q.reach n.isAdditional n.count = 0 →
      ∃ h0, (Except.ok ⟨h, s, 0, []⟩ : Except Fault (NotifyOut (Heap T W) σ W))
        = .ok ⟨h0, (q.notify n s).producer, (q.notify n s).count,
          (q.notify n s).woken⟩ ∧ Repr h0 (q.notify n s).event := by
    intro h0
    refine ⟨h, ?_, ?_⟩
    · simp [Queue.notify, h0, Notification.produce, Queue.wakers]
    · simpa [Queue.notify, h0, Notification.produce] using hr
  unfold Heap.notify
  cases hadd : n.isAdditional with
  | true =>
      by_cases hlen : h.len = 0
      · simp only [if_true, hlen]
        refine hskip ?_
        have := q.length_eq_add
        rw [hr.len] at hlen
        simp only [Queue.reach]
        omega
      · simp only [if_true, if_neg hlen]
        exact ⟨h', hin, hr'⟩
  | false =>
      by_cases hgt : h.notified > n.count
      · simp only [Bool.false_eq_true, if_false, if_pos hgt]
        refine hskip ?_
        rw [hr.notified] at hgt
        simp only [Queue.reach, hadd, Bool.false_eq_true, if_false]
        omega
      · simp only [Bool.false_eq_true, if_false, if_neg hgt]
        exact ⟨h', hin, hr'⟩

/-! ## Removal -/

theorem Queue.ids_erase_sub (q : Queue T W) (p : Ptr) :
    (q.erase p).ids.Sublist q.ids := (List.filter_sublist).map _

theorem Queue.mem_ids_erase {q : Queue T W} {p r : Ptr} :
    r ∈ (q.erase p).ids ↔ r ∈ q.ids ∧ r ≠ p := by
  simp only [Queue.mem_ids, Queue.erase, List.mem_filter, decide_eq_true_eq]
  exact exists_and_right

theorem Queue.firstWaiting_erase {l m : Queue T W} {p : Ptr} {st : State T W}
    (hnd : (Queue.ids (l ++ (p, st) :: m)).Nodup)
    (hpre : NotifiedPrefix (l ++ (p, st) :: m)) :
    firstWaiting (l ++ m) =
      if firstWaiting (l ++ (p, st) :: m) = some p then m.ids.head?
      else firstWaiting (l ++ (p, st) :: m) := by
  rw [ids_append, ids_cons] at hnd
  have hdisj := (List.nodup_append.mp hnd).2.2
  have hpm : p ∉ m.ids := (List.nodup_cons.mp (List.nodup_append.mp hnd).2.1).1
  have hl : ∀ {r}, l.firstWaiting = some r → r ≠ p := by
    rintro r h rfl
    obtain ⟨s, hs, -⟩ := firstWaiting_mem h
    exact hdisj r (mem_ids_of_mem hs) r (List.mem_cons_self ..) rfl
  rw [firstWaiting_append, firstWaiting_append]
  cases hfl : l.firstWaiting with
  | some r => simp [hl hfl]
  | none =>
      cases hst : st.isNotified with
      | false =>
          have hm := firstWaiting_of_waiting (hpre.waiting_after hst)
          have hcons : firstWaiting ((p, st) :: m) = some p := by simp [firstWaiting, hst]
          simp [hm, hcons]
      | true =>
          have hcons : firstWaiting ((p, st) :: m) = m.firstWaiting := by
            simp [firstWaiting, hst]
          have hne : m.firstWaiting ≠ some p := fun h => by
            obtain ⟨s, hs, -⟩ := firstWaiting_mem h
            exact hpm (mem_ids_of_mem hs)
          simp [hcons, hne]

theorem repr_takeOut (hr : Repr h q) {p : Ptr} {st : State T W}
    (hm : q.stateOf p = some st) :
    ∃ h', h.takeOut p = .ok (h', st) ∧ h'.notified = h.notified ∧
      ∀ n, n + (if st.isNotified then 1 else 0) = h.notified →
        Repr { h' with notified := n } (q.erase p) := by
  obtain ⟨l, m, rfl, her, -⟩ := Queue.stateOf_split hr.nodup hm
  obtain ⟨hun, huv, hus, hui, huh, hut, huf, huno, hul⟩ := h.unlink_fields p
  have hseg := hr.seg
  have hnd := hr.nodup
  rw [Queue.ids_append, Queue.ids_cons] at hseg hnd
  obtain ⟨-, hprev, hnext, -⟩ := seg_append.mp hseg
  rw [Option.or_none] at hprev hnext
  have hpl : p ∉ Queue.ids l ++ Queue.ids m := by
    have := (List.nodup_middle.mp hnd)
    exact (List.nodup_cons.mp this).1
  have hpst : h.stateOf p = st :=
    hr.state p st (List.mem_append_right l (List.mem_cons_self ..))
  have hlen : h.len = (l ++ m).length + 1 := by rw [hr.len]; simp; omega
  refine ⟨({ (h.unlink p).setEntry p .blank with len := (l ++ m).length }).setInList p false,
    ?_, huno, fun n hn => ?_⟩
  · unfold Heap.takeOut
    have hst : ((h.unlink p).listeners p).entry.state = st := by
      rw [← hpst, ← hus]; rfl
    have hpred : checkedPred ((h.unlink p).setEntry p .blank).len = .ok (l ++ m).length := by
      show checkedPred (h.unlink p).len = _
      rw [hul, hlen]; rfl
    simp only [hst, hpred, ok_bind]
  · rw [her]
    have hids : Queue.ids (l ++ m) = Queue.ids l ++ Queue.ids m := Queue.ids_append ..
    refine ⟨?_, ?_, ?_, ?_, ?_, rfl, ?_, ?_, ?_, ?_⟩
    · rw [hids]
      refine seg_congr (fun r hrl => ?_) (fun r hrl => ?_) (seg_unlink hnd hseg)
      all_goals
        have hne : r ≠ p := fun he => hpl (he ▸ hrl)
        simp [hun, huv, hne]
    · show (h.unlink p).head = _
      rw [huh, hids, hprev, hnext, hr.head, Queue.ids_append]
      cases Queue.ids l <;> simp
    · show (h.unlink p).tail = _
      rw [hut, hids, hprev, hnext, hr.tail, Queue.ids_append, Queue.ids_cons]
      cases Queue.ids m <;> simp
    · show (h.unlink p).first = _
      rw [huf, hnext, hr.first, ← Queue.firstWaiting_erase hr.nodup hr.notifiedPrefix]
    · show n = _
      have := hr.notified
      simp only [Queue.numNotified_append, Queue.numNotified_cons] at this ⊢
      omega
    · intro r s hrs
      have hne : r ≠ p := fun he =>
        hpl (he ▸ hids ▸ Queue.mem_ids_of_mem hrs)
      simp only [Heap.stateOf_mk, Heap.stateOf_setInList, Heap.stateOf_setEntry, hus]
      rw [Function.update_of_ne hne]
      refine hr.state r s ?_
      rw [List.mem_append] at hrs
      rw [List.mem_append, List.mem_cons]
      exact hrs.imp_right Or.inr
    · intro r
      simp only [Heap.inListOf_mk, Heap.inListOf_setInList, Heap.inListOf_setEntry, hui]
      by_cases hrp : r = p
      · subst hrp
        simpa [hids] using hpl
      · rw [Function.update_of_ne hrp, hr.inList r]
        simp [hrp]
    · rw [hids]
      exact (List.nodup_cons.mp (List.nodup_middle.mp hnd)).2
    · rw [← her]
      exact hr.notifiedPrefix.erase p

theorem produces_single {additional : Bool} {t : T} {k : Nat} (hk : k ≤ 1) :
    Produces (SingleNotify T additional) k (some t) (if k = 0 then [] else [t])
      (if k = 0 then some t else none) := by
  obtain rfl | rfl : k = 0 ∨ k = 1 := by omega
  · exact .zero
  · exact .succ rfl .zero

/-- A `SingleNotify` of a removed entry's tag does what `pass` says. -/
theorem repr_pass (hr : Repr h q) (t : T) (additional : Bool) :
    ∃ h', h.notifyInner (SingleNotify T additional) (some t) =
        .ok ⟨h', (q.pass t additional).discarded, q.reach additional 1,
          (q.pass t additional).woken⟩ ∧
      Repr h' (q.pass t additional).event := by
  have hk : q.reach additional 1 ≤ 1 := by
    unfold Queue.reach
    cases additional <;> simp only [Bool.false_eq_true, if_true, if_false] <;> omega
  obtain ⟨h', hin, hr'⟩ := repr_notifyInner hr
    (n := SingleNotify T additional) (produces_single hk)
  refine ⟨h', hin.trans ?_, ?_⟩
  · unfold Queue.pass
    by_cases h0 : q.reach additional 1 = 0
    · simp [SingleNotify, h0, Queue.wakers]
    · have h1 : q.reach additional 1 = 1 := by omega
      simp [SingleNotify, h1]
  · unfold Queue.pass
    by_cases h0 : q.reach additional 1 = 0 <;> simpa [SingleNotify, h0] using hr'

/-- Taking a notified entry out: `notified -= 1` does not underflow. -/
theorem repr_takeNotified (hr : Repr h q) {p : Ptr} {t : T} {additional : Bool}
    (hm : q.stateOf p = some (.notified t additional)) :
    ∃ h1 n, h.takeOut p = .ok (h1, .notified t additional) ∧
      checkedPred h1.notified = .ok n ∧ Repr { h1 with notified := n } (q.erase p) := by
  obtain ⟨h1, htake, hno, hrep⟩ := repr_takeOut hr hm
  obtain ⟨n, hn⟩ : ∃ n, h.notified = n + 1 := by
    obtain ⟨l, m, rfl, -⟩ := Queue.stateOf_split hr.nodup hm
    refine ⟨Queue.numNotified l + Queue.numNotified m, ?_⟩
    rw [hr.notified]
    simp; omega
  refine ⟨h1, n, htake, by rw [hno, hn]; rfl, hrep n ?_⟩
  rw [isNotified_notified, if_pos rfl, hn]

/-- Taking a waiting entry out leaves the counter alone. -/
theorem repr_takeWaiting (hr : Repr h q) {p : Ptr} {st : State T W}
    (hm : q.stateOf p = some st) (hst : st.isNotified = false) :
    ∃ h1, h.takeOut p = .ok (h1, st) ∧ Repr h1 (q.erase p) := by
  obtain ⟨h1, htake, hno, hrep⟩ := repr_takeOut hr hm
  exact ⟨h1, htake, hrep h1.notified (by simpa [hst] using hno)⟩

theorem repr_drop (hr : Repr h q) (p : Ptr) :
    ∃ h', h.drop p = .ok ⟨h', (q.drop p).tag, (q.drop p).woken, (q.drop p).discarded⟩ ∧
      Repr h' (q.drop p).event := by
  unfold Heap.drop Queue.drop
  by_cases hp : p ∈ q.ids
  · have hin : (h.listeners p).inList = true := (hr.inList p).mpr hp
    have hst := hr.stateOf_eq hp
    rw [if_pos hin, hst]
    unfold Heap.remove
    cases hs : h.stateOf p with
    | notified t additional =>
        rw [hs] at hst
        obtain ⟨h1, n, htake, hpred, hr1⟩ := repr_takeNotified hr hst
        obtain ⟨h2, hinner, hr2⟩ := repr_pass hr1 t additional
        refine ⟨h2, ?_, hr2⟩
        have htag : ((q.erase p).pass t additional).tag = none := by
          unfold Queue.pass
          split <;> rfl
        simp only [htake, hpred, hinner, htag, ok_bind, if_true]
    | created =>
        rw [hs] at hst
        obtain ⟨h1, htake, hr1⟩ := repr_takeWaiting hr hst rfl
        exact ⟨h1, by simp only [htake, ok_bind], hr1⟩
    | waiting w =>
        rw [hs] at hst
        obtain ⟨h1, htake, hr1⟩ := repr_takeWaiting hr hst rfl
        exact ⟨h1, by simp only [htake, ok_bind], hr1⟩
  · have hin : (h.listeners p).inList = false := hr.not_inList.mpr hp
    rw [hin, Queue.stateOf_eq_none.mpr hp]
    exact ⟨h, rfl, hr⟩

/-! ## Polling -/

theorem Queue.stateOf_insert {q : Queue T W} {p : Ptr} (hp : p ∉ q.ids)
    (st : State T W) : stateOf (q ++ [(p, st)]) p = some st := by
  have hnone : q.find? (fun x => x.1 = p) = none := by
    simpa [stateOf] using stateOf_eq_none.mpr hp
  simp [stateOf, List.find?_append, hnone]

theorem Queue.setState_insert {q : Queue T W} {p : Ptr} (hp : p ∉ q.ids)
    (st st' : State T W) : setState (q ++ [(p, st)]) p st' = q ++ [(p, st')] := by
  rw [setState, List.map_append]
  exact congrArg₂ _ (setState_of_notMem hp st') (by simp)

/-- The unwrap in `register` finds a tag. -/
theorem repr_register [WillWake W] (hr : Repr h q) {p : Ptr} (hp : p ∈ q.ids)
    (w : W) :
    ∃ h', h.register p w = .ok (h', (q.poll p w).2) ∧ Repr h' (q.poll p w).1 := by
  have hst := hr.stateOf_eq hp
  have hcell : (h.listeners p).entry.state = h.stateOf p := rfl
  unfold Heap.register Queue.poll
  rw [hcell]
  cases hs : h.stateOf p with
  | created =>
      rw [hs] at hst
      rw [hst]
      exact ⟨_, rfl, repr_setState hr hst rfl rfl⟩
  | waiting task =>
      rw [hs] at hst
      rw [hst]
      exact ⟨_, rfl, repr_setState hr hst rfl rfl⟩
  | notified t additional =>
      rw [hs] at hst
      obtain ⟨h1, n, htake, hpred, hr1⟩ := repr_takeNotified hr hst
      rw [hst]
      refine ⟨_, ?_, hr1⟩
      simp only [Heap.remove, htake, hpred, ok_bind, Bool.false_eq_true, if_false]

theorem repr_poll [WillWake W] (hr : Repr h q) (p : Ptr) (w : W) :
    ∃ h', h.poll p w = .ok (h', (q.poll p w).2) ∧ Repr h' (q.poll p w).1 := by
  have hl := repr_listen hr p
  unfold Heap.poll
  by_cases hp : p ∈ q.ids
  · have hq : q.listen p = q := if_pos hp
    rw [hq] at hl
    exact repr_register hl hp w
  · have hq : q.listen p = q ++ [(p, .created)] := if_neg hp
    rw [hq] at hl
    have hmem : p ∈ Queue.ids (q ++ [(p, (.created : State T W))]) := by simp
    obtain ⟨h', hreg, hr'⟩ := repr_register hl hmem w
    have hpoll : Queue.poll (q ++ [(p, (.created : State T W))]) p w = q.poll p w := by
      unfold Queue.poll
      rw [Queue.stateOf_insert hp, Queue.stateOf_eq_none.mpr hp]
      simp only [Queue.setState_insert hp]
    rw [hpoll] at hreg hr'
    exact ⟨h', hreg, hr'⟩

end Refine

end Unsend

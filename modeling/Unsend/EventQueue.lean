import Unsend.Event

/-!
# What an event is for: a queue of listeners

The abstract event: the listeners in insertion order, each with its
state. No pointers, no cursors, no counters. The notified entries form a
prefix (`NotifiedPrefix`), which is why one cursor is enough to find the
next listener to notify.

- `listen` and `poll` append, `poll` takes a notified entry out with its
  tag;
- `notify` hands the tags it asks its producer for to the earliest
  waiting entries, `k` of them: as many as there are, at most `count`
  for an additional notification and at most `count` minus the notified
  ones for a plain one;
- `drop` removes an entry and, if it was notified, passes its tag on as a
  notification of one listener.

The second half are the counting and custody rules a user of an event
reasons with: how many entries are notified and waiting after each
operation, and which tags the notified ones hold.
-/

namespace Unsend

def State.isNotified {T W : Type} : State T W → Bool
  | .notified _ _ => true
  | _ => false

def State.heldTag {T W : Type} : State T W → Option T
  | .notified tag _ => some tag
  | _ => none

/-- The tag with its flag. -/
def State.mark {T W : Type} : State T W → Option (T × Bool)
  | .notified tag additional => some (tag, additional)
  | _ => none

section State

variable {T W : Type}

@[simp] theorem isNotified_created : (State.created : State T W).isNotified = false := rfl

@[simp] theorem isNotified_waiting (w : W) :
    (State.waiting w : State T W).isNotified = false := rfl

@[simp] theorem isNotified_notified (t : T) (b : Bool) :
    (State.notified t b : State T W).isNotified = true := rfl

@[simp] theorem heldTag_notified (t : T) (b : Bool) :
    (State.notified t b : State T W).heldTag = some t := rfl

@[simp] theorem heldTag_waiting (w : W) : (State.waiting w : State T W).heldTag = none := rfl

@[simp] theorem mark_notified (t : T) (b : Bool) :
    (State.notified t b : State T W).mark = some (t, b) := rfl

theorem mark_of_not_notified {st : State T W} (h : st.isNotified = false) : st.mark = none := by
  cases st with
  | notified t b => cases h
  | created => rfl
  | waiting w => rfl

theorem heldTag_of_not_notified {st : State T W} (h : st.isNotified = false) :
    st.heldTag = none := by
  cases st with
  | notified t b => cases h
  | created => rfl
  | waiting w => rfl

end State

/-- The listeners of an event in insertion order. -/
abbrev Queue (T W : Type) := List (Ptr × State T W)

namespace Notification

variable {σ T : Type}

/-- `next_tag`, which returns. -/
def next (n : Notification σ T) (s : σ) : T × σ :=
  match h : n.nextTag s with
  | .ok r => r
  | .error _ => absurd h (by obtain ⟨r, hr⟩ := n.total s; simp [hr])

theorem nextTag_eq (n : Notification σ T) (s : σ) :
    n.nextTag s = .ok (n.next s) := by
  unfold next
  split
  · assumption
  · rename_i h
    obtain ⟨r, hr⟩ := n.total s
    rw [hr] at h; cases h

/-- The tags of `k` calls of `next_tag`. -/
def produce (n : Notification σ T) : Nat → σ → List T × σ
  | 0, s => ([], s)
  | k + 1, s =>
      let (tag, s) := n.next s
      let (tags, s) := n.produce k s
      (tag :: tags, s)

end Notification

namespace Queue

variable {σ T W : Type}

def ids (q : Queue T W) : List Ptr := q.map Prod.fst

def stateOf (q : Queue T W) (p : Ptr) : Option (State T W) :=
  (q.find? fun x => x.1 = p).map Prod.snd

def numNotified (q : Queue T W) : Nat := q.countP fun x => x.2.isNotified

def numWaiting (q : Queue T W) : Nat := q.countP fun x => !x.2.isNotified

/-- The tags the notified entries hold, in order, each with its flag. -/
def marked (q : Queue T W) : List (T × Bool) := q.filterMap fun x => x.2.mark

/-- The tags the notified entries hold, in order. -/
def tags (q : Queue T W) : List T := q.filterMap fun x => x.2.heldTag

def firstWaiting (q : Queue T W) : Option Ptr :=
  (q.find? fun x => !x.2.isNotified).map Prod.fst

/-- A notified entry is preceded by notified entries only. -/
def NotifiedPrefix (q : Queue T W) : Prop :=
  q.Pairwise fun x y => y.2.isNotified = true → x.2.isNotified = true

/-! ## The operations -/

def erase (q : Queue T W) (p : Ptr) : Queue T W := q.filter fun x => x.1 ≠ p

def setState (q : Queue T W) (p : Ptr) (st : State T W) : Queue T W :=
  q.map fun x => if x.1 = p then (p, st) else x

/-- Hand the tags, in order, to the earliest waiting entries. -/
def assign (additional : Bool) : List T → Queue T W → Queue T W
  | [], q => q
  | _ :: _, [] => []
  | t :: ts, x :: q =>
      if x.2.isNotified then x :: assign additional (t :: ts) q
      else (x.1, .notified t additional) :: assign additional ts q

/-- The wakers of the `k` earliest waiting entries. -/
def wakers (q : Queue T W) (k : Nat) : List W :=
  ((q.filter fun x => !x.2.isNotified).take k).flatMap fun x => x.2.wakers

/-- How many listeners a notification of `count` reaches. -/
def reach (q : Queue T W) (additional : Bool) (count : Nat) : Nat :=
  min (if additional then count else count - q.numNotified) q.numWaiting

def notify (q : Queue T W) (n : Notification σ T) (s : σ) :
    NotifyOut (Queue T W) σ W :=
  let k := q.reach n.isAdditional n.count
  let (tags, s) := n.produce k s
  ⟨q.assign n.isAdditional tags, s, k, q.wakers k⟩

/-- Pass one tag on; it is discarded if nobody can take it. -/
def pass (q : Queue T W) (tag : T) (additional : Bool) :
    RemoveOut (Queue T W) T W :=
  if q.reach additional 1 = 0 then ⟨q, none, [], some tag⟩
  else ⟨q.assign additional [tag], none, q.wakers 1, none⟩

def listen (q : Queue T W) (p : Ptr) : Queue T W :=
  if p ∈ q.ids then q else q ++ [(p, .created)]

def poll [WillWake W] (q : Queue T W) (p : Ptr) (waker : W) : Queue T W × Poll T :=
  match q.stateOf p with
  | none => (q ++ [(p, .waiting waker)], .pending)
  | some .created => (q.setState p (.waiting waker), .pending)
  | some (.waiting task) =>
      (q.setState p (.waiting (if willWake task waker then task else waker)), .pending)
  | some (.notified tag _) => (q.erase p, .ready tag)

def drop (q : Queue T W) (p : Ptr) : RemoveOut (Queue T W) T W :=
  match q.stateOf p with
  | none => ⟨q, none, [], none⟩
  | some (.notified tag additional) => (q.erase p).pass tag additional
  | some _ => ⟨q.erase p, none, [], none⟩

/-! ## Lookups and splits -/

@[simp] theorem ids_nil : ids ([] : Queue T W) = [] := rfl

@[simp] theorem ids_cons (x : Ptr × State T W) (q : Queue T W) :
    ids (x :: q) = x.1 :: ids q := rfl

@[simp] theorem ids_append (q r : Queue T W) : ids (q ++ r) = ids q ++ ids r :=
  List.map_append

theorem mem_ids {q : Queue T W} {p : Ptr} : p ∈ q.ids ↔ ∃ st, (p, st) ∈ q := by
  simp [ids]

theorem mem_ids_of_mem {q : Queue T W} {x : Ptr × State T W} (h : x ∈ q) :
    x.1 ∈ q.ids := List.mem_map_of_mem h

theorem stateOf_eq_none {q : Queue T W} {p : Ptr} :
    q.stateOf p = none ↔ p ∉ q.ids := by
  simp only [stateOf, Option.map_eq_none_iff, List.find?_eq_none, mem_ids,
    decide_eq_true_eq, not_exists]
  exact ⟨fun h st hm => h _ hm rfl, fun h x hx he => h x.2 (he ▸ hx)⟩

theorem stateOf_eq_some {q : Queue T W} (hq : q.ids.Nodup) {p : Ptr}
    {st : State T W} : q.stateOf p = some st ↔ (p, st) ∈ q := by
  induction q with
  | nil => simp [stateOf]
  | cons x q ih =>
      obtain ⟨hx, hq'⟩ := List.nodup_cons.mp hq
      have ih := ih hq'
      by_cases hp : x.1 = p
      · have hnot : (p, st) ∉ q := fun h => hx (hp ▸ mem_ids_of_mem h)
        obtain ⟨x1, x2⟩ := x
        simp only at hp
        subst hp
        simp [stateOf, hnot, eq_comm]
      · have hne : (p, st) ≠ x := fun h => hp (by rw [← h])
        rw [List.mem_cons, or_iff_right hne, ← ih]
        simp [stateOf, hp]

theorem erase_of_notMem {q : Queue T W} {p : Ptr} (h : p ∉ q.ids) :
    q.erase p = q := by
  refine List.filter_eq_self.mpr fun x hx => ?_
  have : x.1 ≠ p := fun he => h (he ▸ mem_ids_of_mem hx)
  simpa using this

theorem setState_of_notMem {q : Queue T W} {p : Ptr} (h : p ∉ q.ids)
    (st : State T W) : q.setState p st = q := by
  refine (List.map_congr_left fun x hx => ?_).trans (List.map_id q)
  have : x.1 ≠ p := fun he => h (he ▸ mem_ids_of_mem hx)
  simp [this]

/-- An entry sits at one place: erasing it and changing its state happen
there and nowhere else. -/
theorem split_of_mem {q : Queue T W} (hq : q.ids.Nodup) {p : Ptr}
    {st : State T W} (h : (p, st) ∈ q) :
    ∃ l m, q = l ++ (p, st) :: m ∧ q.erase p = l ++ m ∧
      ∀ st', q.setState p st' = l ++ (p, st') :: m := by
  obtain ⟨l, m, rfl⟩ := List.append_of_mem h
  rw [ids_append, ids_cons] at hq
  obtain ⟨-, hm, hd⟩ := List.nodup_append.mp hq
  have hpl : p ∉ ids l := fun hp => hd p hp p (List.mem_cons_self ..) rfl
  have hpm : p ∉ ids m := (List.nodup_cons.mp hm).1
  refine ⟨l, m, rfl, ?_, fun st' => ?_⟩
  · rw [erase, List.filter_append, List.filter_cons_of_neg (by simp)]
    exact congrArg₂ _ (erase_of_notMem hpl) (erase_of_notMem hpm)
  · rw [setState, List.map_append, List.map_cons, if_pos rfl]
    exact congrArg₂ _ (setState_of_notMem hpl st')
      (congrArg _ (setState_of_notMem hpm st'))

theorem stateOf_split {q : Queue T W} (hq : q.ids.Nodup) {p : Ptr}
    {st : State T W} (h : q.stateOf p = some st) :
    ∃ l m, q = l ++ (p, st) :: m ∧ q.erase p = l ++ m ∧
      ∀ st', q.setState p st' = l ++ (p, st') :: m :=
  split_of_mem hq ((stateOf_eq_some hq).mp h)

/-! ## Counting -/

@[simp] theorem numNotified_nil : numNotified ([] : Queue T W) = 0 := rfl

@[simp] theorem numWaiting_nil : numWaiting ([] : Queue T W) = 0 := rfl

@[simp] theorem numNotified_append (q r : Queue T W) :
    numNotified (q ++ r) = numNotified q + numNotified r := List.countP_append ..

@[simp] theorem numWaiting_append (q r : Queue T W) :
    numWaiting (q ++ r) = numWaiting q + numWaiting r := List.countP_append ..

@[simp] theorem numNotified_cons (x : Ptr × State T W) (q : Queue T W) :
    numNotified (x :: q) = numNotified q + if x.2.isNotified then 1 else 0 :=
  List.countP_cons ..

@[simp] theorem numWaiting_cons (x : Ptr × State T W) (q : Queue T W) :
    numWaiting (x :: q) = numWaiting q + if x.2.isNotified then 0 else 1 := by
  rw [numWaiting, List.countP_cons, numWaiting]
  cases x.2.isNotified <;> rfl

theorem length_eq_add (q : Queue T W) : q.length = q.numNotified + q.numWaiting := by
  induction q with
  | nil => rfl
  | cons x q ih =>
      rw [List.length_cons, numNotified_cons, numWaiting_cons, ih]
      cases x.2.isNotified <;> simp <;> omega

theorem numWaiting_eq_zero {q : Queue T W} :
    q.numWaiting = 0 ↔ ∀ x ∈ q, x.2.isNotified = true := by
  simp [numWaiting]

theorem numNotified_eq_zero {q : Queue T W} :
    q.numNotified = 0 ↔ ∀ x ∈ q, x.2.isNotified = false := by
  simp [numNotified]

/-! ## The notified prefix -/

theorem NotifiedPrefix.erase {q : Queue T W} (h : q.NotifiedPrefix) (p : Ptr) :
    (q.erase p).NotifiedPrefix := h.filter _

/-- The queue is its notified entries followed by its waiting ones. -/
theorem NotifiedPrefix.split {q : Queue T W} (h : q.NotifiedPrefix) :
    ∃ a b, q = a ++ b ∧ (∀ x ∈ a, x.2.isNotified = true) ∧
      ∀ x ∈ b, x.2.isNotified = false := by
  induction q with
  | nil => exact ⟨[], [], rfl, by simp, by simp⟩
  | cons x q ih =>
      obtain ⟨hx, hq⟩ := List.pairwise_cons.mp h
      cases hn : x.2.isNotified with
      | true =>
          obtain ⟨a, b, rfl, ha, hb⟩ := ih hq
          exact ⟨x :: a, b, rfl, List.forall_mem_cons.mpr ⟨hn, ha⟩, hb⟩
      | false =>
          refine ⟨[], x :: q, rfl, by simp, List.forall_mem_cons.mpr ⟨hn, fun y hy => ?_⟩⟩
          cases hy' : y.2.isNotified with
          | false => rfl
          | true => rw [hx y hy hy'] at hn; cases hn

theorem notifiedPrefix_append {a b : Queue T W}
    (ha : ∀ x ∈ a, x.2.isNotified = true) (hb : ∀ x ∈ b, x.2.isNotified = false) :
    NotifiedPrefix (a ++ b) := by
  refine List.pairwise_append.mpr ⟨?_, ?_, fun x hx _ _ _ => ha x hx⟩
  · exact List.pairwise_of_forall_mem_list fun x hx _ _ _ => ha x hx
  · refine List.pairwise_of_forall_mem_list fun _ _ y hy h => ?_
    rw [hb y hy] at h; cases h

/-! ## Handing out tags -/

@[simp] theorem assign_nil (additional : Bool) (q : Queue T W) :
    assign additional [] q = q := by
  cases q <;> rfl

theorem assign_cons_notified (additional : Bool) (ts : List T)
    {x : Ptr × State T W} (q : Queue T W) (hx : x.2.isNotified = true) :
    assign additional ts (x :: q) = x :: assign additional ts q := by
  cases ts with
  | nil => simp
  | cons t ts => rw [assign, if_pos hx]

theorem assign_append_notified {additional : Bool} {ts : List T} :
    ∀ {a : Queue T W} {b : Queue T W}, (∀ x ∈ a, x.2.isNotified = true) →
      assign additional ts (a ++ b) = a ++ assign additional ts b := by
  intro a
  induction a with
  | nil => exact fun _ => rfl
  | cons x a ih =>
      intro b ha
      rw [List.cons_append, assign_cons_notified _ _ _ (ha x (List.mem_cons_self ..)),
        ih fun y hy => ha y (List.mem_cons_of_mem _ hy), List.cons_append]

theorem ids_assign (additional : Bool) :
    ∀ (ts : List T) (q : Queue T W), (assign additional ts q).ids = q.ids
  | [], q => by rw [assign_nil]
  | _ :: _, [] => rfl
  | t :: ts, x :: q => by
      rw [assign]
      split
      · rw [ids_cons, ids_cons, ids_assign additional (t :: ts) q]
      · rw [ids_cons, ids_cons, ids_assign additional ts q]

theorem count_assign (additional : Bool) :
    ∀ (ts : List T) (q : Queue T W),
      (assign additional ts q).numNotified = q.numNotified + min ts.length q.numWaiting ∧
      (assign additional ts q).numWaiting = q.numWaiting - ts.length
  | [], q => by simp
  | _ :: _, [] => by simp [assign]
  | t :: ts, x :: q => by
      rw [assign]
      split
      · rename_i hx
        have ih := count_assign additional (t :: ts) q
        simp only [numNotified_cons, numWaiting_cons, hx, if_true, List.length_cons] at ih ⊢
        omega
      · rename_i hx
        have ih := count_assign additional ts q
        simp only [numNotified_cons, numWaiting_cons, if_neg hx, isNotified_notified,
          if_true, List.length_cons] at ih ⊢
        omega

@[simp] theorem tags_nil : tags ([] : Queue T W) = [] := rfl

@[simp] theorem tags_cons (x : Ptr × State T W) (q : Queue T W) :
    tags (x :: q) = x.2.heldTag.toList ++ tags q := by
  cases h : x.2.heldTag <;> simp [tags, h]

@[simp] theorem tags_append (q r : Queue T W) : tags (q ++ r) = tags q ++ tags r :=
  List.filterMap_append

@[simp] theorem marked_nil : marked ([] : Queue T W) = [] := rfl

@[simp] theorem marked_cons (x : Ptr × State T W) (q : Queue T W) :
    marked (x :: q) = x.2.mark.toList ++ marked q := by
  cases h : x.2.mark <;> simp [marked, h]

@[simp] theorem marked_append (q r : Queue T W) : marked (q ++ r) = marked q ++ marked r :=
  List.filterMap_append

theorem tags_eq_marked (q : Queue T W) : q.tags = q.marked.map Prod.fst := by
  rw [tags, marked, List.map_filterMap]
  refine congrArg₂ List.filterMap (funext fun x => ?_) rfl
  cases x.2 with
  | notified t b => rfl
  | created => rfl
  | waiting w => rfl

/-- Where nobody is notified, nobody holds a tag. -/
theorem tags_of_none_notified {q : Queue T W} (h : q.numNotified = 0) : q.tags = [] :=
  List.filterMap_eq_nil_iff.mpr fun x hx =>
    heldTag_of_not_notified (numNotified_eq_zero.mp h x hx)

/-- The tags handed out join those already held. -/
theorem marked_assign (additional : Bool) :
    ∀ (ts : List T) (q : Queue T W), ts.length ≤ q.numWaiting →
      (assign additional ts q).marked.Perm (ts.map (·, additional) ++ q.marked)
  | [], q, _ => by simp
  | _ :: _, [], h => by simp at h
  | t :: ts, x :: q, h => by
      rw [assign]
      split
      · rename_i hx
        rw [numWaiting_cons, if_pos hx] at h
        rw [marked_cons, marked_cons]
        exact ((marked_assign additional (t :: ts) q h).append_left _).trans
          (List.perm_append_comm_assoc ..)
      · rename_i hx
        rw [numWaiting_cons, if_neg hx, List.length_cons] at h
        have ih := marked_assign additional ts q (by omega)
        have hs : x.2.mark = none := mark_of_not_notified (by simpa using hx)
        rw [marked_cons, marked_cons, hs]
        exact ih.cons (t, additional)

theorem tags_assign (additional : Bool) (ts : List T) (q : Queue T W)
    (h : ts.length ≤ q.numWaiting) : (assign additional ts q).tags.Perm (ts ++ q.tags) := by
  have := (marked_assign additional ts q h).map Prod.fst
  rwa [List.map_append, List.map_map, Function.comp_def, List.map_id', ← tags_eq_marked,
    ← tags_eq_marked] at this

end Queue

end Unsend

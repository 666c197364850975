import Mathlib.Tactic.Abel
import Unsend.Scheduler

/-!
# What a step of the scheduler does

The invariants of the scheduling half of the executor and what one step
does to them.

- `Stacked`: the calls in progress are nested. Every call but the
  innermost one runs a Runnable, every future that is being polled has a
  call of its own, and only one;
- `Seat`: whether the listener of a future is in the event's list, from
  where the future is;
- `Custody`: a step of a ticker moves Runnables between the places that
  hold them, runs or drops them.
-/

namespace Unsend

namespace Executor

variable {R W : Type}

/-- The future is about to wait: it has found the local queue empty. -/
def Pc.waiting : Pc → Bool
  | listen | mainPop | mainRegister | mainPopAgain => true
  | _ => false

/-- What a ticker finds before it waits: the local queue, and whether
somebody has the mainstream role. -/
def ThreadState.outlook (ts : ThreadState R W) : List R × Bool :=
  (ts.taskQueue, ts.isMainstreamListening)

/-! ## Nested calls -/

/-- The futures that are being polled, innermost first. -/
def keys (stack : List (Frame W)) : List Ptr := stack.filterMap Frame.key

@[simp] theorem keys_nil : keys ([] : List (Frame W)) = [] := rfl

@[simp] theorem keys_ticker (k : Ptr) (cx : W) (stack : List (Frame W)) :
    keys (.ticker k cx :: stack) = k :: keys stack := rfl

@[simp] theorem keys_tryTick (pc : TryPc) (stack : List (Frame W)) :
    keys (.tryTick pc :: stack) = keys stack := rfl

/-- The calls in progress are nested. -/
structure Stacked (tickers : Ptr → Option Ticker) (stack : List (Frame W)) : Prop where
  nested : ∀ f ∈ stack.tail, f.Runs tickers
  onStack : ∀ k t, tickers k = some t → t.pc.active = true → k ∈ keys stack
  nodup : (keys stack).Nodup

section Stacked

variable {tickers : Ptr → Option Ticker} {stack rest : List (Frame W)} {k : Ptr} {cx : W}
  {t : Option Ticker} {pc : TryPc}

theorem mem_keys : k ∈ keys stack ↔ ∃ cx, Frame.ticker k cx ∈ stack := by
  rw [keys, List.mem_filterMap]
  constructor
  · rintro ⟨f, hf, hk⟩
    cases f with
    | ticker k' cx => cases hk; exact ⟨cx, hf⟩
    | tryTick pc => cases hk
  · rintro ⟨cx, hf⟩
    exact ⟨_, hf, rfl⟩

theorem runs_of_keys (h : ∀ f ∈ stack, f.Runs tickers) (hk : k ∈ keys stack) :
    ∃ t, tickers k = some t ∧ t.pc.running = true := by
  obtain ⟨cx, hf⟩ := mem_keys.mp hk
  exact Option.any_eq_true _ _ |>.mp (h _ hf)

/-- A change elsewhere leaves the calls running. -/
theorem runs_update (h : ∀ f ∈ stack, f.Runs tickers) (hk : k ∉ keys stack) :
    ∀ f ∈ stack, f.Runs (Function.update tickers k t) := by
  intro f hf
  cases f with
  | tryTick pc => exact h _ hf
  | ticker k' cx =>
      have hne : k' ≠ k := fun he => hk (he ▸ mem_keys.mpr ⟨cx, hf⟩)
      show ((Function.update tickers k t) k').any _ = true
      rw [Function.update_of_ne hne]
      exact h _ hf

theorem Stacked.all_run (h : Stacked tickers stack)
    (hfree : ∀ f ∈ stack.head?, f.Runs tickers) : ∀ f ∈ stack, f.Runs tickers := by
  intro f hf
  cases stack with
  | nil => cases hf
  | cons g rest =>
      rcases List.mem_cons.mp hf with rfl | hf
      · exact hfree f rfl
      · exact h.nested f hf

/-- While the origin thread runs code of its own, every future is either
not being polled or runs a Runnable. -/
theorem Stacked.running (h : Stacked tickers stack)
    (hfree : ∀ f ∈ stack.head?, f.Runs tickers) {t : Ticker} (hk : tickers k = some t) :
    t.pc.active = false ∨ t.pc.running = true := by
  cases ha : t.pc.active with
  | false => exact .inl rfl
  | true =>
      obtain ⟨t', ht, hr⟩ := runs_of_keys (h.all_run hfree) (h.onStack k t hk ha)
      cases hk.symm.trans ht
      exact .inr hr

/-- The same of the futures other than the innermost one. -/
theorem Stacked.running_below (h : Stacked tickers (.ticker k cx :: rest)) {k' : Ptr}
    (hne : k' ≠ k) {t : Ticker} (hk : tickers k' = some t) :
    t.pc.active = false ∨ t.pc.running = true := by
  cases ha : t.pc.active with
  | false => exact .inl rfl
  | true =>
      have hmem := h.onStack k' t hk ha
      rw [keys_ticker] at hmem
      obtain ⟨t', ht, hr⟩ := runs_of_keys h.nested ((List.mem_cons.mp hmem).resolve_left hne)
      cases hk.symm.trans ht
      exact .inr hr

theorem active_of_running : ∀ {pc : Pc}, pc.running = true → pc.active = true := by
  intro pc h
  cases pc with
  | runPopped | runAwaited | runLast => rfl
  | _ => cases h

theorem active_of_waiting : ∀ {pc : Pc}, pc.waiting = true → pc.active = true := by
  intro pc h
  cases pc with
  | listen | mainPop | mainRegister | mainPopAgain => rfl
  | _ => cases h

/-- A future that is not being polled has no call. -/
theorem Stacked.notMem (h : Stacked tickers stack)
    (hfree : ∀ f ∈ stack.head?, f.Runs tickers)
    (hk : ∀ t, tickers k = some t → t.pc.active = false) : k ∉ keys stack := by
  intro hmem
  obtain ⟨t, ht, hr⟩ := runs_of_keys (h.all_run hfree) hmem
  have := active_of_running hr
  rw [hk t ht] at this
  cases this

/-- A future that is not being polled is created, changed or dropped. -/
theorem Stacked.elsewhere (h : Stacked tickers stack) (hk : k ∉ keys stack)
    (ht : ∀ t' ∈ t, t'.pc.active = false) :
    Stacked (Function.update tickers k t) stack where
  nested := by
    refine runs_update h.nested fun hmem => hk ?_
    exact (List.tail_sublist stack).filterMap _ |>.mem hmem
  onStack k' t' ht' ha := by
    by_cases he : k' = k
    · rw [he, Function.update_self] at ht'
      rw [ht t' ht'] at ha
      cases ha
    · rw [Function.update_of_ne he] at ht'
      exact h.onStack k' t' ht' ha
  nodup := h.nodup

/-- The poll of a future begins. -/
theorem Stacked.enter (h : Stacked tickers stack)
    (hfree : ∀ f ∈ stack.head?, f.Runs tickers) (hk : k ∉ keys stack) :
    Stacked (Function.update tickers k t) (.ticker k cx :: stack) where
  nested := runs_update (h.all_run hfree) hk
  onStack k' t' ht' ha := by
    by_cases he : k' = k
    · exact he ▸ List.mem_cons_self ..
    · rw [Function.update_of_ne he] at ht'
      exact List.mem_cons_of_mem _ (h.onStack k' t' ht' ha)
  nodup := List.nodup_cons.mpr ⟨hk, h.nodup⟩

/-- A call of `try_tick` begins. -/
theorem Stacked.tryTick (h : Stacked tickers stack)
    (hfree : ∀ f ∈ stack.head?, f.Runs tickers) : Stacked tickers (.tryTick pc :: stack) where
  nested := h.all_run hfree
  onStack := h.onStack
  nodup := h.nodup

theorem Stacked.tail_tryTick (h : Stacked tickers (.tryTick pc :: rest)) :
    Stacked tickers rest where
  nested f hf := h.nested f (List.mem_of_mem_tail hf)
  onStack := h.onStack
  nodup := h.nodup

theorem Stacked.top_tryTick (h : Stacked tickers (.tryTick pc :: rest)) (pc' : TryPc) :
    Stacked tickers (.tryTick pc' :: rest) := ⟨h.nested, h.onStack, h.nodup⟩

/-- The innermost poll takes a step. -/
theorem Stacked.settle (h : Stacked tickers (.ticker k cx :: rest))
    (ht : ∀ t' ∈ t, t'.pc = .parked ∨ t'.pc.active = true) :
    Stacked (Function.update tickers k t) (Sys.unwind k cx rest t) := by
  obtain ⟨hk, hnd⟩ := List.nodup_cons.mp h.nodup
  have hruns := runs_update (t := t) h.nested hk
  have hmem : ∀ k' t', k' ≠ k → Function.update tickers k t k' = some t' →
      t'.pc.active = true → k' ∈ keys rest := by
    intro k' t' hne ht' ha
    rw [Function.update_of_ne hne] at ht'
    exact (List.mem_cons.mp (h.onStack k' t' ht' ha)).resolve_left hne
  have hdone :
      (∀ t' ∈ t, t'.pc.active = false) → Stacked (Function.update tickers k t) rest := by
    intro hoff
    refine ⟨fun f hf => hruns f (List.mem_of_mem_tail hf), fun k' t' ht' ha => ?_, hnd⟩
    by_cases he : k' = k
    · rw [he, Function.update_self] at ht'
      rw [hoff t' ht'] at ha
      cases ha
    · exact hmem k' t' he ht' ha
  cases t with
  | none => exact hdone fun t' ht' => by cases ht'
  | some t0 =>
      by_cases hp : t0.pc = .parked
      · rw [Sys.unwind, if_pos hp]
        refine hdone fun t' ht' => ?_
        cases ht'
        rw [hp]
        rfl
      · rw [Sys.unwind, if_neg hp]
        refine ⟨hruns, fun k' t' ht' ha => ?_, h.nodup⟩
        by_cases he : k' = k
        · exact he ▸ List.mem_cons_self ..
        · exact List.mem_cons_of_mem _ (hmem k' t' he ht' ha)

end Stacked

/-! ## Where the listeners are -/

/-- Where the listener of the future at `k` is. -/
def Seat (q : Queue (Option R) W) (k : Ptr) : Option Pc → Prop
  | none | some .fresh | some .loopHead | some .runPopped | some .runLast => k ∉ q.ids
  | some .parked | some .mainPop | some .mainRegister | some .mainPopAgain => k ∈ q.ids
  | some .finish => ∀ tag b, q.stateOf k ≠ some (.notified tag b)
  | _ => True

def Seats (q : Queue (Option R) W) (tickers : Ptr → Option Ticker) : Prop :=
  ∀ k, Seat q k ((tickers k).map Ticker.pc)

section Seats

variable {q q' : Queue (Option R) W} {tickers : Ptr → Option Ticker} {k : Ptr}

theorem Seat.congr {pc : Option Pc} (h : Seat q k pc) (hids : k ∈ q'.ids ↔ k ∈ q.ids)
    (hfin : pc ≠ some .finish) : Seat q' k pc := by
  rcases pc with _ | pc
  · exact fun hm => h (hids.mp hm)
  · cases pc with
    | finish => exact (hfin rfl).elim
    | parked | mainPop | mainRegister | mainPopAgain => exact hids.mpr h
    | fresh | loopHead | runPopped | runLast => exact fun hm => h (hids.mp hm)
    | _ => trivial

/-- Other listeners stay where they are. -/
theorem Seats.update (h : Seats q tickers) {t : Option Ticker}
    (hids : ∀ k' ≠ k, (k' ∈ q'.ids ↔ k' ∈ q.ids))
    (hfin : ∀ k' ≠ k, ∀ t', tickers k' = some t' → t'.pc ≠ .finish)
    (ht : Seat q' k (t.map Ticker.pc)) : Seats q' (Function.update tickers k t) := by
  intro k'
  by_cases he : k' = k
  · rw [he, Function.update_self]
    exact ht
  · rw [Function.update_of_ne he]
    refine (h k').congr (hids k' he) fun hp => ?_
    obtain ⟨t', ht', hp'⟩ := Option.map_eq_some_iff.mp hp
    exact hfin k' he t' ht' hp'

theorem Seats.congr (h : Seats q tickers) (hids : q'.ids = q.ids)
    (hfin : ∀ k t, tickers k = some t → t.pc ≠ .finish) : Seats q' tickers := by
  intro k
  refine (h k).congr (by rw [hids]) fun hp => ?_
  obtain ⟨t, ht, hp'⟩ := Option.map_eq_some_iff.mp hp
  exact hfin k t ht hp'

end Seats

/-! ## The steps of a ticker -/

/-- The listeners and the two queues a step leaves. -/
def TickOut.view (out : TickOut R W) : Queue (Option R) W × List R × List R :=
  (out.state.queue, out.state.threadState.taskQueue, out.state.taskQueue)

/-- What a step of the future at `k` does to the listeners and to the
Runnables. -/
structure Custody (s : State R W) (k : Ptr) (out : TickOut R W) : Prop where
  plain : out.state.queue.Plain
  elsewhere : ∀ k' ≠ k, (k' ∈ out.state.queue.ids ↔ k' ∈ s.queue.ids)
  seat : Seat out.state.queue k (out.ticker.map Ticker.pc)
  onOrigin : (s.threadState.taskQueue + s.queue.held : Multiset R) =
    out.tookLocal + out.state.threadState.taskQueue + out.state.queue.held + out.dropped.toList
  onMain : s.taskQueue = out.tookMain ++ out.state.taskQueue

section Steps

variable {s : State R W} {k : Ptr} {cx : W} {t : Ticker}

theorem custody_of_view {out : TickOut R W} {q : Queue (Option R) W} {localQueue mainQueue : List R}
    (hv : out.view = (q, localQueue, mainQueue)) (hpl : q.Plain)
    (hids : ∀ k' ≠ k, (k' ∈ q.ids ↔ k' ∈ s.queue.ids))
    (hseat : Seat q k (out.ticker.map Ticker.pc))
    (horigin : (s.threadState.taskQueue + s.queue.held : Multiset R) =
      out.tookLocal + localQueue + q.held + out.dropped.toList)
    (hmain : s.taskQueue = out.tookMain ++ mainQueue) : Custody s k out := by
  cases hv
  exact ⟨hpl, hids, hseat, horigin, hmain⟩

/-- Nothing is moved, and the future goes on elsewhere. -/
theorem custody_goto {s' : State R W} (hpl : s.queue.Plain) {pc : Pc}
    (hv : (t.goto s' pc).view = (s.queue, s.threadState.taskQueue, s.taskQueue))
    (hseat : Seat s.queue k (some pc)) : Custody s k (t.goto s' pc) := by
  refine custody_of_view hv hpl (fun _ _ => Iff.rfl) hseat ?_ rfl
  show _ = (0 + _ + _ + 0 : Multiset R)
  abel

/-- The queue after another runner was woken up. -/
theorem queue_wakeRunner (ts : ThreadState R W) : ts.wakeRunner.1.threadWaker.queue =
    (ts.threadWaker.queue.notify wakeOne ()).event := Event.queue_notify ..

theorem mem_ids_drop {q : Queue (Option R) W} {k' : Ptr} (hne : k' ≠ k) :
    k' ∈ (q.drop k).event.ids ↔ k' ∈ q.ids := by
  rw [Queue.ids_drop, Queue.mem_ids_erase, and_iff_left hne]

theorem notMem_ids_drop (q : Queue (Option R) W) (k : Ptr) : k ∉ (q.drop k).event.ids := by
  rw [Queue.ids_drop]
  exact fun hm => (Queue.mem_ids_erase.mp hm).2 rfl

/-- What the drop of a ticker leaves. -/
theorem view_drop (t : Ticker) (s : State R W) :
    (t.drop s).1.queue = (if t.isMainstream then (s.queue.notify wakeOne ()).event else s.queue) ∧
      (t.drop s).1.threadState.taskQueue = s.threadState.taskQueue ∧
      (t.drop s).1.taskQueue = s.taskQueue := by
  unfold Ticker.drop
  cases t.isMainstream with
  | true => exact ⟨queue_wakeRunner _, rfl, rfl⟩
  | false => exact ⟨rfl, rfl, rfl⟩

/-- The listeners once the one at `k` is dropped and its ticker with it. -/
def dropped (t : Ticker) (q : Queue (Option R) W) (k : Ptr) : Queue (Option R) W :=
  if t.isMainstream then ((q.drop k).event.notify wakeOne ()).event else (q.drop k).event

theorem view_dropFuture (t : Ticker) (k : Ptr) (s : State R W) :
    (t.dropFuture k s).view = (dropped t s.queue k, s.threadState.taskQueue, s.taskQueue) ∧
      (t.dropFuture k s).dropped = (s.queue.drop k).discarded.join := by
  obtain ⟨hq, hl, hm⟩ := view_drop t { s with
    threadState := { s.threadState with threadWaker := (s.threadState.threadWaker.drop k).event } }
  have hdrop : (s.threadState.threadWaker.drop k).event.queue = (s.queue.drop k).event :=
    Event.queue_drop ..
  have hlost : (s.threadState.threadWaker.drop k).discarded = (s.queue.drop k).discarded :=
    Event.drop_discarded ..
  refine ⟨Prod.ext (hq.trans ?_) (Prod.ext hl hm), congrArg Option.join hlost⟩
  rw [dropped, ← hdrop]
  rfl

theorem view_again (t : Ticker) (k : Ptr) (s : State R W) :
    (t.again k s).view = ((s.queue.drop k).event, s.threadState.taskQueue, s.taskQueue) ∧
      (t.again k s).dropped = (s.queue.drop k).discarded.join := by
  refine ⟨Prod.ext (Event.queue_drop ..) rfl, ?_⟩
  exact congrArg Option.join (Event.drop_discarded ..)

theorem ids_dropped (t : Ticker) (q : Queue (Option R) W) (k : Ptr) :
    (dropped t q k).ids = (q.drop k).event.ids := by
  unfold dropped
  split
  · exact Queue.ids_notify ..
  · rfl

theorem held_dropped (t : Ticker) (q : Queue (Option R) W) (k : Ptr) :
    ((dropped t q k).held : Multiset R) = (q.drop k).event.held := by
  unfold dropped
  split
  · exact Queue.held_wakeOne _
  · rfl

theorem plain_dropped {q : Queue (Option R) W} (hq : q.ids.Nodup) (hpl : q.Plain) (t : Ticker) :
    (dropped t q k).Plain := by
  unfold dropped
  split
  · exact (hpl.drop hq k).notify rfl ()
  · exact hpl.drop hq k

theorem custody_dropFuture (hpl : s.queue.Plain) (t : Ticker) :
    Custody s k (t.dropFuture k s) := by
  obtain ⟨hv, hlost⟩ := view_dropFuture t k s
  refine custody_of_view hv (plain_dropped s.nodup hpl t) (fun k' hne => ?_) ?_ ?_ rfl
  · rw [ids_dropped]
    exact mem_ids_drop hne
  · show k ∉ _
    rw [ids_dropped]
    exact notMem_ids_drop _ _
  · rw [held_dropped, hlost, (Queue.drop_handed s.nodup hpl k).1]
    show _ = (0 + _ + _ + _ : Multiset R)
    abel

theorem view_loopHead (t : Ticker) (s : State R W) :
    (s.threadState.taskQueue = [] ∧ (t.loopHead s).ticker.map Ticker.pc = some .listen ∧
      (t.loopHead s).tookLocal = [] ∧ (t.loopHead s).tookMain = [] ∧
      (t.loopHead s).dropped = none ∧
      (t.loopHead s).view = (s.queue, [], s.taskQueue)) ∨
    ∃ runnable rest, s.threadState.taskQueue = runnable :: rest ∧
      (t.loopHead s).ticker.map Ticker.pc = some .runPopped ∧
      (t.loopHead s).tookLocal = [runnable] ∧ (t.loopHead s).tookMain = [] ∧
      (t.loopHead s).dropped = none ∧
      (t.loopHead s).view = ((s.queue.notify wakeOne ()).event, rest, s.taskQueue) := by
  unfold Ticker.loopHead
  cases hL : s.threadState.taskQueue with
  | nil =>
      left
      cases hm : s.threadState.isMainstreamListening with
      | true => exact ⟨rfl, rfl, rfl, rfl, rfl, Prod.ext rfl (Prod.ext hL rfl)⟩
      | false => exact ⟨rfl, rfl, rfl, rfl, rfl, Prod.ext rfl (Prod.ext hL rfl)⟩
  | cons runnable rest =>
      exact .inr ⟨runnable, rest, rfl, rfl, rfl, rfl, rfl,
        Prod.ext (queue_wakeRunner _) (Prod.ext rfl rfl)⟩

theorem custody_loopHead (hpl : s.queue.Plain) (hk : k ∉ s.queue.ids) (t : Ticker) :
    Custody s k (t.loopHead s) := by
  rcases view_loopHead t s with ⟨hL, hpc, h1, h2, h3, hv⟩ |
    ⟨runnable, rest, hL, hpc, h1, h2, h3, hv⟩
  · refine custody_of_view hv hpl (fun _ _ => Iff.rfl) (by rw [hpc]; trivial) ?_ (by rw [h2]; rfl)
    rw [hL, h1, h3]
    show _ = (0 + _ + _ + 0 : Multiset R)
    abel
  · have hids : (s.queue.notify wakeOne ()).event.ids = s.queue.ids := Queue.ids_notify ..
    refine custody_of_view hv (hpl.notify rfl ()) (fun k' _ => by rw [hids]) ?_ ?_ (by rw [h2]; rfl)
    · rw [hpc]
      show k ∉ _
      rw [hids]
      exact hk
    · rw [hL, h1, h3, Queue.held_wakeOne, ← Multiset.cons_coe, ← Multiset.singleton_add]
      show _ = ({runnable} + _ + _ + 0 : Multiset R)
      abel

theorem custody_popMain (hpl : s.queue.Plain) {found empty : Pc}
    (hfound : Seat s.queue k (some found)) (hempty : Seat s.queue k (some empty)) (t : Ticker) :
    Custody s k (t.popMain s found empty) := by
  unfold Ticker.popMain
  cases hM : s.taskQueue with
  | nil => exact custody_goto hpl rfl hempty
  | cons runnable rest =>
      refine custody_of_view rfl hpl (fun _ _ => Iff.rfl) hfound ?_ hM
      show _ = (0 + _ + _ + 0 : Multiset R)
      abel

/-- The listener of a future that is about to return is not notified: its
drop loses nothing. -/
theorem dropped_finish (hk : Seat s.queue k (some .finish)) (hpl : s.queue.Plain) :
    (s.queue.drop k).discarded.join = none := by
  refine (Queue.drop_handed s.nodup hpl k).2.mpr ?_
  intro item b hn
  exact (hk (some item) b hn).elim

/-- The `tick` of a `run()` future returns, and the next one begins. -/
theorem custody_again (hpl : s.queue.Plain) (hk : Seat s.queue k (some .finish)) (t : Ticker) :
    Custody s k (t.again k s) ∧ (t.again k s).dropped = none := by
  obtain ⟨hv, hlost⟩ := view_again t k s
  rw [dropped_finish hk hpl] at hlost
  refine ⟨custody_of_view hv (hpl.drop s.nodup k) (fun k' hne => mem_ids_drop hne)
    (notMem_ids_drop _ _) ?_ rfl, hlost⟩
  rw [(Queue.drop_handed s.nodup hpl k).1, dropped_finish hk hpl, hlost]
  show _ = (0 + _ + _ + _ : Multiset R)
  abel

theorem dropped_popMain (t : Ticker) (s : State R W) (found empty : Pc) :
    (t.popMain s found empty).dropped = none := by
  unfold Ticker.popMain
  split
  · rfl
  · rfl

section Poll

variable [WillWake W]

/-- What a poll of the listener leaves as it is. -/
theorem frame_pollListener (t : Ticker) (k : Ptr) (cx : W) (s : State R W) (run other wait : Pc) :
    let out := t.pollListener k cx s run other wait
    out.state.originThread = s.originThread ∧ out.state.mainstreamWaker = s.mainstreamWaker ∧
      out.state.taskQueue = s.taskQueue ∧ out.woken = [] ∧
      ∃ pc, out.ticker = some { t with pc } ∧ (pc = run ∨ pc = other ∨ pc = wait) := by
  unfold Ticker.pollListener
  dsimp only
  split
  · exact ⟨rfl, rfl, rfl, rfl, run, rfl, .inl rfl⟩
  · exact ⟨rfl, rfl, rfl, rfl, other, rfl, .inr (.inl rfl)⟩
  · exact ⟨rfl, rfl, rfl, rfl, wait, rfl, .inr (.inr rfl)⟩

/-- A poll of the listener leaves it waiting, or takes its tag out. -/
theorem view_pollListener (t : Ticker) (k : Ptr) (cx : W) (s : State R W) (run other wait : Pc) :
    let out := t.pollListener k cx s run other wait
    out.tookMain = [] ∧ out.dropped = none ∧
    (((∀ tag b, s.queue.stateOf k ≠ some (.notified tag b)) ∧
      k ∈ (s.queue.poll k cx).1.ids ∧
      (s.queue.poll k cx).1.numNotified = s.queue.numNotified ∧
      (∀ tag b, (s.queue.poll k cx).1.stateOf k ≠ some (.notified tag b)) ∧
      (s.queue.poll k cx).1.held = s.queue.held ∧
      out.ticker.map Ticker.pc = some wait ∧ out.tookLocal = [] ∧
      out.view = ((s.queue.poll k cx).1, s.threadState.taskQueue, s.taskQueue)) ∨
    ∃ tag b, s.queue.stateOf k = some (.notified tag b) ∧
      (s.queue.held : Multiset R) = (tag.toList : Multiset R) + (s.queue.erase k).held ∧
      out.ticker.map Ticker.pc = some (if tag.isSome then run else other) ∧
      out.tookLocal = tag.toList ∧
      out.view = (s.queue.erase k, s.threadState.taskQueue, s.taskQueue)) := by
  have hq : (s.threadState.threadWaker.poll k cx).1.queue = (s.queue.poll k cx).1 :=
    Event.queue_poll ..
  have hr : (s.threadState.threadWaker.poll k cx).2 = (s.queue.poll k cx).2 :=
    Event.poll_result ..
  intro out
  have hout : out = t.pollListener k cx s run other wait := rfl
  rw [Ticker.pollListener] at hout
  rcases Queue.poll_handed s.nodup k cx with
    ⟨hst, hres, hmem, hnn, hwaits, hheld⟩ | ⟨tag, b, hst, hres, -, hheld⟩
  · rw [hr, hres] at hout
    rw [hout]
    exact ⟨rfl, rfl, .inl ⟨hst, hmem, hnn, hwaits, hheld, rfl, rfl, Prod.ext hq rfl⟩⟩
  · rw [hr, hres] at hout
    rw [hres] at hq
    rw [hout]
    cases tag with
    | none => exact ⟨rfl, rfl, .inr ⟨none, b, hst, hheld, rfl, rfl, Prod.ext hq rfl⟩⟩
    | some runnable =>
        exact ⟨rfl, rfl, .inr ⟨some runnable, b, hst, hheld, rfl, rfl, Prod.ext hq rfl⟩⟩

theorem custody_pollListener (hpl : s.queue.Plain) {run other wait : Pc}
    (hrun : ∀ q : Queue (Option R) W, k ∉ q.ids → Seat q k (some run))
    (hother : ∀ q : Queue (Option R) W, k ∉ q.ids → Seat q k (some other))
    (hwait : ∀ q : Queue (Option R) W, k ∈ q.ids →
      (∀ tag b, q.stateOf k ≠ some (.notified tag b)) → Seat q k (some wait)) (t : Ticker) :
    Custody s k (t.pollListener k cx s run other wait) := by
  obtain ⟨hM, hdropped, hcases⟩ := view_pollListener t k cx s run other wait
  rcases hcases with
    ⟨-, hmem, -, hwaits, hheld, hpc, htook, hv⟩ | ⟨tag, b, hst, hheld, hpc, htook, hv⟩
  · refine custody_of_view hv (hpl.polled (s.queue.polled_poll k cx)) (fun k' hne => ?_) ?_ ?_
      (by rw [hM]; rfl)
    · exact Queue.mem_ids_poll s.nodup hne cx
    · rw [hpc]
      exact hwait _ hmem hwaits
    · rw [htook, hdropped, hheld]
      show _ = (0 + _ + _ + 0 : Multiset R)
      abel
  · have hk : k ∉ (s.queue.erase k).ids := fun hm => (Queue.mem_ids_erase.mp hm).2 rfl
    refine custody_of_view hv (hpl.erase k) (fun k' hne => ?_) ?_ ?_ (by rw [hM]; rfl)
    · rw [Queue.mem_ids_erase, and_iff_left hne]
    · rw [hpc]
      split
      · exact hrun _ hk
      · exact hother _ hk
    · rw [htook, hdropped, hheld]
      show _ = (_ + _ + _ + 0 : Multiset R)
      abel

/-- Every step of a ticker keeps its listener where it should be, moves
Runnables only, and drops none. -/
theorem custody_step (hpl : s.queue.Plain) (hk : Seat s.queue k (some t.pc)) {out : TickOut R W}
    (h : t.step k cx s = some out) : Custody s k out ∧ out.dropped = none := by
  unfold Ticker.step at h
  cases hpc : t.pc with
  | loopHead =>
      rw [hpc] at h hk
      obtain rfl := Option.some.inj h
      refine ⟨custody_loopHead hpl hk t, ?_⟩
      rcases view_loopHead t s with ⟨-, -, -, -, h3, -⟩ | ⟨_, _, -, -, -, -, h3, -⟩
      · exact h3
      · exact h3
  | listen =>
      rw [hpc] at h
      obtain rfl := Option.some.inj h
      refine ⟨custody_pollListener hpl ?_ ?_ ?_ t, (view_pollListener t k cx s ..).2.1⟩
      · intro q _
        trivial
      · exact fun q hm => hm
      · intro q hm _
        split
        · exact hm
        · exact hm
  | mainPop =>
      rw [hpc] at h hk
      obtain rfl := Option.some.inj h
      refine ⟨custody_popMain hpl ?_ ?_ t, dropped_popMain t s ..⟩
      · trivial
      · exact hk
  | mainRegister =>
      rw [hpc] at h hk
      obtain rfl := Option.some.inj h
      exact ⟨custody_goto hpl rfl hk, rfl⟩
  | mainPopAgain =>
      rw [hpc] at h hk
      obtain rfl := Option.some.inj h
      refine ⟨custody_popMain hpl ?_ ?_ t, dropped_popMain t s ..⟩
      · trivial
      · exact hk
  | mainTake =>
      rw [hpc] at h
      obtain rfl := Option.some.inj h
      refine ⟨custody_goto hpl rfl ?_, rfl⟩
      trivial
  | pollOnce =>
      rw [hpc] at h
      obtain rfl := Option.some.inj h
      refine ⟨custody_pollListener hpl ?_ ?_ ?_ t, (view_pollListener t k cx s ..).2.1⟩
      · exact fun q hm => hm
      · intro q hm tag b hn
        exact hm (Queue.stateOf_mem_ids hn)
      · exact fun q _ hn => hn
  | finish =>
      rw [hpc] at h hk
      obtain rfl := Option.some.inj h
      split
      · exact ⟨custody_dropFuture hpl t,
          (view_dropFuture t k s).2.trans (dropped_finish hk hpl)⟩
      · exact custody_again hpl hk t
  | fresh | parked | runPopped | runAwaited | runLast =>
      rw [hpc] at h
      cases h

omit [WillWake W] in
/-- A ticker that is about to wait has found the local queue empty and the
mainstream role taken, by itself if need be. -/
theorem outlook_loopHead (t : Ticker) (hL : s.threadState.taskQueue = []) :
    (t.loopHead s).state.threadState.outlook = ([], true) := by
  unfold Ticker.loopHead
  rw [hL]
  cases hm : s.threadState.isMainstreamListening with
  | true => exact Prod.ext hL hm
  | false => exact Prod.ext hL rfl

theorem outlook_pollListener (t : Ticker) (k : Ptr) (cx : W) (s : State R W)
    (run other wait : Pc) :
    (t.pollListener k cx s run other wait).state.threadState.outlook = s.threadState.outlook := by
  unfold Ticker.pollListener
  dsimp only
  split
  · rfl
  · rfl
  · rfl

omit [WillWake W] in
/-- A ticker that does not have the mainstream role takes nothing with it. -/
theorem outlook_dropFuture (k : Ptr) (s : State R W) (hmain : t.isMainstream = false) :
    (t.dropFuture k s).state.threadState.outlook = s.threadState.outlook := by
  unfold Ticker.dropFuture Ticker.drop
  rw [hmain]
  rfl

/-- Where a step leads: a `tick()` future is done, the future goes on, or
it comes closer to being suspended, which it does with nothing left to do
at first and without a change to that and to who is notified from then
on. -/
theorem step_cases {out : TickOut R W} (h : t.step k cx s = some out) :
    (t.pc = .finish ∧ t.oneShot = true ∧ out = t.dropFuture k s) ∨
    ∃ t', out.ticker = some t' ∧
      ((t'.pc.active = true ∧ t'.pc.waiting = false) ∨
        ((t'.pc = .parked ∨ t'.pc.waiting = true) ∧
          (out.state.threadState.outlook = ([], true) ∨ t.pc.waiting = true ∧
            out.state.threadState.outlook = s.threadState.outlook ∧
            out.state.queue.numNotified = s.queue.numNotified))) := by
  unfold Ticker.step at h
  cases hpc : t.pc with
  | loopHead =>
      rw [hpc] at h
      obtain rfl := Option.some.inj h
      rcases view_loopHead t s with ⟨hL, hp, -, -, -, -⟩ | ⟨_, _, -, hp, -, -, -, -⟩
      · obtain ⟨t', ht', hp'⟩ := Option.map_eq_some_iff.mp hp
        exact .inr ⟨t', ht', .inr ⟨.inr (by rw [hp']; rfl), .inl (outlook_loopHead t hL)⟩⟩
      · obtain ⟨t', ht', hp'⟩ := Option.map_eq_some_iff.mp hp
        exact .inr ⟨t', ht', .inl (by rw [hp']; exact ⟨rfl, rfl⟩)⟩
  | listen =>
      rw [hpc] at h
      obtain rfl := Option.some.inj h
      rcases (view_pollListener t k cx s .runAwaited .loopHead
        (if t.isMainstream then .mainPop else .parked)).2.2 with
        ⟨-, -, hnn, -, -, hp, -, hv⟩ | ⟨tag, _, -, -, hp, -, -⟩
      · obtain ⟨t', ht', hp'⟩ := Option.map_eq_some_iff.mp hp
        refine .inr ⟨t', ht', .inr ⟨?_, .inr ⟨rfl, outlook_pollListener .., ?_⟩⟩⟩
        · rw [hp']
          split
          · exact .inr rfl
          · exact .inl rfl
        · exact (congrArg (fun v => Queue.numNotified v.1) hv).trans hnn
      · obtain ⟨t', ht', hp'⟩ := Option.map_eq_some_iff.mp hp
        refine .inr ⟨t', ht', .inl ?_⟩
        rw [hp']
        split
        · exact ⟨rfl, rfl⟩
        · exact ⟨rfl, rfl⟩
  | mainPop =>
      rw [hpc] at h
      obtain rfl := Option.some.inj h
      unfold Ticker.popMain
      split
      · exact .inr ⟨_, rfl, .inl ⟨rfl, rfl⟩⟩
      · exact .inr ⟨_, rfl, .inr ⟨.inr rfl, .inr ⟨rfl, rfl, rfl⟩⟩⟩
  | mainRegister =>
      rw [hpc] at h
      obtain rfl := Option.some.inj h
      exact .inr ⟨_, rfl, .inr ⟨.inr rfl, .inr ⟨rfl, rfl, rfl⟩⟩⟩
  | mainPopAgain =>
      rw [hpc] at h
      obtain rfl := Option.some.inj h
      unfold Ticker.popMain
      split
      · exact .inr ⟨_, rfl, .inl ⟨rfl, rfl⟩⟩
      · exact .inr ⟨_, rfl, .inr ⟨.inl rfl, .inr ⟨rfl, rfl, rfl⟩⟩⟩
  | mainTake =>
      rw [hpc] at h
      obtain rfl := Option.some.inj h
      exact .inr ⟨_, rfl, .inl ⟨rfl, rfl⟩⟩
  | pollOnce =>
      rw [hpc] at h
      obtain rfl := Option.some.inj h
      have hp : ∃ t', (t.pollListener k cx s .runLast .finish .finish).ticker = some t' ∧
          (t'.pc = .runLast ∨ t'.pc = .finish) := by
        rcases (view_pollListener t k cx s .runLast .finish .finish).2.2 with
          ⟨-, -, -, -, -, hp, -, -⟩ | ⟨tag, _, -, -, hp, -, -⟩
        · obtain ⟨t', ht', hp'⟩ := Option.map_eq_some_iff.mp hp
          exact ⟨t', ht', .inr hp'⟩
        · obtain ⟨t', ht', hp'⟩ := Option.map_eq_some_iff.mp hp
          refine ⟨t', ht', ?_⟩
          rw [hp']
          split
          · exact .inl rfl
          · exact .inr rfl
      obtain ⟨t', ht', hp' | hp'⟩ := hp
      · exact .inr ⟨t', ht', .inl (by rw [hp']; exact ⟨rfl, rfl⟩)⟩
      · exact .inr ⟨t', ht', .inl (by rw [hp']; exact ⟨rfl, rfl⟩)⟩
  | finish =>
      rw [hpc] at h
      obtain rfl := Option.some.inj h
      cases hone : t.oneShot with
      | true => exact .inl ⟨rfl, rfl, rfl⟩
      | false => exact .inr ⟨_, rfl, .inl ⟨rfl, rfl⟩⟩
  | fresh | parked | runPopped | runAwaited | runLast =>
      rw [hpc] at h
      cases h

/-- A step leaves a future suspended, done or in its poll. -/
theorem step_pc {out : TickOut R W} (h : t.step k cx s = some out) :
    ∀ t' ∈ out.ticker, t'.pc = .parked ∨ t'.pc.active = true := by
  intro t' ht'
  rcases step_cases h with ⟨-, -, rfl⟩ | ⟨t1, ht1, hp⟩
  · cases ht'
  · cases ht1.symm.trans ht'
    rcases hp with ⟨hp, -⟩ | ⟨hp | hp, -⟩
    · exact .inr hp
    · exact .inl hp
    · exact .inr (active_of_waiting hp)

end Poll

end Steps

/-! ## The invariants of an executor -/

/-- What holds in every reachable state. A Runnable scheduled on the
origin thread is in the local queue, in the tag of a listener, was run or
was dropped; the others are in the mainstream queue or were run, in the
order they came in. -/
structure Sys.Inv (s : Sys R W) : Prop where
  plain : s.state.queue.Plain
  stacked : Stacked s.tickers s.stack
  seats : Seats s.state.queue s.tickers
  onOrigin : (s.scheduledLocal : Multiset R) =
    s.ranLocal + s.state.threadState.taskQueue + s.state.queue.held + s.dropped
  onMain : s.scheduledMain = s.ranMain ++ s.state.taskQueue

section Inv

variable {s s' : Sys R W} {k : Ptr} {t : Ticker}

/-- No future is about to return while the origin thread runs other code. -/
theorem Sys.Inv.no_finish (hi : s.Inv) (hfree : s.Free) :
    ∀ k t, s.tickers k = some t → t.pc ≠ .finish := by
  intro k t hk hpc
  have := hi.stacked.running hfree hk
  rw [hpc] at this
  rcases this with h | h <;> cases h

theorem Sys.Inv.no_finish_below (hi : s.Inv) {cx : W} {rest : List (Frame W)}
    (hs : s.stack = .ticker k cx :: rest) :
    ∀ k' ≠ k, ∀ t, s.tickers k' = some t → t.pc ≠ .finish := by
  intro k' hne t hk hpc
  have := (hs ▸ hi.stacked).running_below hne hk
  rw [hpc] at this
  rcases this with h | h <;> cases h

/-- The listener of a future is where the future says it is. -/
theorem Sys.Inv.seat (hi : s.Inv) (hk : s.tickers k = some t) {pc : Pc} (hpc : t.pc = pc) :
    Seat s.state.queue k (some pc) := by
  have hseat := hi.seats k
  rw [hk] at hseat
  exact hpc ▸ hseat

theorem Sys.Inv.absent (hi : s.Inv) (hk : s.tickers k = none) : k ∉ s.state.queue.ids := by
  have hseat := hi.seats k
  rw [hk] at hseat
  exact hseat

/-- A suspended future is in the list. -/
theorem Sys.Inv.parked_pos (hi : s.Inv) (hk : s.tickers k = some t) (hpc : t.pc = .parked) :
    0 < s.state.queue.numNotified + s.state.queue.numWaiting := by
  have hmem : k ∈ s.state.queue.ids := hi.seat hk hpc
  rw [← s.state.queue.length_eq_add, ← Queue.length_ids]
  exact List.length_pos_of_mem hmem

/-- A Runnable scheduled on the origin thread is handed over or queued. -/
theorem schedule_cases (ts : ThreadState R W) (runnable : R) :
    (ts.threadWaker.queue.numNotified = 0 ∧
      (ts.schedule runnable).1.taskQueue = ts.taskQueue ∧
      (ts.schedule runnable).1.threadWaker.queue =
        (ts.threadWaker.queue.notify handOver (some runnable)).event ∧
      (ts.schedule runnable).1.threadWaker.queue.numNotified = 1 ∧
      ((ts.schedule runnable).1.threadWaker.queue.held : Multiset R) =
        runnable ::ₘ ts.threadWaker.queue.held) ∨
    ((ts.threadWaker.queue.numNotified = 0 → ts.threadWaker.queue.numWaiting = 0) ∧
      (ts.schedule runnable).1.taskQueue = ts.taskQueue ++ [runnable] ∧
      (ts.schedule runnable).1.threadWaker.queue = ts.threadWaker.queue) := by
  have hq := ts.threadWaker.queue_notify handOver (some runnable)
  have hp := ts.threadWaker.notify_producer handOver (some runnable)
  rcases ts.threadWaker.queue.handOver_cases runnable with ⟨h1, -, h3, h4, h5⟩ | ⟨h1, h2⟩
  · have hout : ts.schedule runnable = ({ ts with
        threadWaker := (ts.threadWaker.notify handOver (some runnable)).event },
        (ts.threadWaker.notify handOver (some runnable)).woken) := by
      simp only [ThreadState.schedule, hp.trans h5]
    rw [hout]
    exact .inl ⟨h1, rfl, hq, by rw [hq]; exact h3, by rw [hq]; exact h4⟩
  · have hout : ts.schedule runnable = (⟨ts.taskQueue ++ [runnable],
        (ts.threadWaker.notify handOver (some runnable)).event, ts.isMainstreamListening⟩,
        (ts.threadWaker.notify handOver (some runnable)).woken) := by
      simp only [ThreadState.schedule, hp.trans (congrArg NotifyOut.producer h2)]
    rw [hout]
    exact .inr ⟨h1, rfl, hq.trans (congrArg NotifyOut.event h2)⟩

theorem inv_schedule (hi : s.Inv) (hfree : s.Free) (runnable : R) : (s.schedule runnable).Inv := by
  have hbal := hi.onOrigin
  rcases schedule_cases s.state.threadState runnable with ⟨-, hL, hq, -, hheld⟩ |
    ⟨-, hL, hq⟩
  · have hids : (s.schedule runnable).state.queue.ids = s.state.queue.ids :=
      (congrArg Queue.ids hq).trans (Queue.ids_notify ..)
    refine ⟨?_, hi.stacked, hi.seats.congr hids (hi.no_finish hfree), ?_, hi.onMain⟩
    · show (s.state.threadState.schedule runnable).1.threadWaker.queue.Plain
      rw [hq]
      exact hi.plain.notify rfl _
    · show ((s.scheduledLocal ++ [runnable] : List R) : Multiset R) =
        s.ranLocal + (s.state.threadState.schedule runnable).1.taskQueue +
          (s.state.threadState.schedule runnable).1.threadWaker.queue.held + s.dropped
      rw [hL, hheld, ← Multiset.coe_add, hbal, ← Multiset.singleton_add, Multiset.coe_singleton]
      show _ = (_ + _ + ({runnable} + (s.state.queue.held : Multiset R)) + _)
      abel
  · have hq' : (s.schedule runnable).state.queue = s.state.queue := hq
    refine ⟨hq' ▸ hi.plain, hi.stacked, hq' ▸ hi.seats, ?_, hi.onMain⟩
    rw [hq']
    show ((s.scheduledLocal ++ [runnable] : List R) : Multiset R) =
      s.ranLocal + (s.state.threadState.schedule runnable).1.taskQueue + _ + s.dropped
    rw [hL, ← Multiset.coe_add, ← Multiset.coe_add, hbal]
    abel

/-- What is left of a step of a future, wherever its call goes on. -/
theorem inv_settle (hi : s.Inv) {out : TickOut R W} {stack : List (Frame W)}
    (hc : Custody s.state k out)
    (hfin : ∀ k' ≠ k, ∀ t, s.tickers k' = some t → t.pc ≠ .finish)
    (hst : Stacked (Function.update s.tickers k out.ticker) stack) :
    (s.settle k stack out).Inv := by
  refine ⟨hc.plain, hst, hi.seats.update hc.elsewhere hfin hc.seat, ?_, ?_⟩
  · have hbal := hi.onOrigin
    have hc := hc.onOrigin
    rw [add_assoc (s.ranLocal : Multiset R), hc] at hbal
    refine hbal.trans ?_
    show _ = ((s.ranLocal ++ out.tookLocal : List R) : Multiset R) + _ + _ +
      ((s.dropped ++ out.dropped.toList : List R) : Multiset R)
    rw [← Multiset.coe_add, ← Multiset.coe_add]
    show _ =
      _ + (out.state.threadState.taskQueue : Multiset R) + (out.state.queue.held : Multiset R) + _
    abel
  · show _ = (s.ranMain ++ out.tookMain) ++ out.state.taskQueue
    rw [List.append_assoc, ← hc.onMain]
    exact hi.onMain

theorem inv_tryTick (hi : s.Inv) (hfree : s.Free) : s.tryTick.Inv := by
  unfold Sys.tryTick
  cases hL : s.state.threadState.taskQueue with
  | nil => exact ⟨hi.plain, hi.stacked.tryTick hfree, hi.seats, hi.onOrigin, hi.onMain⟩
  | cons runnable rest =>
      have hq : ({ s.state.threadState with taskQueue := rest }.wakeRunner).1.threadWaker.queue =
          (s.state.queue.notify wakeOne ()).event := queue_wakeRunner _
      refine ⟨?_, hi.stacked.tryTick hfree, ?_, ?_, hi.onMain⟩
      · show ({ s.state.threadState with taskQueue := rest }.wakeRunner).1.threadWaker.queue.Plain
        rw [hq]
        exact hi.plain.notify rfl ()
      · refine hi.seats.congr ?_ (hi.no_finish hfree)
        exact (congrArg Queue.ids hq).trans (Queue.ids_notify ..)
      · have hbal := hi.onOrigin
        rw [hL, ← Multiset.cons_coe, ← Multiset.singleton_add] at hbal
        refine hbal.trans ?_
        show _ = ((s.ranLocal ++ [runnable] : List R) : Multiset R) + rest +
          ((({ s.state.threadState with taskQueue := rest }.wakeRunner).1.threadWaker.queue.held :
            List R) : Multiset R) + s.dropped
        rw [hq, Queue.held_wakeOne, ← Multiset.coe_add, Multiset.coe_singleton]
        abel

/-! ### Steps, label by label -/

section Next

variable [WillWake W] {cx w : W}

theorem next_schedule {id : Option Nat} {runnable : R}
    (h : s.next (.schedule id runnable) = some s') :
    (s.state.isOrigin id = true ∧ s.Free ∧ s' = s.schedule runnable) ∨
      (s.state.isOrigin id = false ∧ s' = s.push runnable) := by
  rw [Sys.next] at h
  split at h
  · rename_i horigin
    split at h
    · rename_i hfree
      exact .inl ⟨horigin, hfree, (Option.some.inj h).symm⟩
    · cases h
  · rename_i horigin
    exact .inr ⟨eq_false_of_ne_true horigin, (Option.some.inj h).symm⟩

theorem next_wake (h : s.next .wake = some s') :
    0 < s.pendingWakes ∧ s' = { s.wakeMain with pendingWakes := s.pendingWakes - 1 } := by
  rw [Sys.next] at h
  split at h
  · rename_i hpos
    exact ⟨hpos, (Option.some.inj h).symm⟩
  · cases h

theorem next_create {oneShot : Bool} (h : s.next (.create k oneShot) = some s') :
    s.tickers k = none ∧ s.Free ∧
      s' =
        { s with tickers := Function.update s.tickers k (some ⟨oneShot, false, .fresh⟩) } := by
  rw [Sys.next] at h
  split at h
  · cases h
  · rename_i hk
    split at h
    · rename_i hfree
      exact ⟨hk, hfree, (Option.some.inj h).symm⟩
    · cases h

theorem next_tryTick (h : s.next .tryTick = some s') : s.Free ∧ s' = s.tryTick := by
  rw [Sys.next] at h
  split at h
  · rename_i hfree
    exact ⟨hfree, (Option.some.inj h).symm⟩
  · cases h

theorem next_poll (h : s.next (.poll k w) = some s') :
    s.Free ∧ ∃ t, s.tickers k = some t ∧
      ((t.pc = .fresh ∧ s' = s.enter k w t .loopHead) ∨
        (t.pc = .parked ∧ s' = s.enter k w t .listen)) := by
  rw [Sys.next] at h
  split at h
  · rename_i t hk
    split at h
    · rename_i hfree
      split at h
      · rename_i hpc
        exact ⟨hfree, t, hk, .inl ⟨hpc, (Option.some.inj h).symm⟩⟩
      · rename_i hpc
        exact ⟨hfree, t, hk, .inr ⟨hpc, (Option.some.inj h).symm⟩⟩
      · cases h
    · cases h
  · cases h

theorem next_drop (h : s.next (.drop k) = some s') :
    s.Free ∧ ∃ t, s.tickers k = some t ∧ t.pc.active = false ∧
      s' = s.settle k s.stack (t.dropFuture k s.state) := by
  rw [Sys.next] at h
  split at h
  · rename_i t hk
    split at h
    · rename_i hc
      exact ⟨hc.1, t, hk, hc.2, (Option.some.inj h).symm⟩
    · cases h
  · cases h

/-- Everything that a step of the innermost call does. -/
theorem innermost_cases (h : s.step = some s') :
    (∃ k cx rest t out, s.stack = .ticker k cx :: rest ∧ s.tickers k = some t ∧
      t.step k cx s.state = some out ∧ s' = s.settle k (Sys.unwind k cx rest out.ticker) out) ∨
    (∃ rest runnable queue, s.stack = .tryTick .popMain :: rest ∧
      s.state.taskQueue = runnable :: queue ∧
      s' = { s with
        state := { s.state with taskQueue := queue }
        stack := .tryTick .wake :: rest
        ranMain := s.ranMain ++ [runnable] }) ∨
    (∃ rest, s.stack = .tryTick .popMain :: rest ∧ s.state.taskQueue = [] ∧
      s' = { s with stack := rest }) ∨
    (∃ rest, s.stack = .tryTick .wake :: rest ∧
      s' = { s.wakeMain with stack := .tryTick .running :: rest }) := by
  rw [Sys.step] at h
  split at h
  · rename_i k cx rest hst
    split at h
    · rename_i t hk
      obtain ⟨out, hout, rfl⟩ := Option.map_eq_some_iff.mp h
      exact .inl ⟨k, cx, rest, t, out, hst, hk, hout, rfl⟩
    · cases h
  · rename_i rest hst
    split at h
    · rename_i runnable queue hM
      exact .inr (.inl ⟨rest, runnable, queue, hst, hM, (Option.some.inj h).symm⟩)
    · rename_i hM
      exact .inr (.inr (.inl ⟨rest, hst, hM, (Option.some.inj h).symm⟩))
  · rename_i rest hst
    exact .inr (.inr (.inr ⟨rest, hst, (Option.some.inj h).symm⟩))
  · cases h
  · cases h

omit [WillWake W] in
/-- Everything that the return of a Runnable does. -/
theorem ret_cases (h : s.ret = some s') :
    (∃ k cx rest t, s.stack = .ticker k cx :: rest ∧ s.tickers k = some t ∧
      t.pc.running = true ∧
      s' = { s with tickers := Function.update s.tickers k (some t.afterRun) }) ∨
    (∃ rest, s.stack = .tryTick .running :: rest ∧ s' = { s with stack := rest }) := by
  rw [Sys.ret] at h
  split at h
  · rename_i k cx rest hst
    split at h
    · rename_i t hk
      split at h
      · rename_i hr
        exact .inl ⟨k, cx, rest, t, hst, hk, hr, (Option.some.inj h).symm⟩
      · cases h
    · cases h
  · rename_i rest hst
    exact .inr ⟨rest, hst, (Option.some.inj h).symm⟩
  · cases h

/-- A step of `try_tick` goes on, or the call returns. Only the mainstream
queue may change. -/
structure TryStep (s s' : Sys R W) : Prop where
  tickers : s'.tickers = s.tickers
  threadState : s'.state.threadState = s.state.threadState
  onOrigin : s'.scheduledLocal = s.scheduledLocal ∧ s'.ranLocal = s.ranLocal
  onMain : s'.scheduledMain = s.scheduledMain ∧
    s'.ranMain ++ s'.state.taskQueue = s.ranMain ++ s.state.taskQueue
  dropped : s'.dropped = s.dropped
  stack : ∃ pc rest, s.stack = .tryTick pc :: rest ∧
    (s'.stack = rest ∨ ∃ pc', s'.stack = .tryTick pc' :: rest)

omit [WillWake W] in
theorem TryStep.inv (h : TryStep s s') (hi : s.Inv) : s'.Inv := by
  obtain ⟨htickers, hts, ⟨hsl, hrl⟩, ⟨hsm, hmain⟩, hd, pc, rest, hst, hst'⟩ := h
  have hq : s'.state.queue = s.state.queue := congrArg (fun ts => ts.threadWaker.queue) hts
  have hstacked := hi.stacked
  rw [hst] at hstacked
  refine ⟨hq ▸ hi.plain, ?_, by rw [hq, htickers]; exact hi.seats, ?_, ?_⟩
  · rw [htickers]
    rcases hst' with hst' | ⟨pc', hst'⟩
    · rw [hst']
      exact hstacked.tail_tryTick
    · rw [hst']
      exact hstacked.top_tryTick pc'
  · rw [hsl, hrl, hts, hq, hd]
    exact hi.onOrigin
  · rw [hsm, hmain]
    exact hi.onMain

/-- The innermost call is the poll of a future, or `try_tick`. -/
theorem next_step (h : s.next .step = some s') :
    (∃ k cx rest t out, s.stack = .ticker k cx :: rest ∧ s.tickers k = some t ∧
      t.step k cx s.state = some out ∧ s' = s.settle k (Sys.unwind k cx rest out.ticker) out) ∨
    TryStep s s' := by
  rcases innermost_cases h with hticker | ⟨rest, runnable, queue, hst, hM, rfl⟩ |
    ⟨rest, hst, -, rfl⟩ | ⟨rest, hst, rfl⟩
  · exact .inl hticker
  · exact .inr ⟨rfl, rfl, ⟨rfl, rfl⟩, ⟨rfl, by simp [hM]⟩, rfl, _, rest, hst,
      .inr ⟨_, rfl⟩⟩
  · exact .inr ⟨rfl, rfl, ⟨rfl, rfl⟩, ⟨rfl, rfl⟩, rfl, _, rest, hst, .inl rfl⟩
  · exact .inr ⟨rfl, rfl, ⟨rfl, rfl⟩, ⟨rfl, rfl⟩, rfl, _, rest, hst, .inr ⟨_, rfl⟩⟩

theorem next_ret (h : s.next .ret = some s') :
    (∃ k cx rest t, s.stack = .ticker k cx :: rest ∧ s.tickers k = some t ∧
      t.pc.running = true ∧
      s' = { s with tickers := Function.update s.tickers k (some t.afterRun) }) ∨
    TryStep s s' := by
  rcases ret_cases h with hticker | ⟨rest, hst, rfl⟩
  · exact .inl hticker
  · exact .inr ⟨rfl, rfl, ⟨rfl, rfl⟩, ⟨rfl, rfl⟩, rfl, _, rest, hst, .inl rfl⟩

omit [WillWake W] in
theorem inv_enter (hi : s.Inv) (hfree : s.Free) (hk : s.tickers k = some t)
    (hoff : t.pc.active = false) {pc : Pc} (hseat : Seat s.state.queue k (some pc)) :
    (s.enter k cx t pc).Inv := by
  have hnot : k ∉ keys s.stack := hi.stacked.notMem hfree fun t' ht' => by
    cases hk.symm.trans ht'
    exact hoff
  exact ⟨hi.plain, hi.stacked.enter hfree hnot,
    hi.seats.update (fun _ _ => Iff.rfl) (fun k' _ => hi.no_finish hfree k') hseat,
    hi.onOrigin, hi.onMain⟩

omit [WillWake W] in
/-- The future that was running a Runnable polls its listener once more, or
is about to return. -/
theorem inv_afterRun (hi : s.Inv) {rest : List (Frame W)} (hst : s.stack = .ticker k cx :: rest)
    (hk : s.tickers k = some t) (hr : t.pc.running = true) :
    Sys.Inv { s with tickers := Function.update s.tickers k (some t.afterRun) } := by
  have hafter : t.afterRun.pc.active = true ∧ Seat s.state.queue k (some t.afterRun.pc) := by
    unfold Ticker.afterRun
    cases hpc : t.pc with
    | runAwaited => exact ⟨rfl, trivial⟩
    | runPopped | runLast =>
        exact ⟨rfl, fun tag b hn => hi.seat hk hpc (Queue.stateOf_mem_ids hn)⟩
    | _ =>
        rw [hpc] at hr
        cases hr
  refine ⟨hi.plain, ?_, hi.seats.update (fun _ _ => Iff.rfl) (hi.no_finish_below hst) hafter.2,
    hi.onOrigin, hi.onMain⟩
  have hstacked := hi.stacked
  rw [hst] at hstacked
  have hset := hstacked.settle (t := some t.afterRun) fun t' ht' => by
    cases ht'
    exact .inr hafter.1
  rw [Sys.unwind, if_neg fun hp => by rw [hp] at hafter; cases hafter.1] at hset
  rw [hst]
  exact hset

theorem inv_next {l : Label R W} (hi : s.Inv) (h : s.next l = some s') : s'.Inv := by
  cases l with
  | schedule id runnable =>
      obtain ⟨-, hfree, rfl⟩ | ⟨-, rfl⟩ := next_schedule h
      · exact inv_schedule hi hfree runnable
      · refine ⟨hi.plain, hi.stacked, hi.seats, hi.onOrigin, ?_⟩
        show s.scheduledMain ++ [runnable] = s.ranMain ++ (s.state.taskQueue ++ [runnable])
        rw [hi.onMain, List.append_assoc]
  | wake =>
      obtain ⟨-, rfl⟩ := next_wake h
      exact ⟨hi.plain, hi.stacked, hi.seats, hi.onOrigin, hi.onMain⟩
  | create k oneShot =>
      obtain ⟨hk, hfree, rfl⟩ := next_create h
      have hnot : k ∉ keys s.stack := hi.stacked.notMem hfree fun t ht => by
        cases hk.symm.trans ht
      refine ⟨hi.plain, hi.stacked.elsewhere hnot ?_, hi.seats.update (fun _ _ => Iff.rfl)
        (fun k' _ => hi.no_finish hfree k') (hi.absent hk), hi.onOrigin, hi.onMain⟩
      intro t ht
      cases ht
      rfl
  | poll k w =>
      obtain ⟨hfree, t, hk, ⟨hpc, rfl⟩ | ⟨hpc, rfl⟩⟩ := next_poll h
      · have habs : k ∉ s.state.queue.ids := hi.seat hk hpc
        exact inv_enter hi hfree hk (by rw [hpc]; rfl) habs
      · exact inv_enter hi hfree hk (by rw [hpc]; rfl) trivial
  | drop k =>
      obtain ⟨hfree, t, hk, hoff, rfl⟩ := next_drop h
      refine inv_settle hi (custody_dropFuture hi.plain t) (fun k' _ => hi.no_finish hfree k') ?_
      refine hi.stacked.elsewhere (hi.stacked.notMem hfree fun t' ht' => ?_) fun t' ht' => ?_
      · cases hk.symm.trans ht'
        exact hoff
      · cases ht'
  | tryTick =>
      obtain ⟨hfree, rfl⟩ := next_tryTick h
      exact inv_tryTick hi hfree
  | step =>
      rcases next_step h with ⟨k, cx, rest, t, out, hst, hk, hout, rfl⟩ | htry
      · have hstacked := hi.stacked
        rw [hst] at hstacked
        refine inv_settle hi (custody_step hi.plain (hi.seat hk rfl) hout).1
          (hi.no_finish_below hst)
          (hstacked.settle ?_)
        exact step_pc hout
      · exact htry.inv hi
  | ret =>
      rcases next_ret h with ⟨k, cx, rest, t, hst, hk, hr, rfl⟩ | htry
      · exact inv_afterRun hi hst hk hr
      · exact htry.inv hi

theorem inv_reachable {id : Option Nat} (h : (system id).Reachable s) : s.Inv := by
  refine h.invariant (I := Sys.Inv) ?_ fun s l s' hi hs => inv_next hi hs
  rintro s rfl
  have hq : (Sys.init id : Sys R W).state.queue = [] := Event.queue_new
  refine ⟨hq ▸ Queue.plain_nil, ⟨?_, ?_, List.nodup_nil⟩, ?_, ?_, rfl⟩
  · intro f hf
    cases hf
  · intro k t hk
    cases hk
  · intro k
    rw [hq]
    exact List.not_mem_nil
  · rw [hq]
    rfl

end Next

end Inv

end Executor

end Unsend

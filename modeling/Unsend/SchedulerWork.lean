import Unsend.Costs
import Unsend.SchedulerCalls

/-!
# The work of an executor

No call spins, and no two futures keep waking each other: the executor does
a bounded amount of work for each thing that is asked of it. The potential
(`Sys.work`) charges every Runnable, every notification and every call in
progress for what is left to do about it, and each step takes one unit off.

`steps_paid` bounds the steps of a run by what its schedules, first polls,
drops and `try_tick`s are allowed; polling a future that has been called
for is free.
-/

namespace Unsend

namespace Executor

variable {R W : Type}

/-! ## The potential -/

/-- The future waits, or is on its way to. -/
def Ticker.settled (t : Ticker) : Bool :=
  match t.pc with
  | .mainPop | .mainRegister | .mainPopAgain | .parked => true
  | _ => false

/-- The future has registered its waker for the mainstream queue. -/
def Ticker.registered (t : Ticker) : Bool :=
  t.isMainstream && match t.pc with
    | .mainPopAgain | .parked => true
    | _ => false

/-- What the call in progress has to do at most, apart from what the
Runnables and notifications that it finds pay for. -/
def Pc.work : Pc → Nat
  | fresh | parked => 0
  | mainPopAgain => 1
  | mainRegister => 2
  | mainPop => 3
  | listen => 4
  | loopHead => 5
  | finish => 13
  | runPopped | runLast | pollOnce => 14
  | runAwaited => 15
  | mainTake => 16

def TryPc.work : TryPc → Nat
  | popMain | running => 1
  | wake => 7

/-- The work of a future, if there is one. -/
def leftOver (t : Option Ticker) : Nat := ((t.map Ticker.pc).map Pc.work).getD 0

def Frame.work (tickers : Ptr → Option Ticker) : Frame W → Nat
  | ticker k _ => leftOver (tickers k)
  | tryTick pc => pc.work

/-- What a notification pays for. -/
def tagWork : Option R → Nat
  | some _ => 12
  | none => 2

/-- A listener, whose future may have been told to go on in two ways. -/
def entryWork (tickers : Ptr → Option Ticker) (slotFree : Bool) (p : Ptr)
    (st : Unsend.State (Option R) W) : Nat :=
  (match st with
    | .notified tag _ => tagWork tag + if (tickers p).any Ticker.settled then 5 else 0
    | _ => 0) +
  if slotFree && (tickers p).any Ticker.registered then 5 else 0

/-- The Runnables and the listeners. -/
def State.work (s : State R W) (tickers : Ptr → Option Ticker) : Nat :=
  17 * s.threadState.taskQueue.length + 16 * s.taskQueue.length +
    s.queue.cost (entryWork tickers s.mainstreamWaker.isNone)

namespace Sys

/-- The steps that are left to an executor which is left alone. -/
def work (s : Sys R W) : Nat :=
  s.state.work s.tickers + 6 * s.pendingWakes + (s.stack.map (·.work s.tickers)).sum

/-- The future at `k` is suspended, and its listener was notified or its
waker is no longer in the mainstream slot. -/
def called (s : Sys R W) (k : Ptr) : Bool :=
  (s.tickers k).any fun t => t.pc = .parked &&
    (s.state.told k || t.isMainstream && s.state.mainstreamWaker.isNone)

/-- What a step from outside may add to the work, and the step itself. -/
def allowance : Sys R W × Label R W → Nat
  | (_, .schedule _ _) => 23
  | (_, .create _ _) => 1
  | (s, .poll k _) => if s.called k then 0 else 6
  | (_, .drop _) => 13
  | (_, .tryTick) => 2
  | (_, .wake) | (_, .step) | (_, .ret) => 0

end Sys

theorem settled_of_registered {t : Ticker} (h : t.registered = true) : t.settled = true := by
  obtain ⟨oneShot, main, pc⟩ := t
  cases pc with
  | mainPopAgain | parked => rfl
  | _ => simp [Ticker.registered] at h

section Entries

variable {tickers tickers' : Ptr → Option Ticker} {slotFree slotFree' : Bool} {k p : Ptr}
  {t : Ticker} {t' : Option Ticker} {st : Unsend.State (Option R) W} {q : Queue (Option R) W}

theorem entryWork_le (hs : (tickers' p).any Ticker.settled = true →
    (tickers p).any Ticker.settled = true)
    (hr : slotFree' = true → (tickers' p).any Ticker.registered = true →
      slotFree = true ∧ (tickers p).any Ticker.registered = true) :
    entryWork tickers' slotFree' p st ≤ entryWork tickers slotFree p st := by
  have hsettled : (if (tickers' p).any Ticker.settled then 5 else 0) ≤
      if (tickers p).any Ticker.settled then 5 else 0 := by
    cases h : (tickers' p).any Ticker.settled with
    | false => simp
    | true => simp [hs h]
  have hregistered : (if slotFree' && (tickers' p).any Ticker.registered then 5 else 0) ≤
      if slotFree && (tickers p).any Ticker.registered then 5 else 0 := by
    cases hf : slotFree' with
    | false => simp
    | true =>
        cases h : (tickers' p).any Ticker.registered with
        | false => simp
        | true => simp [hr hf h]
  unfold entryWork
  cases st with
  | notified tag b =>
      simp only
      omega
  | _ => exact Nat.add_le_add_left hregistered 0

/-- The future at `k` goes on, and the slot is not emptied. -/
theorem entryWork_update (hk : tickers k = some t)
    (hs : t'.any Ticker.settled = true → t.settled = true)
    (hr : slotFree' = true → t'.any Ticker.registered = true → t.registered = true)
    (hfree : slotFree' = true → slotFree = true) :
    entryWork (Function.update tickers k t') slotFree' p st ≤
      entryWork tickers slotFree p st := by
  by_cases hp : p = k
  · subst hp
    refine entryWork_le ?_ fun hf => ?_
    · rw [Function.update_self, hk]
      exact hs
    · rw [Function.update_self, hk]
      exact fun h => ⟨hfree hf, hr hf h⟩
  · refine entryWork_le ?_ fun hf => ?_
    · rw [Function.update_of_ne hp]
      exact id
    · rw [Function.update_of_ne hp]
      exact fun h => ⟨hfree hf, h⟩

/-- The future at `k` goes on, and the slot is emptied: nobody else is in
it. -/
theorem entryWork_take (hk : tickers k = some t)
    (hs : t'.any Ticker.settled = true → t.settled = true)
    (hr : t'.any Ticker.registered = false)
    (hothers : ∀ p, p ≠ k → (tickers p).any Ticker.registered = false) :
    entryWork (Function.update tickers k t') slotFree' p st ≤
      entryWork tickers slotFree p st := by
  by_cases hp : p = k
  · subst hp
    refine entryWork_le ?_ fun _ => ?_
    · rw [Function.update_self, hk]
      exact hs
    · rw [Function.update_self, hr]
      exact fun h => by cases h
  · refine entryWork_le ?_ fun _ => ?_
    · rw [Function.update_of_ne hp]
      exact id
    · rw [Function.update_of_ne hp, hothers p hp]
      exact fun h => by cases h

theorem entryWork_of_ne (hp : p ≠ k) :
    entryWork (Function.update tickers k t') slotFree p st = entryWork tickers slotFree p st := by
  unfold entryWork
  rw [Function.update_of_ne hp]

theorem tagWork_le (tickers : Ptr → Option Ticker) (slotFree : Bool) (p : Ptr) (tag : Option R)
    (b : Bool) :
    tagWork tag ≤ entryWork tickers slotFree p (.notified tag b : Unsend.State (Option R) W) := by
  unfold entryWork
  simp only
  omega

/-- What a listener is notified of costs more where its future waits. -/
theorem entryWork_notified (p : Ptr) (st : Unsend.State (Option R) W) (tag : Option R) (b : Bool) :
    entryWork tickers slotFree p (.notified tag b : Unsend.State (Option R) W) ≤
      entryWork tickers slotFree p st + (tagWork tag + 5) := by
  have hle : ∀ b : Bool, (if b then 5 else 0) ≤ 5 := by decide
  have := hle ((tickers p).any Ticker.settled)
  unfold entryWork
  simp only
  omega

theorem cost_wakeOne : (q.notify wakeOne ()).event.cost (entryWork tickers slotFree) ≤
    q.cost (entryWork tickers slotFree) + 7 :=
  Queue.cost_notify_one () rfl rfl fun p st _ => entryWork_notified p st none false

theorem cost_handOver (runnable : R) :
    (q.notify handOver (some runnable)).event.cost (entryWork tickers slotFree) ≤
      q.cost (entryWork tickers slotFree) + 17 :=
  Queue.cost_notify_one (some runnable) rfl rfl
    fun p st _ => entryWork_notified p st (some runnable) false

theorem cost_drop (hq : q.ids.Nodup) (k : Ptr) :
    (q.drop k).event.cost (entryWork tickers slotFree) ≤
      q.cost (entryWork tickers slotFree) + 5 := by
  refine Queue.cost_drop hq k fun p tag b st _ => ?_
  have hmoved : entryWork tickers slotFree p (.notified tag b : Unsend.State (Option R) W) ≤
      entryWork tickers slotFree p st + (tagWork tag + 5) := entryWork_notified p st tag b
  have htag : tagWork tag ≤
      entryWork tickers slotFree k (.notified tag b : Unsend.State (Option R) W) :=
    tagWork_le ..
  omega

end Entries

/-! ## One step of a ticker -/

section Ticker

variable {tickers : Ptr → Option Ticker} {k : Ptr} {t : Ticker} {st : State R W}
    {out : TickOut R W}

/-- The future at `k` goes on, or away. -/
theorem work_update (t' : Option Ticker) (st : State R W) (hk : tickers k = some t)
    (hs : t'.any Ticker.settled = true → t.settled = true)
    (hr : t'.any Ticker.registered = true → t.registered = true) :
    st.work (Function.update tickers k t') ≤ st.work tickers := by
  refine Nat.add_le_add_left (Queue.cost_mono fun _ _ => ?_) _
  exact entryWork_update hk hs (fun _ => hr) id

/-- A Runnable has been taken out of the local queue, and another runner is
woken. -/
def popped (st : State R W) (rest : List R) : State R W :=
  { st with threadState := ({ st.threadState with taskQueue := rest }.wakeRunner).1 }

theorem work_popped {runnable : R} {rest : List R} (tickers : Ptr → Option Ticker)
    (hL : st.threadState.taskQueue = runnable :: rest) :
    (popped st rest).work tickers + 10 ≤ st.work tickers := by
  have hq : (popped st rest).queue = (st.queue.notify wakeOne ()).event := queue_wakeRunner _
  have hwake : ((st.queue.notify wakeOne ()).event).cost
        (entryWork tickers st.mainstreamWaker.isNone) ≤
      st.queue.cost (entryWork tickers st.mainstreamWaker.isNone) + 7 := cost_wakeOne
  unfold State.work
  rw [hq, hL, List.length_cons]
  show 17 * rest.length + 16 * st.taskQueue.length + ((st.queue.notify wakeOne ()).event).cost
    (entryWork tickers st.mainstreamWaker.isNone) + 10 ≤ _
  omega

/-- A step of the ticker at `k` is paid for by what it finds. -/
def Pays (tickers : Ptr → Option Ticker) (k : Ptr) (t : Ticker) (st : State R W)
    (out : TickOut R W) :
    Prop :=
  out.state.work (Function.update tickers k out.ticker) + leftOver out.ticker + 1 ≤
    st.work tickers + t.pc.work

/-- The future goes on, and the local queue and the listeners stay what
they are. -/
theorem pays_of_same {t' : Ticker} (hk : tickers k = some t) (hticker : out.ticker = some t')
    (hts : out.state.threadState.taskQueue = st.threadState.taskQueue)
    (hq : out.state.queue = st.queue) (hs : t'.settled = true → t.settled = true)
    (hr : out.state.mainstreamWaker.isNone = true → t'.registered = true → t.registered = true)
    (hfree : out.state.mainstreamWaker.isNone = true → st.mainstreamWaker.isNone = true)
    (hwork : 16 * out.state.taskQueue.length + t'.pc.work + 1 ≤
      16 * st.taskQueue.length + t.pc.work) : Pays tickers k t st out := by
  have hcost : st.queue.cost
        (entryWork (Function.update tickers k (some t')) out.state.mainstreamWaker.isNone) ≤
      st.queue.cost (entryWork tickers st.mainstreamWaker.isNone) :=
    Queue.cost_mono fun _ _ => entryWork_update hk hs hr hfree
  unfold Pays State.work
  rw [hticker, hts, hq]
  show _ + t'.pc.work + 1 ≤ _
  omega

theorem pays_loopHead (hk : tickers k = some t) (hpc : t.pc = .loopHead) :
    Pays tickers k t st (t.loopHead st) := by
  unfold Ticker.loopHead
  split
  · rename_i runnable rest hL
    have hpop := work_popped tickers hL
    have hmove := work_update (some { t with pc := .runPopped }) (popped st rest) hk
      (by simp [Ticker.settled]) (by simp [Ticker.registered])
    unfold Pays
    rw [hpc]
    show (popped st rest).work
      (Function.update tickers k (some { t with pc := .runPopped })) + 14 + 1 ≤
      _ + 5
    omega
  · split
    · exact pays_of_same hk rfl rfl rfl (by simp [Ticker.settled]) (by simp [Ticker.registered]) id
        (by simp [Ticker.goto, hpc, Pc.work])
    · exact pays_of_same hk rfl rfl rfl (by simp [Ticker.settled]) (by simp [Ticker.registered]) id
        (by simp [Ticker.goto, hpc, Pc.work])

theorem pays_popMain {found empty : Pc} (hk : tickers k = some t)
    (hfound : { t with pc := found }.settled = false)
    (hempty : { t with pc := empty }.settled = true → t.settled = true)
    (hreg : { t with pc := empty }.registered = true → t.registered = true)
    (hfw : found.work + 1 ≤ 16 + t.pc.work) (hew : empty.work + 1 ≤ t.pc.work) :
    Pays tickers k t st (t.popMain st found empty) := by
  unfold Ticker.popMain
  split
  · rename_i runnable rest hM
    refine pays_of_same hk rfl rfl rfl (fun h => ?_) (fun _ h => ?_) id ?_
    · cases hfound.symm.trans h
    · cases hfound.symm.trans (settled_of_registered h)
    · rw [hM]
      simp only [List.length_cons]
      omega
  · refine pays_of_same hk rfl rfl rfl hempty (fun _ => hreg) id ?_
    simp only [Ticker.goto]
    omega

theorem pays_pollListener [WillWake W] {cx : W} {run other wait : Pc}
    (hwait : { t with pc := wait }.registered = false)
    (hrw : run.work + 1 ≤ 12 + t.pc.work) (how : other.work + 1 ≤ 2 + t.pc.work)
    (hww : wait.work + 1 ≤ t.pc.work) :
    Pays tickers k t st (t.pollListener k cx st run other wait) := by
  obtain ⟨-, hslot, -, -, pc, hticker, -⟩ := frame_pollListener t k cx st run other wait
  unfold Pays State.work leftOver
  rw [hslot]
  have hothers : (st.queue.erase k).cost (entryWork (Function.update tickers k
        (t.pollListener k cx st run other wait).ticker) st.mainstreamWaker.isNone) ≤
      (st.queue.erase k).cost (entryWork tickers st.mainstreamWaker.isNone) :=
    Queue.cost_mono fun x hx => Nat.le_of_eq (entryWork_of_ne (Queue.mem_erase.mp hx).2)
  rcases (view_pollListener t k cx st run other wait).2.2 with
    ⟨hno, -, -, -, -, hp, -, hv⟩ | ⟨tag, b, hst, -, hp, -, hv⟩
  · -- the listener waits on, and costs nothing
    obtain rfl : pc = wait := by
      rw [hticker] at hp
      exact Option.some.inj hp
    have hzero : ∀ w', entryWork (Function.update tickers k
        (t.pollListener k cx st run other pc).ticker) st.mainstreamWaker.isNone k
          (.waiting w' : Unsend.State (Option R) W) = 0 := by
      intro w'
      simp [entryWork, hticker, hwait]
    have hpoll := Queue.cost_poll_waiting (w := cx) st.nodup hno hzero
    have herase : (st.queue.erase k).cost (entryWork tickers st.mainstreamWaker.isNone) ≤
        st.queue.cost (entryWork tickers st.mainstreamWaker.isNone) := Queue.cost_erase_le k
    obtain ⟨hq, hlists⟩ := Prod.mk.inj hv
    obtain ⟨hL, hM⟩ := Prod.mk.inj hlists
    rw [hq, hL, hM, hp]
    show _ + pc.work + 1 ≤ _
    omega
  · have hcost := Queue.cost_erase (f := entryWork tickers st.mainstreamWaker.isNone) st.nodup hst
    have htag : tagWork tag ≤ entryWork tickers st.mainstreamWaker.isNone k
        (.notified tag b : Unsend.State (Option R) W) := tagWork_le ..
    obtain ⟨hq, hlists⟩ := Prod.mk.inj hv
    obtain ⟨hL, hM⟩ := Prod.mk.inj hlists
    rw [hq, hL, hM, hp]
    show _ + (if tag.isSome then run else other).work + 1 ≤ _
    cases tag with
    | none =>
        change 2 ≤ _ at htag
        show _ + other.work + 1 ≤ _
        omega
    | some runnable =>
        change 12 ≤ _ at htag
        show _ + run.work + 1 ≤ _
        omega

theorem pays_again (hk : tickers k = some t) (hpc : t.pc = .finish) :
    Pays tickers k t st (t.again k st) := by
  have hq : (t.again k st).state.queue = (st.queue.drop k).event := Event.queue_drop ..
  have hmove : ((st.queue.drop k).event).cost (entryWork (Function.update tickers k
        (some { t with pc := .loopHead })) st.mainstreamWaker.isNone) ≤
      ((st.queue.drop k).event).cost (entryWork tickers st.mainstreamWaker.isNone) :=
    Queue.cost_mono fun _ _ => entryWork_update hk (by simp [Ticker.settled])
      (by simp [Ticker.registered]) id
  have hdrop : ((st.queue.drop k).event).cost (entryWork tickers st.mainstreamWaker.isNone) ≤
      st.queue.cost (entryWork tickers st.mainstreamWaker.isNone) + 5 := cost_drop st.nodup k
  unfold Pays State.work
  rw [hq, hpc]
  simp only [Ticker.again, leftOver, Option.map_some, Option.getD_some, Pc.work]
  omega

/-- The drop of a future costs no more than its last step may. -/
theorem work_dropFuture (st : State R W) (hk : tickers k = some t)
    (hothers : t.isMainstream = true → ∀ p, p ≠ k →
      (tickers p).any Ticker.registered = false) :
    (t.dropFuture k st).state.work (Function.update tickers k none) ≤ st.work tickers + 12 := by
  have hdrop : ((st.queue.drop k).event).cost (entryWork tickers st.mainstreamWaker.isNone) ≤
      st.queue.cost (entryWork tickers st.mainstreamWaker.isNone) + 5 := cost_drop st.nodup k
  obtain ⟨hq, hlists⟩ := Prod.mk.inj (view_dropFuture t k st).1
  obtain ⟨hL, hM⟩ := Prod.mk.inj hlists
  have hmove : ∀ q : Queue (Option R) W, q.cost (entryWork (Function.update tickers k none)
        (t.dropFuture k st).state.mainstreamWaker.isNone) ≤
      q.cost (entryWork tickers st.mainstreamWaker.isNone) := by
    intro q
    refine Queue.cost_mono fun _ _ => ?_
    cases hmain : t.isMainstream with
    | true => exact entryWork_take hk (fun h => by cases h) rfl (hothers hmain)
    | false =>
        rw [(main_dropFuture t k st).2 hmain]
        exact entryWork_update hk (fun h => by cases h) (fun _ h => by cases h) id
  have hdropped : (dropped t st.queue k).cost (entryWork tickers st.mainstreamWaker.isNone) ≤
      ((st.queue.drop k).event).cost (entryWork tickers st.mainstreamWaker.isNone) + 7 := by
    unfold dropped
    split
    · exact cost_wakeOne
    · exact Nat.le_add_right ..
  have := hmove (dropped t st.queue k)
  unfold State.work
  rw [hq, hL, hM]
  omega

/-- Every step of a ticker is paid for. -/
theorem pays_step [WillWake W] {cx : W} (hk : tickers k = some t)
    (hothers : t.isMainstream = true → ∀ p, p ≠ k →
      (tickers p).any Ticker.registered = false)
    (hmain : t.pc = .mainTake → t.isMainstream = true) (h : t.step k cx st = some out) :
    Pays tickers k t st out := by
  unfold Ticker.step at h
  cases hpc : t.pc with
  | loopHead =>
      rw [hpc] at h
      obtain rfl := Option.some.inj h
      exact pays_loopHead hk hpc
  | listen =>
      rw [hpc] at h
      obtain rfl := Option.some.inj h
      refine pays_pollListener ?_ (by simp [hpc, Pc.work]) (by simp [hpc, Pc.work]) ?_
      · cases t.isMainstream with
        | true => simp [Ticker.registered]
        | false => simp [Ticker.registered]
      · cases t.isMainstream with
        | true => simp [hpc, Pc.work]
        | false => simp [hpc, Pc.work]
  | mainPop =>
      rw [hpc] at h
      obtain rfl := Option.some.inj h
      exact pays_popMain hk rfl (by simp [Ticker.settled, hpc]) (by simp [Ticker.registered])
        (by simp [hpc, Pc.work]) (by simp [hpc, Pc.work])
  | mainRegister =>
      rw [hpc] at h
      obtain rfl := Option.some.inj h
      exact pays_of_same hk rfl rfl rfl (by simp [Ticker.settled, hpc]) (by simp [Ticker.goto])
        (by simp [Ticker.goto]) (by simp [Ticker.goto, hpc, Pc.work])
  | mainPopAgain =>
      rw [hpc] at h
      obtain rfl := Option.some.inj h
      exact pays_popMain hk rfl (by simp [Ticker.settled, hpc]) (by simp [Ticker.registered, hpc])
        (by simp [hpc, Pc.work]) (by simp [hpc, Pc.work])
  | mainTake =>
      rw [hpc] at h
      obtain rfl := Option.some.inj h
      have hcost : st.queue.cost (entryWork (Function.update tickers k
            (some { t with pc := .runAwaited })) true) ≤
          st.queue.cost (entryWork tickers st.mainstreamWaker.isNone) :=
        Queue.cost_mono fun _ _ => entryWork_take hk (by simp [Ticker.settled])
          (by simp [Ticker.registered]) (hothers (hmain hpc))
      unfold Pays
      rw [hpc]
      show 17 * st.threadState.taskQueue.length + 16 * st.taskQueue.length +
        st.queue.cost (entryWork
        (Function.update tickers k (some { t with pc := .runAwaited })) true) + 15 + 1 ≤
          17 * st.threadState.taskQueue.length + 16 * st.taskQueue.length + _ + 16
      omega
  | pollOnce =>
      rw [hpc] at h
      obtain rfl := Option.some.inj h
      exact pays_pollListener (by simp [Ticker.registered]) (by simp [hpc, Pc.work])
        (by simp [hpc, Pc.work]) (by simp [hpc, Pc.work])
  | finish =>
      rw [hpc] at h
      obtain rfl := Option.some.inj h
      split
      · have := work_dropFuture st hk hothers
        unfold Pays
        rw [hpc]
        show (t.dropFuture k st).state.work (Function.update tickers k none) + 0 + 1 ≤ _ + 13
        omega
      · exact pays_again hk hpc
  | fresh | parked | runPopped | runAwaited | runLast =>
      rw [hpc] at h
      cases h

end Ticker

/-! ## One step of the system -/

section System

variable {s s' : Sys R W} {k : Ptr} {t : Ticker} {stack : List (Frame W)}
  {tickers : Ptr → Option Ticker}

def stackWork (tickers : Ptr → Option Ticker) (stack : List (Frame W)) : Nat :=
  (stack.map (·.work tickers)).sum

/-- A future that has no call in progress changes. -/
theorem stackWork_update (tickers : Ptr → Option Ticker) (hk : k ∉ keys stack)
    (t : Option Ticker) :
    stackWork (Function.update tickers k t) stack = stackWork tickers stack := by
  refine congrArg List.sum (List.map_congr_left fun f hf => ?_)
  cases f with
  | tryTick pc => rfl
  | ticker k' cx =>
      have hne : k' ≠ k := fun he => hk (he ▸ mem_keys.mpr ⟨cx, hf⟩)
      exact congrArg leftOver (Function.update_of_ne hne ..)

/-- The stack after a step of its innermost call. -/
theorem stackWork_unwind (tickers : Ptr → Option Ticker) (hk : k ∉ keys stack) (cx : W)
    (t : Option Ticker) :
    stackWork (Function.update tickers k t) (Sys.unwind k cx stack t) =
      leftOver t + stackWork tickers stack := by
  have hrest := stackWork_update tickers hk t
  cases t with
  | none => exact hrest.trans (Nat.zero_add _).symm
  | some t =>
      by_cases hpc : t.pc = .parked
      · rw [Sys.unwind, if_pos hpc, hrest]
        show _ = t.pc.work + _
        rw [hpc]
        exact (Nat.zero_add _).symm
      · rw [Sys.unwind, if_neg hpc]
        show leftOver (Function.update tickers k (some t) k) + stackWork _ stack = _
        rw [hrest, Function.update_self]

/-- Whoever has the mainstream role is alone with the mainstream slot. -/
theorem others_unregistered (hr : s.Role) (hk : s.tickers k = some t)
    (hmain : t.isMainstream = true) :
    ∀ p, p ≠ k → (s.tickers p).any Ticker.registered = false := by
  intro p hp
  cases ht : s.tickers p with
  | none => rfl
  | some t' =>
      have := not_mainstream hr hk hmain ht (Ne.symm hp)
      simp [Ticker.registered, this]

/-- The mainstream waker is woken. -/
theorem work_takeWaker (hr : s.Role) :
    s.state.takeWaker.work s.tickers ≤ s.state.work s.tickers + 5 := by
  have hle : ∀ b : Bool, (if b then 5 else 0) ≤ 5 := by decide
  have hcost : s.state.queue.cost (entryWork s.tickers true) ≤
      s.state.queue.cost (entryWork s.tickers s.state.mainstreamWaker.isNone) + 5 := by
    by_cases hone : ∃ k, (s.tickers k).any Ticker.registered = true
    · obtain ⟨k, hreg⟩ := hone
      obtain ⟨t, hk, hreg⟩ := (Option.any_eq_true _ _).mp hreg
      have hothers := others_unregistered hr hk ((Bool.and_eq_true _ _).mp hreg).1
      refine Queue.cost_le_add (p := k) s.state.nodup (fun p st hp => ?_) fun st => ?_
      · refine entryWork_le id fun _ h => ?_
        rw [hothers p hp] at h
        cases h
      · have := hle (true && (s.tickers k).any Ticker.registered)
        unfold entryWork
        omega
    · refine Nat.le_add_right_of_le (Queue.cost_mono fun x _ => entryWork_le id fun _ h => ?_)
      exact (hone ⟨_, h⟩).elim
  show 17 * s.state.threadState.taskQueue.length + 16 * s.state.taskQueue.length +
    s.state.queue.cost (entryWork s.tickers true) ≤ _
  unfold State.work
  omega

variable [WillWake W]

omit [WillWake W] in
theorem work_schedule (s : Sys R W) (runnable : R) :
    (s.schedule runnable).state.work s.tickers ≤ s.state.work s.tickers + 17 := by
  have hcost : ((s.state.queue.notify handOver (some runnable)).event).cost
        (entryWork s.tickers s.state.mainstreamWaker.isNone) ≤
      s.state.queue.cost (entryWork s.tickers s.state.mainstreamWaker.isNone) + 17 :=
    cost_handOver runnable
  have hstate : (s.schedule runnable).state.work s.tickers =
      17 * (s.state.threadState.schedule runnable).1.taskQueue.length +
        16 * s.state.taskQueue.length +
        (s.state.threadState.schedule runnable).1.threadWaker.queue.cost
          (entryWork s.tickers s.state.mainstreamWaker.isNone) := rfl
  rw [hstate]
  rcases schedule_cases s.state.threadState runnable with ⟨-, hL, hq, -⟩ | ⟨-, hL, hq⟩
  · rw [hL, hq]
    unfold State.work State.queue at *
    omega
  · rw [hL, hq, List.length_append, List.length_singleton]
    unfold State.work State.queue
    omega

omit [WillWake W] in
theorem parked_of_called (hk : s.tickers k = some t) (hc : s.called k = true) : t.pc = .parked := by
  unfold Sys.called at hc
  rw [hk] at hc
  exact of_decide_eq_true ((Bool.and_eq_true _ _).mp hc).1

omit [WillWake W] in
/-- A future that was called has something to spend. -/
theorem entryWork_called {pc : Pc} {st : Unsend.State (Option R) W} (hk : s.tickers k = some t)
    (hc : s.called k = true) (hst : s.state.queue.stateOf k = some st)
    (hs : { t with pc }.settled = false) (hr : { t with pc }.registered = false) :
    entryWork (Function.update s.tickers k (some { t with pc }))
      s.state.mainstreamWaker.isNone k st + 5 ≤
      entryWork s.tickers s.state.mainstreamWaker.isNone k st := by
  have hparked := parked_of_called hk hc
  have hsettled : t.settled = true := by rw [Ticker.settled, hparked]
  unfold Sys.called State.told at hc
  rw [hk, hst] at hc
  simp only [Option.any_some, hparked, decide_true, Bool.true_and, Bool.or_eq_true] at hc
  unfold entryWork
  rw [Function.update_self, hk]
  simp only [Option.any_some, hs, hr, hsettled, Bool.and_false, if_true]
  rcases hc with hc | hc
  · cases st with
    | notified tag b => simp
    | _ => cases hc
  · have hreg : t.registered = true := by
      rw [Ticker.registered, hparked, ((Bool.and_eq_true _ _).mp hc).1]
      rfl
    simp only [((Bool.and_eq_true _ _).mp hc).2, hreg]
    cases st with
    | notified tag b => simp
    | _ => simp

omit [WillWake W] in
/-- A poll begins. If the future was called, that pays for it. -/
theorem work_enter {pc : Pc} (cx : W) (hi : s.Inv) (hk : s.tickers k = some t)
    (hpc : { t with pc }.settled = false) :
    (s.enter k cx t pc).state.work (s.enter k cx t pc).tickers +
      (if s.called k then 5 else 0) ≤ s.state.work s.tickers := by
  have hreg : { t with pc }.registered = false := by
    rw [Bool.eq_false_iff]
    exact fun h => by cases hpc.symm.trans (settled_of_registered h)
  have hothers : (s.state.queue.erase k).cost (entryWork (Function.update s.tickers k
        (some { t with pc })) s.state.mainstreamWaker.isNone) ≤
      (s.state.queue.erase k).cost (entryWork s.tickers s.state.mainstreamWaker.isNone) :=
    Queue.cost_mono fun x hx => Nat.le_of_eq (entryWork_of_ne (Queue.mem_erase.mp hx).2)
  have hcost : s.state.queue.cost (entryWork (Function.update s.tickers k (some { t with pc }))
        s.state.mainstreamWaker.isNone) + (if s.called k then 5 else 0) ≤
      s.state.queue.cost (entryWork s.tickers s.state.mainstreamWaker.isNone) := by
    cases hc : s.called k with
    | false =>
        exact Queue.cost_mono fun _ _ => entryWork_update hk (fun h => by cases hpc.symm.trans h)
          (fun _ h => by cases hreg.symm.trans h) id
    | true =>
        -- the listener is in the list
        have hids : k ∈ s.state.queue.ids := hi.seat hk (parked_of_called hk hc)
        obtain ⟨st, hm⟩ := Queue.mem_ids.mp hids
        have hst := (Queue.stateOf_eq_some s.state.nodup).mpr hm
        rw [Queue.cost_erase s.state.nodup hst, Queue.cost_erase s.state.nodup hst]
        have := entryWork_called hk hc hst hpc hreg
        simp only [if_true]
        omega
  show 17 * s.state.threadState.taskQueue.length + 16 * s.state.taskQueue.length +
    s.state.queue.cost (entryWork (Function.update s.tickers k (some { t with pc }))
      s.state.mainstreamWaker.isNone) + _ ≤ _
  unfold State.work
  omega

omit [WillWake W] in
theorem work_tryTick (s : Sys R W) :
    s.tryTick.state.work s.tickers + stackWork s.tickers s.tryTick.stack ≤
      s.state.work s.tickers + stackWork s.tickers s.stack + 1 := by
  unfold Sys.tryTick
  split
  · rename_i runnable rest hL
    have := work_popped s.tickers hL
    show (popped s.state rest).work s.tickers + (1 + stackWork s.tickers s.stack) ≤ _
    omega
  · show s.state.work s.tickers + (1 + stackWork s.tickers s.stack) ≤ _
    omega

/-- A step of the innermost call. -/
theorem work_step (hi : s.Inv) (hr : s.Role) (hm : s.OnMain) (h : s.step = some s') :
    s'.work + 1 ≤ s.work := by
  rcases innermost_cases h with ⟨k, cx, rest, t, out, hst, hk, hout, rfl⟩ |
    ⟨rest, runnable, queue, hst, hM, rfl⟩ | ⟨rest, hst, hM, rfl⟩ | ⟨rest, hst, rfl⟩
  · have hnot : k ∉ keys rest := by
      have := hi.stacked.nodup
      rw [hst] at this
      exact (List.nodup_cons.mp this).1
    have hpays := pays_step hk (others_unregistered hr hk)
      (fun hpc => hm k t hk (by rw [hpc]; rfl)) hout
    have hunwind := stackWork_unwind s.tickers hnot cx out.ticker
    have hstack : stackWork s.tickers s.stack = t.pc.work + stackWork s.tickers rest := by
      rw [hst]
      show leftOver (s.tickers k) + _ = _
      rw [hk]
      rfl
    unfold Pays at hpays
    show out.state.work (Function.update s.tickers k out.ticker) + 6 * s.pendingWakes +
      stackWork (Function.update s.tickers k out.ticker) (Sys.unwind k cx rest out.ticker) + 1 ≤
        s.state.work s.tickers + 6 * s.pendingWakes + stackWork s.tickers s.stack
    omega
  · have hstack : stackWork s.tickers s.stack = 1 + stackWork s.tickers rest := by
      rw [hst]
      rfl
    show 17 * s.state.threadState.taskQueue.length + 16 * queue.length +
      s.state.queue.cost (entryWork s.tickers s.state.mainstreamWaker.isNone) + 6 * s.pendingWakes +
        (7 + stackWork s.tickers rest) + 1 ≤
          s.state.work s.tickers + 6 * s.pendingWakes + stackWork s.tickers s.stack
    unfold State.work
    rw [hM, List.length_cons]
    omega
  · have hstack : stackWork s.tickers s.stack = 1 + stackWork s.tickers rest := by
      rw [hst]
      rfl
    show s.state.work s.tickers + 6 * s.pendingWakes + stackWork s.tickers rest + 1 ≤
      s.state.work s.tickers + 6 * s.pendingWakes + stackWork s.tickers s.stack
    omega
  · have hstack : stackWork s.tickers s.stack = 7 + stackWork s.tickers rest := by
      rw [hst]
      rfl
    have := work_takeWaker hr
    show s.state.takeWaker.work s.tickers + 6 * s.pendingWakes +
      (1 + stackWork s.tickers rest) + 1 ≤
      s.state.work s.tickers + 6 * s.pendingWakes + stackWork s.tickers s.stack
    omega

omit [WillWake W] in
/-- A Runnable returns. -/
theorem work_ret (hi : s.Inv) (h : s.ret = some s') : s'.work + 1 ≤ s.work := by
  rcases ret_cases h with ⟨k, cx, rest, t, hst, hk, hrun, rfl⟩ | ⟨rest, hst, rfl⟩
  · have hnot : k ∉ keys rest := by
      have := hi.stacked.nodup
      rw [hst] at this
      exact (List.nodup_cons.mp this).1
    have hafter : t.afterRun.settled = false ∧ t.afterRun.pc.work + 1 = t.pc.work := by
      obtain ⟨oneShot, main, pc⟩ := t
      cases pc with
      | runPopped | runAwaited | runLast => exact ⟨rfl, rfl⟩
      | _ => cases hrun
    have := work_update (some t.afterRun) s.state hk (fun h => by cases hafter.1.symm.trans h)
      fun h => by cases hafter.1.symm.trans (settled_of_registered h)
    have hbefore : stackWork s.tickers s.stack = t.pc.work + stackWork s.tickers rest := by
      rw [hst]
      show leftOver (s.tickers k) + _ = _
      rw [hk]
      rfl
    have hstack : stackWork (Function.update s.tickers k (some t.afterRun)) s.stack =
        t.afterRun.pc.work + stackWork s.tickers rest := by
      rw [hst]
      show leftOver (Function.update s.tickers k (some t.afterRun) k) + stackWork _ rest = _
      rw [Function.update_self, stackWork_update s.tickers hnot]
      rfl
    show s.state.work (Function.update s.tickers k (some t.afterRun)) + 6 * s.pendingWakes +
      stackWork (Function.update s.tickers k (some t.afterRun)) s.stack + 1 ≤
        s.state.work s.tickers + 6 * s.pendingWakes + stackWork s.tickers s.stack
    omega
  · have hstack : stackWork s.tickers s.stack = 1 + stackWork s.tickers rest := by
      rw [hst]
      rfl
    show s.state.work s.tickers + 6 * s.pendingWakes + stackWork s.tickers rest + 1 ≤
      s.state.work s.tickers + 6 * s.pendingWakes + stackWork s.tickers s.stack
    omega

theorem work_next {l : Label R W} (hi : s.Inv) (hr : s.Role) (hm : s.OnMain)
    (h : s.next l = some s') : s'.work + 1 ≤ s.work + Sys.allowance (s, l) := by
  have hdef : ∀ s : Sys R W, s.work =
      s.state.work s.tickers + 6 * s.pendingWakes + stackWork s.tickers s.stack := fun _ => rfl
  cases l with
  | schedule id runnable =>
      rw [hdef, hdef]
      obtain ⟨-, -, rfl⟩ | ⟨-, rfl⟩ := next_schedule h
      · have := work_schedule s runnable
        show (s.schedule runnable).state.work s.tickers + 6 * s.pendingWakes +
          stackWork s.tickers s.stack + 1 ≤ _ + 23
        omega
      · show 17 * s.state.threadState.taskQueue.length +
          16 * (s.state.taskQueue ++ [runnable]).length +
            s.state.queue.cost (entryWork s.tickers s.state.mainstreamWaker.isNone) +
              6 * (s.pendingWakes + 1) + stackWork s.tickers s.stack + 1 ≤ _ + 23
        unfold State.work
        rw [List.length_append, List.length_singleton]
        omega
  | wake =>
      obtain ⟨hpos, rfl⟩ := next_wake h
      have := work_takeWaker hr
      show s.state.takeWaker.work s.tickers + 6 * (s.pendingWakes - 1) +
        stackWork s.tickers s.stack + 1 ≤
        s.state.work s.tickers + 6 * s.pendingWakes + stackWork s.tickers s.stack + 0
      omega
  | create k oneShot =>
      obtain ⟨hk, hf, rfl⟩ := next_create h
      have hnot : k ∉ keys s.stack := hi.stacked.notMem hf fun t ht => by cases hk.symm.trans ht
      have hcost : s.state.queue.cost (entryWork (Function.update s.tickers k
            (some ⟨oneShot, false, .fresh⟩)) s.state.mainstreamWaker.isNone) ≤
          s.state.queue.cost (entryWork s.tickers s.state.mainstreamWaker.isNone) := by
        refine Queue.cost_mono fun x hx => Nat.le_of_eq (entryWork_of_ne fun he => ?_)
        exact hi.absent hk (he ▸ Queue.mem_ids_of_mem hx)
      have hstack := stackWork_update s.tickers hnot (some ⟨oneShot, false, .fresh⟩)
      rw [hdef, hdef]
      show 17 * s.state.threadState.taskQueue.length + 16 * s.state.taskQueue.length +
        s.state.queue.cost
        (entryWork (Function.update s.tickers k (some ⟨oneShot, false, .fresh⟩))
          s.state.mainstreamWaker.isNone) + 6 * s.pendingWakes + stackWork
            (Function.update s.tickers k
            (some ⟨oneShot, false, .fresh⟩)) s.stack + 1 ≤ _ + 1
      unfold State.work
      omega
  | poll k w =>
      obtain ⟨hf, t, hk, hcases⟩ := next_poll h
      have hoff : t.pc.active = false := by
        rcases hcases with ⟨hpc, -⟩ | ⟨hpc, -⟩
        · rw [hpc]; rfl
        · rw [hpc]; rfl
      have hnot : k ∉ keys s.stack := hi.stacked.notMem hf fun t' ht' => by
        cases hk.symm.trans ht'
        exact hoff
      have henter : ∀ pc, { t with pc }.settled = false → pc.work ≤ 5 →
          (s.called k = true → pc.work = 4) →
            (s.enter k w t pc).work + 1 ≤ s.work + Sys.allowance (s, .poll k w) := by
        intro pc hpc hfive hfour
        have hentered := work_enter w hi hk hpc
        have hstack : stackWork (s.enter k w t pc).tickers (s.enter k w t pc).stack =
            pc.work + stackWork s.tickers s.stack := by
          show leftOver (Function.update s.tickers k (some { t with pc }) k) +
            stackWork (Function.update s.tickers k (some { t with pc })) s.stack = _
          rw [Function.update_self, stackWork_update s.tickers hnot]
          rfl
        rw [hdef, hdef, hstack]
        show _ + 6 * s.pendingWakes + _ + 1 ≤ _ + if s.called k then 0 else 6
        cases hc : s.called k with
        | true =>
            have := hfour hc
            rw [hc] at hentered
            simp only [if_true] at hentered ⊢
            omega
        | false =>
            rw [hc] at hentered
            simp only [Bool.false_eq_true, if_false] at hentered ⊢
            omega
      rcases hcases with ⟨hpc, rfl⟩ | ⟨hpc, rfl⟩
      · refine henter _ rfl (Nat.le_refl _) fun hc => ?_
        cases hpc.symm.trans (parked_of_called hk hc)
      · exact henter _ rfl (by decide) fun _ => rfl
  | drop k =>
      obtain ⟨hf, t, hk, hoff, rfl⟩ := next_drop h
      have hnot : k ∉ keys s.stack := hi.stacked.notMem hf fun t' ht' => by
        cases hk.symm.trans ht'
        exact hoff
      have hdrop := work_dropFuture s.state hk (others_unregistered hr hk)
      have hstack := stackWork_update s.tickers hnot none
      rw [hdef, hdef]
      show (t.dropFuture k s.state).state.work (Function.update s.tickers k none) +
        6 * s.pendingWakes + stackWork (Function.update s.tickers k none) s.stack + 1 ≤ _ + 13
      omega
  | tryTick =>
      obtain ⟨-, rfl⟩ := next_tryTick h
      have htry := work_tryTick s
      have hkept : s.tryTick.tickers = s.tickers ∧ s.tryTick.pendingWakes = s.pendingWakes := by
        unfold Sys.tryTick
        split
        · exact ⟨rfl, rfl⟩
        · exact ⟨rfl, rfl⟩
      rw [hdef, hdef, hkept.1, hkept.2]
      show _ + 1 ≤ _ + 2
      omega
  | step => exact work_step hi hr hm h
  | ret => exact work_ret hi h

/-- A run takes no more steps than were asked for: 23 for a Runnable that is
scheduled, 6 for a poll of a future that nothing had called for, 13 for a
drop, 2 for a `try_tick`, and itself for a creation. The steps inside the
calls, the wake-ups and the polls of futures that were called are free. -/
theorem steps_paid {id : Option Nat} {tr : List (Sys R W × Label R W)} (h : (system id).Run tr s) :
    s.work + tr.length ≤ (tr.map Sys.allowance).sum := by
  refine h.paid (Φ := Sys.work) ?_ fun s l s' hr hs => ?_
  · rintro s rfl
    show 17 * 0 + 16 * 0 + Queue.cost _ (Event.queue .new) + 6 * 0 + 0 = 0
    rw [Event.queue_new]
    rfl
  · exact work_next (inv_reachable hr) (role_reachable hr) (onMain_reachable hr) hs

end System

theorem steps_paid_runThenSleep : ∃ s : Sys Nat Nat, s.ranLocal = [4] ∧ s.work + 11 ≤ 30 := by
  obtain ⟨s, hrun, hobs⟩ := run_of_observe _ _ _ exec_runThenSleep
  simp only [Prod.mk.injEq] at hobs
  have hrun : (system (some 7)).Run _ s := hrun
  have hlength : (execTrace Sys.next (.init (some 7)) runThenSleep).length = 11 := by decide
  have hallowed :
      ((execTrace Sys.next (.init (some 7)) runThenSleep).map Sys.allowance).sum = 30 := by
    decide
  have hpaid := steps_paid hrun
  rw [hlength, hallowed] at hpaid
  exact ⟨s, hobs.2.2.2.2, hpaid⟩

end Executor

end Unsend

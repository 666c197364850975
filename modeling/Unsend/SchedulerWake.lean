import Unsend.SchedulerRole

/-!
# The waker of the mainstream runner

A push from another thread comes in two steps, the push and the wake, and
the mainstream runner goes to sleep in three: it registers its waker,
looks at the mainstream queue once more and is suspended. In between, the
slot of the waker may be emptied by the wake of an earlier push and by
`try_tick`; a ticker that pops a Runnable or is dropped empties it only
where it has the mainstream role itself.

`wake_not_lost` is the property of whole runs: where the mainstream
runner is suspended and the mainstream queue is not empty, the waker it
registered last has been woken since, or is still in the slot with a wake
on its way. A runner that is dropped leaves no waker behind
(`mainstream_of_registered`).
-/

namespace Unsend

namespace Executor

variable {R W : Type}

/-- The steps on the mainstream queue and its waker. -/
def Pc.mainstream : Pc → Bool
  | mainPop | mainRegister | mainPopAgain | mainTake => true
  | _ => false

namespace Sys

/-- The future at `k` is suspended. -/
def Suspended (s : Sys R W) (k : Ptr) : Prop := ∃ t, s.tickers k = some t ∧ t.pc = .parked

/-- The waker that the future at `k` registers in a step, if it does, and
the number of wakers that have been woken by then. -/
def registration (k : Ptr) : Sys R W × Label R W → Option (W × Nat)
  | (s, .step) =>
      match s.stack with
      | .ticker k' cx :: _ =>
          if k' = k ∧ (s.tickers k).map Ticker.pc = some .mainRegister then
            some (cx, s.woken.length)
          else none
      | _ => none
  | _ => none

/-- The waker that the future at `k` registered last. -/
def lastRegistered (k : Ptr) (tr : List (Sys R W × Label R W)) : Option (W × Nat) :=
  System.latest (registration k) tr

/-- The waker `w` that was registered when `n` wakers had been woken has
been woken since, or is in the slot. -/
structure Armed (s : Sys R W) (w : W) (n : Nat) (waits : Prop) : Prop where
  since : n ≤ s.woken.length
  armed : w ∈ s.woken.drop n ∨ s.state.mainstreamWaker = some w ∧
    (waits → s.state.taskQueue ≠ [] → 0 < s.pendingWakes)

/-- Only the mainstream runner is at the mainstream queue. -/
def OnMain (s : Sys R W) : Prop :=
  ∀ k t, s.tickers k = some t → t.pc.mainstream = true → t.isMainstream = true

/-- From its registration until it is polled again, the mainstream runner
will hear of a push. -/
def Watch (tr : List (Sys R W × Label R W)) (s : Sys R W) : Prop :=
  ∀ k t, s.tickers k = some t → t.isMainstream = true →
    t.pc = .mainPopAgain ∨ t.pc = .parked →
    ∃ w n, lastRegistered k tr = some (w, n) ∧ s.Armed w n (t.pc = .parked)

end Sys

section Wake

variable {s s' : Sys R W} {k : Ptr} {t : Ticker} {cx w : W} {n : Nat} {waits : Prop}

/-! ## What is armed stays armed -/

theorem mem_drop_mono {xs ys : List W} (h : xs <+: ys) (hn : n ≤ xs.length)
    (hw : w ∈ xs.drop n) : w ∈ ys.drop n := by
  obtain ⟨zs, rfl⟩ := h
  rw [List.drop_append_of_le_length hn]
  exact List.mem_append_left _ hw

/-- A step that leaves the slot alone and pushes nothing without a wake to
come. -/
theorem Sys.Armed.keep (h : s.Armed w n waits) (hwoken : s.woken <+: s'.woken)
    (hslot : s'.state.mainstreamWaker = s.state.mainstreamWaker)
    (hqueue : s'.state.taskQueue ≠ [] →
      0 < s'.pendingWakes ∨ s.state.taskQueue ≠ [] ∧ s'.pendingWakes = s.pendingWakes) :
    s'.Armed w n waits where
  since := h.since.trans hwoken.length_le
  armed := by
    rcases h.armed with hw | ⟨hw, hpending⟩
    · exact .inl (mem_drop_mono hwoken h.since hw)
    · refine .inr ⟨hslot.trans hw, fun hwaits hne => ?_⟩
      rcases hqueue hne with hpos | ⟨hne, heq⟩
      · exact hpos
      · rw [heq]
        exact hpending hwaits hne

/-- A step that wakes what is in the slot. -/
theorem Sys.Armed.fire (h : s.Armed w n waits)
    (hwoken : s'.woken = s.woken ++ s.state.mainstreamWaker.toList) : s'.Armed w n waits where
  since := by
    rw [hwoken, List.length_append]
    exact h.since.trans (Nat.le_add_right _ _)
  armed := by
    left
    rw [hwoken, List.drop_append_of_le_length h.since, List.mem_append]
    rcases h.armed with hw | ⟨hw, -⟩
    · exact .inl hw
    · right
      rw [hw]
      exact List.mem_singleton_self w

/-! ## What a step does to the mainstream queue and its waker -/

/-- A ticker is dropped. -/
theorem main_dropFuture (t : Ticker) (k : Ptr) (s : State R W) :
    (t.dropFuture k s).state.taskQueue = s.taskQueue ∧
      (t.isMainstream = false →
        (t.dropFuture k s).state.mainstreamWaker = s.mainstreamWaker) := by
  unfold Ticker.dropFuture Ticker.drop
  cases t.isMainstream with
  | true => exact ⟨rfl, nofun⟩
  | false => exact ⟨rfl, fun _ => rfl⟩

theorem popMain_cases (t : Ticker) (s : State R W) (found empty : Pc) :
    (t.popMain s found empty).state.mainstreamWaker = s.mainstreamWaker ∧
      (t.popMain s found empty).woken = [] ∧
      ((t.popMain s found empty).state.taskQueue ≠ [] → s.taskQueue ≠ []) ∧
      ((t.popMain s found empty).ticker = some { t with pc := found } ∨
        s.taskQueue = [] ∧ (t.popMain s found empty).ticker = some { t with pc := empty } ∧
          (t.popMain s found empty).state = s) := by
  unfold Ticker.popMain
  split
  · rename_i hqueue
    exact ⟨rfl, rfl, fun _ => by rw [hqueue]; exact List.cons_ne_nil _ _, .inl rfl⟩
  · rename_i hqueue
    exact ⟨rfl, rfl, id, .inr ⟨hqueue, rfl, rfl⟩⟩

theorem afterRun_pc (t : Ticker) : t.afterRun.pc = .pollOnce ∨ t.afterRun.pc = .finish := by
  unfold Ticker.afterRun
  dsimp only
  split
  · exact .inl rfl
  · exact .inr rfl

theorem registration_none {l : Label R W} (hl : l = .step →
    ∀ cx rest, s.stack = .ticker k cx :: rest → ∀ t, s.tickers k = some t →
      t.pc ≠ .mainRegister) :
    Sys.registration k (s, l) = none := by
  cases l with
  | step =>
      rw [Sys.registration]
      split
      · rename_i k' cx rest hst
        refine if_neg ?_
        rintro ⟨rfl, hpc⟩
        obtain ⟨t, hk, hpc⟩ := Option.map_eq_some_iff.mp hpc
        exact hl rfl cx rest hst t hk hpc
      · rfl
  | _ => rfl

/-- A future that the step is not about. -/
theorem Sys.Watch.keep {tr : List (Sys R W × Label R W)} {l : Label R W} (hw : Sys.Watch tr s)
    (hk : s.tickers k = some t) (hmain : t.isMainstream = true)
    (hpc : t.pc = .mainPopAgain ∨ t.pc = .parked) (hreg : Sys.registration k (s, l) = none)
    (harmed : ∀ w n, s.Armed w n (t.pc = .parked) → s'.Armed w n (t.pc = .parked)) :
    ∃ w n, Sys.lastRegistered k (tr ++ [(s, l)]) = some (w, n) ∧
      s'.Armed w n (t.pc = .parked) := by
  obtain ⟨w, n, hlast, ha⟩ := hw k t hk hmain hpc
  exact ⟨w, n, (System.latest_of_none hreg tr).trans hlast, harmed w n ha⟩

/-- Beside the mainstream runner nobody has the role. -/
theorem not_mainstream {k' : Ptr} {t' : Ticker} (hr : s.Role) (hk : s.tickers k = some t)
    (hmain : t.isMainstream = true) (hk' : s.tickers k' = some t') (hne : k ≠ k') :
    t'.isMainstream = false := by
  by_contra hmain'
  refine hne (hr.unique k k' ((hasRole_eq hk).trans hmain) ((hasRole_eq hk').trans ?_))
  exact eq_true_of_ne_false hmain'

/-- A future that is suspended or about to be was not moved elsewhere. -/
theorem tickers_of_update {k' : Ptr} {t' : Ticker}
    (hk : Function.update s.tickers k' (some t') k = some t)
    (hpc : t.pc = .mainPopAgain ∨ t.pc = .parked)
    (hoff : t'.pc ≠ .mainPopAgain ∧ t'.pc ≠ .parked) : s.tickers k = some t := by
  by_cases he : k = k'
  · subst he
    cases (Function.update_self ..).symm.trans hk
    exact (hpc.elim hoff.1 hoff.2).elim
  · exact (Function.update_of_ne he ..).symm.trans hk

/-- The return of a Runnable touches nothing but the program counter of the
future that ran it. -/
theorem ret_keeps (h : s.ret = some s') :
    s'.state = s.state ∧ s'.pendingWakes = s.pendingWakes ∧
    s'.woken = s.woken ∧ ∀ k t, s'.tickers k = some t →
      t.pc = .mainPopAgain ∨ t.pc = .parked →
      s.tickers k = some t := by
  rcases ret_cases h with ⟨k, cx, rest, t, -, -, -, rfl⟩ | ⟨rest, -, rfl⟩
  · refine ⟨rfl, rfl, rfl, fun k' t' hk' hpc => ?_⟩
    refine tickers_of_update hk' hpc ?_
    rcases afterRun_pc t with hp | hp
    · rw [hp]
      decide
    · rw [hp]
      decide
  · exact ⟨rfl, rfl, rfl, fun _ _ hk _ => hk⟩

variable [WillWake W]

/-- A step at the mainstream queue, the return of a `tick()` future, or a
step elsewhere that leads to the mainstream queue at most the mainstream
runner. -/
theorem main_cases {s : State R W} {out : TickOut R W} (h : t.step k cx s = some out) :
    (t.pc = .mainPop ∧ out = t.popMain s .runAwaited .mainRegister) ∨
    (t.pc = .mainRegister ∧ out = t.goto { s with mainstreamWaker := some cx } .mainPopAgain) ∨
    (t.pc = .mainPopAgain ∧ out = t.popMain s .mainTake .parked) ∨
    (t.pc = .mainTake ∧ out = t.goto s.takeWaker .runAwaited) ∨
    (t.pc = .finish ∧ out = t.dropFuture k s) ∨
    (out.state.mainstreamWaker = s.mainstreamWaker ∧ out.state.taskQueue = s.taskQueue ∧
      ∃ t', out.ticker = some t' ∧ t'.pc ≠ .mainPopAgain ∧
        (t'.pc.mainstream = true → t'.isMainstream = true) ∧
        (t'.pc = .parked → t'.isMainstream = false)) := by
  unfold Ticker.step at h
  cases hpc : t.pc with
  | loopHead =>
      rw [hpc] at h
      obtain rfl := Option.some.inj h
      refine .inr (.inr (.inr (.inr (.inr ?_))))
      unfold Ticker.loopHead
      split
      · exact ⟨rfl, rfl, _, rfl, nofun, nofun, nofun⟩
      · split
        · exact ⟨rfl, rfl, _, rfl, nofun, nofun, nofun⟩
        · exact ⟨rfl, rfl, _, rfl, nofun, nofun, nofun⟩
  | listen =>
      rw [hpc] at h
      obtain rfl := Option.some.inj h
      obtain ⟨-, hslot, hqueue, -, pc, ht, hpc⟩ :=
        frame_pollListener t k cx s .runAwaited .loopHead
        (if t.isMainstream then .mainPop else .parked)
      refine .inr (.inr (.inr (.inr (.inr ⟨hslot, hqueue, _, ht, ?_⟩))))
      rcases hpc with rfl | rfl | rfl
      · exact ⟨nofun, nofun, nofun⟩
      · exact ⟨nofun, nofun, nofun⟩
      · cases hmain : t.isMainstream with
        | true => exact ⟨nofun, fun _ => rfl, nofun⟩
        | false => exact ⟨nofun, nofun, fun _ => rfl⟩
  | mainPop =>
      rw [hpc] at h
      exact .inl ⟨rfl, (Option.some.inj h).symm⟩
  | mainRegister =>
      rw [hpc] at h
      exact .inr (.inl ⟨rfl, (Option.some.inj h).symm⟩)
  | mainPopAgain =>
      rw [hpc] at h
      exact .inr (.inr (.inl ⟨rfl, (Option.some.inj h).symm⟩))
  | mainTake =>
      rw [hpc] at h
      exact .inr (.inr (.inr (.inl ⟨rfl, (Option.some.inj h).symm⟩)))
  | pollOnce =>
      rw [hpc] at h
      obtain rfl := Option.some.inj h
      obtain ⟨-, hslot, hqueue, -, pc, ht, hpc⟩ :=
        frame_pollListener t k cx s .runLast .finish .finish
      refine .inr (.inr (.inr (.inr (.inr ⟨hslot, hqueue, _, ht, ?_⟩))))
      rcases hpc with rfl | rfl | rfl
      · exact ⟨nofun, nofun, nofun⟩
      · exact ⟨nofun, nofun, nofun⟩
      · exact ⟨nofun, nofun, nofun⟩
  | finish =>
      rw [hpc] at h
      obtain rfl := Option.some.inj h
      cases hone : t.oneShot with
      | true => exact .inr (.inr (.inr (.inr (.inl ⟨rfl, rfl⟩))))
      | false =>
          exact .inr (.inr (.inr (.inr (.inr ⟨rfl, rfl, _, rfl, nofun, nofun, nofun⟩))))
  | fresh | parked | runPopped | runAwaited | runLast =>
      rw [hpc] at h
      cases h

/-- A step of `try_tick` pops, or wakes what is in the slot. -/
theorem tryStep_main {pc : TryPc} {rest : List (Frame W)} (hst : s.stack = .tryTick pc :: rest)
    (h : s.next .step = some s') : s'.pendingWakes = s.pendingWakes ∧
      (s'.woken = s.woken ++ s.state.mainstreamWaker.toList ∨
        s'.woken = s.woken ∧ s'.state.mainstreamWaker = s.state.mainstreamWaker ∧
          (s'.state.taskQueue ≠ [] → s.state.taskQueue ≠ [])) := by
  rw [Sys.next, Sys.step, hst] at h
  cases pc with
  | popMain =>
      cases hqueue : s.state.taskQueue with
      | nil =>
          simp only [hqueue] at h
          obtain rfl := Option.some.inj h
          exact ⟨rfl, .inr ⟨rfl, rfl, fun hne => (hne hqueue).elim⟩⟩
      | cons runnable queue =>
          simp only [hqueue] at h
          obtain rfl := Option.some.inj h
          exact ⟨rfl, .inr ⟨rfl, rfl, fun _ => List.cons_ne_nil _ _⟩⟩
  | wake =>
      obtain rfl := Option.some.inj h
      exact ⟨rfl, .inl rfl⟩
  | running => cases h

/-! ## Over a step -/

/-- A step keeps `OnMain`: the mainstream runner alone comes to the
mainstream queue. -/
theorem onMain_next {l : Label R W} (hm : s.OnMain) (h : s.next l = some s') : s'.OnMain := by
  have hupdate : ∀ {k : Ptr} {t : Option Ticker},
      (∀ t' ∈ t, t'.pc.mainstream = true → t'.isMainstream = true) →
        ∀ k' t', Function.update s.tickers k t k' = some t' → t'.pc.mainstream = true →
          t'.isMainstream = true := by
    intro k t ht k' t' hk' hpc
    by_cases he : k' = k
    · rw [he, Function.update_self] at hk'
      exact ht t' hk' hpc
    · rw [Function.update_of_ne he] at hk'
      exact hm k' t' hk' hpc
  cases l with
  | schedule id runnable =>
      obtain ⟨-, -, rfl⟩ | ⟨-, rfl⟩ := next_schedule h
      · exact hm
      · exact hm
  | wake =>
      obtain ⟨-, rfl⟩ := next_wake h
      exact hm
  | create k oneShot =>
      obtain ⟨-, -, rfl⟩ := next_create h
      refine hupdate ?_
      rintro t' ⟨⟩ hpc
      cases hpc
  | poll k w =>
      obtain ⟨-, t, hk, ⟨-, rfl⟩ | ⟨-, rfl⟩⟩ := next_poll h
      · refine hupdate ?_
        rintro t' ⟨⟩ hpc
        cases hpc
      · refine hupdate ?_
        rintro t' ⟨⟩ hpc
        cases hpc
  | drop k =>
      obtain ⟨-, t, -, -, rfl⟩ := next_drop h
      exact hupdate nofun
  | tryTick =>
      obtain ⟨-, rfl⟩ := next_tryTick h
      unfold Sys.tryTick
      split
      · exact hm
      · exact hm
  | step =>
      rcases next_step h with ⟨k, cx, rest, t, out, -, hk, hout, rfl⟩ | htry
      · refine hupdate fun t' ht' hpc => ?_
        have hsame : t.pc.mainstream = true → ∀ pc, some t' = some { t with pc } →
            t'.isMainstream = true := by
          rintro hon pc ⟨⟩
          exact hm k t hk hon
        rcases main_cases hout with ⟨hp, rfl⟩ | ⟨hp, rfl⟩ | ⟨hp, rfl⟩ |
          ⟨hp, rfl⟩ | ⟨hp, rfl⟩ | ⟨-, -, t1, ht1, -, hmain, -⟩
        · rcases (popMain_cases t s.state .runAwaited .mainRegister).2.2.2 with ht | ⟨-, ht, -⟩
          · exact hsame (by rw [hp]; rfl) _ (ht'.symm.trans ht)
          · exact hsame (by rw [hp]; rfl) _ (ht'.symm.trans ht)
        · exact hsame (by rw [hp]; rfl) _ ht'.symm
        · rcases (popMain_cases t s.state .mainTake .parked).2.2.2 with ht | ⟨-, ht, -⟩
          · exact hsame (by rw [hp]; rfl) _ (ht'.symm.trans ht)
          · exact hsame (by rw [hp]; rfl) _ (ht'.symm.trans ht)
        · exact hsame (by rw [hp]; rfl) _ ht'.symm
        · cases ht'
        · cases ht1.symm.trans ht'
          exact hmain hpc
      · unfold Sys.OnMain
        rw [htry.tickers]
        exact hm
  | ret =>
      rcases next_ret h with ⟨k, cx, rest, t, -, -, -, rfl⟩ | htry
      · refine hupdate ?_
        rintro t' ⟨⟩ hpc
        rcases afterRun_pc t with hp | hp
        · rw [hp] at hpc
          cases hpc
        · rw [hp] at hpc
          cases hpc
      · unfold Sys.OnMain
        rw [htry.tickers]
        exact hm

theorem onMain_reachable {id : Option Nat} (h : (system id).Reachable s) : s.OnMain := by
  refine h.invariant (I := Sys.OnMain) ?_ fun s l s' hm hs => onMain_next hm hs
  rintro s rfl k t hk
  cases hk

/-- The steps of other futures leave the slot of the mainstream runner
alone. -/
theorem slot_of_other {out : TickOut R W} {s : State R W} (hmain : t.isMainstream = false)
    (honly : t.pc.mainstream = true → t.isMainstream = true) (hout : t.step k cx s = some out) :
    out.state.mainstreamWaker = s.mainstreamWaker ∧ out.state.taskQueue = s.taskQueue := by
  have hoff : t.pc.mainstream = true → False := by
    intro hon
    rw [honly hon] at hmain
    cases hmain
  rcases main_cases hout with ⟨hp, -⟩ | ⟨hp, -⟩ | ⟨hp, -⟩ | ⟨hp, -⟩ | ⟨-, rfl⟩ |
    ⟨hslot, hqueue, -⟩
  · exact (hoff (by rw [hp]; rfl)).elim
  · exact (hoff (by rw [hp]; rfl)).elim
  · exact (hoff (by rw [hp]; rfl)).elim
  · exact (hoff (by rw [hp]; rfl)).elim
  · obtain ⟨hqueue, hslot⟩ := main_dropFuture t k s
    exact ⟨hslot hmain, hqueue⟩
  · exact ⟨hslot, hqueue⟩

/-- The step of the mainstream runner itself. -/
theorem watch_self {tr : List (Sys R W × Label R W)} {rest : List (Frame W)} {out : TickOut R W}
    (hw : Sys.Watch tr s) (hst : s.stack = .ticker k cx :: rest) (hk : s.tickers k = some t)
    (hout : t.step k cx s.state = some out) {t' : Ticker} (ht' : out.ticker = some t')
    (hmain : t'.isMainstream = true) (hpc : t'.pc = .mainPopAgain ∨ t'.pc = .parked) :
    ∃ w n, Sys.lastRegistered k (tr ++ [(s, .step)]) = some (w, n) ∧
      (s.settle k (Sys.unwind k cx rest out.ticker) out).Armed w n (t'.pc = .parked) := by
  rcases main_cases hout with ⟨-, rfl⟩ | ⟨hp, rfl⟩ | ⟨hp, rfl⟩ |
    ⟨-, rfl⟩ | ⟨-, rfl⟩ | ⟨-, -, t1, ht1, hne, -, hoff⟩
  · rcases (popMain_cases t s.state .runAwaited .mainRegister).2.2.2 with ht | ⟨-, ht, -⟩
    · cases ht.symm.trans ht'
      rcases hpc with hpc | hpc <;> cases hpc
    · cases ht.symm.trans ht'
      rcases hpc with hpc | hpc <;> cases hpc
  · -- It registers.
    obtain rfl := Option.some.inj ht'
    have hreg : Sys.registration k (s, .step) = some (cx, s.woken.length) := by
      simp only [Sys.registration, hst, hk, Option.map_some, hp, and_self, ↓reduceIte]
    refine ⟨cx, s.woken.length, System.latest_of_some hreg tr, ?_, .inr ⟨rfl, nofun⟩⟩
    exact (List.prefix_append ..).length_le
  · -- It is suspended with the queue empty.
    obtain ⟨-, hwoken, -, hcases⟩ := popMain_cases t s.state .mainTake .parked
    rcases hcases with ht | ⟨hqueue, ht, hstate⟩
    · cases ht.symm.trans ht'
      rcases hpc with hpc | hpc <;> cases hpc
    · cases ht.symm.trans ht'
      obtain ⟨w, n, hlast, ha⟩ := hw k t hk hmain (.inl hp)
      have hreg : Sys.registration k (s, .step) = none :=
          registration_none fun _ _ _ _ t1 hk1 hp1 => by
        cases hk.symm.trans hk1
        rw [hp] at hp1
        cases hp1
      refine ⟨w, n, (System.latest_of_none hreg tr).trans hlast, ?_, ?_⟩
      · exact ha.since.trans (List.prefix_append ..).length_le
      · show w ∈ (s.woken ++ _).drop n ∨
          (t.popMain s.state .mainTake .parked).state.mainstreamWaker = some w ∧
            (_ → (t.popMain s.state .mainTake .parked).state.taskQueue ≠ [] → _)
        rw [hwoken, List.append_nil, hstate]
        refine ha.armed.imp_right fun hslot => ⟨hslot.1, fun _ hne => ?_⟩
        exact (hne hqueue).elim
  · cases ht'
    rcases hpc with hpc | hpc <;> cases hpc
  · cases ht'
  · cases ht1.symm.trans ht'
    rcases hpc with hpc | hpc
    · exact (hne hpc).elim
    · rw [hoff hpc] at hmain
      cases hmain

theorem watch_next {tr : List (Sys R W × Label R W)} {l : Label R W} (hr : s.Role) (hm : s.OnMain)
    (hw : Sys.Watch tr s) (h : s.next l = some s') : Sys.Watch (tr ++ [(s, l)]) s' := by
  intro k t hk hmain hpc
  cases l with
  | schedule id runnable =>
      obtain ⟨-, -, rfl⟩ | ⟨-, rfl⟩ := next_schedule h
      · refine hw.keep hk hmain hpc rfl fun w n ha => ha.keep ?_ rfl fun hne => .inr ⟨hne, rfl⟩
        exact List.prefix_append ..
      · refine hw.keep hk hmain hpc rfl fun w n ha => ha.keep List.prefix_rfl rfl fun _ => .inl ?_
        exact Nat.succ_pos _
  | wake =>
      obtain ⟨-, rfl⟩ := next_wake h
      exact hw.keep hk hmain hpc rfl fun w n ha => ha.fire rfl
  | create k' oneShot =>
      obtain ⟨-, -, rfl⟩ := next_create h
      refine hw.keep (tickers_of_update hk hpc ⟨nofun, nofun⟩) hmain hpc rfl fun w n ha => ?_
      exact ha.keep List.prefix_rfl rfl fun hne => .inr ⟨hne, rfl⟩
  | poll k' w =>
      obtain ⟨-, t', -, ⟨-, rfl⟩ | ⟨-, rfl⟩⟩ := next_poll h
      · refine hw.keep (tickers_of_update hk hpc ⟨nofun, nofun⟩) hmain hpc rfl fun w n ha => ?_
        exact ha.keep List.prefix_rfl rfl fun hne => .inr ⟨hne, rfl⟩
      · refine hw.keep (tickers_of_update hk hpc ⟨nofun, nofun⟩) hmain hpc rfl fun w n ha => ?_
        exact ha.keep List.prefix_rfl rfl fun hne => .inr ⟨hne, rfl⟩
  | drop k' =>
      obtain ⟨-, t', ht', -, rfl⟩ := next_drop h
      have hne : k ≠ k' := by
        rintro rfl
        cases (Function.update_self (f := s.tickers) ..).symm.trans hk
      have hk' : s.tickers k = some t := (Function.update_of_ne hne ..).symm.trans hk
      obtain ⟨hqueue, hslot⟩ := main_dropFuture t' k' s.state
      refine hw.keep hk' hmain hpc rfl fun w n ha => ha.keep (List.prefix_append ..) ?_ ?_
      · exact hslot (not_mainstream hr hk' hmain ht' hne)
      · exact fun hne => .inr ⟨fun he => hne (hqueue.trans he), rfl⟩
  | tryTick =>
      obtain ⟨-, rfl⟩ := next_tryTick h
      unfold Sys.tryTick at hk ⊢
      split at hk
      · refine hw.keep hk hmain hpc rfl fun w n ha => ha.keep ?_ rfl fun hne => .inr ⟨hne, rfl⟩
        exact List.prefix_append ..
      · refine hw.keep hk hmain hpc rfl fun w n ha => ha.keep List.prefix_rfl rfl fun hne => ?_
        exact .inr ⟨hne, rfl⟩
  | step =>
      rcases next_step h with ⟨k', cx, rest, t', out, hst, ht', hout, rfl⟩ | htry
      · by_cases hne : k = k'
        · subst hne
          have hself : out.ticker = some t :=
            (Function.update_self (f := s.tickers) ..).symm.trans hk
          exact watch_self hw hst ht' hout hself hmain hpc
        · have hk' : s.tickers k = some t := (Function.update_of_ne hne ..).symm.trans hk
          have hreg : Sys.registration k (s, .step) = none := by
            refine registration_none fun _ cx' rest' hst' => ?_
            cases hst.symm.trans hst'
            exact (hne rfl).elim
          obtain ⟨hslot, hqueue⟩ :=
            slot_of_other (not_mainstream hr hk' hmain ht' hne) (hm k' t' ht') hout
          refine hw.keep hk' hmain hpc hreg fun w n ha => ha.keep (List.prefix_append ..) hslot ?_
          exact fun hne => .inr ⟨fun he => hne (hqueue.trans he), rfl⟩
      · obtain ⟨pc, rest, hst, -⟩ := htry.stack
        have hreg : Sys.registration k (s, .step) = none := by
          refine registration_none fun _ cx' rest' hst' => ?_
          cases hst.symm.trans hst'
        rw [htry.tickers] at hk
        obtain ⟨hpending, hwoken | ⟨hwoken, hslot, hqueue⟩⟩ := tryStep_main hst h
        · exact hw.keep hk hmain hpc hreg fun w n ha => ha.fire hwoken
        · refine hw.keep hk hmain hpc hreg fun w n ha => ha.keep ?_ hslot ?_
          · exact hwoken ▸ List.prefix_rfl
          · exact fun hne => .inr ⟨hqueue hne, hpending⟩
  | ret =>
      rw [Sys.next] at h
      obtain ⟨hstate, hpending, hwoken, hold⟩ := ret_keeps h
      refine hw.keep (hold k t hk hpc) hmain hpc rfl fun w n ha => ha.keep ?_ ?_ fun hne => ?_
      · exact hwoken ▸ List.prefix_rfl
      · rw [hstate]
      · rw [hstate] at hne
        exact .inr ⟨hne, hpending⟩

theorem watch_run {id : Option Nat} {tr : List (Sys R W × Label R W)}
    (h : (system id).Run tr s) : Sys.Watch tr s := by
  refine h.history (I := Sys.Watch) ?_ fun tr s l s' hr hw hs => ?_
  · rintro s rfl k t hk
    cases hk
  · exact watch_next (role_reachable ⟨tr, hr⟩) (onMain_reachable ⟨tr, hr⟩) hw hs

/-! ## The waker goes with its runner -/

/-- Whoever registered the waker in the slot has not given up the role. -/
def State.Kept (s : State R W) : Prop :=
  s.mainstreamWaker ≠ none → s.threadState.isMainstreamListening = true

omit [WillWake W] in
/-- A runner that is dropped takes its waker with it. -/
theorem kept_dropFuture {s : State R W} (h : s.Kept) : (t.dropFuture k s).state.Kept := by
  unfold State.Kept Ticker.dropFuture Ticker.drop
  cases t.isMainstream with
  | true => exact fun hne => (hne rfl).elim
  | false => exact h

theorem kept_step {s : State R W} {out : TickOut R W} (h : s.Kept)
    (hreg : t.pc = .mainRegister → s.threadState.isMainstreamListening = true)
    (hout : t.step k cx s = some out) : out.state.Kept := by
  have hpoll : ∀ run other wait, (t.pollListener k cx s run other wait).state.Kept := by
    intro run other wait hne
    rw [(frame_pollListener t k cx s run other wait).2.1] at hne
    exact (congrArg Prod.snd (outlook_pollListener t k cx s run other wait)).trans (h hne)
  have hpop : ∀ found empty, (t.popMain s found empty).state.Kept := by
    intro found empty
    unfold Ticker.popMain
    split
    · exact h
    · exact h
  rw [Ticker.step] at hout
  cases hpc : t.pc with
  | loopHead =>
      rw [hpc] at hout
      obtain rfl := Option.some.inj hout
      unfold Ticker.loopHead
      split
      · exact h
      · split
        · exact h
        · exact fun _ => rfl
  | listen | pollOnce =>
      rw [hpc] at hout
      obtain rfl := Option.some.inj hout
      exact hpoll _ _ _
  | mainPop | mainPopAgain =>
      rw [hpc] at hout
      obtain rfl := Option.some.inj hout
      exact hpop _ _
  | mainRegister =>
      rw [hpc] at hout
      obtain rfl := Option.some.inj hout
      exact fun _ => hreg hpc
  | mainTake =>
      rw [hpc] at hout
      obtain rfl := Option.some.inj hout
      exact fun hne => (hne rfl).elim
  | finish =>
      rw [hpc] at hout
      obtain rfl := Option.some.inj hout
      split
      · exact kept_dropFuture h
      · exact h
  | fresh | parked | runPopped | runAwaited | runLast =>
      rw [hpc] at hout
      cases hout

theorem kept_next {l : Label R W} (hr : s.Role) (hm : s.OnMain) (h : s.state.Kept)
    (hs : s.next l = some s') : s'.state.Kept := by
  cases l with
  | schedule id runnable =>
      obtain ⟨-, -, rfl⟩ | ⟨-, rfl⟩ := next_schedule hs
      · exact fun hne => (listening_schedule ..).trans (h hne)
      · exact h
  | wake =>
      obtain ⟨-, rfl⟩ := next_wake hs
      exact fun hne => (hne rfl).elim
  | create k oneShot =>
      obtain ⟨-, -, rfl⟩ := next_create hs
      exact h
  | poll k w =>
      obtain ⟨-, t, -, ⟨-, rfl⟩ | ⟨-, rfl⟩⟩ := next_poll hs
      · exact h
      · exact h
  | drop k =>
      obtain ⟨-, t, -, -, rfl⟩ := next_drop hs
      exact kept_dropFuture h
  | tryTick =>
      obtain ⟨-, rfl⟩ := next_tryTick hs
      unfold Sys.tryTick
      split
      · exact h
      · exact h
  | step =>
      rcases innermost_cases hs with ⟨k, cx, rest, t, out, -, hk, hout, rfl⟩ |
        ⟨rest, runnable, queue, -, -, rfl⟩ | ⟨rest, -, -, rfl⟩ | ⟨rest, -, rfl⟩
      · refine kept_step h (fun hpc => ?_) hout
        have hmain : t.isMainstream = true := hm k t hk (by rw [hpc]; rfl)
        exact hr.taken_iff.mpr ⟨k, t, hk, hmain⟩
      · exact h
      · exact h
      · exact fun hne => (hne rfl).elim
  | ret =>
      rcases ret_cases hs with ⟨k, cx, rest, t, -, -, -, rfl⟩ | ⟨rest, -, rfl⟩
      · exact h
      · exact h

/-- While a waker is registered for the mainstream queue, somebody has the
mainstream role. -/
theorem mainstream_of_registered {id : Option Nat} (h : (system id).Reachable s)
    (hne : s.state.mainstreamWaker ≠ none) : ∃ k, s.Mainstream k := by
  have hkept : s.state.Kept := by
    refine System.Reachable.invariant_of (I := fun s : Sys R W => s.state.Kept) ?_ ?_ h
    · rintro s rfl hne
      exact (hne rfl).elim
    · exact fun s l s' hr hk hs => kept_next (role_reachable hr) (onMain_reachable hr) hk hs
  exact (role_reachable h).taken_iff.mp (hkept hne)

/-- At most one ticker has the mainstream role, `is_mainstream_listening`
says whether one has it, and where that one is suspended with a Runnable in
the mainstream queue, the waker that it registered last has been woken
since, or is still registered, and a scheduler that has pushed is about to
wake it. -/
theorem wake_not_lost (id : Option Nat) {tr : List (Sys R W × Label R W)} {s : Sys R W}
    (h : (system id).Run tr s) :
    (∀ k k', s.Mainstream k → s.Mainstream k' → k = k') ∧
    (s.state.threadState.isMainstreamListening = true ↔ ∃ k, s.Mainstream k) ∧
    ∀ k, s.Mainstream k → s.Suspended k → s.state.taskQueue ≠ [] →
      ∃ w n, Sys.lastRegistered k tr = some (w, n) ∧
        (w ∈ s.woken.drop n ∨ s.state.mainstreamWaker = some w ∧ 0 < s.pendingWakes) := by
  have hr : s.Role := role_reachable ⟨tr, h⟩
  refine ⟨fun k k' hk hk' => ?_, ?_, ?_⟩
  · exact hr.unique k k' (Sys.mainstream_iff.mp hk) (Sys.mainstream_iff.mp hk')
  · exact hr.taken_iff
  · rintro k ⟨t, hk, hmain⟩ ⟨t', hk', hpc⟩ hne
    cases hk.symm.trans hk'
    obtain ⟨w, n, hlast, ha⟩ := watch_run h k t hk hmain (.inr hpc)
    exact ⟨w, n, hlast, ha.armed.imp_right fun hslot => ⟨hslot.1, hslot.2 hpc hne⟩⟩

end Wake

/-- The `run()` future 1 is suspended as the mainstream runner when another
thread pushes a Runnable. -/
def pushWhileSuspended : List (Label Nat Nat) :=
  [.create 1 false, .poll 1 10, .step, .step, .step, .step, .step, .schedule (some 8) 5]

theorem exec_pushWhileSuspended :
    (exec Sys.next (.init (some 7)) pushWhileSuspended).map
      (fun s => (s.tickers 1, s.state.taskQueue)) =
        some (some ⟨false, true, .parked⟩, [5]) := by
  decide

theorem wake_not_lost_push :
    ∃ s : Sys Nat Nat, s.state.taskQueue = [5] ∧
      ∃ w n, Sys.lastRegistered 1 (execTrace Sys.next (.init (some 7)) pushWhileSuspended) =
          some (w, n) ∧
        (w ∈ s.woken.drop n ∨ s.state.mainstreamWaker = some w ∧ 0 < s.pendingWakes) := by
  obtain ⟨s, hrun, hobs⟩ := run_of_observe _ _ _ exec_pushWhileSuspended
  obtain ⟨hk, hqueue⟩ := Prod.mk.inj hobs
  refine ⟨s, hqueue, (wake_not_lost (some 7) hrun).2.2 1 ⟨_, hk, rfl⟩ ⟨_, hk, rfl⟩ ?_⟩
  rw [hqueue]
  exact List.cons_ne_nil _ _

end Executor

end Unsend

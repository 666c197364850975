import Unsend.ExecutorDropSteps

/-!
# The loops of dropping the executor

The drain loop and the destruction of the thread state, from any state of
the queues. `Safe` says which states they leave without a second borrow:
`main_step` and `local_step` are one pop each, `drain_safe`,
`drain_unsafe` and `drain_ends` the loop, `dropLocal_safe` and
`dropLocal_unsafe` the destruction.
-/

namespace Unsend

namespace Tasks

variable {W : Type}

namespace Core

variable {c c' c0 c1 : Core W} {id : Option Nat} {i j k : TaskId}

/-! ## The two queues -/

theorem mem_queued : i ∈ c.queued ↔ i ∈ c.localQueue ∨ i ∈ c.mainQueue := by
  unfold queued
  rw [Multiset.mem_add, Multiset.mem_coe, Multiset.mem_coe]

theorem Dropped.isOrigin (hd : Dropped id c i c0 c') (id' : Option Nat) :
    c'.state.isOrigin id' = c.state.isOrigin id' := by
  unfold Executor.State.isOrigin
  rw [hd.origin]

/-- A task that still has its future had the same one before the drop, and
is another task. -/
theorem Dropped.before {t' : Task} (hd : Dropped id c i c0 c') (ht' : c'.tasks k = some t')
    (hg : t'.future ≠ .gone) :
    k ≠ i ∧ ∃ t, c.tasks k = some t ∧ t'.future = t.future := by
  have hne : k ≠ i := by
    rintro rfl
    obtain ⟨t, ht, hgone⟩ := hd.gone
    cases ht.symm.trans ht'
    exact hg hgone
  refine ⟨hne, ?_⟩
  cases ht : c.tasks k with
  | none =>
      rw [hd.absent k ht] at ht'
      cases ht'
  | some t =>
      obtain ⟨u, hu, hf⟩ := hd.tasks k hne t ht
      cases hu.symm.trans ht'
      exact ⟨t, rfl, hf⟩

/-- A drop that rouses nobody, or does so off the origin thread, leaves the
polled tasks of the local queue. -/
theorem Dropped.started_iff (hd : Dropped id c i c0 c') (hL : c'.localQueue = c0.localQueue)
    (hnot : i ∉ c0.localQueue) (hmem : ∀ k ∈ c.localQueue, k = i ∨ k ∈ c0.localQueue)
    (hsub : c0.localQueue ⊆ c.localQueue)
    (hi : i ∈ c.localQueue → ∀ t, c.tasks i = some t → t.future ≠ .started) :
    c'.StartedInLocal ↔ c.StartedInLocal := by
  constructor
  · rintro ⟨k, hk, t', ht', hf⟩
    obtain ⟨-, t, ht, hft⟩ := hd.before ht' (by rw [hf]; simp)
    exact ⟨k, hsub (hL ▸ hk), t, ht, hft.symm.trans hf⟩
  · rintro ⟨k, hk, t, ht, hf⟩
    rcases hmem k hk with rfl | hk'
    · exact (hi hk t ht hf).elim
    · obtain ⟨t', ht', hf'⟩ := hd.tasks k (fun he => hnot (he ▸ hk')) t ht
      exact ⟨k, by rw [hL]; exact hk', t', ht', hf'.trans hf⟩

/-- On the origin thread, a task that is roused has been polled, and is now
in the local queue. -/
theorem Dropped.started (hd : Dropped id c i c0 c') (hp : Popped c i c0) (h : c.Tidy)
    (ho : c.state.isOrigin id = true) (hr : c.Rouses [i]) : c'.StartedInLocal := by
  obtain ⟨j, hj⟩ := rouses_singleton.mp hr
  obtain ⟨t, ht, hidle⟩ := idle_of_roused hj
  have hne : j ≠ i := by
    rintro rfl
    refine h.not_idle_of_queued ?_ ⟨t, ht, hidle⟩
    rw [hp.queued]
    exact Multiset.mem_cons_self ..
  obtain ⟨t', ht', hf⟩ := hd.tasks j hne t ht
  refine ⟨j, ?_, t', ht', hf.trans (h.idle_started ht hidle).1⟩
  rw [hd.pushed.localQueue, hp.isOrigin, ho]
  exact List.mem_append_right _ (mem_rousedBy.mpr hj)

/-- Nothing is pushed to the local queue, unless a task is roused on the
origin thread. -/
theorem Dropped.localQueue (hd : Dropped id c i c0 c') (hp : Popped c i c0)
    (hr : c.state.isOrigin id = true → ¬ c.Rouses [i]) : c'.localQueue = c0.localQueue := by
  rw [hd.pushed.localQueue, hp.isOrigin]
  cases ho : c.state.isOrigin id with
  | false => exact List.append_nil _
  | true =>
      rw [rousedBy_nil fun j => eq_false_of_ne_true fun hj =>
        hr ho (rouses_singleton.mpr ⟨j, hj⟩)]
      exact List.append_nil _

theorem Dropped.mainQueue (hd : Dropped id c i c0 c') (hp : Popped c i c0)
    (ho : c.state.isOrigin id = true) : c'.mainQueue = c0.mainQueue := by
  rw [hd.pushed.mainQueue, hp.isOrigin, ho]
  exact List.append_nil _

/-- Dropping the local queue and the first `m` Runnables of the mainstream
queue runs no guard under a borrow and rouses nobody into the local queue. -/
def Safe (id : Option Nat) (m : Nat) (c : Core W) : Prop :=
  ¬ c.StartedInLocal ∧
    (c.state.isOrigin id = true → ¬ c.Rouses (c.localQueue ++ c.mainQueue.take m))

/-- A drop that rouses nobody into the local queue leaves what the others
would do. -/
theorem Dropped.safe_iff (hd : Dropped id c i c0 c') (hp : Popped c i c0)
    (hr : c.state.isOrigin id = true → ¬ c.Rouses [i])
    (hs : c'.StartedInLocal ↔ c.StartedInLocal) {m m' : Nat}
    (hmem : ∀ k, k ∈ c.localQueue ++ c.mainQueue.take m ↔
      k ∈ i :: (c0.localQueue ++ c0.mainQueue.take m')) :
    c'.Safe id m' ↔ c.Safe id m := by
  unfold Safe
  rw [hs, hd.isOrigin]
  refine and_congr_right fun _ => forall_congr' fun ho => not_congr ?_
  rw [hd.localQueue hp hr, hd.mainQueue hp ho]
  have hcons := hd.moved.rouses_cons (c0.localQueue ++ c0.mainQueue.take m')
  rw [or_iff_right (hr ho)] at hcons
  rw [← hcons]
  exact ⟨Rouses.mono fun k hk => (hmem k).mpr hk, Rouses.mono fun k hk => (hmem k).mp hk⟩

/-- One Runnable is popped from the mainstream queue and dropped. -/
theorem main_step (id : Option Nat) (h : c.Tidy) {rest : List TaskId}
    (hM : c.mainQueue = i :: rest) :
    ∃ c1, (c.setMain rest).dropRunnable id false i = .ok c1 ∧
      Dropped id c i (c.setMain rest) c1 ∧
      (c1.Safe id c1.localQueue.length ↔ c.Safe id (c.localQueue.length + 1)) := by
  have hp := popped_main hM
  obtain ⟨t, ht, -, -, hnot⟩ := hp.owner h
  have hnot' : i ∉ c.localQueue := fun hi => hnot (mem_queued.mpr (.inl hi))
  rcases dropRunnable_cases hp h ht id false with ⟨hb, -⟩ | ⟨-, c1, h1, hd⟩
  · cases hb
  · refine ⟨c1, h1, hd, ?_⟩
    by_cases hr : c.state.isOrigin id = true ∧ c.Rouses [i]
    · refine iff_of_false (fun hs => hs.1 (hd.started hp h hr.1 hr.2)) fun hs => hs.2 hr.1 ?_
      refine hr.2.mono fun k hk => ?_
      rw [List.mem_singleton.mp hk, hM, List.take_succ_cons]
      exact List.mem_append_right _ (List.mem_cons_self ..)
    · rw [not_and] at hr
      have hL : c1.localQueue = c.localQueue := hd.localQueue hp hr
      rw [hL]
      refine hd.safe_iff hp hr ?_ fun k => ?_
      · exact hd.started_iff hL hnot' (fun k hk => .inr hk) (fun k hk => hk)
          fun hi => (hnot' hi).elim
      · rw [hM, List.take_succ_cons]
        show k ∈ c.localQueue ++ i :: rest.take _ ↔ k ∈ i :: (c.localQueue ++ rest.take _)
        simp only [List.mem_append, List.mem_cons]
        grind

/-- One Runnable is popped from the local queue and dropped, both under the
same borrow. The mainstream queue is looked at up to `m`. -/
theorem local_step (id : Option Nat) (h : c.Tidy) {rest : List TaskId}
    (hL : c.localQueue = i :: rest) (m : Nat) :
    (c.Safe id m → ∃ c1, (c.setLocal rest).dropRunnable id true i = .ok c1) ∧
    ∀ c1, (c.setLocal rest).dropRunnable id true i = .ok c1 →
      Dropped id c i (c.setLocal rest) c1 ∧ c1.localQueue = rest ∧
        (c.state.isOrigin id = true → ¬ c.Rouses [i]) ∧ (c1.Safe id m ↔ c.Safe id m) := by
  have hp := popped_local hL
  obtain ⟨t, ht, -, -, hnot⟩ := hp.owner h
  have hmem : i ∈ c.localQueue := by
    rw [hL]
    exact List.mem_cons_self ..
  rcases dropRunnable_cases hp h ht id true with ⟨-, hbad, he⟩ | ⟨hgood, c1, h1, hd⟩
  · refine ⟨fun hs => ?_, fun c1 h1 => by cases he.symm.trans h1⟩
    rcases hbad with hf | ⟨ho, hr⟩
    · exact (hs.1 ⟨i, hmem, t, ht, hf⟩).elim
    · refine (hs.2 ho (hr.mono fun k hk => ?_)).elim
      rw [List.mem_singleton.mp hk]
      exact List.mem_append_left _ hmem
  · obtain ⟨hf, hr⟩ := hgood rfl
    refine ⟨fun _ => ⟨c1, h1⟩, fun c2 h2 => ?_⟩
    obtain rfl := Except.ok.inj (h1.symm.trans h2)
    have hL1 : c1.localQueue = rest := hd.localQueue hp hr
    refine ⟨hd, hL1, hr, hd.safe_iff hp hr ?_ fun k => ?_⟩
    · refine hd.started_iff hL1 (fun hi => hnot (mem_queued.mpr (.inl hi))) ?_ ?_ ?_
      · rw [hL]
        exact fun k hk => List.mem_cons.mp hk
      · rw [hL]
        exact List.subset_cons_self ..
      · intro _ t' ht'
        cases ht.symm.trans ht'
        exact hf
    · rw [hL]
      exact Iff.rfl

/-! ## The drain loop -/

/-- One round of the drain loop. -/
theorem drainQueues_succ (n : Nat) (c : Core W) : c.drainQueues id (n + 1) =
    match c.mainQueue with
    | [] => .ok (some c)
    | i :: rest => (c.setMain rest).dropRunnable id false i >>= fun c =>
        match c.localQueue with
        | [] => .ok (some c)
        | j :: rest => (c.setLocal rest).dropRunnable id true j >>= fun c =>
            c.drainQueues id n := rfl

/-- A rule for the drain loop: `P` holds between rounds, `Q` between the two
pops of a round and `R` at the end. -/
theorem drain_ok {P Q R : Core W → Prop}
    (hempty : ∀ c, P c → c.mainQueue = [] → R c)
    (hmain : ∀ c c1 i rest, c.Tidy → P c → c.mainQueue = i :: rest →
      (c.setMain rest).dropRunnable id false i = .ok c1 → Q c1)
    (hnone : ∀ c, Q c → c.localQueue = [] → R c)
    (hlocal : ∀ c c1 i rest, c.Tidy → Q c → c.localQueue = i :: rest →
      (c.setLocal rest).dropRunnable id true i = .ok c1 → P c1) :
    ∀ (n : Nat) {c c' : Core W}, c.Tidy → P c → c.drainQueues id n = .ok (some c') →
      c'.Tidy ∧ R c' := by
  intro n
  induction n with
  | zero =>
      intro c c' _ _ hr
      cases hr
  | succ n ih =>
      intro c c' h hP hr
      rw [drainQueues_succ] at hr
      cases hM : c.mainQueue with
      | nil =>
          rw [hM] at hr
          obtain rfl := Option.some.inj (Except.ok.inj hr)
          exact ⟨h, hempty c hP hM⟩
      | cons i rest =>
          rw [hM] at hr
          change ((c.setMain rest).dropRunnable id false i >>= _) = _ at hr
          obtain ⟨c1, h1, hr⟩ := of_bind_ok hr
          have ht1 := (dropRunnable_ok (popped_main hM) h h1).tidy
          have hQ := hmain c c1 i rest h hP hM h1
          cases hL : c1.localQueue with
          | nil =>
              rw [hL] at hr
              obtain rfl := Option.some.inj (Except.ok.inj hr)
              exact ⟨ht1, hnone c1 hQ hL⟩
          | cons j rest' =>
              rw [hL] at hr
              change ((c1.setLocal rest').dropRunnable id true j >>= _) = _ at hr
              obtain ⟨c2, h2, hr⟩ := of_bind_ok hr
              have ht2 := (dropRunnable_ok (popped_local hL) ht1 h2).tidy
              exact ih ht2 (hlocal c1 c2 j rest' ht1 hQ hL h2) hr

theorem Safe.zero {m : Nat} (hs : c.Safe id m) : c.Safe id 0 := by
  refine ⟨hs.1, fun ho hr => hs.2 ho (hr.mono ?_)⟩
  rw [List.take_zero, List.append_nil]
  exact List.subset_append_left ..

/-- The drain loop of a safe state goes through, and leaves a safe state. -/
theorem drain_safe : ∀ (n : Nat) {c : Core W}, c.Tidy → c.Safe id (c.localQueue.length + 1) →
    c.drainQueues id n = .ok none ∨
      ∃ c', c.drainQueues id n = .ok (some c') ∧ c'.Tidy ∧ c'.Safe id 0 := by
  intro n
  induction n with
  | zero => exact fun _ _ => .inl rfl
  | succ n ih =>
      intro c h hs
      rw [drainQueues_succ]
      cases hM : c.mainQueue with
      | nil => exact .inr ⟨c, rfl, h, hs.zero⟩
      | cons i rest =>
          obtain ⟨c1, h1, hd1, hiff1⟩ := main_step id h hM
          have hs1 := hiff1.mpr hs
          show ((c.setMain rest).dropRunnable id false i >>= _) = _ ∨
            ∃ c', ((c.setMain rest).dropRunnable id false i >>= _) = _ ∧ _
          rw [h1, ok_bind]
          cases hL : c1.localQueue with
          | nil => exact .inr ⟨c1, rfl, hd1.tidy, hs1.zero⟩
          | cons j rest' =>
              obtain ⟨hgoes, hleft⟩ := local_step id hd1.tidy hL c1.localQueue.length
              obtain ⟨c2, h2⟩ := hgoes hs1
              obtain ⟨hd2, hL2, -, hiff2⟩ := hleft c2 h2
              have hs2 := hiff2.mpr hs1
              rw [hL, List.length_cons, ← hL2] at hs2
              show ((c1.setLocal rest').dropRunnable id true j >>= _) = _ ∨
                ∃ c', ((c1.setLocal rest').dropRunnable id true j >>= _) = _ ∧ _
              rw [h2, ok_bind]
              exact ih hd2.tidy hs2

/-- The drain loop of an unsafe state leaves an unsafe state, if it goes
through. -/
theorem drain_unsafe (h : c.Tidy) (hs : ¬ c.Safe id (c.localQueue.length + 1)) (n : Nat)
    (hr : c.drainQueues id n = .ok (some c')) : c'.Tidy ∧ ¬ c'.Safe id 0 := by
  refine drain_ok (P := fun c => ¬ c.Safe id (c.localQueue.length + 1))
    (Q := fun c => ¬ c.Safe id c.localQueue.length) (R := fun c => ¬ c.Safe id 0)
    ?_ ?_ ?_ ?_ n h hs hr
  · intro c hs hM hzero
    refine hs ⟨hzero.1, fun ho hr => hzero.2 ho ?_⟩
    rw [hM, List.take_nil] at hr
    exact hr
  · intro c c1 i rest h hs hM h1
    obtain ⟨c2, h2, -, hiff⟩ := main_step id h hM
    obtain rfl := Except.ok.inj (h1.symm.trans h2)
    exact fun hs1 => hs (hiff.mp hs1)
  · intro c hs hL hzero
    rw [hL] at hs
    exact hs hzero
  · intro c c1 i rest h hs hL h1
    obtain ⟨-, hL1, -, hiff⟩ := (local_step id h hL c.localQueue.length).2 c1 h1
    have hs1 : ¬ c1.Safe id c.localQueue.length := fun hs1 => hs (hiff.mp hs1)
    rwa [hL, List.length_cons, ← hL1] at hs1

/-- The tasks that still have a future are among `ids`. -/
def Covers (c : Core W) (ids : List TaskId) : Prop :=
  ∀ i t, c.tasks i = some t → t.future ≠ .gone → i ∈ ids

theorem Dropped.covers (hd : Dropped id c i c0 c') {ids : List TaskId} (hc : c.Covers ids) :
    c'.Covers (ids.erase i) := by
  intro k t' ht' hg
  obtain ⟨hne, t, ht, hf⟩ := hd.before ht' hg
  exact (List.mem_erase_of_ne hne).mpr (hc k t ht fun hg' => hg (hf.trans hg'))

/-- Every round drops a future, so the loop ends. -/
theorem drain_ends : ∀ (n : Nat) {c : Core W} {ids : List TaskId}, c.Tidy → c.Covers ids →
    ids.length < n → c.drainQueues id n ≠ .ok none := by
  intro n
  induction n with
  | zero =>
      intro _ _ _ _ hn
      cases hn
  | succ n ih =>
      intro c ids h hc hn hr
      rw [drainQueues_succ] at hr
      cases hM : c.mainQueue with
      | nil =>
          rw [hM] at hr
          cases hr
      | cons i rest =>
          rw [hM] at hr
          change ((c.setMain rest).dropRunnable id false i >>= _) = _ at hr
          have hp := popped_main hM
          obtain ⟨t, ht, hg, -, -⟩ := hp.owner h
          have hlen := List.length_erase_of_mem (hc i t ht hg)
          have hpos := List.length_pos_of_mem (hc i t ht hg)
          obtain ⟨c1, h1, hr⟩ := of_bind_ok hr
          have hd1 := dropRunnable_ok hp h h1
          cases hL : c1.localQueue with
          | nil =>
              rw [hL] at hr
              cases hr
          | cons j rest' =>
              rw [hL] at hr
              change ((c1.setLocal rest').dropRunnable id true j >>= _) = _ at hr
              obtain ⟨c2, h2, hr⟩ := of_bind_ok hr
              have hd2 := dropRunnable_ok (popped_local hL) hd1.tidy h2
              refine ih hd2.tidy (hd2.covers (hd1.covers hc)) ?_ hr
              have := List.length_erase_le (a := j) (l := ids.erase i)
              omega

/-! ## The destroyed thread state -/

theorem dropLocal_cons (c : Core W) (i : TaskId) (is : List TaskId) :
    c.dropLocal id (i :: is) =
      ((c.setLocal is).dropRunnable id true i >>= fun c => c.dropLocal id is) := rfl

/-- Dropping the local queue of a safe state goes through: all its tasks
lose their futures. -/
theorem dropLocal_safe : ∀ {is : List TaskId} {c : Core W}, c.Tidy → c.localQueue = is →
    c.Safe id 0 → ∃ c', c.dropLocal id is = .ok c' := by
  intro is
  induction is with
  | nil => exact fun {c} _ _ _ => ⟨c, rfl⟩
  | cons i is ih =>
      intro c h hL hs
      obtain ⟨hgoes, hleft⟩ := local_step id h hL 0
      obtain ⟨c1, h1⟩ := hgoes hs
      obtain ⟨hd, hL1, -, hiff⟩ := hleft c1 h1
      rw [dropLocal_cons, h1, ok_bind]
      exact ih hd.tidy hL1 (hiff.mpr hs)

theorem dropLocal_unsafe : ∀ {is : List TaskId} {c : Core W}, c.Tidy → c.localQueue = is →
    ¬ c.Safe id 0 → ∀ c', c.dropLocal id is ≠ .ok c' := by
  intro is
  induction is with
  | nil =>
      intro c _ hL hs c' _
      refine hs ⟨?_, fun _ hr => ?_⟩
      · rintro ⟨k, hk, -⟩
        rw [hL] at hk
        cases hk
      · rw [hL] at hr
        exact not_rouses_nil hr
  | cons i is ih =>
      intro c h hL hs c' hr
      rw [dropLocal_cons] at hr
      obtain ⟨c1, h1, hr⟩ := of_bind_ok hr
      obtain ⟨hd, hL1, -, hiff⟩ := (local_step id h hL 0).2 c1 h1
      exact ih hd.tidy hL1 (fun hs1 => hs (hiff.mp hs1)) c' hr

/-- What dropping the local queue keeps. -/
theorem dropLocal_ok : ∀ {is : List TaskId} {c c' : Core W}, c.Tidy → c.localQueue = is →
    c.dropLocal id is = .ok c' → c'.Tidy ∧ (c.active = [] → c'.active = []) ∧
      c'.woken = c.woken ∧ ∀ ids : List TaskId, c.Covers ids → c'.Covers (ids.diff is) := by
  intro is
  induction is with
  | nil =>
      intro c c' h _ hr
      obtain rfl := Except.ok.inj hr
      exact ⟨h, fun ha => ha, rfl, fun _ hc => hc⟩
  | cons i is ih =>
      intro c c' h hL hr
      rw [dropLocal_cons] at hr
      obtain ⟨c1, h1, hr⟩ := of_bind_ok hr
      obtain ⟨hd, hL1, -⟩ := (local_step id h hL 0).2 c1 h1
      obtain ⟨ht, ha, hw, hc⟩ := ih hd.tidy hL1 hr
      refine ⟨ht, fun h0 => ha (hd.active h0), hw.trans hd.woken, fun ids hcov => ?_⟩
      rw [List.diff_cons]
      exact hc _ (hd.covers hcov)

end Core

end Tasks

end Unsend

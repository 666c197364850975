import Mathlib.Data.Set.Card
import Unsend.Barrier

/-!
# The arrivals a barrier counts

`count` is the number of tasks that have reached the barrier, and nothing
in `wait()` takes an arrival back: the drop of the future removes its
listener only.

`count_arrivals`: in every run `count` is the number of futures that wait
in the current generation and of those dropped while they did, and a poll
leads exactly if with it `n` arrivals have been made, dropped or not.
-/

namespace Unsend

namespace Barrier

variable {W : Type}

namespace Sys

/-- The numbers of the arrivals that led. -/
def leaders (s : Sys W) : List Nat := (s.returns.filter (·.isLeader)).map (·.number)

/-- An arrival of the current generation has come after every leader. -/
def IsCurrent (s : Sys W) (number : Nat) : Prop := ∀ k ∈ s.leaders, k < number

instance (s : Sys W) (number : Nat) : Decidable (s.IsCurrent number) :=
  inferInstanceAs (Decidable (∀ k ∈ s.leaders, k < number))

/-- The future `f` waits, in the current generation. -/
def WaitsNow (s : Sys W) (f : Ptr) : Prop := ∃ a, s.Pending f a ∧ s.IsCurrent a.number

/-- The label is the first poll of a future. -/
def Arrives (s : Sys W) : Label W → Prop
  | .poll f _ => ∃ k, s.futs f = some (k, .unresumed)
  | _ => False

end Sys

/-- The arrival of the future at `f`, while it waits. -/
def Sys.arrivalOf (s : Sys W) (f : Ptr) : Option Nat :=
  match s.futs f with
  | some (some a, .suspended) => some a.number
  | _ => none

/-- The arrival of the future that this step drops while it waits. -/
def droppedBy : Sys W × Label W → Option Nat
  | (s, .cancel f) => s.arrivalOf f
  | _ => none

/-- The arrivals dropped while they waited. -/
def dropped (tr : List (Sys W × Label W)) : List Nat := tr.filterMap droppedBy

/-- How many of them are of the current generation. -/
def Sys.numDropped (s : Sys W) (tr : List (Sys W × Label W)) : Nat :=
  (dropped tr).countP fun k => decide (s.IsCurrent k)

/-- After the steps `tr`. -/
structure Sys.Counted (s : Sys W) (n : Nat) (tr : List (Sys W × Label W)) : Prop where
  seated : Seated s.futs (fun _ => True) s.queue
  size : s.barrier.n = n
  count : s.barrier.count = {f | s.WaitsNow f}.ncard + s.numDropped tr
  /-- The counter is short of `n`, or `n` is zero. -/
  short : s.barrier.count + 1 ≤ max n 1
  leaders : ∀ k ∈ s.leaders, k ≤ s.arrived
  past : ∀ k ∈ dropped tr, k ≤ s.arrived
  generation : s.barrier.generation = UInt64.ofNat s.leaders.length
  known :
    ∀ f x, s.futs f = some (x, .suspended) → ∃ a, x = some a ∧ a.number ≤ s.arrived ∧
    s.barrier.count < n ∧ a.localGen = UInt64.ofNat (s.leaders.countP (· < a.number))

section Counted

variable {n : Nat} {tr : List (Sys W × Label W)} {s s' : Sys W}
  {l : Label W} {f : Ptr} {a : Arrived} {w : W}

theorem dropped_append (x : Sys W × Label W) :
    dropped (tr ++ [x]) = dropped tr ++ (droppedBy x).toList := by
  rw [dropped, dropped, List.filterMap_append]
  cases h : droppedBy x with
  | none => simp [h]
  | some k => simp [h]

theorem droppedBy_poll : droppedBy (s, .poll f w) = none := rfl

theorem droppedBy_call : droppedBy (s, .call f) = none := rfl

/-- Only futures in the list wait. -/
theorem Sys.Counted.finite (h : s.Counted n tr) : {f | s.WaitsNow f}.Finite := by
  refine (List.finite_toSet s.queue.ids).subset ?_
  rintro f ⟨a, ha, -⟩
  exact h.seated.present trivial ha

/-- A future of the current generation finds its own generation. -/
theorem Sys.Counted.localGen (h : s.Counted n tr) (ha : s.Pending f a)
    (hc : s.IsCurrent a.number) :
    a.localGen = s.barrier.generation ∧ s.barrier.count < s.barrier.n := by
  obtain ⟨a', ha', -, hlt, hgen⟩ := h.known f _ ha
  cases ha'
  have hall : s.leaders.countP (· < a.number) = s.leaders.length :=
    List.countP_eq_length.mpr fun k hk => decide_eq_true (hc k hk)
  refine ⟨?_, h.size ▸ hlt⟩
  rw [hgen, hall, h.generation]

/-! ## What one step does -/

theorem Sys.isCurrent_congr (h : s'.leaders = s.leaders) (k : Nat) :
    s'.IsCurrent k ↔ s.IsCurrent k := by
  unfold Sys.IsCurrent
  rw [h]

theorem Sys.numDropped_congr (h : s'.leaders = s.leaders) (x : Sys W × Label W)
    (hx : droppedBy x = none) : s'.numDropped (tr ++ [x]) = s.numDropped tr := by
  unfold Sys.numDropped
  rw [dropped_append, hx, Option.toList_none, List.append_nil]
  simp only [Sys.isCurrent_congr h]

/-- The counters stay, and no future waits that did not. -/
theorem Sys.Counted.keep (h : s.Counted n tr) (hseat : Seated s'.futs (fun _ => True) s'.queue)
    (hsize : s'.barrier.n = s.barrier.n) (hcells : s'.barrier.cells = s.barrier.cells)
    (hlead : s'.leaders = s.leaders) (harr : s'.arrived = s.arrived) {tr' : List (Sys W × Label W)}
    (hnum : s.barrier.count = {f | s'.WaitsNow f}.ncard + s'.numDropped tr')
    (hdrop : ∀ k ∈ dropped tr', k ≤ s.arrived)
    (hfuts : ∀ f x, s'.futs f = some (x, .suspended) → s.futs f = some (x, .suspended)) :
    s'.Counted n tr' := by
  have hcount : s'.barrier.count = s.barrier.count := congrArg Cells.count hcells
  refine ⟨hseat, hsize.trans h.size, hcount.trans hnum, ?_, ?_, ?_, ?_, ?_⟩
  · rw [hcount]
    exact h.short
  · rw [hlead, harr]
    exact h.leaders
  · rw [harr]
    exact hdrop
  · rw [hlead]
    exact (congrArg Cells.generation hcells).trans h.generation
  · intro f x hf
    rw [harr, hlead, hcount]
    exact h.known f x (hfuts f x hf)

/-- A future comes, goes or returns that did not wait in the current
generation. -/
theorem Sys.Counted.move (h : s.Counted n tr) {x : Option (Option Arrived × Stage)}
    (hfuts : s'.futs = Function.update s.futs f x) (hx : ∀ k, x ≠ some (k, .suspended))
    (hold : ¬ s.WaitsNow f) (hseat : Seated s'.futs (fun _ => True) s'.queue)
    (hsize : s'.barrier.n = s.barrier.n) (hcells : s'.barrier.cells = s.barrier.cells)
    (hlead : s'.leaders = s.leaders) (harr : s'.arrived = s.arrived) {tr' : List (Sys W × Label W)}
    (hnum : s'.numDropped tr' = s.numDropped tr)
    (hdrop : ∀ k ∈ dropped tr', k ≤ s.arrived) : s'.Counted n tr' := by
  have hset : {f | s'.WaitsNow f} = {f | s.WaitsNow f} := by
    ext f'
    simp only [Set.mem_ofPred_eq, Sys.WaitsNow, Sys.isCurrent_congr hlead, Sys.Pending, hfuts]
    by_cases he : f' = f
    · rw [he, Function.update_self]
      exact ⟨fun ⟨a, ha, _⟩ => (hx _ ha).elim, fun hw => (hold hw).elim⟩
    · rw [Function.update_of_ne he]
  refine h.keep hseat hsize hcells hlead harr ?_ hdrop fun f' k hf' => ?_
  · rw [hset, hnum]
    exact h.count
  · rw [hfuts] at hf'
    exact (update_eq_suspended hx hf').2

/-- A future is dropped while it waits. -/
theorem Sys.Counted.cancel (h : s.Counted n tr) (hf : s.Pending f a)
    (hfuts : s'.futs = Function.update s.futs f none) (hqueue : s'.queue = (s.queue.drop f).event)
    (hsize : s'.barrier.n = s.barrier.n) (hcells : s'.barrier.cells = s.barrier.cells)
    (hlead : s'.leaders = s.leaders) (harr : s'.arrived = s.arrived) :
    s'.Counted n (tr ++ [(s, .cancel f)]) := by
  have hby : droppedBy (s, .cancel f) = some a.number := by
    show s.arrivalOf f = some a.number
    unfold Sys.arrivalOf
    rw [show s.futs f = some (some a, .suspended) from hf]
  have hseat : Seated s'.futs (fun _ => True) s'.queue := by
    rw [hfuts, hqueue]
    exact h.seated.drop f
  obtain ⟨a', ha', hle, -⟩ := h.known f _ hf
  cases ha'
  have hdrop : ∀ k ∈ dropped (tr ++ [(s, .cancel f)]), k ≤ s.arrived := by
    rw [dropped_append, hby]
    exact List.forall_mem_append.mpr ⟨h.past, List.forall_mem_singleton.mpr hle⟩
  have hnum : s'.numDropped (tr ++ [(s, .cancel f)]) =
      s.numDropped tr + if s.IsCurrent a.number then 1 else 0 := by
    unfold Sys.numDropped
    rw [dropped_append, hby, List.countP_append]
    simp [Sys.isCurrent_congr hlead]
  by_cases hc : s.IsCurrent a.number
  · -- the counter keeps an arrival whose future is gone
    have hmem : f ∈ {f | s.WaitsNow f} := ⟨a, hf, hc⟩
    have hset : {f | s'.WaitsNow f} = {f | s.WaitsNow f} \ {f} := by
      ext f'
      simp only [Set.mem_sdiff, Set.mem_singleton_iff, Set.mem_ofPred_eq, Sys.WaitsNow,
        Sys.isCurrent_congr hlead, Sys.Pending, hfuts]
      by_cases he : f' = f
      · rw [he, Function.update_self]
        simp
      · rw [Function.update_of_ne he, and_iff_left he]
    refine h.keep hseat hsize hcells hlead harr ?_ hdrop fun f' k hf' => ?_
    · have := Set.ncard_sdiff_singleton_add_one hmem h.finite
      rw [hset, hnum, if_pos hc, h.count]
      omega
    · rw [hfuts] at hf'
      exact (update_eq_suspended (by simp) hf').2
  · rw [if_neg hc] at hnum
    refine h.move hfuts (by simp) ?_ hseat hsize hcells hlead harr hnum hdrop
    rintro ⟨a', ha', hc'⟩
    cases hf.symm.trans ha'
    exact hc hc'

variable [WillWake W]

/-- A later poll of a future that waits. -/
theorem Sys.Counted.again (h : s.Counted n tr) (hf : s.Pending f a) :
    (s.pollAgain f a w).Counted n (tr ++ [(s, .poll f w)]) ∧
      (s.pollAgain f a w).leaders = s.leaders := by
  obtain ⟨h1, h2, h3, hseat, -, h4⟩ := pollAgain_cases (w := w) h.seated hf
  have hdropped : ∀ k ∈ dropped (tr ++ [(s, .poll f w)]), k ≤ s.arrived := by
    rw [dropped_append, droppedBy_poll, Option.toList_none, List.append_nil]
    exact h.past
  rcases h4 with ⟨hfuts, hret, -⟩ | ⟨hfuts, hret, hwhy⟩
  · -- it sleeps on
    have hlead : (s.pollAgain f a w).leaders = s.leaders := by
      unfold Sys.leaders
      rw [hret]
    have hsame : (s.pollAgain f a w).futs = s.futs := by
      rw [hfuts]
      exact Function.update_eq_self_iff.mpr hf.symm
    refine ⟨h.keep hseat h2 h3 hlead h1 ?_ hdropped fun _ _ hf' => hsame ▸ hf', hlead⟩
    rw [Sys.numDropped_congr hlead _ droppedBy_poll, h.count]
    simp only [Sys.WaitsNow, Sys.Pending, hsame, Sys.isCurrent_congr hlead]
  · -- it has found another generation than its own
    have hlead : (s.pollAgain f a w).leaders = s.leaders := by
      unfold Sys.leaders
      rw [hret, List.filter_append]
      simp
    refine ⟨h.move hfuts (by simp) ?_ hseat h2 h3 hlead h1
      (Sys.numDropped_congr hlead _ droppedBy_poll) hdropped, hlead⟩
    rintro ⟨a', ha', hc⟩
    cases hf.symm.trans ha'
    exact hwhy (h.localGen hf hc)

variable [Target]

/-- The first poll of a future that does not complete its generation. -/
theorem Sys.Counted.wait (h : s.Counted n tr) {k : Option Arrived}
    (hf : s.futs f = some (k, .unresumed)) (hlt : s.barrier.count + 1 < s.barrier.n) :
    (s.pollFirst f w).Counted n (tr ++ [(s, .poll f w)]) ∧
      (s.pollFirst f w).leaders = s.leaders := by
  have habs : f ∉ s.queue.ids := h.seated.absent fun k' _ hk' => by cases hf.symm.trans hk'
  obtain ⟨h1, h2, h3, h4, h5, h6⟩ := pollFirst_waits (w := w) hlt habs
  have hlead : (s.pollFirst f w).leaders = s.leaders := by
    unfold Sys.leaders
    rw [h3]
  have hcount : (s.pollFirst f w).barrier.count = s.barrier.count + 1 := congrArg Cells.count h6
  have hcur : s.IsCurrent (s.arrived + 1) := fun j hj => Nat.lt_succ_of_le (h.leaders j hj)
  have hnot : f ∉ {f | s.WaitsNow f} := fun ⟨a, ha, _⟩ => by cases hf.symm.trans ha
  have hset : {f' | (s.pollFirst f w).WaitsNow f'} = insert f {f | s.WaitsNow f} := by
    ext f'
    simp only [Set.mem_insert_iff, Set.mem_ofPred_eq, Sys.WaitsNow, Sys.isCurrent_congr hlead,
      Sys.Pending, h1]
    by_cases he : f' = f
    · rw [he, Function.update_self]
      exact ⟨fun _ => .inl rfl, fun _ => ⟨_, rfl, hcur⟩⟩
    · rw [Function.update_of_ne he, or_iff_right he]
  refine ⟨⟨?_, h5.trans h.size, ?_, ?_, ?_, ?_, ?_, ?_⟩, hlead⟩
  · rw [h1, h4]
    refine h.seated.update (fun r hr => ?_) ?_
    · simp [hr]
    · simp
  · rw [hcount, hset, Set.ncard_insert_of_notMem hnot h.finite,
      Sys.numDropped_congr hlead _ droppedBy_poll, h.count]
    omega
  · rw [hcount]
    rw [h.size] at hlt
    omega
  · rw [hlead, h2]
    exact fun j hj => Nat.le_succ_of_le (h.leaders j hj)
  · rw [dropped_append, droppedBy_poll, Option.toList_none, List.append_nil, h2]
    exact fun j hj => Nat.le_succ_of_le (h.past j hj)
  · rw [hlead]
    exact (congrArg Cells.generation h6).trans h.generation
  · intro f' k' hf'
    rw [h1] at hf'
    rw [hlead, hcount, h2]
    rw [h.size] at hlt
    by_cases he : f' = f
    · rw [he, Function.update_self] at hf'
      cases hf'
      refine ⟨_, rfl, Nat.le_refl _, hlt, ?_⟩
      have hall : s.leaders.countP (· < s.arrived + 1) = s.leaders.length :=
        List.countP_eq_length.mpr fun j hj => decide_eq_true (hcur j hj)
      exact h.generation.trans (congrArg UInt64.ofNat hall.symm)
    · rw [Function.update_of_ne he] at hf'
      obtain ⟨a, rfl, hle, -, hgen⟩ := h.known f' k' hf'
      exact ⟨a, rfl, Nat.le_succ_of_le hle, hlt, hgen⟩

/-- The first poll of a future that completes its generation. -/
theorem Sys.Counted.lead (h : s.Counted n tr) {k : Option Arrived}
    (hf : s.futs f = some (k, .unresumed)) (hlt : ¬ s.barrier.count + 1 < s.barrier.n) :
    (s.pollFirst f w).Counted n (tr ++ [(s, .poll f w)]) ∧
      (s.pollFirst f w).leaders = s.leaders ++ [s.arrived + 1] := by
  have hout : ∀ k', s.futs f ≠ some (k', .suspended) := fun k' hk' => by cases hf.symm.trans hk'
  obtain ⟨h1, h2, h3, h4, h5, h6⟩ := pollFirst_leads (f := f) (w := w) hlt
  have hlead : (s.pollFirst f w).leaders = s.leaders ++ [s.arrived + 1] := by
    unfold Sys.leaders
    rw [h3, List.filter_append, List.map_append]
    rfl
  have hcount : (s.pollFirst f w).barrier.count = 0 := congrArg Cells.count h6
  -- every arrival before this one is of an earlier generation
  have hpast : ∀ j, j ≤ s.arrived → ¬ (s.pollFirst f w).IsCurrent j := fun j hj hc => by
    have := hc (s.arrived + 1) (hlead ▸ List.mem_append_right _ (List.mem_singleton_self _))
    omega
  have hwaits : ∀ f' k', (s.pollFirst f w).futs f' = some (k', .suspended) →
      s.futs f' = some (k', .suspended) := fun f' k' hf' => by
    rw [h1] at hf'
    exact (update_eq_suspended (by simp) hf').2
  have hset : {f' | (s.pollFirst f w).WaitsNow f'} = ∅ := by
    refine Set.eq_empty_iff_forall_notMem.mpr ?_
    rintro f' ⟨a, ha, hc⟩
    obtain ⟨a', ha', hle, -⟩ := h.known f' _ (hwaits f' _ ha)
    cases ha'
    exact hpast _ hle hc
  have hdropped : dropped (tr ++ [(s, .poll f w)]) = dropped tr := by
    rw [dropped_append, droppedBy_poll, Option.toList_none, List.append_nil]
  refine ⟨⟨?_, h5.trans h.size, ?_, ?_, ?_, ?_, ?_, ?_⟩, hlead⟩
  · rw [h1, h4]
    exact (h.seated.congr (s.queue.ids_notify ..)).elsewhere (fun k' _ => hout k') (by simp)
  · have hnone : (s.pollFirst f w).numDropped (tr ++ [(s, .poll f w)]) = 0 := by
      unfold Sys.numDropped
      rw [hdropped]
      exact List.countP_eq_zero.mpr fun j hj => by simpa using hpast j (h.past j hj)
    rw [hcount, hset, hnone, Set.ncard_empty]
  · rw [hcount]
    omega
  · rw [hlead, h2]
    refine List.forall_mem_append.mpr ⟨fun j hj => Nat.le_succ_of_le (h.leaders j hj), ?_⟩
    exact List.forall_mem_singleton.mpr (Nat.le_refl _)
  · rw [hdropped, h2]
    exact fun j hj => Nat.le_succ_of_le (h.past j hj)
  · have hgen : (s.pollFirst f w).barrier.generation = s.barrier.generation + 1 :=
      congrArg Cells.generation h6
    rw [hgen, hlead, h.generation, List.length_append, List.length_singleton, UInt64.ofNat_add]
    rfl
  · intro f' k' hf'
    obtain ⟨a, rfl, hle, hlt', hgen⟩ := h.known f' k' (hwaits f' k' hf')
    refine ⟨a, rfl, h2 ▸ Nat.le_succ_of_le hle, hcount ▸ Nat.zero_lt_of_lt hlt', ?_⟩
    have hge : ¬ s.arrived + 1 < a.number := by omega
    rw [hgen, hlead, List.countP_append]
    simp [hge]

/-- What is counted after a step, and which steps lead. -/
theorem Sys.Counted.step (h : s.Counted n tr) (hs : s.next l = some s') :
    s'.Counted n (tr ++ [(s, l)]) ∧
      (s'.leaders ≠ s.leaders ↔ s.Arrives l ∧ ¬ s.barrier.count + 1 < n) := by
  -- a future comes or goes that does not wait
  have hmove : ∀ {l : Label W} {f x}, droppedBy (s, l) = none → ¬ s.Arrives l →
      (∀ k, s.futs f ≠ some (k, .suspended)) → (∀ k, x ≠ some (k, .suspended)) →
      let s' : Sys W := { s with futs := Function.update s.futs f x }
      s'.Counted n (tr ++ [(s, l)]) ∧
        (s'.leaders ≠ s.leaders ↔ s.Arrives l ∧ ¬ s.barrier.count + 1 < n) := by
    intro l f x hby harr hold hnew
    refine ⟨?_, iff_of_false (fun hne => hne rfl) fun ha => harr ha.1⟩
    have hseat : Seated (Function.update s.futs f x) (fun _ => True) s.queue :=
      h.seated.elsewhere (fun k _ => hold k) fun k _ => hnew k
    refine h.move (show ({ s with futs := Function.update s.futs f x } : Sys W).futs = _ from rfl)
      hnew (fun ⟨a, ha, _⟩ => hold _ ha) hseat rfl rfl rfl rfl ?_ ?_
    · exact Sys.numDropped_congr rfl _ hby
    · rw [dropped_append, hby, Option.toList_none, List.append_nil]
      exact h.past
  cases l with
  | call f =>
      rw [Sys.next] at hs
      split at hs
      · cases hs
      · rename_i hf
        split at hs
        · cases hs
          exact hmove droppedBy_call id (fun k hk => by rw [hf] at hk; cases hk) (by simp)
        · cases hs
  | poll f w =>
      rw [Sys.next] at hs
      split at hs
      · rename_i k hf
        cases hs
        by_cases hlt : s.barrier.count + 1 < s.barrier.n
        · obtain ⟨hc, hl⟩ := h.wait (w := w) hf hlt
          exact ⟨hc, iff_of_false (fun hne => hne hl) fun ha => ha.2 (h.size ▸ hlt)⟩
        · obtain ⟨hc, hl⟩ := h.lead (w := w) hf hlt
          refine ⟨hc, iff_of_true ?_ ⟨⟨k, hf⟩, h.size ▸ hlt⟩⟩
          rw [hl]
          simp
      · rename_i a hf
        cases hs
        obtain ⟨hc, hl⟩ := h.again (w := w) hf
        refine ⟨hc, iff_of_false (fun hne => hne hl) ?_⟩
        rintro ⟨⟨k, hk⟩, -⟩
        cases hf.symm.trans hk
      · cases hs
  | cancel f =>
      rw [Sys.next] at hs
      split at hs
      · cases hs
      · rename_i k hf
        obtain ⟨a, rfl, -⟩ := h.known f k hf
        cases hs
        refine ⟨h.cancel (a := a) hf rfl (Event.queue_drop ..) rfl rfl rfl rfl, ?_⟩
        exact iff_of_false (fun hne => hne rfl) fun ha => ha.1
      · rename_i x hst hf
        cases hs
        have hold : ∀ k, s.futs f ≠ some (k, .suspended) := fun k hk =>
          hst k (Option.some.inj (hf.symm.trans hk))
        refine hmove ?_ id hold (by simp)
        show s.arrivalOf f = none
        unfold Sys.arrivalOf
        split
        · rename_i a ha
          exact (hold _ ha).elim
        · rfl

theorem counted_run (h : (system n).Run tr s) : s.Counted n tr := by
  refine h.history (I := fun tr s => s.Counted n tr) ?_ fun _ _ _ _ _ hs hstep => (hs.step hstep).1
  rintro s rfl
  refine ⟨?_, rfl, ?_, Nat.le_max_right .., nofun, nofun, rfl, nofun⟩
  · show Seated _ _ (Event.new : Event Unit W).queue
    rw [Event.queue_new]
    exact seated_nil
  · have hset : {f | (Sys.init n : Sys W).WaitsNow f} = ∅ :=
      Set.eq_empty_iff_forall_notMem.mpr fun f ⟨a, ha, _⟩ => by cases ha
    rw [hset, Set.ncard_empty]
    rfl

/-- The counter is the number of futures that wait in the current
generation, with those dropped while they did; a leader returns exactly at
the poll that makes `n` arrivals of the generation. For `n` zero that is
every first poll. -/
theorem count_arrivals (h : (system n).Run tr s) :
    s.barrier.count = {f | s.WaitsNow f}.ncard + s.numDropped tr ∧
      (∀ f a, s.Pending f a → s.IsCurrent a.number → a.localGen = s.barrier.generation) ∧
      ∀ l s', s.next l = some s' → (s'.leaders ≠ s.leaders ↔
        s.Arrives l ∧ {f | s.WaitsNow f}.ncard + s.numDropped tr + 1 = max n 1) := by
  have hc := counted_run h
  refine ⟨hc.count, fun f a hf hcur => (hc.localGen hf hcur).1, fun l s' hs => ?_⟩
  rw [(hc.step hs).2, ← hc.count]
  refine and_congr_right fun _ => ?_
  have := hc.short
  omega

end Counted

/-- A future that has arrived at a barrier for two is dropped, another one
comes. -/
def dropThenCall : List (Label Nat) := [.call 1, .poll 1 10, .cancel 1, .call 2]

theorem exec_dropThenCall :
    letI := Target.bits64
    (exec Sys.next (.init 2) dropThenCall).map (fun s =>
        (s.barrier.count, s.queue.ids, (s.next (.poll 2 11)).map Sys.leaders)) =
      some (1, [], some [2]) := by
  decide

/-- Nobody waits, the counter is one, and the next to arrive leads alone. -/
theorem cancelled_wait_counts :
    letI := Target.bits64
    ∃ s : Sys Nat, (system 2).Reachable s ∧ s.barrier.count = 1 ∧
      {f | s.WaitsNow f}.ncard = 0 ∧ ∃ s', s.next (.poll 2 11) = some s' ∧
        s'.leaders = [2] := by
  let _ : Target := .bits64
  obtain ⟨s, hrun, hobs⟩ := run_of_observe _ _ _ exec_dropThenCall
  simp only [Prod.mk.injEq] at hobs
  obtain ⟨hcount, hids, hnext⟩ := hobs
  obtain ⟨s', hs', hlead⟩ := Option.map_eq_some_iff.mp hnext
  refine ⟨s, ⟨_, hrun⟩, hcount, ?_, s', hs', hlead⟩
  have hset : {f | s.WaitsNow f} = ∅ := by
    refine Set.eq_empty_iff_forall_notMem.mpr ?_
    rintro f ⟨a, ha, -⟩
    have hmem := (counted_run hrun).seated.present trivial ha
    rw [hids] at hmem
    exact List.not_mem_nil hmem
  rw [hset, Set.ncard_empty]

theorem count_arrivals_dropThenCall :
    letI := Target.bits64
    ∃ (s : Sys Nat) (tr : List (Sys Nat × Label Nat)), (system 2).Run tr s ∧
      s.barrier.count = 1 ∧ s.barrier.count = {f | s.WaitsNow f}.ncard + s.numDropped tr := by
  let _ : Target := .bits64
  obtain ⟨s, hrun, hobs⟩ := run_of_observe _ _ _ exec_dropThenCall
  exact ⟨s, _, hrun, congrArg Prod.fst hobs, (count_arrivals hrun).1⟩

end Barrier

end Unsend

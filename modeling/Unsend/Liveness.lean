import Unsend.Runs

/-!
# Behaviours and what they come to

A `Behaviour` is an infinite run, in which nothing may happen for a while
or for good. It attends to a condition (`Attends`) if whenever the
condition holds, one of certain steps is taken later on, or the condition
ceases to hold: this is what is asked of those who schedule the steps.

`Behaviour.eventually` is the rule for "something good happens": a measure
never grows, wherever the goal has not been reached there is a condition
that is attended to, and until one of its steps makes the measure smaller
the condition stays.

`System.phase` is a system from some point of its runs on, where only steps
that meet a condition are taken; `padded` makes a behaviour of an execution.
-/

namespace Unsend

namespace System

variable {S L : Type*}

/-- What follows in a run of `M` once only steps meeting `C` are taken. -/
def phase (M : System S L) (C : S → L → Prop) : System S L where
  init := M.Reachable
  step s l s' := M.step s l s' ∧ C s l

theorem reachable_of_phase {M : System S L} {C : S → L → Prop} {s : S}
    (h : (M.phase C).Reachable s) : M.Reachable s := by
  refine h.invariant (I := M.Reachable) (fun _ hs => hs) ?_
  rintro s l s' hr ⟨hs, -⟩
  exact hr.step hs

/-- An infinite run; where there is no label, nothing happens. -/
structure Behaviour (M : System S L) where
  state : Nat → S
  label : Nat → Option L
  start : M.init (state 0)
  step : ∀ n, match label n with
    | none => state (n + 1) = state n
    | some l => M.step (state n) l (state (n + 1))

namespace Behaviour

variable {M : System S L} (b : Behaviour M)

theorem next (n : Nat) : b.state (n + 1) = b.state n ∨
    ∃ l, b.label n = some l ∧ M.step (b.state n) l (b.state (n + 1)) := by
  have h := b.step n
  cases hl : b.label n with
  | none =>
      rw [hl] at h
      exact .inl h
  | some l =>
      rw [hl] at h
      exact .inr ⟨l, rfl, h⟩

theorem reachable (n : Nat) : M.Reachable (b.state n) := by
  induction n with
  | zero => exact .start b.start
  | succ n ih =>
      rcases b.next n with h | ⟨l, -, h⟩
      · rw [h]
        exact ih
      · exact ih.step h

/-- Whenever `P` holds, it ceases to hold or one of the steps `A` is
taken. -/
def Attends (P : S → Prop) (A : S → L → Prop) : Prop :=
  ∀ n, P (b.state n) →
    ∃ m, n ≤ m ∧ (¬ P (b.state m) ∨ ∃ l, b.label m = some l ∧ A (b.state m) l)

/-- A condition that never holds from some time on is attended to. -/
theorem attends_of_never {P : S → Prop} {A : S → L → Prop} {N : Nat}
    (h : ∀ n, N ≤ n → ¬ P (b.state n)) : b.Attends P A :=
  fun n _ => ⟨max n N, Nat.le_max_left .., .inl (h _ (Nat.le_max_right ..))⟩

section Eventually

variable {ι : Type*} {P : ι → S → Prop} {A : ι → S → L → Prop} {D : S → Prop}
    {μ : S → Nat}

/-- While the measure stays what it is, a condition that is not attended to
stays as well. -/
theorem holds_until {n : Nat} {i : ι}
    (hkeep : ∀ i s l s', M.Reachable s → M.step s l s' → P i s →
      μ s' < μ s ∨ (P i s' ∧ ¬ A i s l))
    (hP : P i (b.state n))
    (hμ : ∀ m, n ≤ m → ¬ μ (b.state (m + 1)) < μ (b.state m)) {m : Nat}
    (hm : n ≤ m) : P i (b.state m) ∧ ∀ l, b.label m = some l → ¬ A i (b.state m) l := by
  have hstate : ∀ m, n ≤ m → P i (b.state m) := by
    intro m hm
    induction hm with
    | refl => exact hP
    | @step m hm ih =>
        rcases b.next m with h | ⟨l, -, h⟩
        · rw [h]
          exact ih
        · exact ((hkeep i _ l _ (b.reachable m) h ih).resolve_left (hμ m hm)).1
  refine ⟨hstate m hm, fun l hl => ?_⟩
  have h := b.step m
  rw [hl] at h
  exact ((hkeep i _ l _ (b.reachable m) h (hstate m hm)).resolve_left (hμ m hm)).2

theorem eventually (hA : ∀ i, b.Attends (P i) (A i))
    (hle : ∀ s l s', M.Reachable s → M.step s l s' → μ s' ≤ μ s)
    (hhelp : ∀ s, M.Reachable s → ¬ D s → ∃ i, P i s)
    (hkeep : ∀ i s l s', M.Reachable s → M.step s l s' → P i s →
      μ s' < μ s ∨ (P i s' ∧ ¬ A i s l))
    (n : Nat) : ∃ m, n ≤ m ∧ D (b.state m) := by
  have hmono : ∀ {n m : Nat}, n ≤ m → μ (b.state m) ≤ μ (b.state n) := by
    intro n m hm
    induction hm with
    | refl => exact Nat.le_refl _
    | @step m _ ih =>
        rcases b.next m with h | ⟨l, -, h⟩
        · rw [h]
          exact ih
        · exact Nat.le_trans (hle _ l _ (b.reachable m) h) ih
  -- the induction is on what is left to do
  induction hk : μ (b.state n) using Nat.strongRecOn generalizing n with
  | _ k ih =>
      by_cases hdone : D (b.state n)
      · exact ⟨n, Nat.le_refl n, hdone⟩
      by_cases hdrop : ∃ m, n ≤ m ∧ μ (b.state (m + 1)) < μ (b.state m)
      · obtain ⟨m, hm, hlt⟩ := hdrop
        have hless : μ (b.state (m + 1)) < k := hk ▸ Nat.lt_of_lt_of_le hlt (hmono hm)
        obtain ⟨m', hm', hdone⟩ := ih _ hless (m + 1) rfl
        exact ⟨m', by omega, hdone⟩
      · obtain ⟨i, hP⟩ := hhelp _ (b.reachable n) hdone
        obtain ⟨m, hm, hend⟩ := hA i n hP
        obtain ⟨hstays, hnot⟩ :=
          b.holds_until hkeep hP (fun m hm hlt => hdrop ⟨m, hm, hlt⟩) hm
        rcases hend with hend | ⟨l, hl, ha⟩
        · exact (hend hstays).elim
        · exact (hnot l hl ha).elim

end Eventually

end Behaviour

end System

/-! ## Executions as behaviours -/

section Padded

variable {S L : Type*} {next : S → L → Option S} {s s' : S} {ls : List L}

/-- The states of an execution, the last one for ever. -/
def padded (next : S → L → Option S) : S → List L → Nat → S
  | s, [], _ => s
  | s, _ :: _, 0 => s
  | s, l :: ls, n + 1 => ((next s l).map fun s' => padded next s' ls n).getD s

theorem padded_step : ∀ {ls : List L} {s : S} (n : Nat), exec next s ls = some s' →
    match ls[n]? with
    | none => padded next s ls (n + 1) = padded next s ls n
    | some l => next (padded next s ls n) l = some (padded next s ls (n + 1)) := by
  intro ls
  induction ls with
  | nil => exact fun n _ => rfl
  | cons l ls ih =>
      intro s n h
      obtain ⟨s1, hs, h⟩ := Option.bind_eq_some_iff.mp h
      cases n with
      | zero =>
          show next s l = some (((next s l).map _).getD s)
          rw [hs]
          cases ls with
          | nil => rfl
          | cons l' ls => rfl
      | succ n =>
          have hshift : ∀ n, padded next s (l :: ls) (n + 1) = padded next s1 ls n := by
            intro n
            show ((next s l).map _).getD s = _
            rw [hs]
            rfl
          rw [hshift, hshift, List.getElem?_cons_succ]
          exact ih n h

theorem padded_last : ∀ {ls : List L} {s : S} {n : Nat}, exec next s ls = some s' →
    ls.length ≤ n → padded next s ls n = s' := by
  intro ls
  induction ls with
  | nil =>
      intro s n h _
      exact Option.some.inj h
  | cons l ls ih =>
      intro s n h hn
      obtain ⟨s1, hs, h⟩ := Option.bind_eq_some_iff.mp h
      cases n with
      | zero => cases hn
      | succ n =>
          show ((next s l).map _).getD s = _
          rw [hs]
          exact ih h (Nat.le_of_succ_le_succ hn)

theorem padded_mem : ∀ {ls : List L} {s : S} {n : Nat} {l : L}, exec next s ls = some s' →
    ls[n]? = some l → (padded next s ls n, l) ∈ execTrace next s ls := by
  intro ls
  induction ls with
  | nil => exact fun _ h => by cases h
  | cons l' ls ih =>
      intro s n l h hl
      obtain ⟨s1, hs, h⟩ := Option.bind_eq_some_iff.mp h
      cases n with
      | zero =>
          cases hl
          exact List.mem_cons_self ..
      | succ n =>
          refine List.mem_cons_of_mem _ ?_
          show (((next s l').map _).getD s, l) ∈ ((next s l').map _).getD []
          rw [hs]
          exact ih h hl

/-- An execution of steps of `M`, and nothing after it. -/
def System.Behaviour.ofExec {M : System S L} (h0 : M.init s) (h : exec next s ls = some s')
    (hM : ∀ x ∈ execTrace next s ls, ∀ s', next x.1 x.2 = some s' → M.step x.1 x.2 s') :
    M.Behaviour where
  state := padded next s ls
  label n := ls[n]?
  start := by
    cases ls with
    | nil => exact h0
    | cons l ls => exact h0
  step n := by
    have hstep := padded_step n h
    cases hl : ls[n]? with
    | none =>
        rw [hl] at hstep
        exact hstep
    | some l =>
        rw [hl] at hstep
        exact hM _ (padded_mem h hl) _ hstep

end Padded

end Unsend

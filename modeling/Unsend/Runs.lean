import Mathlib.Logic.Relation

/-!
# Labelled systems and their runs

The generic half of every "for every interleaving" statement of this
development. A `System` is a set of initial states and a labelled step
relation; a `Run` records the steps taken so far, each with the state it
was taken in, so that a statement can speak about every state a run
visits and about every step it takes.

Three rules are used throughout:

- `Run.invariant`: a predicate that holds initially and survives every
  step holds in every state a run visits;
- `Reachable.of_restrict`: the same under a condition on the steps -
  `restrict M C` is the system that takes only the steps meeting `C`;
- `Run.always_iff`: when, from a good state, a step leads to a good
  state *exactly* if it meets `C`, a run visits only good states exactly
  if all its steps meet `C`.

`exec` runs a partial transition function over a list of labels, and
`run_of_exec` turns such an execution into a run: concrete traces are
checked by evaluation.
-/

namespace Unsend

/-- Initial states and a labelled step relation. -/
structure System (S : Type*) (L : Type*) where
  init : S → Prop
  step : S → L → S → Prop

namespace System

variable {S L : Type*}

/-- `Run M tr s`: from an initial state, the steps `tr` (each with the
state it was taken in) lead to `s`. -/
inductive Run (M : System S L) : List (S × L) → S → Prop
  | start {s : S} : M.init s → Run M [] s
  | step {tr : List (S × L)} {s s' : S} {l : L} :
      Run M tr s → M.step s l s' → Run M (tr ++ [(s, l)]) s'

def Reachable (M : System S L) (s : S) : Prop := ∃ tr, M.Run tr s

/-- The system that takes only the steps meeting `C`. -/
def restrict (M : System S L) (C : S → L → Prop) : System S L where
  init := M.init
  step s l s' := M.step s l s' ∧ C s l

variable {M : System S L}

theorem Reachable.start {s : S} (h : M.init s) : M.Reachable s := ⟨[], .start h⟩

theorem Reachable.step {s s' : S} {l : L} (h : M.Reachable s)
    (hs : M.step s l s') : M.Reachable s' := by
  obtain ⟨tr, hr⟩ := h
  exact ⟨_, hr.step hs⟩

/-! ## Invariants -/

theorem Run.invariant {I : S → Prop} (hinit : ∀ s, M.init s → I s)
    (hstep : ∀ s l s', I s → M.step s l s' → I s') {tr : List (S × L)} {s : S}
    (h : M.Run tr s) : (∀ x ∈ tr, I x.1) ∧ I s := by
  induction h with
  | start h0 => exact ⟨fun x hx => (List.not_mem_nil hx).elim, hinit _ h0⟩
  | step _ hs ih =>
      refine ⟨fun x hx => ?_, hstep _ _ _ ih.2 hs⟩
      rcases List.mem_append.mp hx with hx | hx
      · exact ih.1 x hx
      · rw [List.mem_singleton.mp hx]; exact ih.2

theorem Reachable.invariant {I : S → Prop} (hinit : ∀ s, M.init s → I s)
    (hstep : ∀ s l s', I s → M.step s l s' → I s') {s : S}
    (h : M.Reachable s) : I s := by
  obtain ⟨tr, hr⟩ := h
  exact (hr.invariant hinit hstep).2

/-- An invariant may use what is already known of every reachable state. -/
theorem Reachable.invariant_of {I : S → Prop} (hinit : ∀ s, M.init s → I s)
    (hstep : ∀ s l s', M.Reachable s → I s → M.step s l s' → I s') {s : S}
    (h : M.Reachable s) : I s := by
  refine (h.invariant (I := fun s => M.Reachable s ∧ I s)
    (fun s hs => ⟨.start hs, hinit s hs⟩) ?_).2
  rintro s l s' ⟨hr, hI⟩ hs
  exact ⟨hr.step hs, hstep s l s' hr hI hs⟩

/-- An invariant may speak about the steps taken so far. -/
theorem Run.history {I : List (S × L) → S → Prop} (hinit : ∀ s, M.init s → I [] s)
    (hstep : ∀ tr s l s', M.Run tr s → I tr s → M.step s l s' → I (tr ++ [(s, l)]) s')
    {tr : List (S × L)} {s : S} (h : M.Run tr s) : I tr s := by
  induction h with
  | start h0 => exact hinit _ h0
  | step hr hs ih => exact hstep _ _ _ _ hr ih hs

/-- Each step of a run ends a run. -/
theorem Run.before {tr : List (S × L)} {s : S} {x : S × L} (h : M.Run tr s) (hx : x ∈ tr) :
    ∃ tr', tr' ⊆ tr ∧ M.Run tr' x.1 := by
  induction h with
  | start h0 => cases hx
  | @step tr s s' l hr hs ih =>
      rcases List.mem_append.mp hx with hx | hx
      · obtain ⟨tr', hsub, hr'⟩ := ih hx
        exact ⟨tr', List.subset_append_of_subset_left _ hsub, hr'⟩
      · obtain rfl := List.mem_singleton.mp hx
        exact ⟨tr, List.subset_append_left .., hr⟩

/-- A run visits reachable states only. -/
theorem Run.reachable {tr : List (S × L)} {s : S} (h : M.Run tr s) :
    (∀ x ∈ tr, M.Reachable x.1) ∧ M.Reachable s :=
  h.invariant (fun _ => .start) fun _ _ _ hr hs => hr.step hs

/-- What is the same in every reachable state is the same all through a
run. -/
theorem Run.always_congr {P Q : S → Prop} (hPQ : ∀ s, M.Reachable s → (P s ↔ Q s))
    {tr : List (S × L)} {s : S} (h : M.Run tr s) :
    ((∀ x ∈ tr, P x.1) ∧ P s) ↔ ((∀ x ∈ tr, Q x.1) ∧ Q s) := by
  obtain ⟨htr, hs⟩ := h.reachable
  exact and_congr (forall₂_congr fun x hx => hPQ x.1 (htr x hx)) (hPQ s hs)

/-! ## Runs whose steps meet a condition -/

theorem Reachable.unrestrict {C : S → L → Prop} {s : S}
    (h : (M.restrict C).Reachable s) : M.Reachable s :=
  h.invariant (fun _ hs => .start hs) fun _ _ _ hr hs => hr.step hs.1

theorem Run.restrict {C : S → L → Prop} {tr : List (S × L)} {s : S} (h : M.Run tr s)
    (hC : ∀ x ∈ tr, C x.1 x.2) : (M.restrict C).Run tr s := by
  induction h with
  | start h0 => exact .start h0
  | step _ hs ih =>
      have hlast := hC _ (List.mem_append_right _ (List.mem_singleton_self _))
      exact (ih fun x hx => hC x (List.mem_append_left _ hx)).step ⟨hs, hlast⟩

theorem Run.unrestrict {C : S → L → Prop} {tr : List (S × L)} {s : S}
    (h : (M.restrict C).Run tr s) : M.Run tr s ∧ ∀ x ∈ tr, C x.1 x.2 := by
  induction h with
  | start h0 => exact ⟨.start h0, fun _ hx => by cases hx⟩
  | step _ hs ih =>
      refine ⟨ih.1.step hs.1, fun x hx => ?_⟩
      rcases List.mem_append.mp hx with hx | hx
      · exact ih.2 x hx
      · obtain rfl := List.mem_singleton.mp hx
        exact hs.2

theorem Reachable.of_restrict {C : S → L → Prop} {P : S → Prop}
    (hinit : ∀ s, M.init s → P s)
    (hstep : ∀ s l s', M.Reachable s → P s → M.step s l s' → C s l → P s')
    {s : S} (h : (M.restrict C).Reachable s) : P s := by
  refine Reachable.invariant_of (M := M.restrict C) hinit ?_ h
  rintro s l s' hr hP ⟨hs, hC⟩
  exact hstep s l s' hr.unrestrict hP hs hC

/-- When a step from a good state leads to a good state exactly if it
meets `C`, then a run stays in good states exactly if every one of its
steps meets `C`. What a step does may depend on an invariant `K` that
holds for as long as the run has stayed in good states. -/
theorem Run.always_iff_of {C : S → L → Prop} {P K : S → Prop}
    (hinit : ∀ s, M.init s → P s ∧ K s)
    (hstep : ∀ s l s', M.Reachable s → P s → K s → M.step s l s' →
      (P s' ↔ C s l) ∧ K s')
    {tr : List (S × L)} {s : S} (h : M.Run tr s) :
    (((∀ x ∈ tr, P x.1) ∧ P s) ↔ ∀ x ∈ tr, C x.1 x.2) ∧
    ((∀ x ∈ tr, P x.1) ∧ P s → K s) := by
  induction h with
  | start h0 =>
      obtain ⟨hP, hK⟩ := hinit _ h0
      exact ⟨⟨fun _ x hx => (List.not_mem_nil hx).elim,
        fun _ => ⟨fun x hx => (List.not_mem_nil hx).elim, hP⟩⟩, fun _ => hK⟩
  | @step tr s s' l hr hs ih =>
      have hsplit : ∀ Q : S × L → Prop,
          (∀ x ∈ tr ++ [(s, l)], Q x) ↔ (∀ x ∈ tr, Q x) ∧ Q (s, l) := by
        intro Q
        simp only [List.mem_append, List.mem_singleton, or_imp, forall_and,
          forall_eq]
      obtain ⟨ih, hK⟩ := ih
      have hone : (∀ x ∈ tr, P x.1) ∧ P s → (P s' ↔ C s l) ∧ K s' :=
        fun hgood => hstep s l s' hr.reachable.2 hgood.2 (hK hgood) hs
      rw [hsplit, hsplit, ← ih]
      refine ⟨⟨?_, ?_⟩, fun hgood => (hone hgood.1).2⟩
      · rintro ⟨hgood, hP'⟩
        exact ⟨hgood, (hone hgood).1.mp hP'⟩
      · rintro ⟨hgood, hC⟩
        exact ⟨hgood, (hone hgood).1.mpr hC⟩

theorem Run.always_iff {C : S → L → Prop} {P : S → Prop}
    (hinit : ∀ s, M.init s → P s)
    (hstep : ∀ s l s', M.Reachable s → P s → M.step s l s' → (P s' ↔ C s l))
    {tr : List (S × L)} {s : S} (h : M.Run tr s) :
    ((∀ x ∈ tr, P x.1) ∧ P s) ↔ ∀ x ∈ tr, C x.1 x.2 :=
  (h.always_iff_of (K := fun _ => True) (fun s h0 => ⟨hinit s h0, trivial⟩)
    fun s l s' hr hP _ hs => ⟨hstep s l s' hr hP hs, trivial⟩).1

/-! ## What the steps so far say -/

section Latest

variable {α : Type*}

/-- What the latest of the steps that `f` reads something off says. -/
def latest (f : S × L → Option α) (tr : List (S × L)) : Option α := tr.reverse.findSome? f

theorem latest_append (f : S × L → Option α) (tr : List (S × L)) (x : S × L) :
    latest f (tr ++ [x]) = (f x).or (latest f tr) := by
  unfold latest
  rw [List.reverse_append, List.reverse_singleton, List.singleton_append, List.findSome?_cons]
  cases f x with
  | none => rfl
  | some a => rfl

theorem latest_of_some {f : S × L → Option α} {x : S × L} {a : α} (h : f x = some a)
    (tr : List (S × L)) : latest f (tr ++ [x]) = some a := by
  rw [latest_append, h]
  rfl

theorem latest_of_none {f : S × L → Option α} {x : S × L} (h : f x = none)
    (tr : List (S × L)) : latest f (tr ++ [x]) = latest f tr := by
  rw [latest_append, h]
  rfl

theorem mem_of_latest {f : S × L → Option α} {tr : List (S × L)} {a : α}
    (h : latest f tr = some a) : ∃ x ∈ tr, f x = some a := by
  obtain ⟨x, hx, hf⟩ := List.exists_of_findSome?_eq_some h
  exact ⟨x, List.mem_reverse.mp hx, hf⟩

end Latest

/-! ## Several steps -/

/-- `Steps M s s'`: some steps of `M` lead from `s` to `s'`. -/
def Steps (M : System S L) : S → S → Prop :=
  Relation.ReflTransGen fun s s' => ∃ l, M.step s l s'

theorem Reachable.steps {s s' : S} (h : M.Reachable s) (hs : M.Steps s s') :
    M.Reachable s' := by
  induction hs with
  | refl => exact h
  | tail _ hl ih => obtain ⟨l, hl⟩ := hl; exact ih.step hl

end System

/-! ## Systems given by a partial transition function -/

section Exec

variable {S L : Type*}

/-- The system whose steps are those `next` allows. -/
def System.ofNext (init : S → Prop) (next : S → L → Option S) : System S L where
  init := init
  step s l s' := next s l = some s'

/-- Take the steps of `ls` in order. -/
def exec (next : S → L → Option S) : S → List L → Option S
  | s, [] => some s
  | s, l :: ls => (next s l).bind fun s' => exec next s' ls

theorem exec_append (next : S → L → Option S) (ls' : List L) : ∀ (ls : List L) (s : S),
    exec next s (ls ++ ls') = (exec next s ls).bind fun s' => exec next s' ls' := by
  intro ls
  induction ls with
  | nil => exact fun s => rfl
  | cons l ls ih =>
      intro s
      rw [List.cons_append, exec, exec, Option.bind_assoc]
      exact congrArg _ (funext ih)

/-- The steps an execution takes, each with the state it was taken in. -/
def execTrace (next : S → L → Option S) : S → List L → List (S × L)
  | _, [] => []
  | s, l :: ls => (s, l) :: ((next s l).map fun s' => execTrace next s' ls).getD []

theorem run_append_exec {init : S → Prop} {next : S → L → Option S} :
    ∀ {ls : List L} {tr : List (S × L)} {s s' : S},
      (System.ofNext init next).Run tr s → exec next s ls = some s' →
        (System.ofNext init next).Run (tr ++ execTrace next s ls) s' := by
  intro ls
  induction ls with
  | nil =>
      intro tr s s' hr h
      obtain rfl := Option.some.inj h
      simpa [execTrace] using hr
  | cons l ls ih =>
      intro tr s s' hr h
      rw [exec] at h
      cases hn : next s l with
      | none => rw [hn] at h; cases h
      | some s1 =>
          rw [hn, Option.bind_some] at h
          have := ih (hr.step (show (System.ofNext init next).step s l s1 from hn)) h
          simpa [execTrace, hn] using this

theorem label_mem_of_execTrace {next : S → L → Option S} {ls : List L} {s : S} {x : S × L}
    (hx : x ∈ execTrace next s ls) : x.2 ∈ ls := by
  induction ls generalizing s with
  | nil => cases hx
  | cons l ls ih =>
      rcases List.mem_cons.mp hx with rfl | hx
      · exact List.mem_cons_self ..
      · cases hn : next s l with
        | none =>
            rw [hn] at hx
            cases hx
        | some s' =>
            rw [hn] at hx
            exact List.mem_cons_of_mem _ (ih hx)

theorem execTrace_append {next : S → L → Option S} {ls ls' : List L} {s : S} :
    execTrace next s ls ⊆ execTrace next s (ls ++ ls') := by
  induction ls generalizing s with
  | nil => exact List.nil_subset _
  | cons l ls ih =>
      refine List.cons_subset_cons _ ?_
      cases hn : next s l with
      | none => exact List.nil_subset _
      | some s' => exact ih

/-- An execution from an initial state is a run. -/
theorem run_of_exec {init : S → Prop} {next : S → L → Option S} {ls : List L}
    {s s' : S} (h0 : init s) (h : exec next s ls = some s') :
    (System.ofNext init next).Run (execTrace next s ls) s' := by
  have hr : (System.ofNext init next).Run [] s := .start h0
  simpa using run_append_exec hr h

/-- A run given by what it leads to. -/
theorem run_of_observe {α : Type*} {next : S → L → Option S} (s : S) (ls : List L)
    (f : S → α) {a : α} (h : (exec next s ls).map f = some a) :
    ∃ s', (System.ofNext (· = s) next).Run (execTrace next s ls) s' ∧ f s' = a := by
  obtain ⟨s', hs', hf⟩ := Option.map_eq_some_iff.mp h
  exact ⟨s', run_of_exec rfl hs', hf⟩

end Exec

end Unsend

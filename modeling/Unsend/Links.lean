import Mathlib.Data.List.Basic
import Mathlib.Logic.Function.Basic

/-!
# Doubly linked lists over pointer maps

A heap of nodes is seen through its two pointer maps `next` and `prev`.
`Seg next prev b l a` says that the nodes `l`, in this order, form a
doubly linked segment whose neighbours are `b` before and `a` after; a
whole list is a segment between `none` and `none`.

The rules are those a proof about pointer code needs: a segment splits
at any place (`seg_append`), depends on its own nodes only
(`seg_congr`), can be reattached to another neighbour at either end by
one pointer write (`seg_relink_next`, `seg_relink_prev`), grows at its
end (`seg_push`) and loses any one node (`seg_unlink`). `walk_eq` and
`seg_next_prev` say what following the pointers does.
-/

namespace Unsend

namespace Links

variable {P : Type*}

/-- `l` is linked in both directions, between the neighbours `b` and `a`. -/
def Seg (next prev : P → Option P) : Option P → List P → Option P → Prop
  | _, [], _ => True
  | b, p :: ps, a => prev p = b ∧ next p = ps.head?.or a ∧ Seg next prev (some p) ps a

/-- Write `v` into the pointer of the node `o`, if there is one. -/
def relink [DecidableEq P] (f : P → Option P) (o v : Option P) : P → Option P :=
  match o with
  | none => f
  | some p => Function.update f p v

/-- Follow `next` for at most `n` nodes. -/
def walk (next : P → Option P) : Nat → Option P → List P
  | 0, _ => []
  | _ + 1, none => []
  | n + 1, some p => p :: walk next n (next p)

/-! ## Splitting and framing -/

theorem seg_append {next prev : P → Option P} :
    ∀ {l m : List P} {b a : Option P},
      Seg next prev b (l ++ m) a ↔
        Seg next prev b l (m.head?.or a) ∧ Seg next prev (l.getLast?.or b) m a := by
  intro l
  induction l with
  | nil =>
      intro m b a
      simp [Seg]
  | cons p ps ih =>
      intro m b a
      have hlast : (p :: ps).getLast?.or b = ps.getLast?.or (some p) := by
        cases ps with
        | nil => rfl
        | cons q qs =>
            rw [List.getLast?_cons_cons]
            cases h : (q :: qs).getLast? with
            | none => simp at h
            | some z => rfl
      simp only [List.cons_append, Seg, ih, List.head?_append,
        Option.or_assoc, hlast, and_assoc]

theorem seg_congr {next prev next' prev' : P → Option P} :
    ∀ {l : List P} {b a : Option P}, (∀ p ∈ l, next' p = next p) →
      (∀ p ∈ l, prev' p = prev p) → Seg next prev b l a → Seg next' prev' b l a := by
  intro l
  induction l with
  | nil => exact fun _ _ _ => trivial
  | cons p ps ih =>
      intro b a hn hp ⟨h1, h2, h3⟩
      refine ⟨(hp p (List.mem_cons_self ..)).trans h1,
        (hn p (List.mem_cons_self ..)).trans h2, ?_⟩
      exact ih (fun q hq => hn q (List.mem_cons_of_mem _ hq))
        (fun q hq => hp q (List.mem_cons_of_mem _ hq)) h3

section Relink

variable [DecidableEq P]

theorem relink_of_ne {f : P → Option P} {o v : Option P} {q : P}
    (h : o ≠ some q) : relink f o v q = f q := by
  cases o with
  | none => rfl
  | some p => exact Function.update_of_ne (fun hq => h (by rw [hq])) ..

@[simp] theorem relink_self (f : P → Option P) (p : P) (v : Option P) :
    relink f (some p) v p = v := Function.update_self ..

/-! ## Pointer writes at either end -/

/-- One write to the last node's `next` gives the segment another right
neighbour. -/
theorem seg_relink_next {next prev : P → Option P} {l : List P}
    {b a a' : Option P} (hl : l.Nodup) (h : Seg next prev b l a) :
    Seg (relink next l.getLast? a') prev b l a' := by
  rcases l.eq_nil_or_concat with rfl | ⟨l, t, rfl⟩
  · trivial
  · rw [List.concat_eq_append] at *
    obtain ⟨hl1, hl2⟩ := seg_append.mp h
    have htl : ∀ p ∈ l, some t ≠ some p := fun p hp he => by
      obtain rfl := Option.some.inj he
      exact (List.nodup_append.mp hl).2.2 t hp t (List.mem_singleton_self t) rfl
    rw [List.getLast?_concat]
    refine seg_append.mpr ⟨?_, ?_⟩
    · exact seg_congr (fun p hp => relink_of_ne (htl p hp)) (fun _ _ => rfl) hl1
    · exact ⟨hl2.1, by simp, trivial⟩

/-- One write to the first node's `prev` gives the segment another left
neighbour. -/
theorem seg_relink_prev {next prev : P → Option P} {l : List P}
    {b a b' : Option P} (hl : l.Nodup) (h : Seg next prev b l a) :
    Seg next (relink prev l.head? b') b' l a := by
  cases l with
  | nil => trivial
  | cons p ps =>
      obtain ⟨-, h2, h3⟩ := h
      refine ⟨by simp, h2, seg_congr (fun _ _ => rfl) (fun q hq => ?_) h3⟩
      refine relink_of_ne fun he => ?_
      obtain rfl := Option.some.inj he
      exact (List.nodup_cons.mp hl).1 hq

/-! ## Adding and removing a node -/

/-- A fresh node goes to the end of the list. -/
theorem seg_push {next prev : P → Option P} {l : List P} {x : P}
    (hl : l.Nodup) (hx : x ∉ l) (h : Seg next prev none l none) :
    Seg (relink (Function.update next x none) l.getLast? (some x))
      (Function.update prev x l.getLast?) none (l ++ [x]) none := by
  have hne : ∀ p ∈ l, p ≠ x := fun p hp he => hx (he ▸ hp)
  have hlast : l.getLast? ≠ some x := fun he => hx (List.mem_of_getLast? he)
  refine seg_append.mpr ⟨?_, ?_⟩
  · refine seg_congr (fun _ _ => rfl) (fun p hp => Function.update_of_ne (hne p hp) ..) ?_
    exact seg_relink_next hl (seg_congr
      (fun p hp => Function.update_of_ne (hne p hp) ..) (fun _ _ => rfl) h)
  · refine ⟨by simp, ?_, trivial⟩
    rw [relink_of_ne hlast]
    simp

/-- A node is unlinked by joining its two neighbours. -/
theorem seg_unlink {next prev : P → Option P} {l m : List P} {x : P}
    (hl : (l ++ x :: m).Nodup) (h : Seg next prev none (l ++ x :: m) none) :
    Seg (relink next (prev x) (next x)) (relink prev (next x) (prev x)) none
      (l ++ m) none := by
  obtain ⟨hnl, hnm, hdisj⟩ := List.nodup_append.mp hl
  obtain ⟨-, hnm⟩ := List.nodup_cons.mp hnm
  obtain ⟨hsl, hpx, hnx, hsm⟩ := seg_append.mp h
  rw [Option.or_none] at hpx hnx
  rw [hpx, hnx]
  refine seg_append.mpr ⟨?_, ?_⟩
  · rw [Option.or_none]
    refine seg_congr (fun _ _ => rfl) (fun p hp => relink_of_ne fun he => ?_)
      (seg_relink_next hnl hsl)
    exact hdisj p hp p (List.mem_cons_of_mem _ (List.mem_of_head? he)) rfl
  · refine seg_congr (fun p hp => relink_of_ne fun he => ?_) (fun _ _ => rfl)
      (by simpa using seg_relink_prev hnm hsm)
    exact hdisj p (List.mem_of_getLast? he) p (List.mem_cons_of_mem _ hp) rfl

end Relink

/-! ## Following the pointers -/

theorem walk_eq {next prev : P → Option P} :
    ∀ {l : List P} {b : Option P} {n : Nat}, Seg next prev b l none →
      l.length ≤ n → walk next n l.head? = l := by
  intro l
  induction l with
  | nil =>
      intro b n _ _
      cases n with
      | zero => rfl
      | succ n => rfl
  | cons p ps ih =>
      intro b n ⟨_, h2, h3⟩ hn
      cases n with
      | zero => cases hn
      | succ n =>
          rw [Option.or_none] at h2
          rw [List.head?_cons, walk, h2, ih h3 (by simpa using hn)]

/-- In a whole list `prev` is the inverse of `next`. -/
theorem seg_next_prev {next prev : P → Option P} {l : List P}
    (h : Seg next prev none l none) {p q : P} :
    (p ∈ l ∧ next p = some q) ↔ (q ∈ l ∧ prev q = some p) := by
  constructor
  · rintro ⟨hp, hn⟩
    obtain ⟨l1, l2, rfl⟩ := List.append_of_mem hp
    obtain ⟨-, -, hnp, hs⟩ := seg_append.mp h
    rw [hn, Option.or_none] at hnp
    cases l2 with
    | nil => cases hnp
    | cons z zs =>
        obtain rfl := Option.some.inj hnp
        exact ⟨by simp, hs.1⟩
  · rintro ⟨hq, hp⟩
    obtain ⟨l1, l2, rfl⟩ := List.append_of_mem hq
    obtain ⟨hs, hpq, -⟩ := seg_append.mp h
    rw [hp, Option.or_none] at hpq
    rcases l1.eq_nil_or_concat with rfl | ⟨l1, z, rfl⟩
    · cases hpq
    · rw [List.concat_eq_append, List.getLast?_concat] at hpq
      obtain rfl := Option.some.inj hpq
      rw [List.concat_eq_append] at hs ⊢
      obtain ⟨-, -, hnz, -⟩ := seg_append.mp hs
      exact ⟨by simp, by simpa using hnz⟩

end Links

end Unsend

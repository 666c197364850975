import Unsend.Runs
import Unsend.WaitLoop

/-!
# The barrier

The model of `lock/barrier.rs`. A `wait()` arrives at its first poll: it
takes the generation down and counts itself. The arrival that completes
a generation is its leader, starts the next one and notifies everybody in
the list; the others wait until they find another generation than their
own.

`generations_exact`: as long as no future is dropped while it waits, the
leaders are the arrivals `n`, `2 n`, `3 n`, .., nobody is released before
the leader of its generation has arrived, and from then on everybody of
that generation is notified. Futures of several generations may stand in
the list at once.
-/

namespace Unsend

structure Barrier (W : Type) where
  /-- Number of tasks to wait for. -/
  n : Nat
  count : Nat
  generation : UInt64
  event : Event Unit W

namespace Barrier

variable {W : Type}

def new (n : Nat) : Barrier W := ⟨n, 0, 0, .new⟩

/-- What the loop of `wait` looks at. -/
structure Cells where
  count : Nat
  generation : UInt64

def cells (b : Barrier W) : Cells := ⟨b.count, b.generation⟩

/-- The loop of `wait`. -/
def waiting (n : Nat) (localGen : UInt64) : WaitLoop Cells Unit Unit where
  attempt c := if localGen = c.generation ∧ c.count < n then none else some ((), c)
  accept _ := none

/-- `wait` up to the test of the count: this future has arrived. -/
def arrive (b : Barrier W) : UInt64 × Barrier W :=
  (b.generation, { b with count := b.count + 1 })

/-- The branch of the leader. -/
def lead [Target] (b : Barrier W) (localGen : UInt64) : Barrier W × List W :=
  let out := b.event.notify (Notify usizeMax) ()
  ({ b with count := 0, generation := localGen + 1, event := out.event }, out.woken)

/-! ## All futures together -/

/-- What a future that has arrived remembers, with the number of its arrival. -/
structure Arrived where
  localGen : UInt64
  number : Nat

/-- A `wait()` that has returned: the number of its arrival, its result,
how many had arrived by then, and whether it was its first poll. -/
structure Returned where
  number : Nat
  isLeader : Bool
  arrived : Nat
  atFirst : Bool
  deriving DecidableEq

/-- A barrier with its `wait()` futures, how many have arrived, those that
have returned and the wakers woken so far. -/
structure Sys (W : Type) where
  barrier : Barrier W
  futs : Futures (Option Arrived)
  arrived : Nat
  returns : List Returned
  woken : List W

inductive Label (W : Type) where
  /-- `wait()` is called; the future is at `f`. -/
  | call (f : Ptr)
  | poll (f : Ptr) (waker : W)
  /-- The future is dropped. -/
  | cancel (f : Ptr)

namespace Sys

def init (n : Nat) : Sys W := ⟨.new n, fun _ => none, 0, [], []⟩

variable [Target] [WillWake W]

/-- What is left of one poll of the loop of the future `f`. -/
def settle (s : Sys W) (f : Ptr) (a : Arrived) (out : WaitOut Cells Unit Unit W) : Sys W where
  barrier := { s.barrier with event := out.event }
  futs := Function.update s.futs f (some (some a, out.result.stage))
  arrived := s.arrived
  returns := match out.result with
    | .pending => s.returns
    | .ready () => s.returns ++ [⟨a.number, false, s.arrived, false⟩]
  woken := s.woken ++ out.woken

/-- The first poll: the future arrives, and waits or leads. -/
def pollFirst (s : Sys W) (f : Ptr) (w : W) : Sys W :=
  let (localGen, barrier) := s.barrier.arrive
  let a := ⟨localGen, s.arrived + 1⟩
  let s := { s with barrier, arrived := s.arrived + 1 }
  if barrier.count < barrier.n then
    s.settle f a ((waiting barrier.n localGen).poll f w .unresumed barrier.event barrier.cells)
  else
    let out := barrier.lead localGen
    { s with
      barrier := out.1
      futs := Function.update s.futs f (some (some a, .returned))
      returns := s.returns ++ [⟨a.number, true, s.arrived, true⟩]
      woken := s.woken ++ out.2 }

def pollAgain (s : Sys W) (f : Ptr) (a : Arrived) (w : W) : Sys W :=
  s.settle f a
    ((waiting s.barrier.n a.localGen).poll f w .suspended s.barrier.event s.barrier.cells)

def next (s : Sys W) : Label W → Option (Sys W)
  | .call f =>
      match s.futs f with
      | some _ => none
      | none =>
          if IsAddress f then some { s with
            futs := Function.update s.futs f (some (none, .unresumed)) }
          else none
  | .poll f w =>
      match s.futs f with
      | some (_, .unresumed) => some (s.pollFirst f w)
      | some (some a, .suspended) => some (s.pollAgain f a w)
      | _ => none
  | .cancel f =>
      match s.futs f with
      | none => none
      | some (_, .suspended) =>
          let out := s.barrier.event.drop f
          some { s with
            barrier := { s.barrier with event := out.event }
            futs := Function.update s.futs f none
            woken := s.woken ++ out.woken }
      | some _ => some { s with futs := Function.update s.futs f none }

end Sys

/-- Every run of a barrier for `n` tasks. -/
def system [Target] [WillWake W] (n : Nat) : System (Sys W) (Label W) :=
  .ofNext (· = .init n) Sys.next

/-! ## Generations -/

/-- The generation of the arrival with this number, counted from one. -/
def generationOf (n number : Nat) : Nat := (number - 1) / n

namespace Sys

def queue (s : Sys W) : Queue Unit W := s.barrier.event.queue

theorem nodup (s : Sys W) : s.queue.ids.Nodup := s.barrier.event.nodup

/-- The future `f` waits. -/
def Pending (s : Sys W) (f : Ptr) (a : Arrived) : Prop := s.futs f = some (some a, .suspended)

def Notified (s : Sys W) (f : Ptr) : Prop := ∃ b, s.queue.stateOf f = some (.notified () b)

/-- No future is dropped while it waits. -/
def KeepsWaits (s : Sys W) : Label W → Prop
  | .cancel f => ∀ a, ¬ s.Pending f a
  | _ => True

end Sys

/-- Who leads and who returns when, in a log of returns after this many
arrivals. -/
structure Logged (n arrived : Nat) (returns : List Returned) : Prop where
  numbers : ∀ r ∈ returns, r.number ≤ arrived
  /-- Every `n`-th arrival returns as the leader, at once. -/
  leads : ∀ k, 0 < k → k * n ≤ arrived →
    ∃ r ∈ returns, r.number = k * n ∧ r.isLeader = true ∧ r.atFirst = true
  /-- Nobody returns twice. -/
  once : (returns.map (·.number)).Nodup
  leaders : ∀ r ∈ returns, r.isLeader = true ↔ n ∣ r.number
  /-- The others return after the leader of their generation has arrived. -/
  late : ∀ r ∈ returns, r.isLeader = false → (generationOf n r.number + 1) * n ≤ r.arrived

/-- Leaders are unique, nobody is released early, and everybody in time. -/
structure Sys.Exact (s : Sys W) (n : Nat) : Prop where
  log : Logged n s.arrived s.returns
  released :
    ∀ f a, s.Pending f a → (generationOf n a.number + 1) * n ≤ s.arrived → s.Notified f

/-! ## The log -/

section Log

variable {n arrived : Nat} {returns : List Returned}

theorem Logged.waits (h : Logged n arrived returns) (hn : ¬ n ∣ arrived + 1) :
    Logged n (arrived + 1) returns where
  numbers r hr := Nat.le_succ_of_le (h.numbers r hr)
  leads k hk hle := by
    refine h.leads k hk (Nat.le_of_lt_succ (Nat.lt_of_le_of_ne hle ?_))
    exact fun he => hn ⟨k, he.symm.trans (Nat.mul_comm ..)⟩
  once := h.once
  leaders := h.leaders
  late := h.late

/-- One more return. -/
theorem Logged.push (h : Logged n arrived returns) {arrived' : Nat} (hle : arrived ≤ arrived')
    {r : Returned} (hr : r.number ≤ arrived') (hfresh : ∀ x ∈ returns, x.number ≠ r.number)
    (hleads : ∀ k, 0 < k → k * n ≤ arrived' → k * n ≤ arrived ∨
      r.number = k * n ∧ r.isLeader = true ∧ r.atFirst = true)
    (hleader : r.isLeader = true ↔ n ∣ r.number)
    (hlate : r.isLeader = false → (generationOf n r.number + 1) * n ≤ r.arrived) :
    Logged n arrived' (returns ++ [r]) where
  numbers := List.forall_mem_append.mpr
    ⟨fun x hx => Nat.le_trans (h.numbers x hx) hle, List.forall_mem_singleton.mpr hr⟩
  leads k hk hkn := by
    rcases hleads k hk hkn with hkn | hr
    · obtain ⟨x, hx, hl⟩ := h.leads k hk hkn
      exact ⟨x, List.mem_append_left _ hx, hl⟩
    · exact ⟨r, List.mem_append_right _ (List.mem_singleton_self r), hr⟩
  once := by
    rw [List.map_append]
    refine List.nodup_append.mpr ⟨h.once, List.nodup_singleton _, fun x hx y hy he => ?_⟩
    obtain ⟨r', hr', rfl⟩ := List.mem_map.mp hx
    exact hfresh r' hr' (he.trans (List.mem_singleton.mp hy))
  leaders := List.forall_mem_append.mpr ⟨h.leaders, List.forall_mem_singleton.mpr hleader⟩
  late := List.forall_mem_append.mpr ⟨h.late, List.forall_mem_singleton.mpr hlate⟩

theorem Logged.lead (h : Logged n arrived returns) (hn : n ∣ arrived + 1) :
    Logged n (arrived + 1) (returns ++ [⟨arrived + 1, true, arrived + 1, true⟩]) := by
  refine h.push (Nat.le_succ _) (Nat.le_refl _) ?_ ?_ (iff_of_true rfl hn) (fun hf => by cases hf)
  · exact fun x hx => Nat.ne_of_lt (Nat.lt_succ_of_le (h.numbers x hx))
  · intro k _ hkn
    rcases Nat.lt_or_eq_of_le hkn with hlt | heq
    · exact .inl (Nat.le_of_lt_succ hlt)
    · exact .inr ⟨heq.symm, rfl, rfl⟩

theorem Logged.release (h : Logged n arrived returns) {number : Nat} (hle : number ≤ arrived)
    (hfresh : ∀ r ∈ returns, r.number ≠ number) (hn : ¬ n ∣ number)
    (hlate : (generationOf n number + 1) * n ≤ arrived) :
    Logged n arrived (returns ++ [⟨number, false, arrived, false⟩]) :=
  h.push (Nat.le_refl _) hle hfresh (fun _ _ hkn => .inl hkn) (iff_of_false (by simp) hn)
    fun _ => hlate

/-- The counter after one more arrival. -/
theorem arrive_mod (hn : 0 < n) (arrived : Nat) :
    (arrived % n + 1 < n ∧ (arrived + 1) % n = arrived % n + 1 ∧
      (arrived + 1) / n = arrived / n ∧ ¬ n ∣ arrived + 1) ∨
    (¬ arrived % n + 1 < n ∧ (arrived + 1) % n = 0 ∧ (arrived + 1) / n = arrived / n + 1 ∧
      n ∣ arrived + 1) := by
  have hlt := Nat.mod_lt arrived hn
  have hsplit : arrived + 1 = n * (arrived / n) + (arrived % n + 1) := by
    rw [← Nat.add_assoc, Nat.div_add_mod]
  by_cases h : arrived % n + 1 < n
  · have hmod : (arrived + 1) % n = arrived % n + 1 := by
      rw [hsplit, Nat.mul_add_mod, Nat.mod_eq_of_lt h]
    refine .inl ⟨h, hmod, ?_, fun hd => ?_⟩
    · rw [hsplit, Nat.mul_add_div hn, Nat.div_eq_of_lt h, Nat.add_zero]
    · rw [Nat.mod_eq_zero_of_dvd hd] at hmod
      omega
  · have he : arrived % n + 1 = n := by omega
    have hmod : (arrived + 1) % n = 0 := by
      rw [hsplit, Nat.mul_add_mod, he, Nat.mod_self]
    refine .inr ⟨h, hmod, ?_, Nat.dvd_of_mod_eq_zero hmod⟩
    rw [hsplit, Nat.mul_add_div hn, he, Nat.div_self hn]

end Log

/-! ## The futures that wait -/

/-- The futures that wait, after this many arrivals and these returns. -/
structure Waits (n arrived : Nat) (returns : List Returned) (futs : Futures (Option Arrived))
    (q : Queue Unit W) : Prop where
  seated : Seated futs (fun _ => True) q
  /-- Who waits has arrived, not as a leader, and has not returned. -/
  known : ∀ f x, futs f = some (x, .suspended) → ∃ a, x = some a ∧ 0 < a.number ∧
    a.number ≤ arrived ∧ a.localGen.toNat = generationOf n a.number ∧ ¬ n ∣ a.number ∧
    ∀ r ∈ returns, r.number ≠ a.number
  distinct :
    ∀ f f' a a', futs f = some (some a, .suspended) → futs f' = some (some a', .suspended) →
    a.number = a'.number → f = f'
  /-- Who is not notified is of the current generation. -/
  current : ∀ y ∈ q, y.2.isNotified = false → ∀ a, futs y.1 = some (some a, .suspended) →
    generationOf n a.number = arrived / n

section Waits

variable {n arrived : Nat} {returns returns' : List Returned} {futs : Futures (Option Arrived)}
  {q q' : Queue Unit W} {f : Ptr} {x : Option (Option Arrived × Stage)}

theorem update_eq_suspended (hx : ∀ k, x ≠ some (k, .suspended)) {f' : Ptr} {k : Option Arrived}
    (h : Function.update futs f x f' = some (k, .suspended)) :
    f' ≠ f ∧ futs f' = some (k, .suspended) := by
  by_cases he : f' = f
  · rw [he, Function.update_self] at h
    exact (hx k h).elim
  · rw [Function.update_of_ne he] at h
    exact ⟨he, h⟩

/-- The future at `f` comes, goes, or has returned. -/
theorem Waits.leave (h : Waits n arrived returns futs q)
    (hseat : Seated (Function.update futs f x) (fun _ => True) q')
    (hx : ∀ k, x ≠ some (k, .suspended)) {arrived' : Nat} (harr : arrived ≤ arrived')
    (hq : ∀ y ∈ q', y.2.isNotified = false → y ∈ q ∧ arrived = arrived')
    (hret : ∀ r ∈ returns', r ∈ returns ∨
      ∀ f' a, f' ≠ f → futs f' = some (some a, .suspended) → r.number ≠ a.number) :
    Waits n arrived' returns' (Function.update futs f x) q' where
  seated := hseat
  known f' k hf' := by
    obtain ⟨hne, hf'⟩ := update_eq_suspended hx hf'
    obtain ⟨a, rfl, h1, h2, h3, h4, h5⟩ := h.known f' k hf'
    refine ⟨a, rfl, h1, Nat.le_trans h2 harr, h3, h4, fun r hr => ?_⟩
    rcases hret r hr with hr | hr
    · exact h5 r hr
    · exact hr f' a hne hf'
  distinct f₁ f₂ a₁ a₂ h₁ h₂ he :=
    h.distinct f₁ f₂ a₁ a₂ (update_eq_suspended hx h₁).2
      (update_eq_suspended hx h₂).2 he
  current y hy hn a ha := by
    obtain ⟨hy, rfl⟩ := hq y hy hn
    exact h.current y hy hn a (update_eq_suspended hx ha).2

/-- A future that has arrived goes to sleep, for the first time or again. -/
theorem Waits.sleep [WillWake W] (h : Waits n arrived returns futs q) {a : Arrived}
    (hseat : Seated (Function.update futs f (some (some a, .suspended))) (fun _ => True) q')
    {arrived' : Nat} (harr : arrived ≤ arrived') (hgen : arrived' / n = arrived / n) {w : W}
    (hq : q.Polled f w q')
    (ha : 0 < a.number ∧ a.number ≤ arrived' ∧ a.localGen.toNat = generationOf n a.number ∧
      ¬ n ∣ a.number ∧ ∀ r ∈ returns, r.number ≠ a.number)
    (hother : ∀ f' a', f' ≠ f → futs f' = some (some a', .suspended) →
      a'.number ≠ a.number)
    (hcur : ∀ y ∈ q', y.1 = f → y.2.isNotified = false →
      generationOf n a.number = arrived / n) :
    Waits n arrived' returns (Function.update futs f (some (some a, .suspended))) q' where
  seated := hseat
  known f' k hf' := by
    by_cases he : f' = f
    · rw [he, Function.update_self] at hf'
      cases hf'
      exact ⟨a, rfl, ha⟩
    · rw [Function.update_of_ne he] at hf'
      obtain ⟨a', rfl, h1, h2, h3⟩ := h.known f' k hf'
      exact ⟨a', rfl, h1, Nat.le_trans h2 harr, h3⟩
  distinct f₁ f₂ a₁ a₂ h₁ h₂ he := by
    by_cases h₁f : f₁ = f
    · by_cases h₂f : f₂ = f
      · exact h₁f.trans h₂f.symm
      · rw [h₁f, Function.update_self] at h₁
        rw [Function.update_of_ne h₂f] at h₂
        cases h₁
        exact (hother f₂ a₂ h₂f h₂ he.symm).elim
    · rw [Function.update_of_ne h₁f] at h₁
      by_cases h₂f : f₂ = f
      · rw [h₂f, Function.update_self] at h₂
        cases h₂
        exact (hother f₁ a₁ h₁f h₁ he).elim
      · rw [Function.update_of_ne h₂f] at h₂
        exact h.distinct f₁ f₂ a₁ a₂ h₁ h₂ he
  current y hy hn a' ha' := by
    rw [hgen]
    by_cases he : y.1 = f
    · rw [he, Function.update_self] at ha'
      cases ha'
      exact hcur y hy he hn
    · rw [Function.update_of_ne he] at ha'
      rcases hq y hy with ⟨hy, -⟩ | ⟨w', -, rfl⟩
      · exact h.current y hy hn a' ha'
      · exact (he rfl).elim

end Waits

/-! ## What one step does -/

/-- What holds in every state, as long as the generations fit in 64 bits. -/
structure Sys.Inv [Target] (s : Sys W) (n : Nat) : Prop where
  addressed : Addressed s.futs
  size : s.barrier.n = n
  count : s.barrier.count = s.arrived % n
  generation : s.barrier.generation.toNat = s.arrived / n
  waits : Waits n s.arrived s.returns s.futs s.queue
  log : Logged n s.arrived s.returns

section Steps

variable [Target] [WillWake W] {s s' : Sys W} {n : Nat} {f : Ptr} {a : Arrived} {w : W}

/-- The first poll of a future that does not complete its generation. -/
theorem pollFirst_waits (h : s.barrier.count + 1 < s.barrier.n) (hf : f ∉ s.queue.ids) :
    (s.pollFirst f w).futs = Function.update s.futs f
        (some (some ⟨s.barrier.generation, s.arrived + 1⟩, .suspended)) ∧
      (s.pollFirst f w).arrived = s.arrived + 1 ∧ (s.pollFirst f w).returns = s.returns ∧
      (s.pollFirst f w).queue = s.queue ++ [(f, .waiting w)] ∧
      (s.pollFirst f w).barrier.n = s.barrier.n ∧
      (s.pollFirst f w).barrier.cells = ⟨s.barrier.count + 1, s.barrier.generation⟩ := by
  let out := (waiting s.barrier.n s.barrier.generation).poll f w .unresumed s.barrier.event
    ⟨s.barrier.count + 1, s.barrier.generation⟩
  have hview : out.view = (s.queue ++ [(f, .waiting w)],
      ⟨s.barrier.count + 1, s.barrier.generation⟩, .pending, []) := by
    refine (WaitLoop.poll_start hf).trans ?_
    unfold WaitLoop.enter
    rw [show (waiting s.barrier.n s.barrier.generation).attempt _ = none from if_pos ⟨rfl, h⟩]
    rfl
  have hres : out.result = .pending := congrArg (fun v => v.2.2.1) hview
  have hsettle : s.pollFirst f w = Sys.settle
      { s with barrier := s.barrier.arrive.2, arrived := s.arrived + 1 } f
      ⟨s.barrier.generation, s.arrived + 1⟩ out := if_pos h
  rw [hsettle, Sys.settle, hres]
  exact ⟨rfl, rfl, rfl, congrArg Prod.fst hview, rfl, rfl⟩

/-- The first poll of a future that completes its generation. -/
theorem pollFirst_leads (h : ¬ s.barrier.count + 1 < s.barrier.n) :
    (s.pollFirst f w).futs = Function.update s.futs f
        (some (some ⟨s.barrier.generation, s.arrived + 1⟩, .returned)) ∧
      (s.pollFirst f w).arrived = s.arrived + 1 ∧
      (s.pollFirst f w).returns = s.returns ++ [⟨s.arrived + 1, true, s.arrived + 1, true⟩] ∧
      (s.pollFirst f w).queue = (s.queue.notify (Notify usizeMax) ()).event ∧
      (s.pollFirst f w).barrier.n = s.barrier.n ∧
      (s.pollFirst f w).barrier.cells = ⟨0, s.barrier.generation + 1⟩ := by
  have hlead : s.pollFirst f w = { s with
      barrier := (s.barrier.arrive.2.lead s.barrier.generation).1
      futs := Function.update s.futs f
        (some (some ⟨s.barrier.generation, s.arrived + 1⟩, .returned))
      arrived := s.arrived + 1
      returns := s.returns ++ [⟨s.arrived + 1, true, s.arrived + 1, true⟩]
      woken := s.woken ++ (s.barrier.arrive.2.lead s.barrier.generation).2 } := if_neg h
  rw [hlead]
  exact ⟨rfl, rfl, rfl, Event.queue_notify .., rfl, rfl⟩

omit [Target] in
/-- A later poll: the future sleeps on, or has found another generation. -/
theorem pollAgain_cases (hseat : Seated s.futs (fun _ => True) s.queue) (hf : s.Pending f a) :
    let s' := s.pollAgain f a w
    s'.arrived = s.arrived ∧ s'.barrier.n = s.barrier.n ∧ s'.barrier.cells = s.barrier.cells ∧
    Seated s'.futs (fun _ => True) s'.queue ∧ s.queue.Polled f w s'.queue ∧
    ((s'.futs = Function.update s.futs f (some (some a, .suspended)) ∧ s'.returns = s.returns ∧
        ((∃ st, s.queue.stateOf f = some st ∧ st.isNotified = false) ∨
          a.localGen = s.barrier.generation)) ∨
      (s'.futs = Function.update s.futs f (some (some a, .returned)) ∧
        s'.returns = s.returns ++ [⟨a.number, false, s.arrived, false⟩] ∧
        ¬ (a.localGen = s.barrier.generation ∧ s.barrier.count < s.barrier.n))) := by
  have hs : Stage.suspended.CanPoll f s.barrier.event.queue :=
    .inr ⟨rfl, hseat.present trivial hf⟩
  let b := waiting s.barrier.n a.localGen
  let out := b.poll f w .suspended s.barrier.event s.barrier.cells
  have hpolled : s.queue.Polled f w out.event.queue := WaitLoop.polled hs
  have hseat' : Seated (Function.update s.futs f (some (some a, out.result.stage)))
      (fun _ => True) out.event.queue := hseat.poll trivial (WaitLoop.mem_ids_poll hs)
  -- settled: what is left once the result is known
  have hpending : out.result = .pending → (s.settle f a out).futs =
      Function.update s.futs f (some (some a, .suspended)) ∧
      (s.settle f a out).returns = s.returns := fun h => by
    rw [Sys.settle, h]
    exact ⟨rfl, rfl⟩
  refine ⟨rfl, rfl, rfl, hseat', hpolled, ?_⟩
  rcases WaitLoop.poll_cases (b := b) (w := w) (s := s.barrier.cells) hs with
    ⟨hp, -⟩ | ⟨st, w', hp, hst, -, hv⟩ | ⟨t, c, hp, hv⟩
  · exact (hp (hseat.present trivial hf)).elim
  · have hres : out.result = .pending := congrArg (fun v => v.2.2.1) hv
    obtain ⟨h1, h2⟩ := hpending hres
    exact .inl ⟨h1, h2, .inl ⟨st, hp, hst⟩⟩
  · have hv' : out.view = b.enter f w (s.barrier.event.queue.erase f) s.barrier.cells := hv
    unfold WaitLoop.enter at hv'
    by_cases hgen : a.localGen = s.barrier.generation ∧ s.barrier.count < s.barrier.n
    · rw [show b.attempt s.barrier.cells = none from if_pos hgen] at hv'
      have hres : out.result = .pending := congrArg (fun v => v.2.2.1) hv'
      obtain ⟨h1, h2⟩ := hpending hres
      exact .inl ⟨h1, h2, .inr hgen.1⟩
    · rw [show b.attempt s.barrier.cells = some ((), s.barrier.cells) from if_neg hgen] at hv'
      have hres : out.result = .ready () := congrArg (fun v => v.2.2.1) hv'
      right
      show (s.settle f a out).futs = _ ∧ (s.settle f a out).returns = _ ∧ _
      rw [Sys.settle, hres]
      exact ⟨rfl, rfl, hgen⟩

/-! ## Runs -/

/-- The first poll is an arrival. -/
theorem arrived_pollFirst (s : Sys W) (f : Ptr) (w : W) :
    (s.pollFirst f w).arrived = s.arrived + 1 := by
  unfold Sys.pollFirst
  dsimp only
  split
  · rfl
  · rfl

theorem pollFirst_inv (hn : 0 < n) (hi : s.Inv n) {k : Option Arrived}
    (hf : s.futs f = some (k, .unresumed)) (hgen : (s.arrived + 1) / n < 2 ^ 64) :
    (s.pollFirst f w).Inv n := by
  have haddr := hi.addressed f _ hf
  have hout : ∀ k', s.futs f ≠ some (k', .suspended) := fun k' h => by cases hf.symm.trans h
  have habs : f ∉ s.queue.ids := hi.waits.seated.absent fun k' _ => hout k'
  have hother : ∀ f' a', f' ≠ f → s.futs f' = some (some a', .suspended) →
      a'.number ≠ s.arrived + 1 := by
    intro f' a' _ hf'
    obtain ⟨_, ⟨⟩, -, h2, -⟩ := hi.waits.known f' _ hf'
    exact Nat.ne_of_lt (Nat.lt_succ_of_le h2)
  rcases arrive_mod hn s.arrived with ⟨hlt, hmod, hdiv, hdvd⟩ | ⟨hlt, hmod, hdiv, hdvd⟩
  · obtain ⟨h1, h2, h3, h4, h5, h6⟩ := pollFirst_waits (w := w)
      (show s.barrier.count + 1 < s.barrier.n by rw [hi.count, hi.size]; exact hlt) habs
    refine ⟨?_, h5.trans hi.size, ?_, ?_, ?_, ?_⟩
    · rw [h1]
      exact hi.addressed.update fun _ => haddr
    · rw [h2, hmod, ← hi.count]
      exact congrArg Cells.count h6
    · rw [h2, hdiv, ← hi.generation]
      exact congrArg (fun c => c.generation.toNat) h6
    · rw [h1, h2, h3, h4]
      refine hi.waits.sleep (w := w) ?_ (Nat.le_succ _) hdiv ?_ ?_ hother ?_
      · refine hi.waits.seated.update (fun r hr => ?_) ?_
        · simp [hr]
        · simp
      · intro y hy
        rcases List.mem_append.mp hy with hy | hy
        · exact .inl ⟨hy, fun he => habs (he ▸ Queue.mem_ids_of_mem hy)⟩
        · exact .inr ⟨w, .inl rfl, List.mem_singleton.mp hy⟩
      · refine ⟨Nat.succ_pos _, Nat.le_refl _, hi.generation, hdvd, fun r hr => ?_⟩
        exact Nat.ne_of_lt (Nat.lt_succ_of_le (hi.log.numbers r hr))
      · exact fun _ _ _ _ => rfl
    · rw [h2, h3]
      exact hi.log.waits hdvd
  · obtain ⟨h1, h2, h3, h4, h5, h6⟩ := pollFirst_leads (f := f) (w := w)
      (show ¬ s.barrier.count + 1 < s.barrier.n by rw [hi.count, hi.size]; exact hlt)
    have hlen := hi.waits.seated.length_le hi.addressed s.nodup
    refine ⟨?_, h5.trans hi.size, ?_, ?_, ?_, ?_⟩
    · rw [h1]
      exact hi.addressed.update fun _ => haddr
    · rw [h2, hmod]
      exact congrArg Cells.count h6
    · rw [hdiv] at hgen
      have hg : (s.pollFirst f w).barrier.generation = s.barrier.generation + 1 :=
        congrArg Cells.generation h6
      rw [h2, hdiv, hg, UInt64.toNat_add, hi.generation]
      exact Nat.mod_eq_of_lt hgen
    · rw [h1, h2, h3, h4]
      have hids := s.queue.ids_notify (Notify usizeMax) ()
      refine hi.waits.leave ?_ (by simp) (Nat.le_succ _) ?_ ?_
      · exact (hi.waits.seated.congr hids).elsewhere (fun k' _ => hout k') (by simp)
      · -- everybody in the list has been notified
        intro y hy hfalse
        have hw := s.queue.notify_max (n := Notify usizeMax) () rfl hlen
        rw [Queue.numWaiting_eq_zero.mp hw y hy] at hfalse
        cases hfalse
      · intro r hr
        rcases List.mem_append.mp hr with hr | hr
        · exact .inl hr
        · refine .inr fun f' a' hne hf' => ?_
          rw [List.mem_singleton.mp hr]
          exact (hother f' a' hne hf').symm
    · rw [h2, h3]
      exact hi.log.lead hdvd

theorem pollAgain_inv (hn : 0 < n) (hi : s.Inv n) (hf : s.Pending f a) :
    (s.pollAgain f a w).Inv n := by
  have haddr := hi.addressed f _ hf
  obtain ⟨_, ⟨⟩, ha⟩ := hi.waits.known f _ hf
  obtain ⟨h1, h2, h3, hseat, hpolled, h4⟩ := pollAgain_cases (w := w) hi.waits.seated hf
  have hcells : (s.pollAgain f a w).barrier.count = s.arrived % n ∧
      (s.pollAgain f a w).barrier.generation.toNat = s.arrived / n :=
    ⟨(congrArg Cells.count h3).trans hi.count,
      (congrArg (fun c => c.generation.toNat) h3).trans hi.generation⟩
  have hmap : ∀ st, (s.pollAgain f a w).futs = Function.update s.futs f (some (some a, st)) →
      Addressed (s.pollAgain f a w).futs := fun st h => by
    rw [h]
    exact hi.addressed.update fun _ => haddr
  rcases h4 with ⟨hfuts, hret, hwhy⟩ | ⟨hfuts, hret, hwhy⟩
  · refine ⟨hmap _ hfuts, h2.trans hi.size, h1 ▸ hcells.1, h1 ▸ hcells.2, ?_, ?_⟩
    · rw [hfuts] at hseat
      rw [h1, hret, hfuts]
      refine hi.waits.sleep hseat (Nat.le_refl _) rfl hpolled ha ?_ ?_
      · exact fun f' a' hne hf' he => hne (hi.waits.distinct f' f a' a hf' hf he)
      · intro y hy he hfalse
        rcases hwhy with ⟨st, hst, hnot⟩ | hsame
        · exact hi.waits.current _ ((Queue.stateOf_eq_some s.nodup).mp hst) hnot a hf
        · rw [← ha.2.2.1, hsame, hi.generation]
    · rw [h1, hret]
      exact hi.log
  · refine ⟨hmap _ hfuts, h2.trans hi.size, h1 ▸ hcells.1, h1 ▸ hcells.2, ?_, ?_⟩
    · rw [hfuts] at hseat
      rw [h1, hret, hfuts]
      refine hi.waits.leave hseat (by simp) (Nat.le_refl _) ?_ ?_
      · intro y hy hfalse
        rcases hpolled y hy with ⟨hy, -⟩ | ⟨w', -, rfl⟩
        · exact ⟨hy, rfl⟩
        · obtain ⟨k, -, hk⟩ := (hseat f).mp (Queue.mem_ids_of_mem hy)
          rw [Function.update_self] at hk
          cases hk
      · intro r hr
        rcases List.mem_append.mp hr with hr | hr
        · exact .inl hr
        · refine .inr fun f' a' hne hf' he => hne (hi.waits.distinct f' f a' a hf' hf ?_)
          rw [List.mem_singleton.mp hr] at he
          exact he.symm
    · rw [h1, hret]
      refine hi.log.release ha.2.1 ha.2.2.2.2 ha.2.2.2.1 ?_
      -- the generation it found is a later one
      have hcount : s.barrier.count < s.barrier.n := by
        rw [hi.count, hi.size]
        exact Nat.mod_lt _ hn
      have hne : generationOf n a.number ≠ s.arrived / n := by
        intro he
        refine hwhy ⟨UInt64.toNat_inj.mp ?_, hcount⟩
        rw [ha.2.2.1, he, hi.generation]
      have hle : generationOf n a.number ≤ s.arrived / n :=
        Nat.div_le_div_right (Nat.le_trans (Nat.sub_le ..) ha.2.1)
      exact (Nat.le_div_iff_mul_le hn).mp (Nat.lt_of_le_of_ne hle hne)

/-- One step, in a run that drops no future while it waits. -/
theorem inv_next {l : Label W} (hn : 0 < n) (hi : s.Inv n) (hc : s.KeepsWaits l)
    (h : s.next l = some s') (hgen : s'.arrived / n < 2 ^ 64) : s'.Inv n := by
  -- a future that does not wait comes or goes
  have hmove : ∀ {f : Ptr} {x : Option (Option Arrived × Stage)},
      (∀ k, s.futs f ≠ some (k, .suspended)) → (∀ k, x ≠ some (k, .suspended)) →
      (x ≠ none → IsAddress f) → Sys.Inv { s with futs := Function.update s.futs f x } n :=
    fun hold hnew haddr => by
      refine ⟨hi.addressed.update haddr, hi.size, hi.count, hi.generation, ?_, hi.log⟩
      exact hi.waits.leave (hi.waits.seated.elsewhere (fun k _ => hold k) fun k _ => hnew k) hnew
        (Nat.le_refl _) (fun y hy _ => ⟨hy, rfl⟩) fun r hr => .inl hr
  cases l with
  | call f =>
      rw [Sys.next] at h
      split at h
      · cases h
      · rename_i hf
        split at h
        · rename_i haddr
          cases h
          exact hmove (fun k hk => by rw [hf] at hk; cases hk) (by simp) fun _ => haddr
        · cases h
  | poll f w =>
      rw [Sys.next] at h
      split at h
      · rename_i k hf
        cases h
        refine pollFirst_inv hn hi hf ?_
        rwa [arrived_pollFirst] at hgen
      · rename_i a hf
        cases h
        exact pollAgain_inv hn hi hf
      · cases h
  | cancel f =>
      rw [Sys.next] at h
      split at h
      · cases h
      · rename_i k hf
        obtain ⟨a, rfl, -⟩ := hi.waits.known f k hf
        exact (hc a hf).elim
      · rename_i x hst hf
        cases h
        refine hmove (fun k hk => ?_) (by simp) fun hne => (hne rfl).elim
        exact hst k (Option.some.inj (hf.symm.trans hk))

/-- Arrivals are counted up. -/
theorem arrived_next {l : Label W} (h : s.next l = some s') : s.arrived ≤ s'.arrived := by
  cases l with
  | call f =>
      rw [Sys.next] at h
      split at h
      · cases h
      · split at h
        · cases h
          exact Nat.le_refl _
        · cases h
  | poll f w =>
      rw [Sys.next] at h
      split at h
      · cases h
        rw [arrived_pollFirst]
        exact Nat.le_succ _
      · cases h
        exact Nat.le_refl s.arrived
      · cases h
  | cancel f =>
      rw [Sys.next] at h
      split at h
      · cases h
      · cases h
        exact Nat.le_refl s.arrived
      · cases h
        exact Nat.le_refl s.arrived

end Steps

/-- In a run of fewer than `2 ^ 64` generations that drops no future while
it waits, the leaders are the arrivals that complete a generation, and
they return at once; the others are released by the leader of their own
generation and return after it has arrived. -/
theorem generations_exact [Target] [WillWake W] {n : Nat} (hn : 0 < n) {s : Sys W}
    (h : ((system n).restrict Sys.KeepsWaits).Reachable s) (hgen : s.arrived / n < 2 ^ 64) :
    s.Exact n := by
  have hi : s.Inv n := by
    refine System.Reachable.of_restrict (P := fun s => s.arrived / n < 2 ^ 64 → s.Inv n)
      ?_ ?_ h hgen
    · rintro s rfl _
      have hq : (Sys.init n : Sys W).queue = [] := Event.queue_new
      refine ⟨?_, rfl, (Nat.zero_mod n).symm, (Nat.zero_div n).symm, ⟨?_, ?_, ?_, ?_⟩, ?_⟩
      · rintro f x ⟨⟩
      · rw [hq]
        exact seated_nil
      · rintro f x ⟨⟩
      · rintro f f' a a' ⟨⟩
      · rw [hq]
        exact fun y hy => (List.not_mem_nil hy).elim
      · refine ⟨fun r hr => (List.not_mem_nil hr).elim, fun k hk hkn => ?_, List.nodup_nil,
          fun r hr => (List.not_mem_nil hr).elim, fun r hr => (List.not_mem_nil hr).elim⟩
        exact absurd (Nat.mul_pos hk hn) (Nat.not_lt_of_le hkn)
    · intro s l s' _ hP hstep hc hgen'
      refine inv_next hn (hP ?_) hc hstep hgen'
      exact Nat.lt_of_le_of_lt (Nat.div_le_div_right (arrived_next hstep)) hgen'
  refine ⟨hi.log, fun f a hf hle => ?_⟩
  obtain ⟨st, hst⟩ := Queue.mem_ids.mp (hi.waits.seated.present trivial hf)
  cases hnot : st.isNotified with
  | true =>
      cases st with
      | created => cases hnot
      | waiting w => cases hnot
      | notified t b => exact ⟨b, (Queue.stateOf_eq_some s.nodup).mpr hst⟩
  | false =>
      have hcur := hi.waits.current _ hst hnot a hf
      have hlt := (Nat.le_div_iff_mul_le hn).mpr hle
      rw [hcur] at hlt
      exact absurd hlt (Nat.not_succ_le_self _)

/-- Two generations of two: the first to arrive is polled again only after
both are complete. -/
def twoGenerations : List (Label Nat) :=
  [.call 1, .poll 1 10, .call 2, .poll 2 11, .call 3, .poll 3 12, .call 4, .poll 4 13, .poll 1 10]

theorem exec_twoGenerations :
    letI := Target.bits64
    (exec Sys.next (.init 2) twoGenerations).map (fun s => (s.arrived, s.returns)) =
      some (4, [⟨2, true, 2, true⟩, ⟨4, true, 4, true⟩, ⟨1, false, 4, false⟩]) := by
  decide

theorem exact_twoGenerations :
    letI := Target.bits64
    ∃ s : Sys Nat, s.arrived = 4 ∧ s.returns.length = 3 ∧ s.Exact 2 := by
  let _ : Target := .bits64
  obtain ⟨s, hrun, hobs⟩ := run_of_observe _ _ _ exec_twoGenerations
  simp only [Prod.mk.injEq] at hobs
  obtain ⟨harr, hret⟩ := hobs
  have hr := hrun.restrict (C := Sys.KeepsWaits) fun x hx => by
    have hl : x.2 ∈ twoGenerations := label_mem_of_execTrace hx
    revert hl
    cases x.2 with
    | cancel f => simp [twoGenerations]
    | _ => exact fun _ => trivial
  exact ⟨s, harr, by rw [hret]; rfl,
    generations_exact (by decide) ⟨_, hr⟩ (by rw [harr]; decide)⟩

end Barrier

end Unsend

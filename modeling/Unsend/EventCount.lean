import Mathlib.Algebra.Group.Int.Defs
import Mathlib.Data.Int.Order.Basic
import Unsend.EventRules

/-!
# Integers as notification counts

`notify_int!` takes an integer of any of the twelve types as a count: a
negative one panics, and any other is cast to `usize`, which keeps its
low bits only. `count_means_iff` states for which counts that is harmless
on an event of which no listener is notified: those that fit in a
`usize`, and those whose low bits are still enough for all listeners.
-/

namespace Unsend

/-- The types that `notify_int!` is called for. -/
inductive IntType where
  | u8 | u16 | u32 | u64 | u128 | usize
  | i8 | i16 | i32 | i64 | i128 | isize
  deriving DecidableEq

namespace IntType

def bits [Target] : IntType → Nat
  | u8 | i8 => 8
  | u16 | i16 => 16
  | u32 | i32 => 32
  | u64 | i64 => 64
  | u128 | i128 => 128
  | usize | isize => Target.pointerWidth

def signed : IntType → Bool
  | i8 | i16 | i32 | i64 | i128 | isize => true
  | _ => false

/-- `MIN`. -/
def min [Target] (ty : IntType) : Int := if ty.signed then -2 ^ (ty.bits - 1) else 0

/-- `MAX`. -/
def max [Target] (ty : IntType) : Int :=
  if ty.signed then 2 ^ (ty.bits - 1) - 1 else 2 ^ ty.bits - 1

/-- A value of the type. -/
structure Value [Target] (ty : IntType) where
  val : Int
  min_le : ty.min ≤ val
  le_max : val ≤ ty.max

end IntType

/-- `self as usize`. -/
def asUsize [Target] (v : Int) : Nat := (v % 2 ^ Target.pointerWidth).toNat

/-- `panic!("negative notification count")`. -/
inductive CountPanic where
  | negativeNotificationCount
  deriving DecidableEq

/-- `into_notification` of an integer. -/
def IntType.Value.intoNotification [Target] {ty : IntType} (self : ty.Value) :
    Except CountPanic (Notification Unit Unit) :=
  if self.val < 0 then .error .negativeNotificationCount else .ok (Notify (asUsize self.val))

namespace Event

variable [Target] {W : Type} {ty : IntType}

/-- `notify(v)` and `notify(v.additional())` notify just as many listeners
as the count says, or all if there are fewer. -/
def CountMeans (e : Event Unit W) (v : ty.Value) : Prop :=
  ∃ n, v.intoNotification = .ok n ∧
    (e.notify n ()).event.queue.numNotified = min v.val.toNat e.queue.length ∧
    (e.notify n.additional ()).event.queue.numNotified = min v.val.toNat e.queue.length

/-- The count is one that `usize` has, or its low bits are at least as
many as there are listeners. -/
def CountKept (e : Event Unit W) (v : ty.Value) : Prop :=
  v.val ≤ usizeMax ∨ e.queue.length ≤ asUsize v.val

end Event

section Count

variable [Target] {W : Type} {ty : IntType}

theorem intoNotification_eq {v : ty.Value} (hv : 0 ≤ v.val) :
    v.intoNotification = .ok (Notify (asUsize v.val)) := if_neg (Int.not_lt.mpr hv)

theorem two_pow_eq_usizeMax : 2 ^ Target.pointerWidth = usizeMax + 1 :=
  (Nat.sub_add_cancel Nat.one_le_two_pow).symm

/-- The cast keeps the low bits. -/
theorem asUsize_eq {v : Int} (hv : 0 ≤ v) : asUsize v = v.toNat % (usizeMax + 1) := by
  obtain ⟨n, rfl⟩ := Int.eq_ofNat_of_zero_le hv
  unfold asUsize
  rw [← two_pow_eq_usizeMax]
  norm_cast

omit [Target] in
/-- Where none is notified, both kinds of notification reach as many. -/
theorem notified_of_none {e : Event Unit W} (hnone : e.queue.numNotified = 0) (k : Nat) :
    (e.notify (Notify k) ()).event.queue.numNotified = min k e.queue.length ∧
      (e.notify (Notify k).additional ()).event.queue.numNotified = min k e.queue.length := by
  have hlen := e.queue.length_eq_add
  rw [hnone, Nat.zero_add] at hlen
  rw [Event.queue_notify, Event.queue_notify, Queue.numNotified_notify, Queue.numNotified_notify,
    hnone, hlen, Nat.zero_add, Nat.zero_add]
  refine ⟨?_, rfl⟩
  show min (k - e.queue.numNotified) _ = _
  rw [hnone, Nat.sub_zero]

omit [Target] in
/-- That a number is cut to its low bits does not show below a bound that
they exceed. -/
theorem min_mod_eq_iff {v m L : Nat} :
    min (v % (m + 1)) L = min v L ↔ v ≤ m ∨ L ≤ v % (m + 1) := by
  rcases Nat.lt_or_ge m v with hlt | hle
  · have hmod : v % (m + 1) < m + 1 := Nat.mod_lt _ (Nat.succ_pos m)
    omega
  · rw [Nat.mod_eq_of_lt (Nat.lt_succ_of_le hle)]
    exact iff_of_true rfl (.inl hle)

theorem countMeans_iff {e : Event Unit W} (hnone : e.queue.numNotified = 0) {v : ty.Value}
    (hv : 0 ≤ v.val) : e.CountMeans v ↔ e.CountKept v := by
  obtain ⟨hplain, hadditional⟩ := notified_of_none hnone (asUsize v.val)
  have hcount : e.CountMeans v ↔
      min (asUsize v.val) e.queue.length = min v.val.toNat e.queue.length := by
    constructor
    · rintro ⟨n, hn, hp, -⟩
      obtain rfl := Except.ok.inj ((intoNotification_eq hv).symm.trans hn)
      exact hplain.symm.trans hp
    · intro h
      exact ⟨_, intoNotification_eq hv, hplain.trans h, hadditional.trans h⟩
  rw [hcount, asUsize_eq hv, min_mod_eq_iff, Event.CountKept, asUsize_eq hv]
  exact or_congr_left (by omega)

/-- A non-negative integer of any type means what it says exactly if it
fits in a `usize` or its low bits are enough for all listeners; and of two
that do, the smaller one never notifies more listeners. -/
theorem count_means_iff (e : Event Unit W) (hnone : e.queue.numNotified = 0) :
    (∀ (ty : IntType) (v : ty.Value), 0 ≤ v.val → (e.CountMeans v ↔ e.CountKept v)) ∧
    ∀ (ty ty' : IntType) (v : ty.Value) (w : ty'.Value), 0 ≤ v.val → v.val ≤ w.val →
      e.CountKept v → e.CountKept w →
        ∃ n m, v.intoNotification = .ok n ∧ w.intoNotification = .ok m ∧
          (e.notify n ()).event.queue.numNotified ≤ (e.notify m ()).event.queue.numNotified := by
  refine ⟨fun ty v hv => countMeans_iff hnone hv, fun ty ty' v w hv hle hkv hkw => ?_⟩
  obtain ⟨n, hn, hcount, -⟩ := (countMeans_iff hnone hv).mpr hkv
  obtain ⟨m, hm, hcount', -⟩ := (countMeans_iff hnone (Int.le_trans hv hle)).mpr hkw
  refine ⟨n, m, hn, hm, ?_⟩
  have hle : v.val.toNat ≤ w.val.toNat := Int.toNat_le_toNat hle
  omega

end Count

/-- Three listeners, and `(1_u128 << 64) + 3`, whose low bits are 3. -/
theorem count_means_lowBits :
    letI := Target.bits64
    let e : Event Unit Nat := ((Event.new.listen 1).listen 2).listen 3
    let two : IntType.u8.Value := ⟨2, by decide, by decide⟩
    let beyond : IntType.u128.Value := ⟨2 ^ 64 + 3, by decide, by decide⟩
    e.CountMeans beyond ∧ ∃ n m, two.intoNotification = .ok n ∧
      beyond.intoNotification = .ok m ∧
      (e.notify n ()).event.queue.numNotified ≤ (e.notify m ()).event.queue.numNotified := by
  let _ : Target := .bits64
  intro e two beyond
  obtain ⟨hmeans, hmono⟩ := count_means_iff e (by decide)
  have hkept : e.CountKept beyond := .inr (by decide)
  exact ⟨(hmeans .u128 beyond (by decide)).mpr hkept,
    hmono .u8 .u128 two beyond (by decide) (by decide) (.inl (by decide)) hkept⟩

/-- `1_u128 << 64` becomes 0 where pointers have 64 bits. -/
theorem count_overflow :
    letI := Target.bits64
    ¬ ∀ (e : Event Unit Nat), e.queue.numNotified = 0 →
      ∀ (ty : IntType) (v : ty.Value), 0 ≤ v.val → e.CountMeans v := by
  let _ : Target := .bits64
  intro h
  have hmeans :=
    h (Event.new.listen 1) (by decide) .u128 ⟨2 ^ 64, by decide, by decide⟩ (by decide)
  rcases (countMeans_iff (by decide) (by decide)).mp hmeans with hfit | hlow
  · revert hfit
    decide
  · revert hlow
    decide

end Unsend

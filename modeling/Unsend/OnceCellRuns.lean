import Unsend.OnceCell

/-!
# Every run of a once cell

What holds in every reachable state: the flag is set exactly while one
call is in its setter, and then the cell is empty; a cell with a value
has notified everybody; on an empty cell that nobody writes, one of the
calls in the list of `active` is notified.

- `cell_written_once`: the cell is written once, and every call returns
  what it should;
- `cell_waiters_notified`: no call waits for ever.
-/

namespace Unsend

namespace OnceCell

variable {T E W : Type}

/-- The call at `f` is inside its setter. -/
def InSetter (futs : Futures (Fut T)) (f : Ptr) : Prop :=
  ∃ fut, futs f = some (fut, .suspended) ∧ fut.site = .setter

/-- The locals of a future, by the place it was left at. -/
def Fut.Ok (fut : Fut T) (stage : Stage) : Prop :=
  stage ≠ .returned →
    match fut.site with
    | .active => fut.setter = true ∧ fut.value = fut.call.given ∧ fut.call ≠ .wait
    | .passive => fut.call = .wait
    | .setter => stage = .suspended ∧ (fut.call = .getOrInit ∨ fut.call = .getOrTryInit)

/-- The calls that are alive; the flag is set while one of them is in its
setter. -/
structure Calls [Target] (futs : Futures (Fut T)) (live : List Ptr) (writing : Bool) : Prop where
  mem : ∀ p, p ∈ live ↔ futs p ≠ none
  nodup : live.Nodup
  address : ∀ p ∈ live, IsAddress p
  fut : ∀ p fut stage, futs p = some (fut, stage) → fut.Ok stage
  writer : ∃ o : Option Ptr, (∀ p, InSetter futs p ↔ o = some p) ∧ writing = o.isSome

/-- The listeners of the two events. -/
structure Lists (c : OnceCell T W) (futs : Futures (Fut T)) : Prop where
  active : Seated futs (fun fut => fut.site = .active) c.active.queue
  passive : Seated futs (fun fut => fut.site = .passive) c.passive.queue
  plain : c.data = none → c.active.queue.Plain
  full : c.data ≠ none → c.active.queue.numWaiting = 0 ∧ c.passive.queue.numWaiting = 0
  served : c.data = none → c.writing = false → 0 < c.active.queue.length →
    0 < c.active.queue.numNotified

structure Inv [Target] (c : OnceCell T W) (futs : Futures (Fut T)) (live : List Ptr) : Prop where
  calls : Calls futs live c.writing
  lists : Lists c futs
  empty : c.writing = true → c.data = none

/-! ## The calls -/

section Calls

variable [Target] {futs : Futures (Fut T)} {live : List Ptr} {writing : Bool} {f : Ptr}
  {fut fut' : Fut T} {stage stage' : Stage}

omit [Target] in
theorem inSetter_update {x : Option (Fut T × Stage)} {p : Ptr} :
    InSetter (Function.update futs f x) p ↔
      if p = f then ∃ fut, x = some (fut, .suspended) ∧ fut.site = .setter
      else InSetter futs p := by
  unfold InSetter
  by_cases hp : p = f
  · rw [if_pos hp, hp, Function.update_self]
  · rw [if_neg hp, Function.update_of_ne hp]

/-- A call that is alive moves on. -/
theorem Calls.put (h : Calls futs live writing) (hf : f ∈ live) (hok : fut.Ok stage)
    {writing' : Bool}
    (hw : ∃ o : Option Ptr, (∀ p, InSetter (Function.update futs f (some (fut, stage))) p ↔
      o = some p) ∧ writing' = o.isSome) :
    Calls (Function.update futs f (some (fut, stage))) live writing' := by
  refine ⟨fun p => ?_, h.nodup, h.address, fun p k st hp => ?_, hw⟩
  · by_cases hp : p = f
    · rw [hp, Function.update_self]
      exact iff_of_true hf (by simp)
    · rw [Function.update_of_ne hp]
      exact h.mem p
  · by_cases hpf : p = f
    · rw [hpf, Function.update_self] at hp
      cases hp
      exact hok
    · rw [Function.update_of_ne hpf] at hp
      exact h.fut p k st hp

/-- A future that is in no setter stays out of it. -/
theorem Calls.writer_keep (h : Calls futs live writing) (hold : ¬ InSetter futs f)
    {x : Option (Fut T × Stage)}
    (hnew : ∀ fut, x = some (fut, .suspended) → fut.site ≠ .setter) :
    ∃ o : Option Ptr, (∀ p, InSetter (Function.update futs f x) p ↔ o = some p) ∧
      writing = o.isSome := by
  obtain ⟨o, ho, hw⟩ := h.writer
  refine ⟨o, fun p => ?_, hw⟩
  rw [inSetter_update]
  split
  · rename_i hp
    subst hp
    refine iff_of_false ?_ fun hp => hold ((ho p).mpr hp)
    rintro ⟨fut, hx, hs⟩
    exact hnew fut hx hs
  · exact ho p

/-- The call whose turn it is to write enters its setter. -/
theorem Calls.writer_enter (h : Calls futs live false) (hs : fut.site = .setter) :
    ∃ o : Option Ptr,
      (∀ p, InSetter (Function.update futs f (some (fut, .suspended))) p ↔ o = some p) ∧
        true = o.isSome := by
  obtain ⟨o, ho, hw⟩ := h.writer
  obtain rfl : o = none := Option.not_isSome_iff_eq_none.mp (by rw [← hw]; simp)
  refine ⟨some f, fun p => ?_, rfl⟩
  rw [inSetter_update]
  split
  · rename_i hp
    exact iff_of_true ⟨fut, rfl, hs⟩ (by rw [hp])
  · rename_i hp
    refine iff_of_false (fun hin => by cases (ho p).mp hin) fun he => hp (Option.some.inj he).symm

/-- The call that was in its setter leaves it. -/
theorem Calls.writer_leave (h : Calls futs live writing) (hold : InSetter futs f)
    {x : Option (Fut T × Stage)}
    (hnew : ∀ fut, x = some (fut, .suspended) → fut.site ≠ .setter) :
    ∃ o : Option Ptr, (∀ p, InSetter (Function.update futs f x) p ↔ o = some p) ∧
      false = o.isSome := by
  obtain ⟨o, ho, -⟩ := h.writer
  obtain rfl := (ho f).mp hold
  refine ⟨none, fun p => ?_, rfl⟩
  rw [inSetter_update]
  refine iff_of_false ?_ (by simp)
  split
  · rintro ⟨fut, hx, hs⟩
    exact hnew fut hx hs
  · rename_i hp
    exact fun hin => hp (Option.some.inj ((ho p).mp hin)).symm

theorem Calls.writing_of_inSetter (h : Calls futs live writing) (hf : InSetter futs f) :
    writing = true := by
  obtain ⟨o, ho, hw⟩ := h.writer
  rw [hw, (ho f).mp hf]
  rfl

theorem Calls.unique (h : Calls futs live writing) {p q : Ptr} (hp : InSetter futs p)
    (hq : InSetter futs q) : p = q := by
  obtain ⟨o, ho, -⟩ := h.writer
  exact Option.some.inj (((ho p).mp hp).symm.trans ((ho q).mp hq))

theorem Calls.exists_of_writing (h : Calls futs live true) : ∃ p, InSetter futs p := by
  obtain ⟨o, ho, hw⟩ := h.writer
  cases o with
  | none => cases hw
  | some p => exact ⟨p, (ho p).mpr rfl⟩

theorem Calls.mem_live (h : Calls futs live writing) (hf : futs f = some (fut, stage)) :
    f ∈ live := (h.mem f).mpr (by rw [hf]; simp)

/-- The future is dropped. -/
theorem Calls.forget (h : Calls futs live writing) {writing' : Bool}
    (hw : ∃ o : Option Ptr, (∀ p, InSetter (Function.update futs f none) p ↔ o = some p) ∧
      writing' = o.isSome) :
    Calls (Function.update futs f none) (live.erase f) writing' := by
  refine ⟨fun p => ?_, h.nodup.erase f, fun p hp => h.address p (List.mem_of_mem_erase hp),
    fun p k st hp => ?_, hw⟩
  · rw [h.nodup.mem_erase_iff]
    by_cases hp : p = f
    · rw [hp, Function.update_self]
      simp
    · rw [Function.update_of_ne hp, h.mem p]
      simp [hp]
  · by_cases hpf : p = f
    · rw [hpf, Function.update_self] at hp
      cases hp
    · rw [Function.update_of_ne hpf] at hp
      exact h.fut p k st hp

omit [Target] in
theorem ok_new (call : Call T) : (Fut.new call).Ok .unresumed := by
  intro _
  cases call with
  | set v => exact ⟨rfl, rfl, by simp [Fut.new]⟩
  | getOrInit => exact ⟨rfl, rfl, by simp [Fut.new]⟩
  | getOrTryInit => exact ⟨rfl, rfl, by simp [Fut.new]⟩
  | wait => rfl

omit [Target] in
theorem ok_returned (fut : Fut T) : fut.Ok .returned := fun h => (h rfl).elim

end Calls

/-! ## The listeners -/

section Lists

variable {c : OnceCell T W} {futs : Futures (Fut T)} {f : Ptr} {fut : Fut T} {stage : Stage}

/-- A future that waits on neither event comes, goes or moves. -/
theorem Lists.elsewhere (h : Lists c futs) {x : Option (Fut T × Stage)}
    (hold : ∀ fut, futs f = some (fut, .suspended) → fut.site = .setter)
    (hnew : ∀ fut, x = some (fut, .suspended) → fut.site = .setter) :
    Lists c (Function.update futs f x) := by
  refine ⟨h.active.elsewhere ?_ ?_, h.passive.elsewhere ?_ ?_, h.plain, h.full, h.served⟩
  · intro k hk hf
    cases hk.symm.trans (hold k hf)
  · intro k hk hx
    cases hk.symm.trans (hnew k hx)
  · intro k hk hf
    cases hk.symm.trans (hold k hf)
  · intro k hk hx
    cases hk.symm.trans (hnew k hx)

/-- The guard of a setter is dropped: one of the calls in the list is
notified, unless one is already. -/
theorem Lists.unwrite (h : Lists c futs) : Lists c.unwrite.1 futs := by
  have hq : c.unwrite.1.active.queue = (c.active.queue.notify (Notify 1) ()).event :=
    Event.queue_notify ..
  refine ⟨?_, h.passive, fun hd => ?_, fun hd => ⟨?_, (h.full hd).2⟩, fun _ _ => ?_⟩
  · rw [hq]
    exact h.active.congr (Queue.ids_notify ..)
  · rw [hq]
    exact (h.plain hd).notify rfl ()
  · rw [hq, Queue.numWaiting_notify, (h.full hd).1]
    exact Nat.zero_sub _
  · rw [hq, Queue.length_notify]
    exact (c.active.queue.notify_one_pos () rfl rfl).mpr

variable [Target]

/-- The data is stored: everybody is notified. -/
theorem Lists.store (h : Lists c futs) (hactive : c.active.queue.length ≤ usizeMax)
    (hpassive : c.passive.queue.length ≤ usizeMax) (data : T) : Lists (c.store data).1 futs := by
  have hq : (c.store data).1.active.queue =
      (c.active.queue.notify (Notify usizeMax).additional ()).event := Event.queue_notify ..
  have hp : (c.store data).1.passive.queue =
      (c.passive.queue.notify (Notify usizeMax).additional ()).event := Event.queue_notify ..
  refine ⟨?_, ?_, fun hd => (by cases hd), fun _ => ⟨?_, ?_⟩, fun hd => (by cases hd)⟩
  · rw [hq]
    exact h.active.congr (Queue.ids_notify ..)
  · rw [hp]
    exact h.passive.congr (Queue.ids_notify ..)
  · rw [hq]
    exact Queue.notify_max _ () rfl hactive
  · rw [hp]
    exact Queue.notify_max _ () rfl hpassive

theorem Calls.length_le {live : List Ptr} {writing : Bool} {here : Fut T → Prop}
    {q : Queue Unit W} (h : Calls futs live writing) (hs : Seated futs here q)
    (hq : q.ids.Nodup) : q.length ≤ usizeMax := by
  refine Queue.length_le_usizeMax hq fun p hp => ?_
  obtain ⟨k, -, hk⟩ := (hs p).mp hp
  exact h.address p (h.mem_live hk)

/-- A call returns from its setter, with what it does to the cell. -/
theorem inv_complete {live : List Ptr} (hcalls : Calls futs live false) (hlists : Lists c futs)
    (result : Except E T) : Inv (c.complete result).1 futs live := by
  cases result with
  | error e =>
      refine ⟨hcalls, hlists.unwrite, ?_⟩
      intro hw
      cases hw
  | ok data =>
      have hactive := hcalls.length_le hlists.active c.active.nodup
      have hpassive := hcalls.length_le hlists.passive c.passive.nodup
      refine ⟨hcalls, (hlists.store hactive hpassive data).unwrite, ?_⟩
      intro hw
      cases hw

end Lists

/-! ## Polls -/

section Polls

variable [WillWake W] {c : OnceCell T W} {futs : Futures (Fut T)} {f : Ptr} {fut : Fut T}
  {stage : Stage} {w : W}

/-- How an attempt of `get_or_try_init` leaves the loop. -/
theorem attempt_some {x y : Cells T} {turn : Turn T}
    (h : getOrTryInit.attempt x = some (turn, y)) :
    (∃ v, turn = .found v ∧ x.data = some v ∧ y = x) ∨
      (turn = .write ∧ x.data = none ∧ x.writing = false ∧
        y = { x with writing := true }) := by
  obtain ⟨writing, data⟩ := x
  cases data with
  | some v =>
      cases h
      exact .inl ⟨v, rfl, rfl, rfl⟩
  | none =>
      cases writing with
      | true => cases h
      | false =>
          cases h
          exact .inr ⟨rfl, rfl, rfl, rfl⟩

theorem attempt_none {x : Cells T} (h : getOrTryInit.attempt x = none) :
    x.data = none ∧ x.writing = true := by
  obtain ⟨writing, data⟩ := x
  cases data with
  | some v => cases h
  | none =>
      cases writing with
      | true => exact ⟨rfl, rfl⟩
      | false => cases h

/-- What one poll of the loop of `get_or_try_init` returns. -/
theorem poll_turn (hs : stage.CanPoll f c.active.queue) :
    let out := getOrTryInit.poll f w stage c.active c.cells
    (out.result = .pending ∧ out.shared = c.cells) ∨
      (∃ v, out.result = .ready (.found v) ∧ c.data = some v ∧ out.shared = c.cells) ∨
      (out.result = .ready .write ∧ c.data = none ∧ c.writing = false ∧
        out.shared = { c.cells with writing := true }) := by
  rcases WaitLoop.poll_attempt (b := getOrTryInit) (w := w) (s := c.cells) (fun _ => rfl) hs with
    h | ⟨a, ha, hr⟩
  · exact .inl h
  · rcases attempt_some ha with ⟨v, rfl, hd, hy⟩ | ⟨rfl, hd, hw, hy⟩
    · exact .inr (.inl ⟨v, hr, hd, hy⟩)
    · exact .inr (.inr ⟨hr, hd, hw, hy⟩)

/-- The listeners after a poll of the loop of `get_or_try_init`; the future
waits on if it is pending, and is on neither event if it is not. -/
theorem Lists.poll (h : Lists c futs) (hf : futs f = some (fut, stage))
    (hsite : fut.site = .active) (hst : stage ≠ .returned) (fut' : Fut T) (stage' : Stage)
    (hgo : let out := getOrTryInit.poll f w stage c.active c.cells
      (out.result = .pending ∧ fut' = fut ∧ stage' = .suspended) ∨
        (out.result ≠ .pending ∧ (stage' = .suspended → fut'.site = .setter))) :
    let out := getOrTryInit.poll f w stage c.active c.cells
    Lists { c with active := out.event, writing := out.shared.writing, data := out.shared.data }
      (Function.update futs f (some (fut', stage'))) := by
  have hs := h.active.canPoll hsite hf hst
  intro out
  have hids := WaitLoop.mem_ids_poll (b := getOrTryInit) (w := w) (s := c.cells) hs
  have hdata : out.shared.data = c.data := by
    rcases poll_turn (w := w) hs with ⟨-, he⟩ | ⟨v, -, -, he⟩ | ⟨-, -, -, he⟩
    · exact congrArg Cells.data he
    · exact congrArg Cells.data he
    · exact congrArg Cells.data he
  refine ⟨?_, ?_, fun hd => ?_, fun hd => ?_, fun hd hw hlen => ?_⟩
  · refine h.active.update (fun r hr => ?_) ?_
    · have := hids r
      rwa [if_neg hr] at this
    · have := hids f
      rw [if_pos rfl] at this
      refine this.trans ?_
      rcases hgo with ⟨hp, rfl, rfl⟩ | ⟨hp, hsett⟩
      · exact iff_of_true hp ⟨fut', hsite, rfl⟩
      · refine iff_of_false hp ?_
        rintro ⟨k, hk, hx⟩
        cases hx
        cases hk.symm.trans (hsett rfl)
  · refine h.passive.elsewhere (fun k hk hf' => ?_) fun k hk hx => ?_
    · cases hf.symm.trans hf'
      cases hk.symm.trans hsite
    · cases hx
      rcases hgo with ⟨-, rfl, -⟩ | ⟨-, hsett⟩
      · cases hk.symm.trans hsite
      · cases hk.symm.trans (hsett rfl)
  · exact (h.plain (hdata.symm.trans hd)).polled (WaitLoop.polled hs)
  · have hd' : c.data ≠ none := fun he => hd (hdata.trans he)
    refine ⟨?_, (h.full hd').2⟩
    rcases WaitLoop.poll_counts (b := getOrTryInit) (w := w) (s := c.cells) (fun _ => rfl) hs with
      ⟨-, -, -, -, h3⟩ | ⟨-, ⟨a, -, h3⟩ | ⟨ha, -⟩⟩
    · exact h3.trans (h.full hd').1
    · exact h3.trans (h.full hd').1
    · exact (hd' (attempt_none ha).1).elim
  · have hd' : c.data = none := hdata.symm.trans hd
    rcases WaitLoop.poll_counts (b := getOrTryInit) (w := w) (s := c.cells) (fun _ => rfl) hs with
      ⟨-, -, h1, h2, h3⟩ | ⟨-, ⟨a, ha, -⟩ | ⟨ha, h1, -⟩⟩
    · have hw' : c.writing = false := (congrArg Cells.writing h1).symm.trans hw
      have hsum := out.event.queue.length_eq_add
      have hsum' := c.active.queue.length_eq_add
      change out.event.queue.numNotified = c.active.queue.numNotified at h2
      change out.event.queue.numWaiting = c.active.queue.numWaiting at h3
      show 0 < out.event.queue.numNotified
      change 0 < out.event.queue.length at hlen
      rw [h2]
      exact h.served hd' hw' (by omega)
    · rcases attempt_some ha with ⟨v, -, hv, -⟩ | ⟨-, -, -, hy⟩
      · cases hd'.symm.trans hv
      · have := (congrArg Cells.writing hy).symm.trans hw
        cases this
    · have := (congrArg Cells.writing h1).symm.trans hw
      cases (attempt_none ha).2.symm.trans this

/-- A poll of `wait` touches the other event only. -/
theorem Lists.poll_wait (h : Lists c futs) (hf : futs f = some (fut, stage))
    (hsite : fut.site = .passive) (hst : stage ≠ .returned) :
    let out := wait.poll f w stage c.passive c.cells
    Lists { c with passive := out.event }
      (Function.update futs f (some (fut, out.result.stage))) ∧
      (out.result = .ready () → c.data ≠ none) := by
  have hs := h.passive.canPoll hsite hf hst
  intro out
  refine ⟨⟨?_, ?_, h.plain, fun hd => ⟨(h.full hd).1, ?_⟩, h.served⟩, fun hready => ?_⟩
  · refine h.active.elsewhere (fun k hk hf' => ?_) fun k hk hx => ?_
    · cases hf.symm.trans hf'
      cases hk.symm.trans hsite
    · cases congrArg Prod.fst (Option.some.inj hx)
      cases hk.symm.trans hsite
  · exact h.passive.poll hsite (WaitLoop.mem_ids_poll hs)
  · rcases WaitLoop.poll_counts (b := wait) (w := w) (s := c.cells) (fun _ => rfl) hs with
      ⟨-, -, -, -, h3⟩ | ⟨-, ⟨a, -, h3⟩ | ⟨ha, -⟩⟩
    · exact h3.trans (h.full hd).2
    · exact h3.trans (h.full hd).2
    · cases hdata : c.data with
      | none => exact (hd hdata).elim
      | some v =>
          change (if c.data.isNone then none else some ((), c.cells)) = none at ha
          rw [hdata] at ha
          cases ha
  · rcases WaitLoop.poll_attempt (b := wait) (w := w) (s := c.cells) (fun _ => rfl) hs with
      ⟨hp, -⟩ | ⟨a, ha, -⟩
    · cases hready.symm.trans hp
    · intro hd
      change (if c.data.isNone then none else some ((), c.cells)) = _ at ha
      rw [hd] at ha
      cases ha

end Polls

/-! ## Cancellation -/

section Cancel

variable {c : OnceCell T W} {futs : Futures (Fut T)} {f : Ptr} {fut : Fut T}

/-- A future that waits on `active` is dropped with its listener. -/
theorem Lists.cancel_active (h : Lists c futs) (hf : futs f = some (fut, .suspended))
    (hsite : fut.site = .active) :
    Lists { c with active := (c.active.drop f).event } (Function.update futs f none) := by
  have hq : (c.active.drop f).event.queue = (c.active.queue.drop f).event := Event.queue_drop ..
  refine ⟨?_, h.passive.elsewhere (fun k hk hf' => ?_) fun k _ => by simp, fun hd => ?_,
    fun hd => ⟨?_, (h.full hd).2⟩, fun hd hw => ?_⟩
  · show Seated _ _ (c.active.drop f).event.queue
    rw [hq]
    exact h.active.drop f
  · cases hf.symm.trans hf'
    cases hk.symm.trans hsite
  · show (c.active.drop f).event.queue.Plain
    rw [hq]
    exact (h.plain hd).drop c.active.nodup f
  · show (c.active.drop f).event.queue.numWaiting = 0
    rw [hq]
    have := Queue.numWaiting_drop_le c.active.nodup f
    rw [(h.full hd).1] at this
    exact Nat.eq_zero_of_le_zero this
  · show 0 < (c.active.drop f).event.queue.length → 0 < (c.active.drop f).event.queue.numNotified
    rw [hq]
    exact (h.plain hd).served_drop c.active.nodup f (h.served hd hw)

theorem Lists.cancel_passive (h : Lists c futs) (hf : futs f = some (fut, .suspended))
    (hsite : fut.site = .passive) :
    Lists { c with passive := (c.passive.drop f).event } (Function.update futs f none) := by
  have hq : (c.passive.drop f).event.queue = (c.passive.queue.drop f).event := Event.queue_drop ..
  refine ⟨h.active.elsewhere (fun k hk hf' => ?_) fun k _ => by simp, ?_, h.plain,
    fun hd => ⟨(h.full hd).1, ?_⟩, h.served⟩
  · cases hf.symm.trans hf'
    cases hk.symm.trans hsite
  · show Seated _ _ (c.passive.drop f).event.queue
    rw [hq]
    exact h.passive.drop f
  · show (c.passive.drop f).event.queue.numWaiting = 0
    rw [hq]
    have := Queue.numWaiting_drop_le c.passive.nodup f
    rw [(h.full hd).2] at this
    exact Nat.eq_zero_of_le_zero this

end Cancel

/-! ## What one step does -/

/-- What one step does to the data and which call it lets return. -/
inductive Effect (s : Sys T E W) (l : Label T E W) (s' : Sys T E W) : Prop
  | quiet (data : s'.cell.data = s.cell.data) (returned : s'.returned = s.returned)
  /-- A call has found the value. -/
  | found (v : T) (r : Return T E) (before : s.cell.data = some v) (data : s'.cell.data = some v)
      (call : (∃ given, r = .set given (.error given)) ∨ r = .getOrInit v ∨
        r = .getOrTryInit (.ok v))
      (returned : s'.returned = s.returned ++ [r])
  | waited (before : s.cell.data ≠ none) (data : s'.cell.data = s.cell.data)
      (returned : s'.returned = s.returned ++ [.wait])
  /-- A call has stored its value. -/
  | stored (v : T) (r : Return T E) (before : s.cell.data = none) (data : s'.cell.data = some v)
      (call : r = .set v (.ok ()) ∨ ((r = .getOrInit v ∨ r = .getOrTryInit (.ok v)) ∧
        ∃ f, l = .setter f (.ok v) ∧ InSetter s.futs f))
      (returned : s'.returned = s.returned ++ [r])
  /-- The setter of a call has failed. -/
  | failed (f : Ptr) (e : E) (label : l = .setter f (.error e))
      (before : s.cell.data = none) (data : s'.cell.data = none) (writing : s'.cell.writing = false)
      (returned : s'.returned = s.returned ++ [.getOrTryInit (.error e)])
  | taken (label : l = .take) (data : s'.cell.data = none) (returned : s'.returned = s.returned)

section Steps

variable {s s' : Sys T E W} {f : Ptr} {fut : Fut T} {stage : Stage}

/-- A call that has found the value returns it, or what it was given. -/
theorem answer_found {r : Return T E} {v : T} (hv : fut.value = fut.call.given)
    (h : fut.answer (.ok v) = some r) :
    (∃ given, r = .set given (.error given)) ∨ r = .getOrInit v ∨
      r = .getOrTryInit (.ok v) := by
  obtain ⟨call, site, setter, value⟩ := fut
  cases call with
  | set given =>
      obtain rfl : value = some given := hv
      exact .inl ⟨given, (Option.some.inj h).symm⟩
  | getOrInit => exact .inr (.inl (Option.some.inj h).symm)
  | getOrTryInit => exact .inr (.inr (Option.some.inj h).symm)
  | wait => cases h

/-- The result of a setter that others may wait for. -/
theorem answer_setter {r : Return T E} {result : Except E T}
    (hcall : fut.call = .getOrInit ∨ fut.call = .getOrTryInit)
    (h : fut.answer result = some r) :
    (∃ v, result = .ok v ∧ (r = .getOrInit v ∨ r = .getOrTryInit (.ok v))) ∨
      (∃ e, result = .error e ∧ r = .getOrTryInit (.error e)) := by
  obtain ⟨call, site, setter, value⟩ := fut
  rcases hcall with rfl | rfl
  · cases result with
    | ok v => exact .inl ⟨v, rfl, .inl (Option.some.inj h).symm⟩
    | error e => cases h
  · cases result with
    | ok v => exact .inl ⟨v, rfl, .inr (Option.some.inj h).symm⟩
    | error e => exact .inr ⟨e, rfl, (Option.some.inj h).symm⟩

/-- The call at `f` is not in its setter. -/
theorem not_inSetter (hf : s.futs f = some (fut, stage)) (hsite : fut.site ≠ .setter) :
    ¬ InSetter s.futs f := by
  rintro ⟨fut', hf', hs⟩
  cases hf.symm.trans hf'
  exact hsite hs

variable [Target] [WillWake W]

omit [WillWake W] in
/-- It is the turn of `f` to write: `set` stores its value at once, the
other calls enter their setters. -/
theorem write_ok (hcalls : Calls s.futs s.live false) (hlive : f ∈ s.live)
    (hnot : ¬ InSetter s.futs f) (hsetter : fut.setter = true)
    (hvalue : fut.value = fut.call.given)
    (hwait : fut.call ≠ .wait) (hdata : s.cell.data = none) {c : OnceCell T W}
    (hc : c.data = none) (hw : c.writing = true)
    (hlists : ∀ fut' stage', (stage' = .suspended → fut'.site = .setter) →
      Lists c (Function.update s.futs f (some (fut', stage')))) (l : Label T E W) (woken : List W) :
    ∃ o, ({ s with cell := c, woken := woken } : Sys T E W).write f fut = .ok o ∧
      ∀ s', o = some s' → Inv s'.cell s'.futs s'.live ∧ Effect s l s' := by
  obtain ⟨call, site, setter, value⟩ := fut
  obtain rfl : setter = true := hsetter
  have hput : ∀ call, (call = .getOrInit ∨ call = .getOrTryInit) → ∀ value : Option T,
      let fut' : Fut T := ⟨call, .setter, false, value⟩
      Inv c (Function.update s.futs f (some (fut', .suspended))) s.live := by
    intro call hcall value fut'
    have hok : fut'.Ok .suspended := fun _ => ⟨rfl, hcall⟩
    refine ⟨?_, hlists fut' _ fun _ => rfl, fun _ => hc⟩
    rw [hw]
    exact hcalls.put hlive hok (hcalls.writer_enter rfl)
  have hquiet : c.data = s.cell.data := hc.trans hdata.symm
  cases call with
  | set v =>
      obtain rfl : value = some v := hvalue
      refine ⟨_, rfl, ?_⟩
      rintro s' ⟨⟩
      refine ⟨inv_complete (E := E) ?_ ?_ (.ok v), .stored v _ hdata rfl (.inl rfl) rfl⟩
      · refine hcalls.put hlive (ok_returned _) (hcalls.writer_keep hnot ?_)
        rintro k ⟨⟩
      · exact hlists _ _ fun h => (by cases h)
  | getOrInit =>
      refine ⟨_, rfl, ?_⟩
      rintro s' ⟨⟩
      exact ⟨hput _ (.inl rfl) _, .quiet hquiet rfl⟩
  | getOrTryInit =>
      refine ⟨_, rfl, ?_⟩
      rintro s' ⟨⟩
      exact ⟨hput _ (.inr rfl) _, .quiet hquiet rfl⟩
  | wait => exact (hwait rfl).elim

/-- One poll of the loop of `get_or_try_init`. -/
theorem settle_ok (hi : Inv s.cell s.futs s.live) (hf : s.futs f = some (fut, stage))
    (hst : stage ≠ .returned) (hsite : fut.site = .active) {l : Label T E W} (w : W) :
    ∃ o, s.settle f fut (getOrTryInit.poll f w stage s.cell.active s.cell.cells) = .ok o ∧
      ∀ s', o = some s' → Inv s'.cell s'.futs s'.live ∧ Effect s l s' := by
  have hlive := hi.calls.mem_live hf
  have hs := hi.lists.active.canPoll hsite hf hst
  have hok := hi.calls.fut f fut stage hf hst
  rw [hsite] at hok
  obtain ⟨hsetter, hvalue, hwait⟩ := hok
  have hnot : ¬ InSetter s.futs f := not_inSetter hf (by rw [hsite]; simp)
  unfold Sys.settle
  rcases poll_turn (w := w) hs with ⟨hr, hsh⟩ | ⟨v, hr, hd, hsh⟩ | ⟨hr, hd, hw, hsh⟩
  · have hlists := hi.lists.poll (w := w) hf hsite hst fut .suspended (.inl ⟨hr, rfl, rfl⟩)
    simp only [hr, hsh] at hlists ⊢
    refine ⟨_, rfl, ?_⟩
    rintro s' ⟨⟩
    refine ⟨⟨?_, hlists, hi.empty⟩, .quiet rfl rfl⟩
    refine hi.calls.put hlive ?_ (hi.calls.writer_keep hnot ?_)
    · intro _
      rw [hsite]
      exact ⟨hsetter, hvalue, hwait⟩
    · rintro k ⟨⟩
      rw [hsite]
      simp
  · have hlists := hi.lists.poll (w := w) hf hsite hst fut .returned
      (.inr ⟨by rw [hr]; simp, fun h => by cases h⟩)
    simp only [hr, hsh] at hlists ⊢
    refine ⟨_, rfl, fun s' hs' => ?_⟩
    obtain ⟨r, hans, rfl⟩ := Option.map_eq_some_iff.mp hs'
    refine ⟨⟨?_, hlists, hi.empty⟩, .found v r hd hd (answer_found hvalue hans) rfl⟩
    refine hi.calls.put hlive (ok_returned fut) (hi.calls.writer_keep hnot ?_)
    rintro k ⟨⟩
  · have hlists := fun fut' stage' h => hi.lists.poll (w := w) hf hsite hst fut' stage'
      (.inr ⟨by rw [hr]; simp, h⟩)
    simp only [hr, hsh] at hlists ⊢
    have hcalls := hi.calls
    rw [hw] at hcalls
    exact write_ok (c := { s.cell with
      active := (getOrTryInit.poll f w stage s.cell.active s.cell.cells).event
      writing := true }) hcalls hlive hnot hsetter hvalue hwait hd hd rfl hlists l _

/-- One poll of `wait`. -/
theorem settleWait_ok (hi : Inv s.cell s.futs s.live) (hf : s.futs f = some (fut, stage))
    (hst : stage ≠ .returned) (hsite : fut.site = .passive) {l : Label T E W} (w : W) :
    let s' := s.settleWait f fut (wait.poll f w stage s.cell.passive s.cell.cells)
    Inv s'.cell s'.futs s'.live ∧ Effect s l s' := by
  have hlive := hi.calls.mem_live hf
  have hok := hi.calls.fut f fut stage hf hst
  rw [hsite] at hok
  have hnot : ¬ InSetter s.futs f := not_inSetter hf (by rw [hsite]; simp)
  obtain ⟨hlists, hready⟩ := hi.lists.poll_wait (w := w) hf hsite hst
  unfold Sys.settleWait
  cases hr : (wait.poll f w stage s.cell.passive s.cell.cells).result with
  | pending =>
      rw [hr] at hlists
      refine ⟨⟨?_, hlists, hi.empty⟩, .quiet rfl rfl⟩
      refine hi.calls.put hlive ?_ (hi.calls.writer_keep hnot ?_)
      · intro _
        rw [hsite]
        exact hok
      · rintro k ⟨⟩
        rw [hsite]
        simp
  | ready u =>
      rw [hr] at hlists
      refine ⟨⟨?_, hlists, hi.empty⟩, .waited (hready hr) rfl rfl⟩
      refine hi.calls.put hlive (ok_returned fut) (hi.calls.writer_keep hnot ?_)
      rintro k ⟨⟩

/-- A future is polled that has not returned. -/
theorem pollFuture_ok (hi : Inv s.cell s.futs s.live) (hf : s.futs f = some (fut, stage))
    (hst : stage ≠ .returned) {l : Label T E W} (w : W) :
    ∃ o, s.pollFuture f fut stage w = .ok o ∧
      ∀ s', o = some s' → Inv s'.cell s'.futs s'.live ∧ Effect s l s' := by
  unfold Sys.pollFuture
  cases hsite : fut.site with
  | active => exact settle_ok hi hf hst hsite w
  | passive =>
      refine ⟨_, rfl, ?_⟩
      rintro s' ⟨⟩
      exact settleWait_ok hi hf hst hsite w
  | setter =>
      refine ⟨_, rfl, ?_⟩
      rintro s' ⟨⟩
      exact ⟨hi, .quiet rfl rfl⟩

omit [WillWake W] in
/-- A setter returns, and with it the call. -/
theorem setter_ok (hi : Inv s.cell s.futs s.live) (hf : s.futs f = some (fut, .suspended))
    (hsite : fut.site = .setter) {result : Except E T}
    (h : s.complete f fut result = some s') :
    Inv s'.cell s'.futs s'.live ∧ Effect s (.setter f result) s' := by
  have hin : InSetter s.futs f := ⟨fut, hf, hsite⟩
  have hok := hi.calls.fut f fut _ hf (by simp)
  rw [hsite] at hok
  have hdata : s.cell.data = none := hi.empty (hi.calls.writing_of_inSetter hin)
  obtain ⟨r, hans, rfl⟩ := Option.map_eq_some_iff.mp h
  refine ⟨inv_complete ?_ ?_ result, ?_⟩
  · refine hi.calls.put (hi.calls.mem_live hf) (ok_returned fut) (hi.calls.writer_leave hin ?_)
    rintro k ⟨⟩
  · refine hi.lists.elsewhere (fun k hk => ?_) fun k hk => by cases hk
    cases hf.symm.trans hk
    exact hsite
  · rcases answer_setter hok.2 hans with ⟨v, rfl, hr⟩ | ⟨e, rfl, rfl⟩
    · exact .stored v r hdata rfl (.inr ⟨hr, f, rfl, hin⟩) rfl
    · exact .failed f e rfl hdata hdata rfl rfl

omit [WillWake W] in
/-- A suspended future is dropped. -/
theorem cancel_ok (hi : Inv s.cell s.futs s.live) (hf : s.futs f = some (fut, .suspended))
    {l : Label T E W} :
    let s' := (s.cancelAt f fut.site).forget f
    Inv s'.cell s'.futs s'.live ∧ Effect s l s' := by
  have hnone : ∀ k : Fut T, (none : Option (Fut T × Stage)) = some (k, .suspended) →
      k.site ≠ .setter := by
    intro k hk
    cases hk
  cases hsite : fut.site with
  | active =>
      have hnot : ¬ InSetter s.futs f := not_inSetter hf (by rw [hsite]; simp)
      exact ⟨⟨hi.calls.forget (hi.calls.writer_keep hnot hnone),
        hi.lists.cancel_active hf hsite, hi.empty⟩, .quiet rfl rfl⟩
  | passive =>
      have hnot : ¬ InSetter s.futs f := not_inSetter hf (by rw [hsite]; simp)
      exact ⟨⟨hi.calls.forget (hi.calls.writer_keep hnot hnone),
        hi.lists.cancel_passive hf hsite, hi.empty⟩, .quiet rfl rfl⟩
  | setter =>
      have hin : InSetter s.futs f := ⟨fut, hf, hsite⟩
      refine ⟨⟨hi.calls.forget (hi.calls.writer_leave hin hnone), ?_,
        fun hw => (by cases hw)⟩, .quiet rfl rfl⟩
      refine Lists.unwrite (hi.lists.elsewhere (fun k hk => ?_) fun k hk => by cases hk)
      cases hf.symm.trans hk
      exact hsite

omit [WillWake W] in
/-- A future is made that has not been polled. -/
theorem call_ok (hi : Inv s.cell s.futs s.live) (hf : s.futs f = none) (haddr : IsAddress f)
    (call : Call T) {l : Label T E W} :
    let s' := { s.put f (.new call) .unresumed with live := f :: s.live }
    Inv s'.cell s'.futs s'.live ∧ Effect s l s' := by
  have hlive : f ∉ s.live := fun hm => (hi.calls.mem f).mp hm hf
  have hnot : ¬ InSetter s.futs f := by
    rintro ⟨fut, hf', -⟩
    cases hf.symm.trans hf'
  refine ⟨⟨⟨fun p => ?_, List.nodup_cons.mpr ⟨hlive, hi.calls.nodup⟩, ?_,
    fun p fut stage hp => ?_,
    hi.calls.writer_keep hnot fun fut hx => ?_⟩, ?_, hi.empty⟩, .quiet rfl rfl⟩
  · show p ∈ f :: s.live ↔ Function.update s.futs f _ p ≠ none
    by_cases hp : p = f
    · rw [hp, Function.update_self]
      exact iff_of_true (List.mem_cons_self ..) (by simp)
    · rw [Function.update_of_ne hp, ← hi.calls.mem p]
      simp [hp]
  · exact List.forall_mem_cons.mpr ⟨haddr, hi.calls.address⟩
  · change Function.update s.futs f _ p = _ at hp
    by_cases hpf : p = f
    · rw [hpf, Function.update_self] at hp
      cases hp
      exact ok_new call
    · rw [Function.update_of_ne hpf] at hp
      exact hi.calls.fut p fut stage hp
  · cases hx
  · refine hi.lists.elsewhere (fun k hk => ?_) fun k hk => by cases hk
    cases hf.symm.trans hk

omit [WillWake W] in
/-- A future is dropped that was not polled or has returned. -/
theorem forget_ok (hi : Inv s.cell s.futs s.live) (hf : s.futs f = some (fut, stage))
    (hst : stage ≠ .suspended) {l : Label T E W} :
    Inv (s.forget f).cell (s.forget f).futs (s.forget f).live ∧ Effect s l (s.forget f) := by
  have hnot : ∀ k, s.futs f ≠ some (k, .suspended) := by
    intro k hk
    cases hf.symm.trans hk
    exact hst rfl
  refine ⟨⟨hi.calls.forget
    (hi.calls.writer_keep (fun ⟨k, hk, _⟩ => hnot k hk) fun k hk => ?_), ?_,
    hi.empty⟩, .quiet rfl rfl⟩
  · cases hk
  · exact hi.lists.elsewhere (fun k hk => (hnot k hk).elim) fun k hk => by cases hk

omit [WillWake W] in
/-- With nobody borrowing the cell its value can be taken. -/
theorem take_ok (hi : Inv s.cell s.futs s.live) (hlive : s.live = []) :
    let s' := { s with cell := { s.cell with data := none } }
    Inv s'.cell s'.futs s'.live ∧ Effect s .take s' := by
  have hempty :
      ∀ {here : Fut T → Prop} {q : Queue Unit W}, Seated s.futs here q → q = [] := by
    intro here q hs
    rcases q with _ | ⟨x, rest⟩
    · rfl
    · obtain ⟨k, -, hk⟩ := (hs x.1).mp (List.mem_cons_self ..)
      have := hi.calls.mem_live hk
      rw [hlive] at this
      cases this
  have hactive := hempty hi.lists.active
  refine ⟨⟨hi.calls, ⟨hi.lists.active, hi.lists.passive, fun _ => ?_, fun hd => (hd rfl).elim,
    fun _ _ hlen => ?_⟩, fun _ => rfl⟩, .taken rfl rfl rfl⟩
  · show s.cell.active.queue.Plain
    rw [hactive]
    exact Queue.plain_nil
  · change 0 < s.cell.active.queue.length at hlen
    rw [hactive] at hlen
    cases hlen

/-- No step panics; the invariant holds after it, and its effect is one of
those `Effect` lists. -/
theorem attempt_ok (hi : Inv s.cell s.futs s.live) (l : Label T E W) :
    ∃ o, s.attempt l = .ok o ∧
      ∀ s', o = some s' → Inv s'.cell s'.futs s'.live ∧ Effect s l s' := by
  have hno : ∃ o, (.ok none : Except Fault (Option (Sys T E W))) = .ok o ∧
      ∀ s', o = some s' → Inv s'.cell s'.futs s'.live ∧ Effect s l s' :=
    ⟨none, rfl, fun s' h => by cases h⟩
  cases l with
  | call f call =>
      cases hf : s.futs f with
      | some x => simpa only [Sys.attempt, hf] using hno
      | none =>
          by_cases haddr : IsAddress f
          · simp only [Sys.attempt, hf, if_pos haddr]
            refine ⟨_, rfl, ?_⟩
            rintro s' ⟨⟩
            exact call_ok hi hf haddr call
          · simpa only [Sys.attempt, hf, if_neg haddr] using hno
  | poll f w =>
      rcases hf : s.futs f with _ | ⟨fut, stage⟩
      · simpa only [Sys.attempt, hf] using hno
      · cases stage with
        | unresumed =>
            simp only [Sys.attempt, hf]
            exact pollFuture_ok hi hf (by simp) w
        | suspended =>
            simp only [Sys.attempt, hf]
            exact pollFuture_ok hi hf (by simp) w
        | returned => simpa only [Sys.attempt, hf] using hno
  | setter f result =>
      rcases hf : s.futs f with _ | ⟨fut, stage⟩
      · simpa only [Sys.attempt, hf] using hno
      · cases stage with
        | unresumed => simpa only [Sys.attempt, hf] using hno
        | returned => simpa only [Sys.attempt, hf] using hno
        | suspended =>
            by_cases hsite : fut.site = .setter
            · simp only [Sys.attempt, hf, if_pos hsite]
              exact ⟨_, rfl, fun s' h => setter_ok hi hf hsite h⟩
            · simpa only [Sys.attempt, hf, if_neg hsite] using hno
  | cancel f =>
      rcases hf : s.futs f with _ | ⟨fut, stage⟩
      · simpa only [Sys.attempt, hf] using hno
      · cases stage with
        | suspended =>
            simp only [Sys.attempt, hf]
            refine ⟨_, rfl, ?_⟩
            rintro s' ⟨⟩
            exact cancel_ok hi hf
        | unresumed =>
            simp only [Sys.attempt, hf]
            refine ⟨_, rfl, ?_⟩
            rintro s' ⟨⟩
            exact forget_ok hi hf (by simp)
        | returned =>
            simp only [Sys.attempt, hf]
            refine ⟨_, rfl, ?_⟩
            rintro s' ⟨⟩
            exact forget_ok hi hf (by simp)
  | take =>
      by_cases hlive : s.live = []
      · simp only [Sys.attempt, if_pos hlive]
        refine ⟨_, rfl, ?_⟩
        rintro s' ⟨⟩
        exact take_ok hi hlive
      · simpa only [Sys.attempt, if_neg hlive] using hno

end Steps

theorem inv_reachable [Target] [WillWake W] {data : Option T} {s : Sys T E W}
    (h : (system data).Reachable s) : Inv s.cell s.futs s.live := by
  refine h.invariant (I := fun s => Inv s.cell s.futs s.live) ?_ fun s l s' hi hs => ?_
  · rintro s rfl
    have hq : (Event.new : Event Unit W).queue = [] := Event.queue_new
    refine ⟨⟨fun p => by simp [Sys.init], List.nodup_nil, fun p hp => (by cases hp),
      fun p fut stage hp => (by cases hp), none, fun p => ?_, rfl⟩,
      ⟨?_, ?_, fun _ => ?_, fun _ => ⟨?_, ?_⟩, fun _ _ hlen => ?_⟩, fun hw =>
        (by cases hw)⟩
    · refine iff_of_false ?_ (by simp)
      rintro ⟨fut, hf, -⟩
      cases hf
    · show Seated _ _ (Event.new : Event Unit W).queue
      rw [hq]
      exact seated_nil
    · show Seated _ _ (Event.new : Event Unit W).queue
      rw [hq]
      exact seated_nil
    · show (Event.new : Event Unit W).queue.Plain
      rw [hq]
      exact Queue.plain_nil
    · show (Event.new : Event Unit W).queue.numWaiting = 0
      rw [hq]
      rfl
    · show (Event.new : Event Unit W).queue.numWaiting = 0
      rw [hq]
      rfl
    · change 0 < (Event.new : Event Unit W).queue.length at hlen
      rw [hq] at hlen
      cases hlen
  · obtain ⟨o, ho, hfacts⟩ := attempt_ok hi l
    change s.next l = some s' at hs
    unfold Sys.next at hs
    rw [ho] at hs
    exact (hfacts s' hs).1

/-! ## The cell is written once -/

namespace Sys

variable [Target] [WillWake W]

/-- What the step `l` from `s` to `s'` says about a call that it lets
return. -/
def Returns (s : Sys T E W) (l : Label T E W) (s' : Sys T E W) : Return T E → Prop
  | .set given (.ok ()) => s.cell.data = none ∧ s'.cell.data = some given
  | .set given (.error value) =>
      value = given ∧ s.cell.data ≠ none ∧ s'.cell.data = s.cell.data
  | .getOrInit value => s'.cell.data = some value
  | .getOrTryInit (.ok value) => s'.cell.data = some value
  | .getOrTryInit (.error e) =>
      (∃ f, l = .setter f (.error e)) ∧ s'.cell.data = none ∧ s'.cell.writing = false
  | .wait => s'.cell.data ≠ none

/-- The cell is written once: one call at most is in its setter, and the
flag says so; a value is stored on an empty cell only, by a call that
returns it, and stays; calls return what they should, and none panics. -/
structure WrittenOnce (s : Sys T E W) : Prop where
  one : ∀ p q, InSetter s.futs p → InSetter s.futs q → p = q
  writing : s.cell.writing = true ↔ ∃ p, InSetter s.futs p
  noPanic : ∀ l e, s.attempt l ≠ .error e
  kept : ∀ l s' v, s.next l = some s' → l ≠ .take → s.cell.data = some v →
    s'.cell.data = some v
  stored : ∀ l s' v, s.next l = some s' → s.cell.data = none → s'.cell.data = some v →
    s'.returned = s.returned ++ [.set v (.ok ())] ∨
      ∃ f, l = .setter f (.ok v) ∧ InSetter s.futs f
  returns : ∀ l s' r, s.next l = some s' → s'.returned = s.returned ++ [r] → s.Returns l s' r

end Sys

section Written

variable [Target] [WillWake W] {s s' : Sys T E W} {l : Label T E W}

theorem next_effect (hi : Inv s.cell s.futs s.live) (h : s.next l = some s') : Effect s l s' := by
  obtain ⟨o, ho, hfacts⟩ := attempt_ok hi l
  unfold Sys.next at h
  rw [ho] at h
  exact (hfacts s' h).2

omit [WillWake W] [Target] in
theorem Effect.kept (h : Effect s l s') (hl : l ≠ .take) {v : T} (hv : s.cell.data = some v) :
    s'.cell.data = some v := by
  cases h with
  | quiet hd _ => exact hd.trans hv
  | found u r hb hd _ _ => exact hd.trans (hb.symm.trans hv)
  | waited _ hd _ => exact hd.trans hv
  | stored u r hb _ _ _ => cases hb.symm.trans hv
  | failed f e _ hb _ _ _ => cases hb.symm.trans hv
  | taken hl' _ _ => exact (hl hl').elim

omit [WillWake W] [Target] in
theorem Effect.stores (h : Effect s l s') (hb : s.cell.data = none) {v : T}
    (hv : s'.cell.data = some v) :
    s'.returned = s.returned ++ [.set v (.ok ())] ∨
      ∃ f, l = .setter f (.ok v) ∧ InSetter s.futs f := by
  cases h with
  | quiet hd _ => cases (hd.trans hb).symm.trans hv
  | found u r hb' _ _ _ => cases hb.symm.trans hb'
  | waited hb' _ _ => exact (hb' hb).elim
  | stored u r _ hd hcall hr =>
      cases hd.symm.trans hv
      rcases hcall with rfl | ⟨-, f, hl, hin⟩
      · exact .inl hr
      · exact .inr ⟨f, hl, hin⟩
  | failed f e _ _ hd _ _ => cases hd.symm.trans hv
  | taken _ hd _ => cases hd.symm.trans hv

omit [WillWake W] [Target] in
/-- A step lets one call return at most, as `Effect` says. -/
theorem Effect.returns (h : Effect s l s') {r : Return T E}
    (hr : s'.returned = s.returned ++ [r]) : s.Returns l s' r := by
  have hlast : ∀ r', s'.returned = s.returned ++ [r'] → r' = r := by
    intro r' hr'
    have := List.append_cancel_left (hr'.symm.trans hr)
    exact List.head_eq_of_cons_eq this
  have hnone : s'.returned ≠ s.returned := by
    intro hr'
    have := congrArg List.length (hr'.symm.trans hr)
    rw [List.length_append] at this
    simp at this
  cases h with
  | quiet _ hr' => exact (hnone hr').elim
  | found v r' hb hd hcall hr' =>
      obtain rfl := hlast r' hr'
      rcases hcall with ⟨given, rfl⟩ | rfl | rfl
      · exact ⟨rfl, by rw [hb]; simp, hd.trans hb.symm⟩
      · exact hd
      · exact hd
  | waited hb hd hr' =>
      obtain rfl := hlast _ hr'
      exact fun hn => hb (hd.symm.trans hn)
  | stored v r' hb hd hcall hr' =>
      obtain rfl := hlast r' hr'
      rcases hcall with rfl | ⟨rfl | rfl, -⟩
      · exact ⟨hb, hd⟩
      · exact hd
      · exact hd
  | failed f e hl _ hd hw hr' =>
      obtain rfl := hlast _ hr'
      exact ⟨⟨f, hl⟩, hd, hw⟩
  | taken _ _ hr' => exact (hnone hr').elim

theorem cell_written_once {data : Option T} (h : (system data).Reachable s) :
    s.WrittenOnce := by
  have hi := inv_reachable h
  have hcalls := hi.calls
  refine ⟨fun p q => hcalls.unique,
    ⟨fun hw => ?_, fun ⟨p, hp⟩ => hcalls.writing_of_inSetter hp⟩,
    fun l e he => ?_, fun l s' v hs hl hv => (next_effect hi hs).kept hl hv,
    fun l s' v hs hb hv => (next_effect hi hs).stores hb hv,
    fun l s' r hs hr => (next_effect hi hs).returns hr⟩
  · rw [hw] at hcalls
    exact hcalls.exists_of_writing
  · obtain ⟨o, ho, -⟩ := attempt_ok hi l
    cases ho.symm.trans he

end Written

/-- A call whose setter fails, and a `set` that waits for it. -/
def failsThenSet : List (Label Nat Unit Nat) :=
  [.call 1 .getOrTryInit, .call 2 (.set 5), .poll 1 10, .poll 2 11, .setter 1 (.error ()),
    .poll 2 11]

theorem exec_failsThenSet :
    letI := Target.bits64
    (exec Sys.next (.init none) failsThenSet).map
      (fun s => (s.cell.writing, s.cell.data, s.returned.length)) = some (false, some 5, 2) := by
  decide

theorem written_failsThenSet :
    letI := Target.bits64
    ∃ s : Sys Nat Unit Nat, s.cell.data = some 5 ∧ s.WrittenOnce := by
  let _ : Target := .bits64
  obtain ⟨s, hrun, hobs⟩ := run_of_observe _ _ _ exec_failsThenSet
  simp only [Prod.mk.injEq] at hobs
  exact ⟨s, hobs.2.1, cell_written_once ⟨_, hrun⟩⟩

/-! ## Nobody waits for ever -/

/-- The listener at `f` is in the notified state. -/
def Notified (e : Event Unit W) (f : Ptr) : Prop :=
  ∃ t b, e.queue.stateOf f = some (.notified t b)

/-- Beside a value everybody in the lists is notified; beside an empty cell
that nobody writes, one of the calls in the list of `active`. -/
structure Sys.WaitersNotified (s : Sys T E W) : Prop where
  active : s.cell.data ≠ none → ∀ f ∈ s.cell.active.queue.ids, Notified s.cell.active f
  passive : s.cell.data ≠ none → ∀ f ∈ s.cell.passive.queue.ids, Notified s.cell.passive f
  taken : s.cell.data = none → (∀ f, ¬ InSetter s.futs f) →
    (∃ f, f ∈ s.cell.active.queue.ids) →
    ∃ f ∈ s.cell.active.queue.ids, Notified s.cell.active f

theorem cell_waiters_notified [Target] [WillWake W] {data : Option T} {s : Sys T E W}
    (h : (system data).Reachable s) : s.WaitersNotified := by
  have hi := inv_reachable h
  refine ⟨fun hd f hf => ?_, fun hd f hf => ?_, fun hd hnone hex => ?_⟩
  · exact Queue.notified_of_mem s.cell.active.nodup (hi.lists.full hd).1 hf
  · exact Queue.notified_of_mem s.cell.passive.nodup (hi.lists.full hd).2 hf
  · have hw : s.cell.writing = false := by
      by_contra hw
      have hcalls := hi.calls
      rw [eq_true_of_ne_false hw] at hcalls
      obtain ⟨p, hp⟩ := hcalls.exists_of_writing
      exact hnone p hp
    obtain ⟨f, hf⟩ := hex
    refine Queue.exists_notified s.cell.active.nodup (hi.lists.served hd hw ?_)
    rw [← Queue.length_ids]
    exact List.length_pos_of_mem hf

/-- Two calls wait for a third one, whose setter is cancelled, and the
notified one is cancelled too. -/
def setterCancelled : List (Label Nat Unit Nat) :=
  [.call 1 .getOrInit, .call 2 .getOrInit, .call 3 (.set 5), .poll 1 10, .poll 2 11, .poll 3 12,
    .cancel 1, .cancel 2]

theorem exec_setterCancelled :
    letI := Target.bits64
    (exec Sys.next (.init none) setterCancelled).map
      (fun s => (s.cell.active.queue.numNotified, s.woken)) = some (1, [11, 12]) := by
  decide

theorem waiters_setterCancelled :
    letI := Target.bits64
    ∃ s : Sys Nat Unit Nat, s.woken = [11, 12] ∧ s.WaitersNotified := by
  let _ : Target := .bits64
  obtain ⟨s, hrun, hobs⟩ := run_of_observe _ _ _ exec_setterCancelled
  simp only [Prod.mk.injEq] at hobs
  exact ⟨s, hobs.2, cell_waiters_notified ⟨_, hrun⟩⟩

end OnceCell

end Unsend

import Unsend.EventRules

/-!
# Lists of listeners, step by step

What a step of a component does to one of its lists: it may poll one
future, notify some of the listeners, and drop others. `Carries` says what
all these have in common. Whoever is in the list was there before or is
polled by the step, and a list whose listeners are all told of their
notifications (`Tracked`) remains one.
-/

namespace Unsend

namespace Queue

variable {T σ W : Type} [WillWake W] {q q' q'' : Queue T W} {polled : Option (Ptr × W)}
  {new new' : List W} {p : Ptr} {w : W}

/-- The latest polls after a step that may poll a future, by which time
`n` wakers have been woken. -/
def markPolled (latest : Ptr → Option (W × Nat)) (n : Nat) :
    Option (Ptr × W) → Ptr → Option (W × Nat)
  | none => latest
  | some (p, w) => Function.update latest p (some (w, n))

/-- `q'` is left of `q` by a step that polls `polled` and wakes `new`. -/
structure Carries (q : Queue T W) (polled : Option (Ptr × W)) (new : List W) (q' : Queue T W) :
    Prop where
  tracked : ∀ log latest, q.Tracked log latest →
    q'.Tracked (log ++ new) (markPolled latest log.length polled)
  ids : ∀ p ∈ q'.ids, p ∈ q.ids ∨ ∃ w, polled = some (p, w)
  /-- Who waits has waited before, or is polled. -/
  waiting :
    ∀ p w, (p, .waiting w) ∈ q' → (p, .waiting w) ∈ q ∨ ∃ w, polled = some (p, w)

theorem carries_more (q : Queue T W) (new : List W) : q.Carries none new q where
  tracked _ _ h := h.mono (fun _ hx => hx) new
  ids _ h := .inl h
  waiting _ _ h := .inl h

theorem carries_elsewhere (hp : p ∉ q.ids) : q.Carries (some (p, w)) [] q where
  tracked log latest h := by
    rw [List.append_nil]
    exact h.elsewhere hp _
  ids _ h := .inl h
  waiting _ _ h := .inl h

theorem carries_polled (h : q.Polled p w q') : q.Carries (some (p, w)) [] q' where
  tracked log latest ht := by
    rw [List.append_nil]
    exact ht.polled h
  ids r hr := by
    obtain ⟨st, hm⟩ := mem_ids.mp hr
    rcases h _ hm with ⟨hm, -⟩ | ⟨w', -, he⟩
    · exact .inl (mem_ids_of_mem hm)
    · cases he
      exact .inr ⟨w, rfl⟩
  waiting r w' hm := by
    rcases h _ hm with ⟨hm, -⟩ | ⟨w', -, he⟩
    · exact .inl hm
    · cases he
      exact .inr ⟨w, rfl⟩

theorem carries_notify (q : Queue T W) (n : Notification σ T) (s : σ) :
    q.Carries none (q.notify n s).woken (q.notify n s).event where
  tracked _ _ h := h.notify n s
  ids _ h := .inl (by rwa [ids_notify] at h)
  waiting p w h := by
    rcases mem_notify h with h | ⟨x, -, -, ⟨t, he⟩, -⟩
    · exact .inl h
    · cases he

theorem carries_drop (q : Queue T W) (p : Ptr) :
    q.Carries none (q.drop p).woken (q.drop p).event where
  tracked _ _ h := h.drop p
  ids r h := .inl (by
    rw [ids_drop] at h
    exact (mem_ids_erase.mp h).1)
  waiting r w h := by
    rcases mem_drop h with ⟨h, -⟩ | ⟨x, -, -, -, ⟨t, b, t', -, he⟩, -⟩
    · exact .inl h
    · cases he

theorem Carries.trans (h : q.Carries polled new q') (h' : q'.Carries none new' q'') :
    q.Carries polled (new ++ new') q'' where
  tracked log latest ht := by
    have := h'.tracked _ _ (h.tracked log latest ht)
    rwa [List.append_assoc] at this
  ids p hp := by
    rcases h'.ids p hp with hp | ⟨w, hw⟩
    · exact h.ids p hp
    · cases hw
  waiting p w hp := by
    rcases h'.waiting p w hp with hp | ⟨w', hw⟩
    · exact h.waiting p w hp
    · cases hw

/-! ## Who is woken -/

omit [WillWake W] in
theorem waiting_of_wakers {k : Nat} (h : w ∈ q.wakers k) : ∃ p, (p, .waiting w) ∈ q := by
  obtain ⟨⟨p, st⟩, hx, hw⟩ := List.mem_flatMap.mp h
  have hm := (List.mem_filter.mp (List.mem_of_mem_take hx)).1
  cases st with
  | waiting w' =>
      obtain rfl := List.mem_singleton.mp hw
      exact ⟨p, hm⟩
  | created => cases hw
  | notified t b => cases hw

omit [WillWake W] in
/-- Only wakers in the list are woken. -/
theorem waiting_of_notify {n : Notification σ T} {s : σ} (h : w ∈ (q.notify n s).woken) :
    ∃ p, (p, .waiting w) ∈ q := waiting_of_wakers h

omit [WillWake W] in
theorem waiting_of_drop (h : w ∈ (q.drop p).woken) : ∃ r, (r, .waiting w) ∈ q := by
  unfold drop at h
  split at h
  · cases h
  · unfold pass at h
    split at h
    · cases h
    · obtain ⟨r, hm⟩ := waiting_of_wakers h
      exact ⟨r, (mem_erase.mp hm).1⟩
  · cases h

/-! ## Several lists -/

/-- A component's lists before and after a step, which wakes only some of
those that wait in them. -/
structure Carried {Site : Type} (q : Site → Queue T W) (polled : Option (Ptr × W)) (new : List W)
    (q' : Site → Queue T W) : Prop where
  carries : ∀ site, (q site).Carries polled new (q' site)
  woken : ∀ w ∈ new, ∃ site p, (p, .waiting w) ∈ q site

section Carried

variable {Site : Type} {q q' q'' : Site → Queue T W}

theorem carried_rest (h : ∀ m, q' m = q m) : Carried q none [] q' where
  carries m := by
    rw [h]
    exact carries_more (q m) []
  woken w hw := (List.not_mem_nil hw).elim

theorem carried_still {log log' : List W} (hlog : log' = log) (h : ∀ m, q' m = q m) :
    ∃ new, log' = log ++ new ∧ Carried q none new q' :=
  ⟨[], by rw [hlog, List.append_nil], carried_rest h⟩

theorem carried_elsewhere (h : ∀ m, q' m = q m) (hp : ∀ m, p ∉ (q m).ids) :
    Carried q (some (p, w)) [] q' where
  carries m := by
    rw [h]
    exact carries_elsewhere (hp m)
  woken w hw := (List.not_mem_nil hw).elim

theorem carried_polled (site : Site) (h : (q site).Polled p w (q' site))
    (hrest : ∀ m, m ≠ site → q' m = q m ∧ p ∉ (q m).ids) :
    Carried q (some (p, w)) [] q' where
  carries m := by
    by_cases hm : m = site
    · rw [hm]
      exact carries_polled h
    · obtain ⟨hq, hp⟩ := hrest m hm
      rw [hq]
      exact carries_elsewhere hp
  woken w hw := (List.not_mem_nil hw).elim

theorem carried_notify (site : Site) (n : Notification σ T) (s : σ)
    (hnew : new = ((q site).notify n s).woken) (h : q' site = ((q site).notify n s).event)
    (hrest : ∀ m, m ≠ site → q' m = q m) : Carried q none new q' where
  carries m := by
    by_cases hm : m = site
    · rw [hm, h, hnew]
      exact carries_notify ..
    · rw [hrest m hm]
      exact carries_more ..
  woken w hw := ⟨site, waiting_of_notify (hnew ▸ hw)⟩

theorem carried_drop (site : Site) (hnew : new = ((q site).drop p).woken)
    (h : q' site = ((q site).drop p).event) (hrest : ∀ m, m ≠ site → q' m = q m) :
    Carried q none new q' where
  carries m := by
    by_cases hm : m = site
    · rw [hm, h, hnew]
      exact carries_drop ..
    · rw [hrest m hm]
      exact carries_more ..
  woken w hw := ⟨site, waiting_of_drop (hnew ▸ hw)⟩

/-- A step that polls nobody goes on after one that wakes nobody, or polls
nobody either. -/
theorem Carried.trans (h : Carried q polled new q') (h' : Carried q' none new' q'')
    (hw : polled = none ∨ ∀ w ∈ new', ∃ site p, (p, .waiting w) ∈ q site) :
    Carried q polled (new ++ new') q'' where
  carries m := (h.carries m).trans (h'.carries m)
  woken w hm := by
    rcases List.mem_append.mp hm with hm | hm
    · exact h.woken w hm
    · rcases hw with rfl | hw
      · obtain ⟨m, p, hp⟩ := h'.woken w hm
        rcases (h.carries m).waiting p w hp with hp | ⟨w', he⟩
        · exact ⟨m, p, hp⟩
        · cases he
      · exact hw w hm

end Carried

end Queue

end Unsend

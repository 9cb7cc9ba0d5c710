import NanoJS.Events.Removal

/-!
# What every emit does

`tally` reads what happens at an emitter. Whatever the listeners do while they are called, an emit
returns `true` exactly if a listener was ever registered for its event, also when none is left; it
calls listeners that are registered for its event, later registrations after earlier ones, none
twice, and not more than there were when it began. When it returns, it has missed at most as many of
the entries that there were when it began as entries of its event have been removed meanwhile; calls
of entries that were registered since do not count. A removal removes an entry of the listener or of
one with its text, if there is one, and nothing but entries of its event.

Every run of an emitter is accepted (`emit_tally`).
-/

namespace NanoJS

open LiveIteration EventEmitter

variable {V : Type*}

/-! ## `App.js` -/

/-- `listenerCount` -/
def EventEmitter.listenerCount (eventName : PropertyKey) (s : EventEmitter V) : ℕ :=
  match s.listener eventName with
  | some events => events.length
  | none => 0

/-- `rawListners` -/
def EventEmitter.rawListners (eventName : PropertyKey) (s : EventEmitter V) : List Registration :=
  match s.listener eventName with
  | some events => events
  | none => []

/-! ## What happens -/

/-- An emit in progress: the numbers of its entries and of all registrations when it began, how many
entries it has called and how many of them were there when it began, how many entries of its event
have been removed since, and the first registration that it may call yet. -/
structure Tally (V : Type*) where
  eventName : PropertyKey
  args : List V
  length : ℕ
  born : ℕ
  called : ℕ
  served : ℕ
  removed : ℕ
  after : ℕ

/-- A listener is called. -/
def Tally.call [DecidableEq V] (r : Registration) (args : List V) (t : Tally V) :
    Option (Tally V) :=
  if r.eventName = t.eventName ∧ t.after ≤ r.id ∧ args = r.passes t.args ∧ t.called < t.length then
    some { t with
      called := t.called + 1
      served := if r.id < t.born then t.served + 1 else t.served
      after := r.id + 1 }
  else none

/-- The listener was the last to be called. -/
def Tally.Last (r : Registration) (t : Tally V) : Bool := 0 < t.called ∧ t.after = r.id + 1

/-- Entries of an event are removed. -/
def Tally.strike (eventName : PropertyKey) (gone : List Registration) (t : Tally V) : Tally V :=
  if t.eventName = eventName then { t with removed := t.removed + gone.length } else t

/-- The arrays of entries, and the emits in progress. -/
structure Tallies (V : Type*) where
  registered : PropertyKey → Option (List Registration)
  count : ℕ
  emits : List (Tally V)

namespace Tallies

/-- The entries of an event. -/
def entries (q : Tallies V) (eventName : PropertyKey) : List Registration :=
  (q.registered eventName).getD []

/-- Entries of an event are removed, one at least if one of them is `matching`. -/
def strike (eventName : PropertyKey) (gone : List Registration) (matching : Registration → Bool)
    (q : Tallies V) : Option (Tallies V) :=
  if gone ⊆ q.entries eventName ∧ ((q.entries eventName).any matching → gone ≠ []) then
    some { q with
      registered := fun e => (q.registered e).map (·.filter (· ∉ gone))
      emits := q.emits.map (Tally.strike eventName gone) }
  else none

/-- What may happen next. -/
def next [DecidableEq V] (q : Tallies V) : EmitterEvent V → Option (Tallies V)
  | .registered r =>
    if r.id = q.count then
      some { q with
        registered := Function.update q.registered r.eventName (some (q.entries r.eventName ++ [r]))
        count := q.count + 1 }
    else none
  | .removed eventName listener gone =>
    q.strike eventName gone fun r => r.listener = listener ∧ r.once = false
  | .refused eventName => if q.registered eventName = none then some q else none
  | .began eventName args =>
    (q.registered eventName).map fun l =>
      { q with emits := ⟨eventName, args, l.length, q.count, 0, 0, 0, 0⟩ :: q.emits }
  | .called r args =>
    if r ∈ q.entries r.eventName then
      (Monitor.innermost (Tally.call r args) q.emits).map fun emits => { q with emits := emits }
    else none
  | .returned r =>
    (Monitor.innermost (fun t => if t.Last r then some t else none) q.emits).map
      fun emits => { q with emits := emits }
  | .fired r gone =>
    (Monitor.innermost (fun t => if t.Last r then some t else none) q.emits).bind
      fun emits => { q with emits := emits }.strike r.eventName gone (· = r)
  | .ended result =>
    (Monitor.leave (fun t => result = true ∧ t.length ≤ t.served + t.removed) q.emits).map
      fun emits => { q with emits := emits }
  | .aborted r =>
    (Monitor.leave (fun t => t.Last r) q.emits).map fun emits => { q with emits := emits }

end Tallies

/-- **The tally.** -/
def tally (V : Type*) [DecidableEq V] : Monitor (EmitterEvent V) (Tallies V) where
  start := ⟨fun _ => none, 0, []⟩
  next := Tallies.next

/-! ## An emit in progress -/

variable {text : ℕ → JSString} {s s' : EventEmitter V} {f : Emit V} {t : Tally V}
  {l : List Registration} {r : Registration} {n : ℕ}

/-- What is known of an emit over the entries `l`, after `n` registrations. -/
structure Tallied (l : List Registration) (n : ℕ) (f : Emit V) (t : Tally V) : Prop where
  eventName : t.eventName = f.eventName
  args : t.args = f.args
  length : t.length = f.length
  visits : Visits Registration.id t.born l f.next f.length t.called t.served t.removed t.after
  after_le : t.after ≤ n
  current : ∀ r, f.current = some r → t.Last r = true

namespace Tallied

theorem start (eventName : PropertyKey) (args : List V) (hfresh : ∀ r ∈ l, r.id < n) :
    Tallied l n ⟨eventName, args, l.length, 0, none, n⟩
      ⟨eventName, args, l.length, n, 0, 0, 0, 0⟩ :=
  ⟨rfl, rfl, rfl, .start hfresh, Nat.zero_le n, by simp⟩

/-- A listener is called. -/
theorem visit [DecidableEq V] (h : Tallied l n f t) (hc : f.current = none)
    (hi : f.index < f.length) (hr : l[f.index]? = some r) (hsorted : l.Pairwise (·.id < ·.id))
    (hhome : r.eventName = f.eventName) (hfresh : r.id < n) :
    ∃ t', t.call r (r.passes f.args) = some t' ∧
      Tallied l n { f with current := some r } t' := by
  have hnext := Emit.next_of_none hc
  have hvisits := h.visits
  rw [hnext] at hvisits
  obtain ⟨hafter, hvisits'⟩ := hvisits.visit hi hr hsorted
  have hlt : t.called < t.length := by
    rw [h.length]
    exact Nat.lt_of_le_of_lt hvisits.visited_le hi
  refine ⟨_, if_pos ⟨hhome.trans h.eventName.symm, hafter, by rw [h.args], hlt⟩, h.eventName,
    h.args, h.length, hvisits', hfresh, ?_⟩
  intro r' hr'
  obtain rfl := Option.some.inj hr'
  simp [Tally.Last]

/-- A position that is not in the array any more. -/
theorem skip (h : Tallied l n f t) (hc : f.current = none) (hi : f.index < f.length)
    (hr : l[f.index]? = none) : Tallied l n { f with index := f.index + 1 } t := by
  have hvisits := h.visits
  rw [Emit.next_of_none hc] at hvisits
  refine ⟨h.eventName, h.args, h.length, ?_, h.after_le, h.current⟩
  rw [Emit.next_skipped hc]
  exact hvisits.skip hi hr

/-- The listener that is called returns. -/
theorem returns (h : Tallied l n f t) (hc : f.current.isSome) :
    Tallied l n { f with current := none, index := f.index + 1 } t := by
  refine ⟨h.eventName, h.args, h.length, ?_, h.after_le, by simp⟩
  rw [Emit.next_returned hc]
  exact h.visits

/-- The entry `r` is appended. -/
theorem append (h : Tallied l n f t) (hr : r.id = n) : Tallied (l ++ [r]) (n + 1) f t :=
  ⟨h.eventName, h.args, h.length, h.visits.append (hr ▸ h.after_le), Nat.le_succ_of_le h.after_le,
    h.current⟩

/-- There are more registrations, for another event. -/
theorem succ (h : Tallied l n f t) : Tallied l (n + 1) f t :=
  ⟨h.eventName, h.args, h.length, h.visits, Nat.le_succ_of_le h.after_le, h.current⟩

/-- Entries of the event are removed. -/
theorem strike (h : Tallied l n f t) {gone : List Registration}
    (hgone : l.length ≤ (l.filter (· ∉ gone)).length + gone.length) :
    Tallied (l.filter (· ∉ gone)) n f (t.strike f.eventName gone) := by
  rw [Tally.strike, if_pos h.eventName]
  exact ⟨h.eventName, h.args, h.length, h.visits.filter hgone, h.after_le, h.current⟩

/-- Entries of another event are removed. -/
theorem strike_other (h : Tallied l n f t) {eventName : PropertyKey} {gone : List Registration}
    (he : f.eventName ≠ eventName) : Tallied l n f (t.strike eventName gone) := by
  rwa [Tally.strike, if_neg (h.eventName ▸ he)]

end Tallied

/-! ## Steps -/

/-- The monitor knows the state. -/
structure EventEmitter.Counted (s : EventEmitter V) (q : Tallies V) : Prop where
  registered : q.registered = s.listener
  count : q.count = s.registrations
  sorted : ∀ e, (s.events e).Pairwise (·.id < ·.id)
  emits : List.Forall₂ (fun f t => Tallied (s.events f.eventName) s.registrations f t)
    s.emits q.emits

/-- What `removeListener` leaves in the arrays. -/
theorem EventEmitter.WellFormed.listener_removeListener (hw : s.WellFormed)
    (eventName : PropertyKey) (source : JSString) :
    (s.removeListener text eventName source).listener = fun e =>
      (s.listener e).map (·.filter (· ∉ s.gone text eventName source)) := by
  funext e
  have hevents : (s.removeListener text eventName source).events e =
      (s.events e).filter (· ∉ s.gone text eventName source) := hw.events_removeListener ..
  have hnone : (s.removeListener text eventName source).listener e = none ↔
      s.listener e = none := by
    unfold EventEmitter.removeListener
    cases hl : s.listener eventName with
    | none => rfl
    | some events =>
      by_cases he : e = eventName
      · simp [he, hl]
      · simp [he]
  unfold events at hevents
  cases hl : s.listener e with
  | none => exact hnone.2 hl
  | some events =>
    obtain ⟨left, hleft⟩ := Option.ne_none_iff_exists'.1 fun h => by
      rw [hnone, hl] at h
      cases h
    rw [hl, hleft] at hevents
    rw [hleft]
    exact congrArg some hevents

theorem EventEmitter.WellFormed.length_le_filter (hw : s.WellFormed) (eventName : PropertyKey)
    (source : JSString) : (s.events eventName).length ≤
      ((s.events eventName).filter (· ∉ s.gone text eventName source)).length +
        (s.gone text eventName source).length := by
  have hperm := (kept_perm (fun r => r.toString text = source) (s.events eventName)).length_eq
  rw [kept_eq _ (hw.nodup eventName), List.length_append] at hperm
  exact (hperm.symm.trans (Nat.add_comm _ _)).le

namespace EventEmitter.Counted

variable {q : Tallies V}

theorem entries_eq (hk : s.Counted q) (e : PropertyKey) : q.entries e = s.events e := by
  unfold Tallies.entries events
  rw [hk.registered]

theorem register (hk : s.Counted q) (hw : s.WellFormed) (listener : ℕ) (once : Bool)
    (eventName : PropertyKey) :
    (s.register listener once eventName).Counted
      { q with
        registered := Function.update q.registered eventName
          (some (q.entries eventName ++ [⟨s.registrations, eventName, listener, once⟩]))
        count := q.count + 1 } := by
  refine ⟨?_, congrArg (· + 1) hk.count, ?_, ?_⟩
  · rw [hk.entries_eq, hk.registered]
    rfl
  · intro e
    rw [events_register]
    split
    · refine List.pairwise_append.2 ⟨hk.sorted e, List.pairwise_singleton _ _, ?_⟩
      intro r hr r' hr'
      rw [List.mem_singleton.1 hr']
      exact hw.fresh e r hr
    · exact hk.sorted e
  · refine hk.emits.imp fun f t h => ?_
    rw [events_register]
    split
    · exact h.append rfl
    · exact h.succ

/-- Listeners are removed. -/
theorem strike (hk : s.Counted q) (hw : s.WellFormed) (eventName : PropertyKey)
    {source : JSString} {matching : Registration → Bool}
    (hmatching : ∀ r ∈ s.events eventName, matching r = true → r.toString text = source) :
    ∃ q', q.strike eventName (s.gone text eventName source) matching = some q' ∧
      (s.removeListener text eventName source).Counted q' := by
  have hsub : s.gone text eventName source ⊆ q.entries eventName := by
    rw [hk.entries_eq]
    exact hits_subset _ _
  have hsome : (q.entries eventName).any matching = true →
      s.gone text eventName source ≠ [] := by
    intro hany
    obtain ⟨r, hr, hm⟩ := List.any_eq_true.1 hany
    rw [hk.entries_eq] at hr
    exact hits_ne_nil hr (decide_eq_true (hmatching r hr hm))
  refine ⟨_, if_pos ⟨hsub, hsome⟩, ?_, ?_, ?_, ?_⟩
  · rw [hw.listener_removeListener, hk.registered]
  · rw [registrations_removeListener]
    exact hk.count
  · intro e
    rw [hw.events_removeListener]
    exact (hk.sorted e).sublist List.filter_sublist
  · rw [emits_removeListener, registrations_removeListener]
    apply Monitor.forall₂_map hk.emits _
    intro f hf t h
    by_cases he : f.eventName = eventName
    · subst he
      rw [hw.events_removeListener]
      exact h.strike (hw.length_le_filter ..)
    · rw [EventEmitter.events_removeListener eventName source _ (hw.nodup eventName), if_neg he]
      exact h.strike_other he

/-- The listener that is called returns. -/
theorem returns (hk : s.Counted q) {rest : List (Emit V)} (hf : s.emits = f :: rest)
    (hc : f.current.isSome) (log : List (EmitterEvent V)) :
    Counted { s with
      emits := { f with current := none, index := f.index + 1 } :: rest
      log := log } q := by
  obtain ⟨t, trest, hq, h, hrest⟩ := Monitor.exists_innermost hk.emits hf
  refine ⟨hk.registered, hk.count, hk.sorted, ?_⟩
  rw [hq]
  exact .cons (h.returns hc) hrest

/-- It was the last to be called. -/
theorem innermost_last (hk : s.Counted q) {rest : List (Emit V)} (hf : s.emits = f :: rest)
    (hc : f.current = some r) :
    Monitor.innermost (fun t => if t.Last r then some t else none) q.emits = some q.emits := by
  obtain ⟨t, trest, hq, h, -⟩ := Monitor.exists_innermost hk.emits hf
  rw [hq]
  exact Monitor.innermost_cons trest (if_pos (h.current r hc))

end EventEmitter.Counted

/-- **Every step is one that the monitor allows.** -/
theorem EventEmitter.Step.counted [DecidableEq V] {label : EmitterLabel V}
    (hs : s.Step text label s') (hw : s.WellFormed) {q : Tallies V} (hk : s.Counted q) :
    ∃ q', (tally V).Reads s.log q s'.log q' ∧ s'.Counted q' := by
  cases hs with
  | addListener _ _ hu | once _ _ hu =>
    exact ⟨_, .event (if_pos hk.count.symm), hk.register hw ..⟩
  | removeListener eventName listener hu =>
    have hmatching : ∀ r ∈ s.events eventName,
        decide (r.listener = listener ∧ r.once = false) = true →
          r.toString text = text listener := by
      intro r _ hr
      obtain ⟨hl, honce⟩ := of_decide_eq_true hr
      rw [Registration.toString, honce, hl]
      rfl
    obtain ⟨q', hq', hk'⟩ := hk.strike hw eventName hmatching
    exact ⟨q', .event hq', hk'.registered, hk'.count, hk'.sorted, hk'.emits⟩
  | emitNone eventName args hu hl =>
    exact ⟨q, .event (if_pos (hk.registered ▸ hl)), hk.registered, hk.count, hk.sorted, hk.emits⟩
  | @emit eventName args l hu hl =>
    have hevents : s.events eventName = l := by simp [events, hl]
    refine ⟨{ q with emits := ⟨eventName, args, l.length, s.registrations, 0, 0, 0, 0⟩ :: q.emits },
      .event ?_, hk.registered, hk.count, hk.sorted, .cons ?_ hk.emits⟩
    · show (q.registered eventName).map _ = _
      rw [hk.registered, hl, hk.count]
      rfl
    · show Tallied (s.events eventName) _ _ _
      rw [hevents]
      exact .start _ _ fun r hr => hw.fresh eventName r (hevents ▸ hr)
  | @visit f rest r hf hc hi hr =>
    obtain ⟨t, trest, hq, h, hrest⟩ := Monitor.exists_innermost hk.emits hf
    have hmem : r ∈ s.events f.eventName := List.mem_of_getElem? hr
    have hhome : r.eventName = f.eventName := hw.home _ r hmem
    obtain ⟨t', hcall, h'⟩ := h.visit hc hi hr (hk.sorted _) hhome (hw.fresh _ r hmem)
    refine ⟨{ q with emits := t' :: trest }, .event ?_, hk.registered, hk.count, hk.sorted,
      .cons h' hrest⟩
    show (if r ∈ q.entries r.eventName then _ else none) = _
    rw [hk.entries_eq, hhome, if_pos hmem, hq, Monitor.innermost_cons trest hcall]
    rfl
  | @skip f rest hf hc hi hr =>
    obtain ⟨t, trest, hq, h, hrest⟩ := Monitor.exists_innermost hk.emits hf
    refine ⟨q, .silent, hk.registered, hk.count, hk.sorted, ?_⟩
    rw [hq]
    exact .cons (h.skip hc hi hr) hrest
  | @listenerReturns f rest r hf hc hp =>
    refine ⟨q, .event ?_, hk.returns hf (by simp [hc]) _⟩
    show (Monitor.innermost _ q.emits).map _ = _
    rw [hk.innermost_last hf hc]
    rfl
  | @onceReturns f rest r hf hc hp =>
    have hmatching : ∀ r' ∈ s.events r.eventName, decide (r' = r) = true →
        r'.toString text = onceWrapperText := by
      intro r' _ hr'
      rw [of_decide_eq_true hr', Registration.toString, if_pos hp]
    obtain ⟨q', hq', hk'⟩ := hk.strike hw r.eventName hmatching
    have hf' : (s.removeListener text r.eventName onceWrapperText).emits = f :: rest := by
      rw [emits_removeListener, hf]
    refine ⟨q', .event ?_, hk'.returns hf' (by simp [hc]) _⟩
    show (Monitor.innermost _ q.emits).bind _ = _
    rw [hk.innermost_last hf hc]
    exact hq'
  | @listenerThrows f rest r hf hc =>
    obtain ⟨t, trest, hq, h, hrest⟩ := Monitor.exists_innermost hk.emits hf
    refine ⟨{ q with emits := trest }, .event ?_, hk.registered, hk.count, hk.sorted, hrest⟩
    show (Monitor.leave _ q.emits).map _ = _
    rw [hq, Monitor.leave_cons trest (h.current r hc)]
    rfl
  | @finish f rest hf hc hi =>
    obtain ⟨t, trest, hq, h, hrest⟩ := Monitor.exists_innermost hk.emits hf
    have hvisits := h.visits
    rw [Emit.next_of_none hc] at hvisits
    have hmissed : t.length ≤ t.served + t.removed := by
      rw [h.length]
      exact hvisits.finish hi
    refine ⟨{ q with emits := trest }, .event ?_, hk.registered, hk.count, hk.sorted, hrest⟩
    show (Monitor.leave _ q.emits).map _ = _
    rw [hq, Monitor.leave_cons trest (decide_eq_true ⟨rfl, hmissed⟩)]
    rfl

/-- **What every emit does,** in every run of an emitter. -/
theorem emit_tally [DecidableEq V] (text : ℕ → JSString) {s : EventEmitter V}
    (h : s.Reachable text) :
    ∃ q, (tally V).run s.log = some q ∧ ∀ e,
      s.rawListners e = q.entries e ∧ s.listenerCount e = (q.entries e).length ∧
        (q.entries e).Pairwise (·.id < ·.id) := by
  have hrun := Monitor.run_of_reachable (M := tally V) EventEmitter.log Counted ?_ ?_ h
  · obtain ⟨q, hq, hk⟩ := hrun
    refine ⟨q, hq, fun e => ⟨?_, ?_, by simpa [hk.entries_eq] using hk.sorted e⟩⟩
    · rw [hk.entries_eq, rawListners, events]
      cases s.listener e <;> rfl
    · rw [hk.entries_eq, listenerCount, events]
      cases s.listener e <;> rfl
  · rintro _ rfl
    exact ⟨rfl, rfl, rfl, by simp [new, events], .nil⟩
  · intro s label s' q hr hk hs
    exact hs.counted (EventEmitter.Reachable.wellFormed hr) hk

/-- `e.on('x', a); e.on('x', b); e.emit('x');` where `a` removes itself does not call `b`. -/
theorem emit_tally_missed : ∃ s : EventEmitter Value,
    s.log = [.ended true, .returned onX, .removed eventX 0 [onX], .called onX [], .began eventX [],
      .registered ⟨1, eventX, 1, false⟩, .registered onX] ∧
    ∃ q, (tally Value).run s.log = some q ∧ ∀ e,
      s.rawListners e = q.entries e ∧ s.listenerCount e = (q.entries e).length ∧
        (q.entries e).Pairwise (·.id < ·.id) := by
  have ha : Reachable (V := Value) twoListeners _ := Transition.Reachable.tail (.start rfl)
    (.addListener eventX 0 (inUser_of_emits rfl))
  have hb := ha.tail (.addListener eventX 1 (inUser_of_emits rfl))
  have hbegan := hb.tail (.emit eventX [] (inUser_of_emits rfl) rfl)
  have hcalled := hbegan.tail (.visit (r := onX) rfl rfl (by decide) rfl)
  have hremoved := hcalled.tail (.removeListener eventX 0 (by rintro f rest ⟨⟩; rfl))
  have hreturned := hremoved.tail (.listenerReturns (r := onX) rfl rfl rfl)
  have hskipped := hreturned.tail (.skip rfl rfl (by decide) rfl)
  have hended := hskipped.tail (.finish rfl rfl (by decide))
  exact ⟨_, rfl, emit_tally twoListeners hended⟩

/-- An emit over three entries that goes from the first, which has removed itself, to one that was
registered meanwhile has missed two. -/
example : ((tally Value).run [.ended true, .returned ⟨3, eventX, 3, false⟩,
    .called ⟨3, eventX, 3, false⟩ [], .returned onX, .registered ⟨3, eventX, 3, false⟩,
    .removed eventX 0 [onX], .called onX [], .began eventX [], .registered ⟨2, eventX, 2, false⟩,
    .registered ⟨1, eventX, 1, false⟩, .registered onX]).isNone := by
  decide

end NanoJS

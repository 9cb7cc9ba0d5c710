import NanoJS.Events.Delivery

/-!
# What a once listener is called by

`firings` reads what happens at an emitter. It accepts it when a once listener that the user has not
removed is called by the first emit of its event that begins after its registration, and by no
other, and when its firing removes it and nothing else.

A once listener is in the array until it has returned, so an emit that begins before calls it too;
a listener that is registered during an emit may come to a position that the emit still visits; the
wrapper is removed by its source text, which all wrappers have; and what is removed moves others in
front of the iteration. In the runs whose steps do nothing of the kind (`EventEmitter.Fires`), what
happens is accepted (`once_fires`).
-/

namespace NanoJS

open LiveIteration EventEmitter

variable {V : Type*}

/-! ## What should happen -/

/-- The once listeners that are registered, the number of registrations before the last emit of an
event, and the once listeners that each emit in progress has to call yet. -/
structure Firings where
  registered : PropertyKey → List Registration
  count : ℕ
  emitted : PropertyKey → ℕ
  emits : List (List Registration)

namespace Firings

/-- The once listeners of an event that have been registered since its last emit. -/
def waiting (q : Firings) (eventName : PropertyKey) : List Registration :=
  (q.registered eventName).filter (q.emitted eventName ≤ ·.id)

/-- What may happen next. -/
def next (q : Firings) : EmitterEvent V → Option Firings
  | .registered r =>
    some { q with
      registered := Function.update q.registered r.eventName
        (q.registered r.eventName ++ [r].filter (·.once))
      count := q.count + 1 }
  | .removed _ listener gone =>
    let X := gone.filter (·.listener = listener)
    some { q with
      registered := fun e => (q.registered e).filter (· ∉ X)
      emits := q.emits.map (·.filter (· ∉ X)) }
  | .refused eventName => if q.waiting eventName = [] then some q else none
  | .began eventName _ =>
    some { q with
      emitted := Function.update q.emitted eventName q.count
      emits := q.waiting eventName :: q.emits }
  | .called r _ =>
    if r.once then
      (Monitor.innermost (fun due => if r ∈ due then some (due.erase r) else none) q.emits).map
        fun emits => { q with emits := emits }
    else some q
  | .returned _ => some q
  | .fired r gone =>
    if (∀ r' ∈ gone, r' = r) ∧ (r ∈ q.registered r.eventName → r ∈ gone) then
      some { q with registered := fun e => (q.registered e).filter (· ≠ r) }
    else none
  | .ended _ =>
    (Monitor.leave (fun due => due = []) q.emits).map fun emits => { q with emits := emits }
  | .aborted r =>
    (Monitor.leave (fun due => r.once = false ∧ due = []) q.emits).map
      fun emits => { q with emits := emits }

end Firings

/-- **Once.** -/
def firings (V : Type*) : Monitor (EmitterEvent V) Firings where
  start := ⟨fun _ => [], 0, fun _ => 0, []⟩
  next := Firings.next

/-! ## When it does -/

variable (text : ℕ → JSString)

/-- The emit has to call the entry, if it has not yet. -/
def Emit.Owes (f : Emit V) (r : Registration) : Bool := r.once && f.Before r

/-- No once listener that was registered after the emit began is at a position that it will
visit. -/
def Emit.Closed (f : Emit V) (l : List Registration) : Prop :=
  ∀ i r, f.next ≤ i → i < f.length → l[i]? = some r → r.once = true → f.Before r = true

/-- The steps after which every once listener is called by the first emit only:
* a once listener is not registered during an emit that will visit its position;
* an emit does not begin while an emit of the same event is in progress that began after one of
  the once listeners was registered which are still in the array;
* no once listener throws, and no other listener does before the last once listener is called;
* a removal removes the once listeners of its listener only, it disturbs no emit in progress, and
  it moves no later once listener to a position that one will visit. -/
def EventEmitter.Fires (s : EventEmitter V) : EmitterLabel V → Prop
  | .once eventName _ => ∀ f ∈ s.emits, f.eventName = eventName →
      f.next ≤ (s.events eventName).length → f.length ≤ (s.events eventName).length
  | .emit eventName _ => ∀ f ∈ s.emits, f.eventName = eventName →
      ∀ r ∈ s.events eventName, f.Owes r = false
  | .listenerThrows => ∀ f rest, s.emits = f :: rest →
      (∀ r, f.current = some r → r.once = false) ∧
      ∀ r ∈ (s.events f.eventName).drop f.next, f.Owes r = false
  | .removeListener eventName listener =>
      let gone := s.gone text eventName (text listener)
      (∀ r ∈ gone, r.once = true → r.listener = listener) ∧
      ∀ f ∈ s.emits, f.Undisturbed f.Owes (s.events f.eventName) gone gone ∧
        f.Closed ((s.events f.eventName).filter (· ∉ gone))
  | .listenerReturns => ∀ f rest r, s.emits = f :: rest → f.current = some r → r.once = true →
      let gone := s.gone text r.eventName onceWrapperText
      (∀ r' ∈ gone, r' = r) ∧
      ∀ g ∈ s.emits, g.Undisturbed g.Owes (s.events g.eventName) gone [] ∧
        g.Closed ((s.events g.eventName).filter (· ∉ gone))
  | _ => True

/-- The states of runs in which every step does. -/
abbrev EventEmitter.Firing : EventEmitter V → Prop :=
  Transition.Reachable (· = EventEmitter.new) fun s label s' =>
    EventEmitter.Step text s label s' ∧ s.Fires text label

/-! ## What an emit in progress has to do yet -/

variable {text} {s s' : EventEmitter V} {f : Emit V} {l due : List Registration} {r : Registration}

theorem Emit.owes_iff : f.Owes r = true ↔ r.once = true ∧ f.Before r = true :=
  Bool.and_eq_true_iff

/-- The iteration of the emit over the entries `l` awaits the once listeners `due`. Of those that it
has passed only the one that it is calling is left, and it will not visit a later one. -/
structure Calling (l : List Registration) (f : Emit V) (due : List Registration) : Prop where
  awaits : Awaits f.Owes l f.next f.length due
  passed : ∀ r ∈ l.take f.next, f.Owes r = true → f.current = some r
  closed : f.Closed l

/-- The monitor knows the state. -/
structure EventEmitter.KnownOnce (s : EventEmitter V) (q : Firings) : Prop where
  registered : ∀ e, q.registered e = (s.events e).filter (·.once)
  count : q.count = s.registrations
  emitted_le : ∀ e, q.emitted e ≤ q.count
  fresh : ∀ e, ∀ r ∈ s.events e, r.once = true →
    (q.emitted e ≤ r.id ↔ ∀ f ∈ s.emits, f.eventName = e → f.Before r = false)
  emits : List.Forall₂ (fun f due => Calling (s.events f.eventName) f due) s.emits q.emits

namespace Calling

theorem start {eventName : PropertyKey} {args : List V} {born : ℕ} (hl : ∀ r ∈ l, r.id < born) :
    Calling l ⟨eventName, args, l.length, 0, none, born⟩ (l.filter (·.once)) := by
  have hall : ∀ r ∈ l, decide (r.id < born) = true := fun r hr => decide_eq_true (hl r hr)
  have howes : l.filter (·.once) = l.filter fun r => r.once && decide (r.id < born) := by
    apply List.filter_congr
    intro r hr
    rw [hall r hr, Bool.and_true]
  refine ⟨?_, fun r hr => absurd hr List.not_mem_nil, fun i r _ _ hr _ =>
    hall r (List.mem_of_getElem? hr)⟩
  rw [howes]
  exact .start ..

/-- An entry is registered. -/
theorem register (h : Calling l f due) (hlater : f.Before r = false)
    (hposition : r.once = true → f.next ≤ l.length → f.length ≤ l.length) :
    Calling (l ++ [r]) f due := by
  have hnot : f.Owes r = false := by rw [Emit.Owes, hlater, Bool.and_false]
  refine ⟨h.awaits.append hnot, ?_, ?_⟩
  · intro x hx hQ
    rw [List.take_append, List.mem_append] at hx
    rcases hx with hx | hx
    · exact h.passed x hx hQ
    · rw [List.mem_singleton.1 (List.mem_of_mem_take hx), hnot] at hQ
      cases hQ
  · intro i x hi hlen hx honce
    rcases Nat.lt_or_ge i l.length with hlt | hge
    · rw [List.getElem?_append_left hlt] at hx
      exact h.closed i x hi hlen hx honce
    · obtain ⟨rfl, rfl⟩ : i = l.length ∧ r = x := by
        rw [List.getElem?_append_right hge, List.getElem?_singleton] at hx
        split at hx
        · exact ⟨by omega, Option.some.inj hx⟩
        · cases hx
      exact absurd (hposition honce hi) (Nat.not_le.2 hlen)

/-- Entries are removed. -/
theorem remove (h : Calling l f due) {gone X : List Registration}
    (hu : f.Undisturbed f.Owes l gone X) (hX : X ⊆ gone)
    (hclosed : f.Closed (l.filter (· ∉ gone))) :
    Calling (l.filter (· ∉ gone)) f (due.filter (· ∉ X)) := by
  refine ⟨hu.awaits hX h.awaits, ?_, hclosed⟩
  intro r hr hQ
  exact h.passed r (Awaits.mem_take_of_filter hu.stays hQ hr) hQ

/-- What is passed when the iteration goes on. -/
theorem passed_succ (h : Calling l f due) (hc : f.current = none) {r : Registration}
    (hr : r ∈ l.take (f.index + 1)) (hQ : f.Owes r = true) : l[f.index]? = some r := by
  have hnext := Emit.next_of_none hc
  have hpassed := h.passed r
  rw [hnext, hc] at hpassed
  rw [List.take_add_one, List.mem_append] at hr
  rcases hr with hr | hr
  · cases hpassed hr hQ
  · exact Option.mem_toList.1 hr

/-- A listener is called. -/
theorem visit (h : Calling l f due) (hc : f.current = none) (hr : l[f.index]? = some r)
    {due' : List Registration} (ha : Awaits f.Owes l (f.index + 1) f.length due') :
    Calling l { f with current := some r } due' := by
  have hnext := Emit.next_of_none hc
  refine ⟨ha, ?_, ?_⟩
  · intro x hx hQ
    exact hr.symm.trans (h.passed_succ hc hx hQ)
  · intro i x hi hlen hx honce
    exact h.closed i x (hnext ▸ Nat.le_of_succ_le hi) hlen hx honce

/-- A once listener is called: it is one of those that are awaited. -/
theorem visit_once (h : Calling l f due) (hc : f.current = none) (hi : f.index < f.length)
    (hr : l[f.index]? = some r) (honce : r.once = true) :
    r ∈ due ∧ Calling l { f with current := some r } (due.erase r) := by
  have hnext := Emit.next_of_none hc
  have howes : f.Owes r = true :=
    Emit.owes_iff.2 ⟨honce, h.closed f.index r (le_of_eq hnext) hi hr honce⟩
  have ha := h.awaits
  rw [hnext] at ha
  obtain ⟨rest, rfl, hrest⟩ := ha.visit hr howes
  refine ⟨.head _, ?_⟩
  rw [List.erase_cons_head]
  exact h.visit hc hr hrest

/-- Another listener is called. -/
theorem visit_plain (h : Calling l f due) (hc : f.current = none) (hr : l[f.index]? = some r)
    (hplain : r.once = false) : Calling l { f with current := some r } due := by
  have hnext := Emit.next_of_none hc
  have ha := h.awaits
  rw [hnext] at ha
  refine h.visit hc hr (ha.pass fun a hra => ?_)
  obtain rfl := Option.some.inj (hr.symm.trans hra)
  simp [Emit.Owes, hplain]

/-- A position that is not in the array any more. -/
theorem skip (h : Calling l f due) (hc : f.current = none) (hr : l[f.index]? = none) :
    Calling l { f with index := f.index + 1 } due := by
  have hnext := Emit.next_of_none hc
  have ha := h.awaits
  rw [hnext] at ha
  refine ⟨?_, ?_, ?_⟩
  · rw [Emit.next_skipped hc]
    exact ha.pass (by simp [hr])
  · intro x hx hQ
    rw [Emit.next_skipped hc] at hx
    have hx := h.passed_succ hc hx hQ
    rw [hr] at hx
    cases hx
  · intro i x hi hlen hx honce
    rw [Emit.next_skipped hc] at hi
    exact h.closed i x (hnext ▸ Nat.le_of_succ_le hi) hlen hx honce

/-- The listener that is called returns, and is not a once listener of the array any more. -/
theorem returns (h : Calling l f due) (hc : f.current = some r)
    (hr : r ∈ l → f.Owes r = false) :
    Calling l { f with current := none, index := f.index + 1 } due := by
  have hnext := Emit.next_returned (Option.isSome_of_eq_some hc)
  refine ⟨?_, ?_, ?_⟩
  · rw [hnext]
    exact h.awaits
  · intro x hx hQ
    rw [hnext] at hx
    have hcurrent := h.passed x hx hQ
    obtain rfl := Option.some.inj (hc.symm.trans hcurrent)
    have hnot : f.Owes r = false := hr (List.mem_of_mem_take hx)
    rw [show f.Owes r = true from hQ] at hnot
    cases hnot
  · intro i x hi hlen hx honce
    rw [hnext] at hi
    exact h.closed i x hi hlen hx honce

/-- When nothing is awaited, and no once listener is being called, none is left. -/
theorem none_left (h : Calling l f due) (hdue : due = [])
    (hc : ∀ r, f.current = some r → r.once = false) : ∀ r ∈ l, f.Owes r = false := by
  intro r hr
  rw [← Bool.not_eq_true]
  intro hQ
  rw [← List.take_append_drop f.next l, List.mem_append] at hr
  rcases hr with hr | hr
  · have hplain := hc r (h.passed r hr hQ)
    rw [(Emit.owes_iff.1 hQ).1] at hplain
    cases hplain
  · have hdue := h.awaits.todo_eq.symm.trans hdue
    exact List.filter_eq_nil_iff.1 hdue r hr hQ

end Calling

/-! ## Steps -/

namespace EventEmitter.KnownOnce

variable {q : Firings}

/-- The once listeners that the next emit of an event has to call. -/
theorem waiting_eq (hk : s.KnownOnce q) {eventName : PropertyKey}
    (hall : ∀ f ∈ s.emits, f.eventName = eventName → ∀ r ∈ s.events eventName,
      f.Owes r = false) : q.waiting eventName = (s.events eventName).filter (·.once) := by
  rw [Firings.waiting, hk.registered, List.filter_eq_self]
  intro r hr
  obtain ⟨hr, honce⟩ := List.mem_filter.1 hr
  refine decide_eq_true ((hk.fresh eventName r hr honce).2 fun f hf he => ?_)
  have hnot := hall f hf he r hr
  rwa [Emit.Owes, honce, Bool.true_and] at hnot

theorem register (hk : s.KnownOnce q) (hw : s.WellFormed) (listener : ℕ) (once : Bool)
    (eventName : PropertyKey)
    (hposition : once = true → ∀ f ∈ s.emits, f.eventName = eventName →
      f.next ≤ (s.events eventName).length → f.length ≤ (s.events eventName).length) :
    let r : Registration := ⟨s.registrations, eventName, listener, once⟩
    (s.register listener once eventName).KnownOnce
      { q with
        registered := Function.update q.registered eventName
          (q.registered eventName ++ [r].filter (·.once))
        count := q.count + 1 } := by
  intro r
  have hlater : ∀ f ∈ s.emits, f.Before r = false := fun f hf =>
    decide_eq_false (Nat.not_lt.2 (hw.born_le f hf))
  refine ⟨?_, congrArg (· + 1) hk.count, fun e => Nat.le_succ_of_le (hk.emitted_le e), ?_, ?_⟩
  · intro e
    rw [events_register]
    by_cases he : e = eventName
    · subst he
      rw [if_pos rfl, List.filter_append, ← hk.registered]
      exact Function.update_self ..
    · rw [if_neg he, ← hk.registered]
      exact Function.update_of_ne he ..
  · intro e x hx honce
    rw [events_register] at hx
    split at hx
    · rcases List.mem_append.1 hx with hx | hx
      · exact hk.fresh e x hx honce
      · obtain rfl := List.mem_singleton.1 hx
        exact iff_of_true (hk.count ▸ hk.emitted_le e) fun f hf _ => hlater f hf
    · exact hk.fresh e x hx honce
  · rw [← List.map_id q.emits]
    apply Monitor.forall₂_map hk.emits id
    intro f hf due h
    rw [events_register]
    split
    · rename_i he
      apply h.register (hlater f hf)
      intro honce
      rw [he]
      exact hposition honce f hf he
    · exact h

/-- Entries are removed, those of once listeners in `X`. -/
theorem removeListener (hk : s.KnownOnce q) (hw : s.WellFormed) {eventName : PropertyKey}
    {source : JSString} {X Y : List Registration} (hX : X ⊆ s.gone text eventName source)
    (hY : ∀ e, ∀ r ∈ s.events e, r.once = true → (r ∈ Y ↔ r ∈ s.gone text eventName source))
    (hd : ∀ f ∈ s.emits, f.Undisturbed f.Owes (s.events f.eventName)
        (s.gone text eventName source) X ∧
      f.Closed ((s.events f.eventName).filter (· ∉ s.gone text eventName source))) :
    (s.removeListener text eventName source).KnownOnce
      { q with
        registered := fun e => (q.registered e).filter (· ∉ Y)
        emits := q.emits.map (·.filter (· ∉ X)) } := by
  refine ⟨?_, ?_, hk.emitted_le, ?_, ?_⟩
  · intro e
    rw [hw.events_removeListener, List.filter_filter]
    show (q.registered e).filter _ = _
    rw [hk.registered, List.filter_filter]
    apply List.filter_congr
    intro r hr
    cases honce : r.once with
    | false => simp
    | true => simp [hY e r hr honce]
  · rw [registrations_removeListener]
    exact hk.count
  · intro e r hr honce
    rw [hw.events_removeListener] at hr
    rw [emits_removeListener]
    exact hk.fresh e r (List.mem_filter.1 hr).1 honce
  · rw [emits_removeListener]
    apply Monitor.forall₂_map hk.emits _
    intro f hf due h
    rw [hw.events_removeListener]
    exact h.remove (hd f hf).1 hX (hd f hf).2

/-- The innermost emit goes on. -/
theorem advance (hk : s.KnownOnce q) {rest : List (Emit V)} (hf : s.emits = f :: rest)
    (f' : Emit V) (he : f'.eventName = f.eventName) (hborn : f'.born = f.born)
    {emits : List (List Registration)}
    (hemits : List.Forall₂ (fun f due => Calling (s.events f.eventName) f due) (f' :: rest) emits)
    (log : List (EmitterEvent V)) :
    KnownOnce { s with emits := f' :: rest, log := log } { q with emits := emits } := by
  refine ⟨hk.registered, hk.count, hk.emitted_le, ?_, hemits⟩
  intro e r hr honce
  have hfresh := hk.fresh e r hr honce
  rw [hf, List.forall_mem_cons] at hfresh
  show _ ↔ ∀ g ∈ f' :: rest, _
  rw [List.forall_mem_cons, he, Emit.Before, hborn]
  exact hfresh

/-- The innermost emit ends. -/
theorem leave (hk : s.KnownOnce q) {rest : List (Emit V)} (hf : s.emits = f :: rest)
    {drest : List (List Registration)}
    (hrest : List.Forall₂ (fun f due => Calling (s.events f.eventName) f due) rest drest)
    (hnone : ∀ r ∈ s.events f.eventName, f.Owes r = false) (log : List (EmitterEvent V)) :
    KnownOnce { s with emits := rest, log := log } { q with emits := drest } := by
  refine ⟨hk.registered, hk.count, hk.emitted_le, ?_, hrest⟩
  intro e r hr honce
  rw [hk.fresh e r hr honce, hf, List.forall_mem_cons]
  apply and_iff_right
  intro he
  have hnot := hnone r (he ▸ hr)
  rwa [Emit.Owes, honce, Bool.true_and] at hnot

end EventEmitter.KnownOnce

/-- The wrapper of a once listener removes itself, if it removes nothing else. -/
theorem EventEmitter.mem_gone_of_once {r : Registration} (honce : r.once = true)
    (hown : ∀ r' ∈ s.gone text r.eventName onceWrapperText, r' = r)
    (hr : r ∈ s.events r.eventName) : r ∈ s.gone text r.eventName onceWrapperText := by
  have htext : r.toString text = onceWrapperText := if_pos honce
  have hne := hits_ne_nil (p := fun r => decide (r.toString text = onceWrapperText)) hr
    (decide_eq_true htext)
  obtain ⟨r', hr'⟩ := List.exists_mem_of_ne_nil _ hne
  exact hown r' hr' ▸ hr'

/-- **A step after which every once listener is called by the first emit only is one that the
monitor allows.** -/
theorem EventEmitter.Step.knownOnce {label : EmitterLabel V} (hs : s.Step text label s')
    (hd : s.Fires text label) (hw : s.WellFormed) {q : Firings} (hk : s.KnownOnce q) :
    ∃ q', (firings V).Reads s.log q s'.log q' ∧ s'.KnownOnce q' := by
  cases hs with
  | addListener eventName listener hu =>
    exact ⟨_, .event rfl, hk.register hw listener false eventName (by simp)⟩
  | once eventName listener hu =>
    exact ⟨_, .event rfl, hk.register hw listener true eventName fun _ => hd⟩
  | removeListener eventName listener hu =>
    obtain ⟨hown, hspared⟩ := hd
    let gone := s.gone text eventName (text listener)
    let X := gone.filter (·.listener = listener)
    have hX : ∀ r, r.once = true → (r ∈ X ↔ r ∈ gone) := by
      intro r honce
      rw [List.mem_filter, decide_eq_true_iff]
      exact and_iff_left_of_imp fun hgone => hown r hgone honce
    have hundisturbed : ∀ f ∈ s.emits, f.Undisturbed f.Owes (s.events f.eventName) gone X := by
      intro f hf r hr hQ
      obtain ⟨-, hstays⟩ := (hspared f hf).1 r hr hQ
      exact ⟨(hX r (Emit.owes_iff.1 hQ).1).2, hstays⟩
    have hk' := hk.removeListener hw (List.filter_subset_self gone) (fun _ r _ => hX r)
      fun f hf => ⟨hundisturbed f hf, (hspared f hf).2⟩
    exact ⟨_, .event rfl, hk'.registered, hk'.count, hk'.emitted_le, hk'.fresh, hk'.emits⟩
  | emitNone eventName args hu hl =>
    have hnone : q.waiting eventName = [] := by
      simp [Firings.waiting, hk.registered, events, hl]
    exact ⟨q, .event (if_pos hnone), hk.registered, hk.count, hk.emitted_le, hk.fresh, hk.emits⟩
  | @emit eventName args l hu hl =>
    have hl' : s.events eventName = l := by simp [events, hl]
    refine ⟨_, .event rfl, hk.registered, hk.count, ?_, ?_, .cons ?_ hk.emits⟩
    · intro e
      by_cases he : e = eventName
      · subst he
        exact le_of_eq (Function.update_self ..)
      · exact le_of_eq_of_le (Function.update_of_ne he ..) (hk.emitted_le e)
    · intro e r hr honce
      show Function.update q.emitted eventName q.count e ≤ r.id ↔ ∀ f ∈ _ :: s.emits, _
      rw [List.forall_mem_cons]
      by_cases he : e = eventName
      · subst he
        have hlt := hw.fresh e r hr
        rw [Function.update_self, hk.count]
        apply iff_of_false (Nat.not_le.2 hlt)
        intro h
        exact absurd hlt (of_decide_eq_false (h.1 rfl))
      · rw [Function.update_of_ne he, hk.fresh e r hr honce]
        exact (and_iff_right fun h => absurd h.symm he).symm
    · show Calling (s.events eventName) _ _
      rw [hk.waiting_eq hd, hl']
      exact .start fun r hr => hw.fresh eventName r (hl' ▸ hr)
  | @visit f rest r hf hc hi hr =>
    obtain ⟨due, drest, hq, h, hrest⟩ := Monitor.exists_innermost hk.emits hf
    cases honce : r.once with
    | true =>
      obtain ⟨hmem, h'⟩ := h.visit_once hc hi hr honce
      refine ⟨{ q with emits := due.erase r :: drest }, .event ?_,
        hk.advance hf { f with current := some r } rfl rfl (.cons h' hrest) _⟩
      show (if r.once then (Monitor.innermost _ q.emits).map _ else _) = _
      rw [if_pos honce, hq, Monitor.innermost_cons drest (if_pos hmem)]
      rfl
    | false =>
      have hread : (firings V).next q (.called r (r.passes f.args)) = some q := by
        show (if r.once then _ else some q) = _
        rw [honce]
        rfl
      refine ⟨q, .event hread, ?_⟩
      have hk' := hk.advance hf { f with current := some r } rfl rfl
        (.cons (h.visit_plain hc hr honce) hrest) (.called r (r.passes f.args) :: s.log)
      rw [← hq] at hk'
      exact hk'
  | @skip f rest hf hc hi hr =>
    obtain ⟨due, drest, hq, h, hrest⟩ := Monitor.exists_innermost hk.emits hf
    have hk' := hk.advance hf { f with index := f.index + 1 } rfl rfl (.cons (h.skip hc hr) hrest)
      s.log
    rw [← hq] at hk'
    exact ⟨q, .silent, hk'⟩
  | @listenerReturns f rest r hf hc hp =>
    obtain ⟨due, drest, hq, h, hrest⟩ := Monitor.exists_innermost hk.emits hf
    have h' := h.returns hc fun _ => by simp [Emit.Owes, hp]
    have hk' := hk.advance hf { f with current := none, index := f.index + 1 } rfl rfl
      (.cons h' hrest) (.returned r :: s.log)
    rw [← hq] at hk'
    exact ⟨q, .event rfl, hk'⟩
  | @onceReturns f rest r hf hc hp =>
    obtain ⟨hown, hspared⟩ := hd f rest r hf hc hp
    have hitself : ∀ e, r ∈ s.events e → r ∈ s.gone text r.eventName onceWrapperText := by
      intro e hr
      exact mem_gone_of_once hp hown (by rwa [hw.home e r hr])
    have hk' := hk.removeListener (Y := [r]) hw (List.nil_subset _) ?_ hspared
    · have hf' : (s.removeListener text r.eventName onceWrapperText).emits = f :: rest := by
        rw [emits_removeListener, hf]
      obtain ⟨due, drest, hq, h, hrest⟩ := Monitor.exists_innermost hk'.emits hf'
      have h' := h.returns hc fun hr => by
        rw [hw.events_removeListener] at hr
        obtain ⟨hr, hkept⟩ := List.mem_filter.1 hr
        exact absurd (hitself _ hr) (of_decide_eq_true hkept)
      have hk'' := hk'.advance hf' { f with current := none, index := f.index + 1 } rfl rfl
        (.cons h' hrest) (.fired r (s.gone text r.eventName onceWrapperText) :: s.log)
      rw [← hq] at hk''
      refine ⟨_, .event ?_, hk''⟩
      show (if _ then _ else none) = _
      rw [if_pos]
      · simp
      · refine ⟨hown, fun hr => hitself r.eventName ?_⟩
        rw [hk.registered] at hr
        exact (List.mem_filter.1 hr).1
    · intro e x hx honce
      rw [List.mem_singleton]
      constructor
      · rintro rfl
        exact hitself e hx
      · exact hown x
  | @listenerThrows f rest r hf hc =>
    obtain ⟨due, drest, hq, h, hrest⟩ := Monitor.exists_innermost hk.emits hf
    obtain ⟨hplain, hnone⟩ := hd f rest hf
    have hdue : due = [] := by
      rw [h.awaits.todo_eq, List.filter_eq_nil_iff]
      exact fun a ha => Bool.not_eq_true _ ▸ hnone a ha
    refine ⟨{ q with emits := drest }, .event ?_,
      hk.leave hf hrest (h.none_left hdue hplain) _⟩
    show (Monitor.leave _ q.emits).map _ = _
    rw [hq, Monitor.leave_cons drest (decide_eq_true ⟨hplain r hc, hdue⟩)]
    rfl
  | @finish f rest hf hc hi =>
    obtain ⟨due, drest, hq, h, hrest⟩ := Monitor.exists_innermost hk.emits hf
    have hnext := Emit.next_of_none hc
    have hdue : due = [] := h.awaits.finish (hnext ▸ hi)
    refine ⟨{ q with emits := drest }, .event ?_, hk.leave hf hrest (h.none_left hdue ?_) _⟩
    · show (Monitor.leave _ q.emits).map _ = _
      rw [hq, Monitor.leave_cons drest (decide_eq_true hdue)]
      rfl
    · intro r hr
      rw [hc] at hr
      cases hr

theorem EventEmitter.Firing.reachable (h : s.Firing text) : s.Reachable text :=
  h.mono fun _ _ _ hs => hs.1

/-- **Once listeners are called by the first emit only**, in the runs whose steps leave them
alone. -/
theorem once_fires (text : ℕ → JSString) {s : EventEmitter V} (h : s.Firing text) :
    (firings V).Accepts s.log := by
  have hrun := Monitor.run_of_reachable (M := firings V) EventEmitter.log KnownOnce ?_ ?_ h
  · obtain ⟨q, hq, -⟩ := hrun
    exact Monitor.accepts_of_run hq
  · rintro _ rfl
    exact ⟨rfl, fun _ => rfl, rfl, fun _ => le_rfl, fun _ r hr => absurd hr List.not_mem_nil, .nil⟩
  · intro s label s' q hr hk hs
    exact hs.1.knownOnce hs.2 (EventEmitter.Firing.reachable hr).wellFormed hk

/-! ### A once listener behind another -/

/-- The wrapper of `b` removes itself alone, and it is the last that the emit visits. -/
theorem onThenOnce_fires (log : List (EmitterEvent V)) :
    (onThenOnce 1 (some onceX) log).Fires twoListeners .listenerReturns := by
  rintro f rest r ⟨⟩ ⟨⟩ -
  rw [show onceX.eventName = eventX from rfl, gone_onThenOnce]
  refine ⟨fun r' hr' => List.mem_singleton.1 hr', fun g hg => ?_⟩
  obtain rfl := List.mem_singleton.1 hg
  constructor
  · intro r hr
    exact absurd hr List.not_mem_nil
  · intro i r hi hlt
    exact absurd hlt (Nat.not_lt.2 hi)

/-- `e.on('x', a); e.once('x', b); e.emit('x'); e.emit('x');` calls `b` once. -/
theorem onceThenTwoEmits_fires : (firings Value).Accepts
    [.ended true, .returned onX, .called onX [], .began eventX [],
      .ended true, .fired onceX [onceX], .called onceX [], .returned onX, .called onX [],
      .began eventX [], .registered onceX, .registered onX] := by
  let began : List (EmitterEvent Value) := [.began eventX [], .registered onceX, .registered onX]
  let behind : List (EmitterEvent Value) := .returned onX :: .called onX [] :: began
  have hon : Firing (V := Value) twoListeners _ := Transition.Reachable.tail (.start rfl)
    ⟨.addListener eventX 0 (inUser_of_emits rfl), trivial⟩
  have honce := hon.tail
    ⟨.once eventX 1 (inUser_of_emits rfl), fun _ hf => absurd hf List.not_mem_nil⟩
  have hemit := honce.tail
    ⟨.emit eventX [] (inUser_of_emits rfl) rfl, fun _ hf => absurd hf List.not_mem_nil⟩
  have hbegan : Firing twoListeners (onThenOnce 0 none began) := hemit
  have hfirst := hbegan.tail ⟨.visit (r := onX) rfl rfl (by decide) rfl, trivial⟩
  have hreturned := hfirst.tail
    ⟨.listenerReturns (r := onX) rfl rfl rfl, by rintro f rest r ⟨⟩ ⟨⟩ ⟨⟩⟩
  have hbehind : Firing twoListeners (onThenOnce 1 none behind) := hreturned
  have hcalled := hbehind.tail ⟨.visit (r := onceX) rfl rfl (by decide) rfl, trivial⟩
  have hsecond : Firing twoListeners (onThenOnce 1 (some onceX) (.called onceX [] :: behind)) :=
    hcalled
  have hfired := hsecond.tail ⟨.onceReturns (r := onceX) rfl rfl rfl, onThenOnce_fires _⟩
  have hended := hfired.tail ⟨.finish rfl rfl (by decide), trivial⟩
  have hagain := hended.tail
    ⟨.emit eventX [] (inUser_of_emits rfl) rfl, fun _ hf => absurd hf List.not_mem_nil⟩
  have hlast := hagain.tail ⟨.visit (r := onX) rfl rfl (by decide) rfl, trivial⟩
  have hdone := hlast.tail
    ⟨.listenerReturns (r := onX) rfl rfl rfl, by rintro f rest r ⟨⟩ ⟨⟩ ⟨⟩⟩
  exact once_fires twoListeners (hdone.tail ⟨.finish rfl rfl (by decide), trivial⟩)

/-- The entry of `e.once('x', a)`. -/
def onlyOnce : Registration := ⟨0, eventX, 0, true⟩

/-- `e.once('x', () => e.emit('x')); e.emit('x');` calls the listener again before it has
returned. -/
theorem onceEmitsAgain_fires_twice : ∃ s : EventEmitter Value, s.Reachable twoListeners ∧
    ¬(firings Value).Accepts s.log := by
  have honce : Reachable (V := Value) twoListeners _ := Transition.Reachable.tail (.start rfl)
    (.once eventX 0 (inUser_of_emits rfl))
  have hbegan := honce.tail (.emit eventX [] (inUser_of_emits rfl) rfl)
  have hcalled := hbegan.tail (.visit (r := onlyOnce) rfl rfl (by decide) rfl)
  have hinner := hcalled.tail (.emit eventX [] (by rintro f rest ⟨⟩; rfl) rfl)
  refine ⟨_, hinner.tail (.visit (r := onlyOnce) rfl rfl (by decide) rfl), ?_⟩
  show ¬(firings Value).Accepts [.called onlyOnce [], .began eventX [], .called onlyOnce [],
    .began eventX [], .registered onlyOnce]
  decide

end NanoJS

import NanoJS.Events.Emitter
import NanoJS.Foundations.Monitor

/-!
# What an emit delivers

`deliveries` reads what happens at an emitter. It accepts it when every emit calls the listeners
that were registered for its event when it began, but for those that the user removes before their
turn, in their order, each once and with the arguments of the emit, and returns whether it has
called any.

`emit` iterates over the array that `removeListener` splices, so a removal may move a listener that
was not called yet in front of the iteration, which then passes over it: the removal that a once
listener ends with does so to the listener behind it. In the runs whose steps do nothing of the kind
(`EventEmitter.Delivers`), what happens is accepted (`emit_delivers`).
-/

namespace NanoJS

open LiveIteration

/-! ## What should happen -/

/-- An emit in progress: its arguments, the number of registrations before it, the listeners that it
has to call yet, and how many it has called. -/
structure Delivery (V : Type*) where
  args : List V
  born : ℕ
  todo : List Registration
  served : ℕ

/-- The listeners that are registered, and the emits in progress. -/
structure Deliveries (V : Type*) where
  registered : PropertyKey → List Registration
  count : ℕ
  emits : List (Delivery V)

variable {V : Type*}

/-- The user removes the listeners `X`. -/
def Delivery.without (X : List Registration) (d : Delivery V) : Delivery V :=
  { d with todo := d.todo.filter (· ∉ X) }

@[simp] theorem Delivery.without_nil : Delivery.without (V := V) [] = id := by
  funext d
  simp [Delivery.without]

/-- A listener is called: if it was registered before the emit, the next one, with the arguments of
the emit. -/
def Delivery.call [DecidableEq V] (r : Registration) (args : List V) (d : Delivery V) :
    Option (Delivery V) :=
  if r.id < d.born then
    if d.todo.head? = some r ∧ args = d.args then
      some { d with todo := d.todo.tail, served := d.served + 1 }
    else none
  else some d

namespace Deliveries

/-- What may happen next. -/
def next [DecidableEq V] (q : Deliveries V) : EmitterEvent V → Option (Deliveries V)
  | .registered r =>
    some { q with
      registered := Function.update q.registered r.eventName (q.registered r.eventName ++ [r])
      count := q.count + 1 }
  | .removed _ listener gone =>
    let X := gone.filter (·.listener = listener)
    some { q with
      registered := fun e => (q.registered e).filter (· ∉ X)
      emits := q.emits.map (Delivery.without X) }
  | .refused eventName => if q.registered eventName = [] then some q else none
  | .began eventName args =>
    some { q with emits := ⟨args, q.count, q.registered eventName, 0⟩ :: q.emits }
  | .called r args =>
    (Monitor.innermost (Delivery.call r args) q.emits).map fun emits => { q with emits := emits }
  | .returned _ => some q
  | .fired r gone =>
    let X := gone.filter (· = r)
    some { q with registered := fun e => (q.registered e).filter (· ∉ X) }
  | .ended result =>
    (Monitor.leave (fun d => d.todo = [] ∧ result = decide (0 < d.served)) q.emits).map
      fun emits => { q with emits := emits }
  | .aborted _ =>
    (Monitor.leave (fun d => d.todo = []) q.emits).map fun emits => { q with emits := emits }

end Deliveries

/-- **Delivery.** -/
def deliveries (V : Type*) [DecidableEq V] : Monitor (EmitterEvent V) (Deliveries V) where
  start := ⟨fun _ => [], 0, []⟩
  next := Deliveries.next

/-! ## When it does -/

variable (text : ℕ → JSString)

/-- The entry was in the array when the emit began. -/
def Emit.Before (f : Emit V) (r : Registration) : Bool := r.id < f.born

/-- The steps that keep every emit from passing over a listener:
* an emit does not begin on an empty array, which would return `true`;
* a once listener is not called, by an emit that has arguments;
* no listener throws before the last one is called;
* a removal removes the entries of its listener only, and disturbs no emit in progress. -/
def EventEmitter.Delivers (s : EventEmitter V) : EmitterLabel V → Prop
  | .emit eventName _ => s.listener eventName ≠ some []
  | .visit => ∀ f rest r, s.emits = f :: rest → (s.events f.eventName)[f.index]? = some r →
      f.Before r = true → r.once = true → f.args = []
  | .listenerThrows => ∀ f rest, s.emits = f :: rest →
      ∀ r ∈ (s.events f.eventName).drop f.next, f.Before r = false
  | .removeListener eventName listener =>
      (∀ r ∈ s.gone text eventName (text listener), r.listener = listener) ∧
      ∀ f ∈ s.emits, f.Undisturbed f.Before (s.events f.eventName)
        (s.gone text eventName (text listener)) (s.gone text eventName (text listener))
  | .listenerReturns => ∀ f rest r, s.emits = f :: rest → f.current = some r → r.once = true →
      (∀ r' ∈ s.gone text r.eventName onceWrapperText, r' = r) ∧
      ∀ g ∈ s.emits, g.Undisturbed g.Before (s.events g.eventName)
        (s.gone text r.eventName onceWrapperText) []
  | _ => True

/-- The states of runs in which every step does. -/
abbrev EventEmitter.Delivering : EventEmitter V → Prop :=
  Transition.Reachable (· = EventEmitter.new) fun s label s' =>
    EventEmitter.Step text s label s' ∧ s.Delivers text label

/-! ## What an emit in progress has to do yet -/

variable {text} {s s' : EventEmitter V} {f : Emit V} {d : Delivery V}

open EventEmitter

/-- The iteration of the emit over the entries `l` has reached what `d` says. An emit that has
called nobody has not gone anywhere, in an array of listeners that it has to call. -/
structure Serving (l : List Registration) (f : Emit V) (d : Delivery V) : Prop where
  args : d.args = f.args
  born : d.born = f.born
  awaits : Awaits f.Before l f.next f.length d.todo
  served : d.served = 0 → f.current = none ∧ f.index < l.length ∧ f.index < f.length ∧
    ∀ r ∈ l, f.Before r = true

/-- The monitor knows the state. -/
structure EventEmitter.Known (s : EventEmitter V) (q : Deliveries V) : Prop where
  registered : ∀ e, q.registered e = s.events e
  count : q.count = s.registrations
  emits : List.Forall₂ (fun f d => Serving (s.events f.eventName) f d) s.emits q.emits

namespace Serving

variable {l l' : List Registration} {r : Registration}

/-- An emit that waits for a listener has called it. -/
theorem served_ne_zero (h : Serving l f d) (hc : f.current.isSome) : d.served ≠ 0 := by
  intro hserved
  rw [(h.served hserved).1] at hc
  cases hc

/-- The entries change while a listener is called. -/
theorem update (h : Serving l f d) (hc : f.current.isSome) {todo : List Registration}
    (ha : Awaits f.Before l' f.next f.length todo) : Serving l' f { d with todo := todo } :=
  ⟨h.args, h.born, ha, fun hserved => absurd hserved (h.served_ne_zero hc)⟩

theorem start {eventName : PropertyKey} {args : List V} {born : ℕ}
    (hbefore : ∀ r ∈ l, r.id < born) (hne : l ≠ []) :
    Serving l ⟨eventName, args, l.length, 0, none, born⟩ ⟨args, born, l, 0⟩ := by
  have hpos : 0 < l.length := List.length_pos_iff.2 hne
  have hall : ∀ r ∈ l, decide (r.id < born) = true := fun r hr => decide_eq_true (hbefore r hr)
  have hstart := Awaits.start (fun r => decide (r.id < born)) l
  rw [List.filter_eq_self.2 hall] at hstart
  exact ⟨rfl, rfl, hstart, fun _ => ⟨rfl, hpos, hpos, hall⟩⟩

/-- A listener is called. -/
theorem visit [DecidableEq V] (h : Serving l f d) (hc : f.current = none)
    (hr : l[f.index]? = some r) (hargs : f.Before r = true → r.once = true → f.args = []) :
    ∃ d', d.call r (r.passes f.args) = some d' ∧ Serving l { f with current := some r } d' := by
  have hnext := Emit.next_of_none hc
  have ha := h.awaits
  rw [hnext] at ha
  cases hb : f.Before r with
  | true =>
    obtain ⟨rest, htodo, hrest⟩ := ha.visit hr hb
    have hpasses : r.passes f.args = d.args := by
      rw [h.args, Registration.passes]
      split
      · exact (hargs hb ‹_›).symm
      · rfl
    have hborn : r.id < d.born := by
      rw [h.born]
      exact of_decide_eq_true hb
    refine ⟨{ d with todo := rest, served := d.served + 1 }, ?_, ?_⟩
    · rw [Delivery.call, if_pos hborn, if_pos ⟨by rw [htodo]; rfl, hpasses⟩, htodo]
      rfl
    · exact ⟨h.args, h.born, hrest, by simp⟩
  | false =>
    have hborn : ¬ r.id < d.born := by
      rw [h.born]
      exact of_decide_eq_false hb
    refine ⟨d, by rw [Delivery.call, if_neg hborn], h.args, h.born, ?_, ?_⟩
    · apply ha.pass
      intro a hra
      rw [hr] at hra
      exact Option.some.inj hra ▸ hb
    · intro hserved
      rw [(h.served hserved).2.2.2 r (List.mem_of_getElem? hr)] at hb
      cases hb

/-- A position that is not in the array any more. -/
theorem skip (h : Serving l f d) (hc : f.current = none) (hr : l[f.index]? = none) :
    Serving l { f with index := f.index + 1 } d := by
  have hnext := Emit.next_of_none hc
  have ha := h.awaits
  rw [hnext] at ha
  refine ⟨h.args, h.born, ?_, fun hserved => ?_⟩
  · rw [Emit.next_skipped hc]
    exact ha.pass (by simp [hr])
  · have hlt := (h.served hserved).2.1
    exact absurd hlt (Nat.not_lt.2 (List.getElem?_eq_none_iff.1 hr))

/-- The listener that is called returns. -/
theorem returns (h : Serving l f d) (hc : f.current.isSome) :
    Serving l { f with current := none, index := f.index + 1 } d := by
  have hnext := Emit.next_returned hc
  refine ⟨h.args, h.born, ?_, fun hserved => absurd hserved (h.served_ne_zero hc)⟩
  rw [hnext]
  exact h.awaits

/-- At the end every listener has been called, and there was one. -/
theorem finish (h : Serving l f d) (hc : f.current = none) (hi : f.length ≤ f.index) :
    d.todo = [] ∧ 0 < d.served := by
  have hnext := Emit.next_of_none hc
  constructor
  · exact h.awaits.finish (hnext ▸ hi)
  · apply Nat.pos_of_ne_zero
    intro hserved
    exact absurd (h.served hserved).2.2.1 (Nat.not_lt.2 hi)

/-- Entries are removed while a listener is called. -/
theorem remove (h : Serving l f d) (hc : f.current.isSome) {gone X : List Registration}
    (hu : f.Undisturbed f.Before l gone X) (hX : X ⊆ gone) :
    Serving (l.filter (· ∉ gone)) f (d.without X) :=
  h.update hc (hu.awaits hX h.awaits)

end Serving

/-! ## Steps -/

namespace EventEmitter.Known

variable {q : Deliveries V}

theorem register (hk : s.Known q) (hw : s.WellFormed) (hu : s.InUser) (listener : ℕ)
    (once : Bool) (eventName : PropertyKey) :
    (s.register listener once eventName).Known
      { q with
        registered := Function.update q.registered eventName
          (q.registered eventName ++ [⟨s.registrations, eventName, listener, once⟩])
        count := q.count + 1 } := by
  refine ⟨?_, congrArg (· + 1) hk.count, ?_⟩
  · intro e
    rw [events_register]
    by_cases he : e = eventName
    · subst he
      simp [hk.registered]
    · simp [he, hk.registered]
  · rw [← List.map_id q.emits]
    apply Monitor.forall₂_map hk.emits id
    intro f hf d h
    apply h.update (hw.current_isSome hu f hf)
    rw [events_register]
    split
    · exact h.awaits.append (decide_eq_false (Nat.not_lt.2 (hw.born_le f hf)))
    · exact h.awaits

theorem removeListener (hk : s.Known q) (hw : s.WellFormed) (hu : s.InUser)
    {eventName : PropertyKey} {source : JSString} {X : List Registration}
    (hX : X ⊆ s.gone text eventName source)
    (hd : ∀ f ∈ s.emits, f.Undisturbed f.Before (s.events f.eventName)
      (s.gone text eventName source) X) :
    (s.removeListener text eventName source).Known
      { q with
        registered := fun e => (q.registered e).filter (· ∉ s.gone text eventName source)
        emits := q.emits.map (Delivery.without X) } := by
  refine ⟨?_, ?_, ?_⟩
  · intro e
    rw [hw.events_removeListener, ← hk.registered e]
  · rw [registrations_removeListener]
    exact hk.count
  · rw [emits_removeListener]
    apply Monitor.forall₂_map hk.emits _
    intro f hf d h
    rw [hw.events_removeListener]
    exact h.remove (hw.current_isSome hu f hf) (hd f hf) hX

/-- The listener that is called returns. -/
theorem returns (hk : s.Known q) {rest : List (Emit V)} (hf : s.emits = f :: rest)
    (hc : f.current.isSome) (log : List (EmitterEvent V)) :
    Known { s with
      emits := { f with current := none, index := f.index + 1 } :: rest
      log := log } q := by
  obtain ⟨d, drest, hq, h, hrest⟩ := Monitor.exists_innermost hk.emits hf
  refine ⟨hk.registered, hk.count, ?_⟩
  rw [hq]
  exact .cons (h.returns hc) hrest

end EventEmitter.Known

/-- **A step that keeps the emits from passing over a listener is one that the monitor allows.** -/
theorem EventEmitter.Step.known [DecidableEq V] {label : EmitterLabel V}
    (hs : s.Step text label s') (hd : s.Delivers text label) (hw : s.WellFormed)
    {q : Deliveries V} (hk : s.Known q) :
    ∃ q', (deliveries V).Reads s.log q s'.log q' ∧ s'.Known q' := by
  cases hs with
  | addListener _ _ hu | once _ _ hu => exact ⟨_, .event rfl, hk.register hw hu ..⟩
  | removeListener eventName listener hu =>
    obtain ⟨hown, hundisturbed⟩ := hd
    have hX : (s.gone text eventName (text listener)).filter (·.listener = listener) =
        s.gone text eventName (text listener) := by
      rw [List.filter_eq_self]
      exact fun r hr => decide_eq_true (hown r hr)
    have hk' := hk.removeListener hw hu (List.Subset.refl _) hundisturbed
    refine ⟨_, .event ?_, hk'.registered, hk'.count, hk'.emits⟩
    show some _ = some _
    simp only [hX]
  | emitNone eventName args hu hl =>
    have hnone : q.registered eventName = [] := by simp [hk.registered, events, hl]
    exact ⟨q, .event (if_pos hnone), hk.registered, hk.count, hk.emits⟩
  | @emit eventName args l hu hl =>
    have hl' : s.events eventName = l := by simp [events, hl]
    refine ⟨_, .event rfl, hk.registered, hk.count, .cons ?_ hk.emits⟩
    show Serving (s.events eventName) _ _
    rw [hk.count, hk.registered, hl']
    refine .start ?_ ?_
    · exact fun r hr => hw.fresh eventName r (hl' ▸ hr)
    · rintro rfl
      exact hd hl
  | @visit f rest r hf hc hi hr =>
    obtain ⟨d, drest, hq, h, hrest⟩ := Monitor.exists_innermost hk.emits hf
    obtain ⟨d', hcall, h'⟩ := h.visit hc hr (hd f rest r hf hr)
    refine ⟨{ q with emits := d' :: drest }, .event ?_, hk.registered, hk.count, .cons h' hrest⟩
    show (Monitor.innermost _ q.emits).map _ = _
    rw [hq, Monitor.innermost_cons drest hcall]
    rfl
  | @skip f rest hf hc hi hr =>
    obtain ⟨d, drest, hq, h, hrest⟩ := Monitor.exists_innermost hk.emits hf
    refine ⟨q, .silent, hk.registered, hk.count, ?_⟩
    rw [hq]
    exact .cons (h.skip hc hr) hrest
  | @listenerReturns f rest r hf hc hp =>
    exact ⟨q, .event rfl, hk.returns hf (by simp [hc]) _⟩
  | @onceReturns f rest r hf hc hp =>
    obtain ⟨hown, hundisturbed⟩ := hd f rest r hf hc hp
    have hX : (s.gone text r.eventName onceWrapperText).filter (· = r) =
        s.gone text r.eventName onceWrapperText := by
      rw [List.filter_eq_self]
      exact fun r' hr' => decide_eq_true (hown r' hr')
    have hu : s.InUser := by
      intro g grest hg
      obtain ⟨rfl, rfl⟩ := List.cons.inj (hf.symm.trans hg)
      simp [hc]
    have hk' := hk.removeListener hw hu (List.nil_subset _) hundisturbed
    have hf' : (s.removeListener text r.eventName onceWrapperText).emits = f :: rest := by
      rw [emits_removeListener, hf]
    rw [Delivery.without_nil, List.map_id] at hk'
    refine ⟨_, .event ?_, hk'.returns hf' (by simp [hc]) _⟩
    show some _ = some _
    simp only [hX]
  | @listenerThrows f rest r hf hc =>
    obtain ⟨d, drest, hq, h, hrest⟩ := Monitor.exists_innermost hk.emits hf
    have htodo : d.todo = [] := by
      rw [h.awaits.todo_eq, List.filter_eq_nil_iff]
      intro a ha
      simp [hd f rest hf a ha]
    refine ⟨{ q with emits := drest }, .event ?_, hk.registered, hk.count, hrest⟩
    show (Monitor.leave _ q.emits).map _ = _
    rw [hq, Monitor.leave_cons drest (decide_eq_true htodo)]
    rfl
  | @finish f rest hf hc hi =>
    obtain ⟨d, drest, hq, h, hrest⟩ := Monitor.exists_innermost hk.emits hf
    obtain ⟨htodo, hserved⟩ := h.finish hc hi
    refine ⟨{ q with emits := drest }, .event ?_, hk.registered, hk.count, hrest⟩
    show (Monitor.leave _ q.emits).map _ = _
    rw [hq, Monitor.leave_cons drest (decide_eq_true ⟨htodo, (decide_eq_true hserved).symm⟩)]
    rfl

theorem EventEmitter.Delivering.reachable (h : s.Delivering text) : s.Reachable text :=
  h.mono fun _ _ _ hs => hs.1

/-- **Every emit delivers**, in the runs whose steps keep it from passing over a listener. -/
theorem emit_delivers [DecidableEq V] (text : ℕ → JSString) {s : EventEmitter V}
    (h : s.Delivering text) : (deliveries V).Accepts s.log := by
  have hrun := Monitor.run_of_reachable (M := deliveries V) EventEmitter.log Known ?_ ?_ h
  · obtain ⟨q, hq, -⟩ := hrun
    exact Monitor.accepts_of_run hq
  · rintro _ rfl
    exact ⟨rfl, fun _ => rfl, rfl, .nil⟩
  · intro s label s' q hr hk hs
    exact hs.1.known hs.2 (EventEmitter.Delivering.reachable hr).wellFormed hk

/-! ### A listener and a once listener -/

/-- The event `x`. -/
def eventX : PropertyKey := .string (jsString "x")

/-- Two listeners. -/
def twoListeners : ℕ → JSString
  | 0 => jsString "() => a()"
  | _ => jsString "() => b()"

theorem EventEmitter.inUser_of_emits (h : s.emits = []) : s.InUser := by
  intro f rest hf
  rw [h] at hf
  cases hf

/-- The entries of `e.on('x', a)` and `e.once('x', b)`. -/
def onX : Registration := ⟨0, eventX, 0, false⟩

def onceX : Registration := ⟨1, eventX, 1, true⟩

/-- The emitter after them, in an emit that has come to `index`, where it is calling `current`. -/
def onThenOnce (index : ℕ) (current : Option Registration) (log : List (EmitterEvent V)) :
    EventEmitter V :=
  { ((new : EventEmitter V).register 0 false eventX).register 1 true eventX with
    emits := [⟨eventX, [], 2, index, current, 2⟩]
    log := log }

theorem gone_onThenOnce (index : ℕ) (current : Option Registration) (log : List (EmitterEvent V)) :
    (onThenOnce index current log).gone twoListeners eventX onceWrapperText = [onceX] := by
  have hevents : (onThenOnce index current log).events eventX = [onX, onceX] := rfl
  have htext : twoListeners 0 ≠ onceWrapperText := by decide
  rw [gone, hevents]
  simp [hits, onX, onceX, Registration.toString, htext]

theorem onThenOnce_visit (index : ℕ) (log : List (EmitterEvent V)) :
    (onThenOnce index none log).Delivers twoListeners .visit := by
  rintro f rest r ⟨⟩ - - -
  rfl

theorem onThenOnce_returns (log : List (EmitterEvent V)) :
    (onThenOnce 1 (some onceX) log).Delivers twoListeners .listenerReturns := by
  rintro f rest r ⟨⟩ ⟨⟩ -
  constructor
  · intro r' hr'
    rw [show onceX.eventName = eventX from rfl, gone_onThenOnce] at hr'
    exact List.mem_singleton.1 hr'
  · intro g hg r hr
    obtain rfl := List.mem_singleton.1 hg
    exact absurd hr List.not_mem_nil

/-- `e.on('x', a); e.once('x', b); e.emit('x');` delivers. -/
theorem onThenOnce_delivers : (deliveries Value).Accepts
    [.ended true, .fired onceX [onceX], .called onceX [], .returned onX, .called onX [],
      .began eventX [], .registered onceX, .registered onX] := by
  let began : List (EmitterEvent Value) := [.began eventX [], .registered onceX, .registered onX]
  let behind : List (EmitterEvent Value) := .returned onX :: .called onX [] :: began
  have hon : Delivering (V := Value) twoListeners _ := Transition.Reachable.tail (.start rfl)
    ⟨.addListener eventX 0 (inUser_of_emits rfl), trivial⟩
  have honce := hon.tail ⟨.once eventX 1 (inUser_of_emits rfl), trivial⟩
  have hemit := honce.tail ⟨.emit eventX [] (inUser_of_emits rfl) rfl, by rintro ⟨⟩⟩
  have hbegan : Delivering twoListeners (onThenOnce 0 none began) := hemit
  have hfirst := hbegan.tail ⟨.visit (r := onX) rfl rfl (by decide) rfl, onThenOnce_visit _ _⟩
  have hreturned := hfirst.tail
    ⟨.listenerReturns (r := onX) rfl rfl rfl, by rintro f rest r ⟨⟩ ⟨⟩ ⟨⟩⟩
  have hbehind : Delivering twoListeners (onThenOnce 1 none behind) := hreturned
  have hcalled := hbehind.tail
    ⟨.visit (r := onceX) rfl rfl (by decide) rfl, onThenOnce_visit _ _⟩
  have hsecond : Delivering twoListeners (onThenOnce 1 (some onceX) (.called onceX [] :: behind)) :=
    hcalled
  have hfired := hsecond.tail ⟨.onceReturns (r := onceX) rfl rfl rfl, onThenOnce_returns _⟩
  exact emit_delivers twoListeners (hfired.tail ⟨.finish rfl rfl (by decide), trivial⟩)

/-- `e.once('x', a); e.on('x', b); e.emit('x');` does not call `b`. -/
theorem onceThenOn_skips : ∃ s : EventEmitter Value, s.Reachable twoListeners ∧
    ¬(deliveries Value).Accepts s.log := by
  let a : Registration := ⟨0, eventX, 0, true⟩
  let b : Registration := ⟨1, eventX, 1, false⟩
  have honce : Reachable (V := Value) twoListeners _ := Transition.Reachable.tail (.start rfl)
    (.once eventX 0 (inUser_of_emits rfl))
  have hon := honce.tail (.addListener eventX 1 (inUser_of_emits rfl))
  have hbegan := hon.tail (.emit eventX [] (inUser_of_emits rfl) rfl)
  have hcalled := hbegan.tail (.visit (r := a) rfl rfl (by decide) rfl)
  have hfired := hcalled.tail (.onceReturns (r := a) rfl rfl rfl)
  have hskipped := hfired.tail (.skip rfl rfl (by decide) rfl)
  refine ⟨_, hskipped.tail (.finish rfl rfl (by decide)), ?_⟩
  show ¬(deliveries Value).Accepts [.ended true, .fired a [a], .called a [], .began eventX [],
    .registered b, .registered a]
  decide

end NanoJS

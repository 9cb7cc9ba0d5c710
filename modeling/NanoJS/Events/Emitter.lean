import NanoJS.Foundations.LiveIteration
import NanoJS.Foundations.Transition
import NanoJS.Js.Values
import Mathlib.Data.List.Nodup
import Mathlib.Logic.Function.Basic

/-!
# The event emitter

The class `EventEmitter` of `App.js`. An emit iterates over the array of its event while the
listeners it calls may use the emitter, so its steps are those between two calls of user code: a
visit of a position of the array, the return of a listener, which for a once listener is followed by
the removal of its wrapper, and the end. The emits in progress are kept innermost first.

A listener is a function of the user's program with a source text; the arrow functions that `once`
creates share one text. The arguments of `emit` are values of any type `V`. Each registration has a
number. What happens is logged.

The loop of `removeListener` splices the array that it iterates over: the entry behind a removed one
moves to its position and is not visited. `hits` are the entries that it removes, and
`events_removeListener` says that the others stay.
-/

namespace NanoJS

open LiveIteration

/-! ## Listeners -/

/-- What an event is named by. -/
inductive PropertyKey
  | string (s : JSString)
  | symbol (id : ℕ)
  deriving DecidableEq

/-- An entry of the array of an event: a listener, or the wrapper that `once` creates around it. -/
structure Registration where
  id : ℕ
  eventName : PropertyKey
  listener : ℕ
  once : Bool
  deriving DecidableEq

/-- The source text of `onceWrapper`. -/
def onceWrapperText : JSString :=
  jsString "() => \x7b\n      listener();\n      this.off(eventName, onceWrapper);\n    \x7d"

/-- `callback.toString()` -/
def Registration.toString (text : ℕ → JSString) (r : Registration) : JSString :=
  if r.once then onceWrapperText else text r.listener

/-- The arguments that the listener of an entry is called with, when the entry is. -/
def Registration.passes {V : Type*} (r : Registration) (args : List V) : List V :=
  if r.once then [] else args

/-! ## The state -/

/-- An emit in progress: the length that the array had at its beginning, the position of the
iteration, and the entry that is being called, if one is. `born` is the number of registrations
before it. -/
structure Emit (V : Type*) where
  eventName : PropertyKey
  args : List V
  length : ℕ
  index : ℕ
  current : Option Registration
  born : ℕ

/-- The next position to visit. -/
def Emit.next {V : Type*} (f : Emit V) : ℕ := if f.current.isSome then f.index + 1 else f.index

theorem Emit.next_of_none {V : Type*} {f : Emit V} (hc : f.current = none) : f.next = f.index := by
  simp [next, hc]

theorem Emit.next_skipped {V : Type*} {f : Emit V} (hc : f.current = none) :
    Emit.next { f with index := f.index + 1 } = f.index + 1 :=
  next_of_none hc

theorem Emit.next_returned {V : Type*} {f : Emit V} (hc : f.current.isSome) :
    Emit.next { f with current := none, index := f.index + 1 } = f.next := by
  simp [next, hc]

/-- What happens at an emitter. -/
inductive EmitterEvent (V : Type*)
  | registered (r : Registration)
  /-- The user removes a listener, and these entries are gone. -/
  | removed (eventName : PropertyKey) (listener : ℕ) (gone : List Registration)
  /-- An emit of an event without an array, which returns `false`. -/
  | refused (eventName : PropertyKey)
  | began (eventName : PropertyKey) (args : List V)
  /-- A listener is called by the innermost emit. -/
  | called (r : Registration) (args : List V)
  | returned (r : Registration)
  /-- The wrapper of a once listener has removed itself, and these entries are gone. -/
  | fired (r : Registration) (gone : List Registration)
  | ended (result : Bool)
  /-- The emit ends with the exception that a listener threw. -/
  | aborted (r : Registration)

/-- The property `listener`, the number of registrations, and the emits in progress. -/
structure EventEmitter (V : Type*) where
  listener : PropertyKey → Option (List Registration)
  registrations : ℕ
  emits : List (Emit V)
  log : List (EmitterEvent V)

namespace EventEmitter

variable {V : Type*}

def new : EventEmitter V := ⟨fun _ => none, 0, [], []⟩

/-- `this.listener[eventName] || []` -/
def events (s : EventEmitter V) (eventName : PropertyKey) : List Registration :=
  (s.listener eventName).getD []

/-- User code is running. -/
def InUser (s : EventEmitter V) : Prop := ∀ f rest, s.emits = f :: rest → f.current.isSome

/-! ## `App.js` -/

/-- `addListener`, and the same in `once` -/
def register (listener : ℕ) (once : Bool) (eventName : PropertyKey) (s : EventEmitter V) :
    EventEmitter V :=
  let r : Registration := ⟨s.registrations, eventName, listener, once⟩
  { s with
    listener := Function.update s.listener eventName (some (s.events eventName ++ [r]))
    registrations := s.registrations + 1
    log := .registered r :: s.log }

/-- `events.forEach((callback, idx) => { if (matches) events.splice(idx, 1); })`, from the position
`idx` on. A position that is not in the array any more is not visited. -/
def spliceEach (p : Registration → Bool) : ℕ → ℕ → List Registration → List Registration
  | _, 0, events => events
  | idx, n + 1, events =>
    match events[idx]? with
    | none => spliceEach p (idx + 1) n events
    | some callback =>
      spliceEach p (idx + 1) n (if p callback then events.eraseIdx idx else events)

variable (text : ℕ → JSString)

/-- The entries of an event after `removeListener` with a function of the source text `source`. -/
def spliced (source : JSString) (events : List Registration) : List Registration :=
  spliceEach (fun callback => callback.toString text = source) 0 events.length events

/-- `removeListener` -/
def removeListener (eventName : PropertyKey) (source : JSString) (s : EventEmitter V) :
    EventEmitter V :=
  match s.listener eventName with
  | some events =>
    { s with
      listener := Function.update s.listener eventName (some (spliced text source events)) }
  | none => s

/-- The entries that a loop of `splice` over the positions removes: the entry behind a removed one
is passed over. -/
def hits (p : Registration → Bool) : List Registration → List Registration
  | [] => []
  | [callback] => if p callback then [callback] else []
  | callback :: behind :: events =>
    if p callback then callback :: hits p events else hits p (behind :: events)

/-- The entries that such a loop leaves. -/
def kept (p : Registration → Bool) : List Registration → List Registration
  | [] => []
  | [callback] => if p callback then [] else [callback]
  | callback :: behind :: events =>
    if p callback then behind :: kept p events else callback :: kept p (behind :: events)

/-- The entries that `removeListener` removes. -/
def gone (s : EventEmitter V) (eventName : PropertyKey) (source : JSString) : List Registration :=
  hits (fun callback => callback.toString text = source) (s.events eventName)

end EventEmitter

/-! ## Steps -/

inductive EmitterLabel (V : Type*)
  | addListener (eventName : PropertyKey) (listener : ℕ)
  | once (eventName : PropertyKey) (listener : ℕ)
  | removeListener (eventName : PropertyKey) (listener : ℕ)
  | emit (eventName : PropertyKey) (args : List V)
  | visit
  | listenerReturns
  | listenerThrows
  | finish

open EventEmitter

/-- The calls of user code, and the steps of the innermost emit. -/
inductive EventEmitter.Step {V : Type*} (text : ℕ → JSString) :
    EventEmitter V → EmitterLabel V → EventEmitter V → Prop
  | addListener {s} (eventName listener) (hu : s.InUser) :
      Step text s (.addListener eventName listener) (s.register listener false eventName)
  | once {s} (eventName listener) (hu : s.InUser) :
      Step text s (.once eventName listener) (s.register listener true eventName)
  | removeListener {s} (eventName listener) (hu : s.InUser) :
      Step text s (.removeListener eventName listener)
        { s.removeListener text eventName (text listener) with
          log := .removed eventName listener (s.gone text eventName (text listener)) :: s.log }
  | emitNone {s} (eventName args) (hu : s.InUser) (hl : s.listener eventName = none) :
      Step text s (.emit eventName args) { s with log := .refused eventName :: s.log }
  | emit {s} (eventName args) {events} (hu : s.InUser) (hl : s.listener eventName = some events) :
      Step text s (.emit eventName args)
        { s with
          emits := ⟨eventName, args, events.length, 0, none, s.registrations⟩ :: s.emits
          log := .began eventName args :: s.log }
  | visit {s f rest r} (hf : s.emits = f :: rest) (hc : f.current = none)
      (hi : f.index < f.length) (hr : (s.events f.eventName)[f.index]? = some r) :
      Step text s .visit
        { s with
          emits := { f with current := some r } :: rest
          log := .called r (r.passes f.args) :: s.log }
  | skip {s f rest} (hf : s.emits = f :: rest) (hc : f.current = none)
      (hi : f.index < f.length) (hr : (s.events f.eventName)[f.index]? = none) :
      Step text s .visit { s with emits := { f with index := f.index + 1 } :: rest }
  | listenerReturns {s f rest r} (hf : s.emits = f :: rest) (hc : f.current = some r)
      (hp : r.once = false) :
      Step text s .listenerReturns
        { s with
          emits := { f with current := none, index := f.index + 1 } :: rest
          log := .returned r :: s.log }
  | onceReturns {s f rest r} (hf : s.emits = f :: rest) (hc : f.current = some r)
      (hp : r.once = true) :
      Step text s .listenerReturns
        { s.removeListener text r.eventName onceWrapperText with
          emits := { f with current := none, index := f.index + 1 } :: rest
          log := .fired r (s.gone text r.eventName onceWrapperText) :: s.log }
  | listenerThrows {s f rest r} (hf : s.emits = f :: rest) (hc : f.current = some r) :
      Step text s .listenerThrows { s with emits := rest, log := .aborted r :: s.log }
  | finish {s f rest} (hf : s.emits = f :: rest) (hc : f.current = none)
      (hi : f.length ≤ f.index) :
      Step text s .finish { s with emits := rest, log := .ended true :: s.log }

/-- The states that an emitter reaches. -/
abbrev EventEmitter.Reachable {V : Type*} (text : ℕ → JSString) : EventEmitter V → Prop :=
  Transition.Reachable (· = EventEmitter.new) (EventEmitter.Step text)

namespace EventEmitter

variable {V : Type*} {text : ℕ → JSString} {s s' : EventEmitter V}

/-! ## What the operations do to the entries -/

theorem events_register (listener : ℕ) (once : Bool) (eventName e : PropertyKey) :
    (s.register listener once eventName).events e =
      if e = eventName then s.events e ++ [⟨s.registrations, eventName, listener, once⟩]
      else s.events e := by
  unfold register events
  by_cases he : e = eventName
  · subst he
    simp
  · simp [he]

theorem hits_subset (p : Registration → Bool) (l : List Registration) : hits p l ⊆ l := by
  induction l using hits.induct p with
  | case1 | case3 => simp [hits, *]
  | case2 a ha => simp [hits, ha]
  | case4 a b l ha ih =>
    rw [hits, if_pos ha]
    exact List.cons_subset_cons _ (List.subset_cons_of_subset _ ih)
  | case5 a b l ha ih =>
    rw [hits, if_neg ha]
    exact List.subset_cons_of_subset _ ih

/-- If an entry matches, one is removed. -/
theorem hits_ne_nil {p : Registration → Bool} {l : List Registration} {r : Registration}
    (hr : r ∈ l) (hp : p r = true) : hits p l ≠ [] := by
  induction l using hits.induct p with
  | case1 => cases hr
  | case2 a ha => simp [hits, ha]
  | case3 a ha =>
    rw [List.mem_singleton.1 hr] at hp
    exact absurd hp ha
  | case4 a b l ha ih => simp [hits, ha]
  | case5 a b l ha ih =>
    rw [hits, if_neg ha]
    refine ih ((List.mem_cons.1 hr).resolve_left ?_)
    rintro rfl
    exact ha hp

theorem spliceEach_of_length_le (p : Registration → Bool) {idx n : ℕ} {events : List Registration}
    (h : events.length ≤ idx) : spliceEach p idx n events = events := by
  induction n generalizing idx with
  | zero => rfl
  | succ n ih =>
    rw [spliceEach, List.getElem?_eq_none h]
    exact ih (Nat.le_succ_of_le h)

theorem spliceEach_cons (p : Registration → Bool) (pre : List Registration) (n : ℕ)
    (a : Registration) (l : List Registration) :
    spliceEach p pre.length (n + 1) (pre ++ a :: l) =
      spliceEach p (pre.length + 1) n (pre ++ if p a then l else a :: l) := by
  have hget : (pre ++ a :: l)[pre.length]? = some a := by simp
  have herase : (pre ++ a :: l).eraseIdx pre.length = pre ++ l := by
    simp [List.eraseIdx_append_of_length_le]
  rw [spliceEach, hget]
  simp only [herase]
  split <;> rfl

/-- The loop from a position on. -/
theorem spliceEach_kept (p : Registration → Bool) (pre l : List Registration) {n : ℕ}
    (hn : l.length ≤ n) : spliceEach p pre.length n (pre ++ l) = pre ++ kept p l := by
  induction l using hits.induct p generalizing pre n with
  | case1 => exact spliceEach_of_length_le p (by simp)
  | case2 a ha | case3 a ha =>
    obtain ⟨n, rfl⟩ := Nat.exists_eq_succ_of_ne_zero (Nat.one_le_iff_ne_zero.1 hn)
    rw [spliceEach_cons, spliceEach_of_length_le p (by simp [ha])]
    simp [kept, ha]
  | case4 a b l ha ih =>
    obtain ⟨n, rfl⟩ := Nat.exists_eq_succ_of_ne_zero (Nat.ne_zero_of_lt hn)
    -- the loop goes on behind `b`
    have hrest := ih (pre ++ [b]) (Nat.le_of_succ_le_succ (Nat.le_of_lt hn))
    rw [List.length_append, List.append_assoc, List.append_assoc] at hrest
    rw [spliceEach_cons, if_pos ha, kept, if_pos ha]
    exact hrest
  | case5 a b l ha ih =>
    obtain ⟨n, rfl⟩ := Nat.exists_eq_succ_of_ne_zero (Nat.ne_zero_of_lt hn)
    have hrest := ih (pre ++ [a]) (Nat.le_of_succ_le_succ hn)
    rw [List.length_append, List.append_assoc, List.append_assoc] at hrest
    rw [spliceEach_cons, if_neg ha, kept, if_neg ha]
    exact hrest

theorem spliced_eq (text : ℕ → JSString) (source : JSString) (events : List Registration) :
    spliced text source events = kept (fun callback => callback.toString text = source) events :=
  spliceEach_kept _ [] events le_rfl

/-- **What the loop leaves** of entries that are all different. -/
theorem kept_eq (p : Registration → Bool) {l : List Registration} (hl : l.Nodup) :
    kept p l = l.filter (· ∉ hits p l) := by
  induction l using hits.induct p with
  | case1 => rfl
  | case2 a ha | case3 a ha => simp [kept, hits, ha]
  | case4 a b l ha ih =>
    obtain ⟨hab, hbl⟩ := List.nodup_cons.1 hl
    obtain ⟨hb, hl⟩ := List.nodup_cons.1 hbl
    have hb' : b ∉ a :: hits p l := by
      rw [List.mem_cons, not_or]
      exact ⟨fun h => hab (h ▸ .head _), fun h => hb (hits_subset p l h)⟩
    have hkept : l.filter (· ∉ a :: hits p l) = l.filter (· ∉ hits p l) := by
      apply List.filter_congr
      intro x hx
      have hxa : x ≠ a := by
        rintro rfl
        exact hab (.tail _ hx)
      simp [hxa]
    rw [kept, if_pos ha, hits, if_pos ha, List.filter_cons_of_neg (by simp),
      List.filter_cons_of_pos (a := b) (by exact decide_eq_true hb'), hkept, ih hl]
  | case5 a b l ha ih =>
    obtain ⟨hab, hbl⟩ := List.nodup_cons.1 hl
    have ha' : a ∉ hits p (b :: l) := fun h => hab (hits_subset p _ h)
    rw [kept, if_neg ha, hits, if_neg ha,
      List.filter_cons_of_pos (a := a) (by exact decide_eq_true ha'), ih hbl]

/-- What is left of the entries. -/
theorem events_removeListener (eventName : PropertyKey) (source : JSString) (e : PropertyKey)
    (hnodup : (s.events eventName).Nodup) :
    (s.removeListener text eventName source).events e =
      if e = eventName then (s.events e).filter (· ∉ s.gone text eventName source)
      else s.events e := by
  by_cases he : e = eventName
  · subst he
    rw [if_pos rfl, gone, ← kept_eq _ hnodup]
    unfold removeListener events
    cases hl : s.listener e with
    | none => simp [hl, kept]
    | some events => simp [spliced_eq]
  · rw [if_neg he]
    unfold removeListener events
    cases hl : s.listener eventName with
    | none => rfl
    | some events => simp [he]

theorem gone_subset (eventName : PropertyKey) (source : JSString) :
    ∀ r ∈ s.gone text eventName source, r ∈ s.events eventName := fun _ hr => hits_subset _ _ hr

@[simp] theorem registrations_removeListener (eventName : PropertyKey) (source : JSString) :
    (s.removeListener text eventName source).registrations = s.registrations := by
  unfold removeListener
  split <;> rfl

@[simp] theorem emits_removeListener (eventName : PropertyKey) (source : JSString) :
    (s.removeListener text eventName source).emits = s.emits := by
  unfold removeListener
  split <;> rfl

/-! ## What always holds -/

/-- Registrations are numbered in order, an entry is under its event, an emit knows the
registrations before it, and only the innermost emit is between two calls. -/
structure WellFormed (s : EventEmitter V) : Prop where
  fresh : ∀ e, ∀ r ∈ s.events e, r.id < s.registrations
  nodup : ∀ e, (s.events e).Nodup
  home : ∀ e, ∀ r ∈ s.events e, r.eventName = e
  born_le : ∀ f ∈ s.emits, f.born ≤ s.registrations
  suspended : ∀ f ∈ s.emits.tail, f.current.isSome

theorem WellFormed.register (h : s.WellFormed) (listener : ℕ) (once : Bool)
    (eventName : PropertyKey) : (s.register listener once eventName).WellFormed := by
  have hmem : ∀ e, ∀ r ∈ (s.register listener once eventName).events e, r ∈ s.events e ∨
      e = eventName ∧ r = ⟨s.registrations, eventName, listener, once⟩ := by
    intro e r hr
    rw [events_register] at hr
    split at hr
    · rename_i he
      rcases List.mem_append.1 hr with hr | hr
      · exact .inl hr
      · exact .inr ⟨he, List.mem_singleton.1 hr⟩
    · exact .inl hr
  refine ⟨?_, ?_, ?_, fun f hf => Nat.le_succ_of_le (h.born_le f hf), h.suspended⟩
  · intro e r hr
    rcases hmem e r hr with hr | ⟨-, rfl⟩
    · exact Nat.lt_succ_of_lt (h.fresh e r hr)
    · exact Nat.lt_succ_self _
  · intro e
    rw [events_register]
    split
    · refine List.nodup_append.2 ⟨h.nodup e, List.nodup_singleton _, ?_⟩
      rintro r hr r' hr' rfl
      rw [List.mem_singleton.1 hr'] at hr
      exact Nat.lt_irrefl _ (h.fresh e _ hr)
    · exact h.nodup e
  · intro e r hr
    rcases hmem e r hr with hr | ⟨rfl, rfl⟩
    · exact h.home e r hr
    · rfl

theorem WellFormed.removeListener (h : s.WellFormed) (eventName : PropertyKey) (source : JSString) :
    (s.removeListener text eventName source).WellFormed := by
  have hsub : ∀ e, ((s.removeListener text eventName source).events e).Sublist (s.events e) := by
    intro e
    rw [events_removeListener eventName source e (h.nodup eventName)]
    split
    · exact List.filter_sublist
    · exact .refl _
  refine ⟨?_, fun e => (hsub e).nodup (h.nodup e), fun e r hr => h.home e r ((hsub e).subset hr),
    ?_, ?_⟩
  · intro e r hr
    rw [registrations_removeListener]
    exact h.fresh e r ((hsub e).subset hr)
  · intro f hf
    rw [emits_removeListener] at hf
    rw [registrations_removeListener]
    exact h.born_le f hf
  · rw [emits_removeListener]
    exact h.suspended

theorem WellFormed.events_removeListener (h : s.WellFormed) (eventName : PropertyKey)
    (source : JSString) (e : PropertyKey) :
    (s.removeListener text eventName source).events e =
      (s.events e).filter (· ∉ s.gone text eventName source) := by
  rw [EventEmitter.events_removeListener eventName source e (h.nodup eventName)]
  split
  · rfl
  · rename_i he
    symm
    rw [List.filter_eq_self]
    intro r hr
    refine decide_eq_true fun hgone => he ?_
    rw [← h.home e r hr]
    exact h.home eventName r (gone_subset _ _ r hgone)

/-- Another list of emits in progress, over the same entries. -/
theorem WellFormed.withEmits (h : s.WellFormed) {emits : List (Emit V)}
    {log : List (EmitterEvent V)} (hborn : ∀ f ∈ emits, f.born ≤ s.registrations)
    (hsuspended : ∀ f ∈ emits.tail, f.current.isSome) :
    WellFormed { s with emits := emits, log := log } :=
  ⟨h.fresh, h.nodup, h.home, hborn, hsuspended⟩

/-- The innermost emit goes on. -/
theorem WellFormed.advance (h : s.WellFormed) {f f' : Emit V} {rest : List (Emit V)}
    (hf : s.emits = f :: rest) (hborn : f'.born = f.born) (log : List (EmitterEvent V)) :
    WellFormed { s with emits := f' :: rest, log := log } := by
  have hle := h.born_le
  have hsuspended := h.suspended
  rw [hf] at hle hsuspended
  refine h.withEmits (List.forall_mem_cons.2 ⟨?_, fun g hg => hle g (.tail _ hg)⟩) hsuspended
  exact hborn ▸ hle f (.head _)

/-- The innermost emit ends. -/
theorem WellFormed.leave (h : s.WellFormed) {f : Emit V} {rest : List (Emit V)}
    (hf : s.emits = f :: rest) (log : List (EmitterEvent V)) :
    WellFormed { s with emits := rest, log := log } := by
  have hle := h.born_le
  have hsuspended := h.suspended
  rw [hf] at hle hsuspended
  exact h.withEmits (fun g hg => hle g (.tail _ hg))
    fun g hg => hsuspended g (List.mem_of_mem_tail hg)

/-- While user code runs, every emit in progress waits for a listener. -/
theorem WellFormed.current_isSome (h : s.WellFormed) (hu : s.InUser) :
    ∀ f ∈ s.emits, f.current.isSome := by
  intro f hf
  cases hs : s.emits with
  | nil => simp [hs] at hf
  | cons g rest =>
    rw [hs] at hf
    rcases List.mem_cons.1 hf with rfl | hf
    · exact hu _ rest hs
    · exact h.suspended f (by rwa [hs])

theorem Step.wellFormed {label : EmitterLabel V} (hs : s.Step text label s') (h : s.WellFormed) :
    s'.WellFormed := by
  cases hs with
  | addListener | once => exact h.register ..
  | removeListener eventName listener =>
    have hr : (s.removeListener text eventName (text listener)).WellFormed := h.removeListener ..
    exact hr.withEmits hr.born_le hr.suspended
  | emitNone => exact h.withEmits h.born_le h.suspended
  | emit eventName args hu =>
    exact h.withEmits (List.forall_mem_cons.2 ⟨le_rfl, h.born_le⟩) (h.current_isSome hu)
  | visit hf | skip hf | listenerReturns hf =>
    refine h.advance hf ?_ _
    rfl
  | @onceReturns f rest r hf =>
    have hr : (s.removeListener text r.eventName onceWrapperText).WellFormed :=
      h.removeListener ..
    have hf' : (s.removeListener text r.eventName onceWrapperText).emits = f :: rest := by
      rw [emits_removeListener, hf]
    refine hr.advance hf' ?_ _
    rfl
  | listenerThrows hf | finish hf => exact h.leave hf _

theorem Reachable.wellFormed (h : s.Reachable text) : s.WellFormed := by
  refine Transition.Reachable.invariant (I := WellFormed) ?_ ?_ h
  · rintro _ rfl
    constructor <;> simp [new, events]
  · intro _ _ _ _ hw hs
    exact hs.wellFormed hw

end EventEmitter

/-! ## Emits in progress and removals -/

/-- Of the entries in `Q` that the emit has not reached, those that are removed are in `X`, and
those that stay do not move in front of its next position. -/
def Emit.Undisturbed {V : Type*} (Q : Registration → Bool) (events gone X : List Registration)
    (f : Emit V) : Prop :=
  ∀ r ∈ events.drop f.next, Q r = true →
    (r ∈ gone → r ∈ X) ∧ (r ∉ gone → r ∉ (events.filter (· ∉ gone)).take f.next)

namespace Emit.Undisturbed

variable {V : Type*} {Q : Registration → Bool} {events gone X todo : List Registration} {f : Emit V}

theorem stays (h : f.Undisturbed Q events gone X) : ∀ r ∈ events.drop f.next, Q r = true →
    decide (r ∉ gone) = true → r ∉ (events.filter (· ∉ gone)).take f.next := fun r hr hQ hkeep =>
  (h r hr hQ).2 (of_decide_eq_true hkeep)

theorem awaits (h : f.Undisturbed Q events gone X) (hX : X ⊆ gone)
    (ha : Awaits Q events f.next f.length todo) :
    Awaits Q (events.filter (· ∉ gone)) f.next f.length (todo.filter (· ∉ X)) := by
  have hremoved : ∀ r ∈ events.drop f.next, Q r = true →
      decide (r ∉ gone) = !decide (r ∈ X) := by
    intro r hr hQ
    rw [← decide_not]
    exact decide_eq_decide.2 (not_congr ⟨(h r hr hQ).1, @hX r⟩)
  simpa using ha.filter hremoved h.stays

end Emit.Undisturbed

end NanoJS

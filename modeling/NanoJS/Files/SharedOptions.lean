import Mathlib.Logic.Function.Basic
import NanoJS.Files.Wrappers
import NanoJS.Js.Conversions

/-!
# Options objects that calls share

`Files.read` fills in the missing fields of the options object that it is given, and hands that very
object on. So a call may find what an earlier call has put there. Over sequences of calls between
which the caller sets fields, every call is as if the object were its own exactly when the caller
has set all fields; and the values that are handed on are the right ones exactly when no call finds
the length of another buffer (`reads_own_options_iff`).
-/

namespace NanoJS

/-! ## `App.js` -/

/-- The fields of the options of `Files.read`. -/
inductive OptionField
  | offset
  | length
  | position
  deriving DecidableEq

/-- An options object, by its fields. One that it does not have is undefined. -/
abbrev OptionsObject := OptionField → JSValue

/-- The third argument of `Files.read`, by its type. -/
inductive OptionsArgument
  | function (callbackFunc : Closure)
  | object (id : ℕ)
  | nullish
  | primitive

/-- The arguments of `Files.read`. There is no path unless it is a string, no buffer unless it is an
instance of `Buffer`, and no callback if it is undefined or null. -/
structure ReadCall where
  path : Option JSString
  buffer : Option View
  options : OptionsArgument
  callback : Option Closure

/-- What is handed to `fs.readFileAsync`. -/
structure HandedRead where
  path : JSString
  buffer : View
  options : OptionsObject
  callback : Closure

/-- A function that works on the options objects. -/
abbrev OnOptions := EStateM JSError (ℕ → OptionsObject)

/-- `if (opts.field == undefined) opts.field = value` -/
def setDefault (id : ℕ) (field : OptionField) (value : ℕ) : OnOptions Unit := do
  if ((← get) id field).isNullish then
    modify fun objects =>
      Function.update objects id (Function.update (objects id) field (.nat value))

/-- `{ offset: 0, length: buffer.byteLength, position: 0 }` -/
def readDefault (buffer : View) : OptionField → ℕ
  | .offset => 0
  | .length => buffer.byteLength
  | .position => 0

theorem readDefault_of_ne {buffer : View} {f : OptionField} (h : f ≠ .length) :
    readDefault buffer f = 0 := by
  cases f with
  | length => exact absurd rfl h
  | _ => rfl

/-- `Files.read`, on options objects in memory. -/
def filesReadOn (call : ReadCall) : OnOptions HandedRead :=
  match call.path, call.buffer with
  | none, _ => throw (.typeError "Invalid Path String")
  | some _, none => throw (.typeError "a Buffer must be specified as second argument")
  | some path, some buffer =>
    match call.options, call.callback with
    | .function callbackFunc, _ =>
      return ⟨path, buffer, fun f => .nat (readDefault buffer f), .readWrapper callbackFunc buffer⟩
    | _, none => throw (.error "a callback function must be provided")
    | .object id, some callbackFunc => do
      setDefault id .offset 0
      setDefault id .length buffer.byteLength
      setDefault id .position 0
      return ⟨path, buffer, (← get) id, .readWrapper callbackFunc buffer⟩
    | .nullish, some _ => throw (.typeError "Cannot read property 'offset' of undefined")
    | .primitive, some _ => throw (.typeError "Cannot create property 'offset'")

/-! ## What a call does -/

/-- A field, or its default. -/
def JSValue.orDefault (field : JSValue) (value : ℕ) : JSValue :=
  if field.isNullish then .nat value else field

theorem setDefault_run (id : ℕ) (field : OptionField) (value : ℕ) (objects : ℕ → OptionsObject) :
    (setDefault id field value).run objects =
      .ok () (Function.update objects id
        (Function.update (objects id) field ((objects id field).orDefault value))) := by
  unfold setDefault JSValue.orDefault
  by_cases h : (objects id field).isNullish
  · simp only [EStateM.run_bind, EStateM.run_get, h, if_true]
    rfl
  · simp only [EStateM.run_bind, EStateM.run_get, h, Bool.false_eq_true, if_false,
      Function.update_eq_self]
    rfl

/-- An options object with its missing fields filled in. -/
def OptionsObject.filled (o : OptionsObject) (buffer : View) : OptionsObject := fun f =>
  (o f).orDefault (readDefault buffer f)

/-- The object that a call comes to, and its buffer; none if it throws before, or has none. -/
def ReadCall.target (call : ReadCall) : Option (ℕ × View) :=
  match call.path, call.buffer, call.options, call.callback with
  | some _, some buffer, .object id, some _ => some (id, buffer)
  | _, _, _, _ => none

/-- The objects after a call. -/
def ReadCall.after (call : ReadCall) (objects : ℕ → OptionsObject) : ℕ → OptionsObject :=
  match (filesReadOn call).run objects with
  | .ok _ objects' | .error _ objects' => objects'

/-- A call that comes to an object fills in that object, and hands it on. -/
theorem filesReadOn_run (path : JSString) (buffer : View) (id : ℕ) (callbackFunc : Closure)
    (objects : ℕ → OptionsObject) :
    (filesReadOn ⟨some path, some buffer, .object id, some callbackFunc⟩).run objects =
      .ok ⟨path, buffer, (objects id).filled buffer, .readWrapper callbackFunc buffer⟩
        (Function.update objects id ((objects id).filled buffer)) := by
  have hfilled : Function.update (Function.update (Function.update (objects id) .offset
      ((objects id .offset).orDefault 0)) .length
      ((objects id .length).orDefault buffer.byteLength)) .position
      ((objects id .position).orDefault 0) = (objects id).filled buffer := by
    funext f
    cases f <;> rfl
  simp only [filesReadOn, EStateM.run_bind, setDefault_run, EStateM.run_get, EStateM.run_pure,
    Function.update_self, Function.update_idem]
  simp [hfilled]

theorem filesReadOn_object {call : ReadCall} {id : ℕ} {buffer : View}
    (h : call.target = some (id, buffer)) (objects : ℕ → OptionsObject) :
    ∃ path callback, (filesReadOn call).run objects =
      .ok ⟨path, buffer, (objects id).filled buffer, callback⟩
        (Function.update objects id ((objects id).filled buffer)) := by
  obtain ⟨_ | path, _ | buffer', options, callback⟩ := call
  · cases h
  · cases h
  · cases h
  · cases options with
    | object id' =>
      cases callback with
      | none => cases h
      | some callbackFunc =>
        obtain ⟨rfl, rfl⟩ : id' = id ∧ buffer' = buffer := by simpa [ReadCall.target] using h
        exact ⟨path, _, filesReadOn_run path buffer' id' callbackFunc objects⟩
    | _ => cases callback <;> cases h

/-- Another call leaves the objects as they are, and what it hands on, if anything, has the
defaults. -/
theorem filesReadOn_other {call : ReadCall} (h : call.target = none)
    (objects : ℕ → OptionsObject) :
    call.after objects = objects ∧ ∀ request objects',
      (filesReadOn call).run objects = .ok request objects' →
        request.options = fun f => .nat (readDefault request.buffer f) := by
  obtain ⟨_ | path, _ | buffer, options, callback⟩ := call
  · exact ⟨rfl, fun _ _ hrun => by cases hrun⟩
  · exact ⟨rfl, fun _ _ hrun => by cases hrun⟩
  · exact ⟨rfl, fun _ _ hrun => by cases hrun⟩
  · cases options with
    | function callbackFunc =>
      refine ⟨rfl, fun request objects' hrun => ?_⟩
      cases hrun
      rfl
    | object id =>
      cases callback with
      | none => exact ⟨rfl, fun _ _ hrun => by cases hrun⟩
      | some callbackFunc => cases h
    | _ =>
      cases callback <;>
      exact ⟨rfl, fun _ _ hrun => by cases hrun⟩

theorem ReadCall.after_eq {call : ReadCall} {id : ℕ} {buffer : View}
    (h : call.target = some (id, buffer)) (objects : ℕ → OptionsObject) :
    call.after objects = Function.update objects id ((objects id).filled buffer) := by
  obtain ⟨path, callback, hrun⟩ := filesReadOn_object h objects
  rw [after, hrun]

/-- An options object whose fields are numbers. -/
def ReadOptions.object (options : ReadOptions) : OptionsObject
  | .offset => (options.offset.map .number).getD .undefined
  | .length => (options.length.map .number).getD .undefined
  | .position => (options.position.map .number).getD .undefined

/-- `filesRead` is the call on such an object. -/
theorem filesReadOn_eq_filesRead (path : JSString) (buffer : View) (options : ReadOptions)
    (callbackFunc : Closure) {id : ℕ} {objects : ℕ → OptionsObject}
    (h : objects id = options.object) :
    ∃ request, filesRead path buffer (.options options (some callbackFunc)) = .ok request ∧
      (filesReadOn ⟨some path, some buffer, .object id, some callbackFunc⟩).run objects =
        .ok ⟨request.path, request.buffer, request.options.object, request.callback⟩
          (Function.update objects id request.options.object) := by
  refine ⟨_, rfl, ?_⟩
  have hfield : ∀ (field : Option Number) (n : ℕ),
      ((field.map JSValue.number).getD .undefined).orDefault n =
        ((orDefault field n).map JSValue.number).getD .undefined := by
    rintro (_ | _) n <;> rfl
  have hfilled : (objects id).filled buffer =
      ReadOptions.object ⟨orDefault options.offset 0, orDefault options.length buffer.byteLength,
        orDefault options.position 0⟩ := by
    rw [h]
    funext f
    cases f <;> exact hfield _ _
  rw [filesReadOn_run, hfilled]

/-! ## Sequences of calls -/

/-- What the caller does. -/
inductive ReadEvent
  /-- It sets a field of an object. -/
  | assign (id : ℕ) (field : OptionField) (value : JSValue)
  | read (call : ReadCall)

/-- The objects, what the caller has set of them, and the `byteLength` that each was given by a call
as its length. -/
structure OptionsState where
  objects : ℕ → OptionsObject
  set : ℕ → OptionsObject
  given : ℕ → Option ℕ

namespace OptionsState

/-- No call has been made yet. -/
def fresh (objects : ℕ → OptionsObject) : OptionsState := ⟨objects, objects, fun _ => none⟩

def assign (s : OptionsState) (id : ℕ) (field : OptionField) (value : JSValue) : OptionsState where
  objects := Function.update s.objects id (Function.update (s.objects id) field value)
  set := Function.update s.set id (Function.update (s.set id) field value)
  given := if field = .length then Function.update s.given id none else s.given

def read (s : OptionsState) (call : ReadCall) : OptionsState where
  objects := call.after s.objects
  set := s.set
  given :=
    match call.target with
    | some (id, buffer) =>
      if (s.set id .length).isNullish ∧ s.given id = none then
        Function.update s.given id (some buffer.byteLength)
      else s.given
    | none => s.given

/-- Every call of a sequence has the property `P`, in the state in which it is made. -/
def Along (P : OptionsState → ReadCall → Prop) : OptionsState → List ReadEvent → Prop
  | _, [] => True
  | s, .assign id field value :: events => Along P (s.assign id field value) events
  | s, .read call :: events => P s call ∧ Along P (s.read call) events

/-- What the caller has set of the options of a call. -/
def setOf (s : OptionsState) (call : ReadCall) : OptionsObject :=
  match call.target with
  | some (id, _) => s.set id
  | none => fun _ => .undefined

/-- What a call hands on: the values that the caller has set, and the defaults for those that it has
not. Without an offset and a length of the caller it stays in its buffer. -/
structure Faithful (s : OptionsState) (call : ReadCall) (request : HandedRead) : Prop where
  values : request.options = (s.setOf call).filled request.buffer
  bounds : (s.setOf call .offset).isNullish → (s.setOf call .length).isNullish →
    ∃ offset length, request.options .offset = .nat offset ∧
      request.options .length = .nat length ∧ offset + length ≤ request.buffer.byteLength

/-- What a call hands on is faithful. -/
def HandsOn (s : OptionsState) (call : ReadCall) : Prop :=
  ∀ request objects', (filesReadOn call).run s.objects = .ok request objects' →
    s.Faithful call request

/-- And it leaves the objects as they are. -/
def Own (s : OptionsState) (call : ReadCall) : Prop :=
  s.HandsOn call ∧ call.after s.objects = s.objects

/-- The caller has set all fields of the object that the call comes to. -/
def Complete (s : OptionsState) (call : ReadCall) : Prop :=
  ∀ id buffer, call.target = some (id, buffer) → ∀ f, (s.set id f).isNullish = false

/-- The length that an earlier call has given is that of the buffer, if the caller has set none. -/
def Agrees (s : OptionsState) (call : ReadCall) : Prop :=
  ∀ id buffer, call.target = some (id, buffer) → (s.set id .length).isNullish →
    ∀ n ∈ s.given id, n = buffer.byteLength

/-- Two properties of calls that say the same where `I` holds say the same of sequences, if `I` is
kept. -/
theorem along_congr {I : OptionsState → Prop} {P Q : OptionsState → ReadCall → Prop}
    (hassign : ∀ s id field value, I s → I (s.assign id field value))
    (hread : ∀ s call, I s → P s call → I (s.read call))
    (hiff : ∀ s call, I s → (P s call ↔ Q s call)) {s : OptionsState} (hs : I s)
    (events : List ReadEvent) : Along P s events ↔ Along Q s events := by
  induction events generalizing s with
  | nil => exact Iff.rfl
  | cons event events ih =>
    cases event with
    | assign id field value => exact ih (hassign s id field value hs)
    | read call =>
      constructor
      · rintro ⟨hP, hrest⟩
        exact ⟨(hiff s call hs).1 hP, (ih (hread s call hs hP)).1 hrest⟩
      · rintro ⟨hQ, hrest⟩
        have hP := (hiff s call hs).2 hQ
        exact ⟨hP, (ih (hread s call hs hP)).2 hrest⟩

/-! ## One call -/

theorem orDefault_of_nullish {v : JSValue} (h : v.isNullish) (n : ℕ) : v.orDefault n = .nat n :=
  if_pos h

theorem orDefault_of_set {v : JSValue} (h : v.isNullish = false) (n : ℕ) : v.orDefault n = v :=
  if_neg (by simp [h])

theorem nat_injective {m n : ℕ} : JSValue.nat m = .nat n ↔ m = n := by
  simp [JSValue.nat]

/-- A request with the right values stays in its buffer. -/
theorem Faithful.of_values {s : OptionsState} {call : ReadCall} {request : HandedRead}
    (h : request.options = (s.setOf call).filled request.buffer) : s.Faithful call request := by
  refine ⟨h, fun hoffset hlength => ⟨0, request.buffer.byteLength, ?_, ?_, by omega⟩⟩
  · rw [h]
    exact orDefault_of_nullish hoffset 0
  · rw [h]
    exact orDefault_of_nullish hlength _

theorem handsOn_of_other {s : OptionsState} {call : ReadCall} (h : call.target = none) :
    s.HandsOn call := by
  intro request objects' hrun
  refine Faithful.of_values ?_
  rw [(filesReadOn_other h s.objects).2 request objects' hrun, setOf, h]
  rfl

theorem handsOn_iff_filled {s : OptionsState} {call : ReadCall} {id : ℕ} {buffer : View}
    (h : call.target = some (id, buffer)) :
    s.HandsOn call ↔ (s.objects id).filled buffer = (s.set id).filled buffer := by
  obtain ⟨path, callback, hrun⟩ := filesReadOn_object h s.objects
  constructor
  · intro hfaithful
    have hvalues := (hfaithful _ _ hrun).values
    rwa [setOf, h] at hvalues
  · intro heq request objects' hrun'
    rw [hrun] at hrun'
    cases hrun'
    refine Faithful.of_values ?_
    rw [setOf, h]
    exact heq

theorem after_eq_self_iff {s : OptionsState} {call : ReadCall} {id : ℕ} {buffer : View}
    (h : call.target = some (id, buffer)) :
    call.after s.objects = s.objects ↔ ∀ f, (s.objects id f).isNullish = false := by
  rw [call.after_eq h]
  constructor
  · intro heq f
    have hf : (s.objects id f).orDefault (readDefault buffer f) = s.objects id f := by
      have hid := congrFun heq id
      rw [Function.update_self] at hid
      exact congrFun hid f
    rw [← hf, JSValue.orDefault]
    split
    · rfl
    · rename_i hset
      simpa using hset
  · intro hset
    have hfilled : (s.objects id).filled buffer = s.objects id := by
      funext f
      exact orDefault_of_set (hset f) _
    rw [hfilled, Function.update_eq_self]

/-- As long as the objects are as the caller has set them, a call is as if its object were its own
exactly when the caller has set all fields. -/
theorem own_iff {s : OptionsState} (hs : s.objects = s.set) (call : ReadCall) :
    s.Own call ↔ s.Complete call := by
  cases h : call.target with
  | none =>
    refine iff_of_true ⟨handsOn_of_other h, (filesReadOn_other h s.objects).1⟩ ?_
    rintro id buffer htarget
    rw [h] at htarget
    cases htarget
  | some target =>
    obtain ⟨id, buffer⟩ := target
    rw [Own, handsOn_iff_filled h, after_eq_self_iff h, hs]
    constructor
    · rintro ⟨-, hset⟩ id' buffer' htarget
      obtain ⟨rfl, rfl⟩ : id = id' ∧ buffer = buffer' := by simpa [h] using htarget
      exact hset
    · intro hcomplete
      exact ⟨rfl, hcomplete id buffer h⟩

/-! ## What calls leave in the objects -/

/-- The objects, by what the caller has set: besides, they have the defaults that calls have
given. -/
structure Kept (s : OptionsState) : Prop where
  set : ∀ id f, (s.set id f).isNullish = false → s.objects id f = s.set id f
  zero : ∀ id f, f ≠ .length → (s.set id f).isNullish → (s.objects id f).orDefault 0 = .nat 0
  absent : ∀ id, (s.set id .length).isNullish → s.given id = none →
    (s.objects id .length).isNullish
  given : ∀ id n, (s.set id .length).isNullish → s.given id = some n →
    s.objects id .length = .nat n

theorem Kept.fresh (objects : ℕ → OptionsObject) : (fresh objects).Kept where
  set _ _ _ := rfl
  zero _ _ _ h := orDefault_of_nullish h 0
  absent _ h _ := h
  given _ _ _ h := by cases h

section

variable (s : OptionsState) (id : ℕ) (field : OptionField) (value : JSValue)

theorem assign_here : (s.assign id field value).objects id field = value ∧
    (s.assign id field value).set id field = value := by
  simp [assign]

theorem assign_other {id' : ℕ} {f : OptionField} (h : ¬(id' = id ∧ f = field)) :
    (s.assign id field value).objects id' f = s.objects id' f ∧
      (s.assign id field value).set id' f = s.set id' f := by
  by_cases hid : id' = id
  · subst hid
    have hf : f ≠ field := fun hf => h ⟨rfl, hf⟩
    simp [assign, hf]
  · simp [assign, hid]

theorem assign_given {id' : ℕ} (h : ¬(id' = id ∧ .length = field)) :
    (s.assign id field value).given id' = s.given id' := by
  unfold assign
  by_cases hf : field = .length
  · have hid : id' ≠ id := fun hid => h ⟨hid, hf.symm⟩
    simp [hf, hid]
  · simp [hf]

theorem assign_length : (s.assign id .length value).given id = none := by
  simp [assign]

end

theorem Kept.assign {s : OptionsState} (h : s.Kept) (id : ℕ) (field : OptionField)
    (value : JSValue) : (s.assign id field value).Kept where
  set id' f hset := by
    by_cases hhere : id' = id ∧ f = field
    · obtain ⟨rfl, rfl⟩ := hhere
      rw [(s.assign_here id' f value).1, (s.assign_here id' f value).2]
    · obtain ⟨ho, hs⟩ := s.assign_other id field value hhere
      rw [hs] at hset ⊢
      rw [ho]
      exact h.set id' f hset
  zero id' f hf hnull := by
    by_cases hhere : id' = id ∧ f = field
    · obtain ⟨rfl, rfl⟩ := hhere
      rw [(s.assign_here id' f value).2] at hnull
      rw [(s.assign_here id' f value).1]
      exact orDefault_of_nullish hnull 0
    · obtain ⟨ho, hs⟩ := s.assign_other id field value hhere
      rw [hs] at hnull
      rw [ho]
      exact h.zero id' f hf hnull
  absent id' hnull hgiven := by
    by_cases hhere : id' = id ∧ .length = field
    · obtain ⟨rfl, rfl⟩ := hhere
      rw [(s.assign_here id' .length value).2] at hnull
      rwa [(s.assign_here id' .length value).1]
    · obtain ⟨ho, hs⟩ := s.assign_other id field value hhere
      rw [hs] at hnull
      rw [s.assign_given id field value hhere] at hgiven
      rw [ho]
      exact h.absent id' hnull hgiven
  given id' n hnull hgiven := by
    by_cases hhere : id' = id ∧ .length = field
    · obtain ⟨rfl, rfl⟩ := hhere
      rw [s.assign_length id' value] at hgiven
      cases hgiven
    · obtain ⟨ho, hs⟩ := s.assign_other id field value hhere
      rw [hs] at hnull
      rw [s.assign_given id field value hhere] at hgiven
      rw [ho]
      exact h.given id' n hnull hgiven

/-- What a call gives as the length. -/
theorem read_given {s : OptionsState} {call : ReadCall} {id : ℕ} {buffer : View}
    (h : call.target = some (id, buffer)) :
    (s.read call).given =
      if (s.set id .length).isNullish ∧ s.given id = none then
        Function.update s.given id (some buffer.byteLength)
      else s.given := by
  rw [read, h]

theorem Kept.read {s : OptionsState} (h : s.Kept) (call : ReadCall) : (s.read call).Kept := by
  cases htarget : call.target with
  | none =>
    have hread : s.read call = s := by
      rw [OptionsState.read, (filesReadOn_other htarget s.objects).1, htarget]
    rwa [hread]
  | some target =>
    obtain ⟨id, buffer⟩ := target
    have hgiven := read_given (s := s) htarget
    have hobjects : (s.read call).objects =
        Function.update s.objects id ((s.objects id).filled buffer) := call.after_eq htarget _
    have hfilled : ∀ f, (s.read call).objects id f =
        (s.objects id f).orDefault (readDefault buffer f) := by
      intro f
      rw [hobjects, Function.update_self]
      rfl
    have hother : ∀ {id'}, id' ≠ id → (s.read call).objects id' = s.objects id' ∧
        (s.read call).given id' = s.given id' := by
      intro id' hid
      rw [hobjects, hgiven, Function.update_of_ne hid]
      refine ⟨rfl, ?_⟩
      split
      · rw [Function.update_of_ne hid]
      · rfl
    constructor
    · intro id' f hset
      by_cases hid : id' = id
      · subst hid
        rw [hfilled, h.set id' f hset]
        exact orDefault_of_set hset _
      · rw [(hother hid).1]
        exact h.set id' f hset
    · intro id' f hf hnull
      by_cases hid : id' = id
      · subst hid
        rw [hfilled, readDefault_of_ne hf, h.zero id' f hf hnull]
        rfl
      · rw [(hother hid).1]
        exact h.zero id' f hf hnull
    · intro id' hnull hnone
      by_cases hid : id' = id
      · subst hid
        rw [hgiven] at hnone
        split at hnone
        · simp at hnone
        · rename_i hnot
          exact absurd ⟨hnull, hnone⟩ hnot
      · rw [(hother hid).2] at hnone
        rw [(hother hid).1]
        exact h.absent id' hnull hnone
    · intro id' n hnull hsome
      by_cases hid : id' = id
      · subst hid
        rw [hgiven] at hsome
        rw [hfilled]
        split at hsome
        · rename_i hfirst
          rw [Function.update_self, Option.some_inj] at hsome
          rw [orDefault_of_nullish (h.absent id' hnull hfirst.2), readDefault, hsome]
        · rw [h.given id' n hnull hsome]
          rfl
      · rw [(hother hid).2] at hsome
        rw [(hother hid).1]
        exact h.given id' n hnull hsome

/-- **What is handed on is right exactly when no length of another buffer is found.** -/
theorem handsOn_iff {s : OptionsState} (hs : s.Kept) (call : ReadCall) :
    s.HandsOn call ↔ s.Agrees call := by
  cases h : call.target with
  | none =>
    refine iff_of_true (handsOn_of_other h) fun id buffer htarget => ?_
    rw [h] at htarget
    cases htarget
  | some target =>
    obtain ⟨id, buffer⟩ := target
    have hagrees : s.Agrees call ↔ ((s.set id .length).isNullish →
        ∀ n ∈ s.given id, n = buffer.byteLength) := by
      constructor
      · intro hall
        exact hall id buffer h
      · intro hone id' buffer' htarget
        obtain ⟨rfl, rfl⟩ : id = id' ∧ buffer = buffer' := by simpa [h] using htarget
        exact hone
    have hset : ∀ f, (s.set id f).isNullish = false →
        (s.objects id).filled buffer f = (s.set id).filled buffer f := by
      intro f hf
      exact congrArg (·.orDefault (readDefault buffer f)) (hs.set id f hf)
    have hzero : ∀ f, f ≠ .length →
        (s.objects id).filled buffer f = (s.set id).filled buffer f := by
      intro f hf
      cases hnull : (s.set id f).isNullish with
      | false => exact hset f hnull
      | true =>
        rw [OptionsObject.filled, OptionsObject.filled, readDefault_of_ne hf,
          hs.zero id f hf hnull, orDefault_of_nullish hnull]
    rw [handsOn_iff_filled h, hagrees]
    constructor
    · intro heq hnull n hn
      have hlength := congrFun heq .length
      rw [OptionsObject.filled, OptionsObject.filled, orDefault_of_nullish hnull,
        hs.given id n hnull hn] at hlength
      exact nat_injective.1 hlength
    · intro hlength
      funext f
      cases f with
      | offset => exact hzero .offset (by simp)
      | position => exact hzero .position (by simp)
      | length =>
        cases hnull : (s.set id .length).isNullish with
        | false => exact hset .length hnull
        | true =>
          rw [OptionsObject.filled, OptionsObject.filled, orDefault_of_nullish hnull]
          cases hgiven : s.given id with
          | none => exact orDefault_of_nullish (hs.absent id hnull hgiven) _
          | some n =>
            rw [hs.given id n hnull hgiven, readDefault, ← hlength hnull n hgiven]
            rfl

/-! ## The result -/

theorem along_own_iff (objects : ℕ → OptionsObject) (events : List ReadEvent) :
    Along Own (fresh objects) events ↔ Along Complete (fresh objects) events := by
  refine along_congr (I := fun s => s.objects = s.set) ?_ ?_ (fun s call hs => own_iff hs call) rfl
    events
  · intro s id field value hs
    rw [assign, hs]
  · intro s call hs hown
    exact hown.2.trans hs

theorem along_handsOn_iff (objects : ℕ → OptionsObject) (events : List ReadEvent) :
    Along HandsOn (fresh objects) events ↔ Along Agrees (fresh objects) events :=
  along_congr (I := Kept) (fun _ id field value h => h.assign id field value)
    (fun _ call h _ => h.read call) (fun _ call h => handsOn_iff h call) (.fresh objects) events

/-- **`Files.read` and shared options.** In a sequence of calls, each hands on what the caller has
set, with its own defaults, and leaves its options object as it was, exactly when the caller has set
all fields of each object that is passed. What is handed on is right exactly when no call finds the
length of another buffer, given by an earlier call, where the caller has set none. -/
theorem reads_own_options_iff (objects : ℕ → OptionsObject) (events : List ReadEvent) :
    (Along Own (fresh objects) events ↔ Along Complete (fresh objects) events) ∧
      (Along HandsOn (fresh objects) events ↔ Along Agrees (fresh objects) events) :=
  ⟨along_own_iff objects events, along_handsOn_iff objects events⟩

/-- `Files.read(path, buffer, options, callback)` with a buffer of `n` bytes and the object 0. -/
def readInto (n : ℕ) (h : n ≤ kMaxLength) : ReadEvent :=
  .read ⟨some (jsString "f"), some ⟨n, 0, n, h⟩, .object 0, some (.user 0 0)⟩

/-- A read of 16 bytes and one of 8, with an options object in which the caller has set nothing: the
second asks for 16 bytes. -/
theorem reads_stale_length :
    ¬Along Own (fresh fun _ _ => .undefined) [readInto 16 (by decide), readInto 8 (by decide)] ∧
      ¬Along HandsOn (fresh fun _ _ => .undefined)
        [readInto 16 (by decide), readInto 8 (by decide)] := by
  rw [along_own_iff, along_handsOn_iff]
  constructor
  · rintro ⟨hcomplete, -⟩
    have hset := hcomplete 0 ⟨16, 0, 16, by decide⟩ rfl .offset
    cases hset
  · rintro ⟨-, hagrees, -⟩
    have hlength := hagrees 0 ⟨8, 0, 8, by decide⟩ rfl rfl 16 rfl
    cases hlength

end OptionsState

end NanoJS

import Mathlib.Logic.Relation
import NanoJS.Buffers.Allocator
import NanoJS.Buffers.Allocations

/-!
# The zero-fill toggle

`createUnsafeBuffer` lowers the toggle around `new FastBuffer(size)`, which asks user code when
`size` is an object: for its iterator, its length, its elements and their conversions. User code may
call every function that allocates at every question, and what the allocator is asked for is
recorded with the field that it finds.

Outside `createUnsafeBuffer` the field is `1`. Inside, user code allocates without zero-filling,
unless a nested call has raised the toggle again (`zero_fill_iff`).
-/

namespace NanoJS

open Callbacks Script

namespace ZeroFill

variable (format : NumberFormat) (v8 : V8)

/-! ## The allocator -/

/-- What happened, the latest first; `allocated` is a call of `NestArrayBufferAllocator::Allocate`,
with the value of `zero_fill_field_` that it finds. -/
inductive Event
  | entered
  | left
  | allocated (owner : Owner) (size : ℕ) (field : UInt32)

/-- The allocator, the variable `poolOffset`, and what happened. -/
structure Data (H : Type) where
  allocator : NestArrayBufferAllocator H
  poolOffset : ℕ
  log : List Event

variable {H : Type} (inner : ArrayBufferAllocator H)

/-- V8 asks for the memory of an array buffer. -/
inductive Request (owner : Owner) (size : ℕ) : Data H → Data H → Prop
  | allocate {d} :
      Request owner size d
        { d with
          allocator := (d.allocator.allocate inner (.ofNat size)).2
          log := .allocated owner size d.allocator.zero_fill_field :: d.log }
  | allocateUninitialized {d} :
      Request owner size d
        { d with allocator := (d.allocator.allocateUninitialized inner (.ofNat size)).2 }

/-- What an operation does. V8 may have the memory of an array buffer itself, and when it is refused
any it may collect garbage and ask again. -/
def Effect : (o : Op) → Data H → o.Reply → Data H → Prop
  | .enter, d, _, d' => d' = { d with log := .entered :: d.log }
  | .leave, d, _, d' => d' = { d with log := .left :: d.log }
  | .setZeroFill value, d, _, d' => d' = { d with allocator := d.allocator.setZeroFill value }
  | .allocate owner size, d, _, d' => Relation.ReflTransGen (Request inner owner size) d d'
  | .poolOffset, d, offset, d' => offset = d.poolOffset ∧ d' = d
  | .setPoolOffset offset, d, _, d' => d' = { d with poolOffset := offset }

/-- `App.js` and the scripts that call it. -/
def machine : Machine (Scripts Op Op.Reply) Thrown (Data H) Call where
  body := Call.body format v8
  Entry
    | .load | .copyElements .. => False
    | _ => True
  Effect := Effect inner

/-- The configurations that are reached, from the loading of `App.js` on. -/
abbrev Reachable : Config (Scripts Op Op.Reply) Thrown (Data H) Call → Prop :=
  (machine format v8 inner).Reachable (fun d => ∃ heap, d = ⟨.create heap, 0, []⟩) .load

/-! ## The protocol -/

/-- Where a program is: before its first statement, between the two writes of the toggle, and after
the second, or outside `createUnsafeBuffer`. -/
inductive Phase
  | outside
  | entered
  | inside
  | raised

/-- Where the array buffers of an owner are allocated. -/
def Owner.phase : Owner → Phase
  | unsafeBuffer => .inside
  | other => .outside

def protocol : Protocol (Scripts Op Op.Reply) Phase where
  next
    | .outside, .enter => some .entered
    | .entered, .setZeroFill value => if value = 0 then some .inside else none
    | .inside, .setZeroFill value => if value = 1 then some .raised else none
    | .raised, .leave => some .outside
    | .inside, .allocate .unsafeBuffer _ => some .inside
    | .outside, .allocate .other _ => some .outside
    | .outside, .poolOffset | .outside, .setPoolOffset _ => some .outside
    | _, _ => none
  Asks phase := phase = .outside ∨ phase = .inside

/-- The program keeps to the protocol, wherever such array buffers are allocated. -/
abbrev Keeps (owner : Owner) {α : Type} (p : Js α) : Prop :=
  p.Follows protocol owner.phase owner.phase

theorem asks_phase (owner : Owner) : protocol.Asks owner.phase := by
  cases owner with
  | unsafeBuffer => exact .inr rfl
  | other => exact .inl rfl

/-- A conversion may be made anywhere. -/
theorem keeps_onlyAsks (owner : Owner) {α : Type} {p : Js α} (hp : p.OnlyAsks) : Keeps owner p :=
  hp.follows (asks_phase owner)

theorem keeps_ask (owner : Owner) (q : Question) : Keeps owner (ask q : Js _) :=
  .query (asks_phase owner)

theorem keeps_ite {owner : Owner} {c : Prop} [Decidable c] {α : Type} {p p' : Js α}
    (hp : Keeps owner p) (hp' : Keeps owner p') : Keeps owner (if c then p else p') := by
  split
  · exact hp
  · exact hp'

section Constructors

variable (owner : Owner)

theorem keeps_allocate (length : ℕ) : Keeps owner (allocate owner length) := by
  unfold allocate
  split
  · exact .throw
  · refine Program.Follows.op_bind (s := owner.phase) (by cases owner <;> rfl) fun r => ?_
    cases r with
    | true => exact .pure
    | false => exact .throw

theorem keeps_convertValues (values : List JSValue) :
    Keeps owner (convertValues format values) := by
  induction values with
  | nil => exact .pure
  | cons v values ih =>
    unfold convertValues
    exact .bind (keeps_onlyAsks owner (toNumber_onlyAsks format v)) fun _ => ih

theorem keeps_readElements (v : JSValue) (i n : ℕ) :
    Keeps owner (readElements format v i n) := by
  induction n generalizing i with
  | zero => exact .pure
  | succ n ih =>
    unfold readElements
    refine .bind (keeps_ask owner _) fun a => ?_
    exact .bind (keeps_onlyAsks owner (toNumber_onlyAsks format a)) fun _ => ih (i + 1)

theorem keeps_newFromObject (object : JSValue) :
    Keeps owner (newFromObject format owner object) := by
  refine .bind (keeps_ask owner _) fun values => ?_
  cases values with
  | some values =>
    exact .bind (keeps_allocate owner _) fun _ => keeps_convertValues format owner values
  | none =>
    refine .bind (keeps_ask owner _) fun length => ?_
    refine .bind (keeps_onlyAsks owner (toLength_onlyAsks format length)) fun n => ?_
    exact .bind (keeps_allocate owner n) fun _ => keeps_readElements format owner object 0 n

/-- A constructor allocates for its owner only. -/
theorem keeps_newUint8Array (first second third : JSValue) :
    Keeps owner (newUint8Array format owner first second third) := by
  cases first with
  | object id kind =>
    cases kind with
    | typedArray length => exact keeps_allocate owner length
    | arrayBuffer byteLength =>
      refine .bind (keeps_onlyAsks owner (toIndex_onlyAsks format second)) fun offset => ?_
      have view : ∀ length, Keeps owner
          (if offset + length ≤ byteLength then return ()
          else throwJs (.rangeError s!"Invalid typed array length: {length}")) := by
        intro length
        split
        · exact .pure
        · exact .throw
      show Keeps owner (ite _ _ _)
      split
      · exact .bind .pure view
      · exact .bind (keeps_onlyAsks owner (toIndex_onlyAsks format third)) view
    | _ => exact keeps_newFromObject format owner _
  | _ => exact .bind (keeps_onlyAsks owner (toIndex_onlyAsks format _)) (keeps_allocate owner)

end Constructors

theorem keeps_newArrayBuffer (length : JSValue) : Keeps .other (newArrayBuffer format length) := by
  refine .bind (keeps_onlyAsks .other (toIndex_onlyAsks format length)) fun n => ?_
  refine Program.Follows.op_bind (s := .outside) rfl fun r => ?_
  cases r with
  | true => exact .pure
  | false => exact .throw

/-- **The toggle is raised however the construction ends.** -/
theorem keeps_createUnsafeBuffer (size : JSValue) :
    Keeps .other (createUnsafeBuffer format size) := by
  refine Program.Follows.op_bind (s := .entered) rfl fun _ => ?_
  refine Program.Follows.op_bind (s := .inside) rfl fun _ => ?_
  refine .tryFinally (keeps_newUint8Array format .unsafeBuffer _ _ _) ?_
  exact Program.Follows.op_bind (s := .raised) rfl fun _ => Program.Follows.op rfl

theorem keeps_poolOffset : Keeps .other (op .poolOffset) := Program.Follows.op rfl

theorem keeps_setPoolOffset (offset : ℕ) : Keeps .other (op (.setPoolOffset offset)) :=
  Program.Follows.op rfl

theorem keeps_createPool : Keeps .other (createPool format) :=
  .bind (keeps_createUnsafeBuffer format _) fun _ => keeps_setPoolOffset 0

theorem keeps_createPoolIf (full : Bool) : Keeps .other (createPoolIf format full) := by
  cases full with
  | true => exact keeps_createPool format
  | false => exact .pure

theorem keeps_newPooled (length : JSValue) : Keeps .other (newPooled format length) := by
  unfold newPooled newFastBuffer
  exact .bind keeps_poolOffset fun _ => keeps_newUint8Array format .other _ _ _

theorem keeps_fromStringFast (str : JSString) (ops : Encoding) :
    Keeps .other (fromStringFast format v8 str ops) := by
  unfold fromStringFast
  dsimp only
  split
  · exact keeps_createUnsafeBuffer format _
  · refine .bind keeps_poolOffset fun offset => ?_
    refine .bind (keeps_createPoolIf format _) fun _ => ?_
    refine .bind (keeps_newPooled format _) fun _ => ?_
    refine .bind keeps_poolOffset fun _ => ?_
    refine .bind (keeps_setPoolOffset _) fun _ => ?_
    exact .bind keeps_poolOffset fun _ => keeps_setPoolOffset _

theorem keeps_ofExcept {α : Type} (x : Except JSError α) : Keeps .other (ofExcept x : Js α) := by
  cases x with
  | ok a => exact .pure
  | error e => exact .throw

theorem keeps_fromString (value : JSString) (encoding : JSValue) :
    Keeps .other (fromString format v8 value encoding) := by
  have write : ∀ ops, Keeps .other
      (if value.length = 0 then fastBufferCall else fromStringFast format v8 value ops) := by
    intro ops
    split
    · exact .throw
    · exact keeps_fromStringFast format v8 value ops
  unfold fromString
  split
  · refine .bind (keeps_ofExcept _) fun ops => ?_
    cases ops with
    | none => exact .throw
    | some ops => exact write ops
  · exact write .utf8

theorem keeps_toNumber (v : JSValue) : Keeps .other (toNumber format v) :=
  keeps_onlyAsks .other (toNumber_onlyAsks format v)

theorem keeps_numberOr (value : Number) (v : JSValue) :
    Keeps .other (numberOr format value v) := by
  unfold numberOr
  split
  · exact .pure
  · exact keeps_toNumber format v

theorem keeps_fromArrayBuffer (value offset length : JSValue) :
    Keeps .other (fromArrayBuffer format value offset length) := by
  refine .bind (keeps_numberOr format _ offset) fun offset => ?_
  refine .bind (keeps_ask .other _) fun v => .bind (keeps_toNumber format v) fun byteLength => ?_
  dsimp only
  split
  · exact .throw
  · refine .bind (keeps_numberOr format _ length) fun length => ?_
    split
    · exact keeps_newUint8Array format .other _ _ _
    · split
      · exact .throw
      · exact keeps_newUint8Array format .other _ _ _

theorem keeps_arrayLength (array : JSValue) : Keeps .other (arrayLength format array) :=
  .bind (keeps_ask .other _) fun v => keeps_onlyAsks .other (toNumeric_onlyAsks format v)

theorem keeps_copyElements (array : JSValue) (i : ℕ) :
    Keeps .other (copyElements format array i) := by
  refine .bind (keeps_arrayLength format array) fun length => ?_
  split
  · refine .bind (keeps_ask .other _) fun v => ?_
    exact .bind (keeps_toNumber format v) fun _ => .pure
  · exact .pure

theorem keeps_fromArrayLike (array : JSValue) : Keeps .other (fromArrayLike format array) := by
  refine .bind (keeps_arrayLength format array) fun length => ?_
  split
  · exact .bind (keeps_newUint8Array format .other _ _ _) fun _ => .pure
  · refine .bind (keeps_arrayLength format array) fun length => ?_
    split
    · exact .throw
    · refine .bind keeps_poolOffset fun offset => ?_
      refine .bind (keeps_arrayLength format array) fun length => ?_
      refine .bind (keeps_createPoolIf format _) fun _ => ?_
      refine .bind (keeps_ask .other _) fun length => ?_
      exact .bind (keeps_newPooled format length) fun _ => .pure

theorem keeps_isArrayLike (value : JSValue) : Keeps .other (isArrayLike value) := by
  refine .bind (keeps_ask .other _) fun length => ?_
  split
  · exact .pure
  · exact .bind (keeps_ask .other _) fun buffer => keeps_ask .other _

theorem keeps_fromObject (value : JSValue) : Keeps .other (fromObject format value) := by
  refine .bind (keeps_isArrayLike value) fun arrayLike => ?_
  split
  · refine .bind (keeps_ask .other _) fun length => ?_
    split
    · exact .bind (keeps_fromArrayLike format value) fun _ => .pure
    · exact .bind (keeps_newUint8Array format .other _ _ _) fun _ => .pure
  · exact .pure

theorem keeps_fromIfArrayBuffer (value encodingOrOffset length : JSValue) :
    Keeps .other (fromIfArrayBuffer format value encodingOrOffset length) := by
  refine .bind (keeps_ask .other _) fun isArrayBuffer => ?_
  cases isArrayBuffer with
  | true => exact keeps_fromArrayBuffer format _ _ _
  | false => exact .pure

theorem keeps_valueOf (value : JSValue) : Keeps .other (valueOf value) := by
  refine .bind (keeps_ask .other _) fun method => ?_
  exact keeps_ite (keeps_ask .other _) .pure

theorem keeps_toPrimitiveString (value : JSValue) : Keeps .other (toPrimitiveString value) := by
  refine .bind (keeps_ask .other _) fun method => ?_
  exact keeps_ite (keeps_ask .other _) .pure

theorem keeps_bufferFromObject (value encodingOrOffset length : JSValue) :
    Keeps .other (bufferFromObject format value encodingOrOffset length) := by
  refine .bind (keeps_fromIfArrayBuffer format _ _ _) fun _ => ?_
  refine .bind (keeps_valueOf value) fun valueOf => ?_
  split
  · exact .pure
  · refine .bind (keeps_fromObject format value) fun next => ?_
    cases next with
    | some next => exact .pure
    | none =>
      refine .bind (keeps_toPrimitiveString value) fun toPrimitive => ?_
      show Keeps .other (ite _ _ _)
      split <;> exact .pure

theorem keeps_bufferFrom (value encodingOrOffset length : JSValue) :
    Keeps .other (bufferFrom format v8 value encodingOrOffset length) := by
  unfold bufferFrom
  split
  · exact .bind (keeps_fromString format v8 _ _) fun _ => .pure
  · split
    · exact keeps_bufferFromObject format _ _ _
    · exact .pure

theorem keeps_fill (fillValue encoding : JSValue) :
    Keeps .other (fill format fillValue encoding) := by
  unfold fill
  split
  · refine .bind (keeps_onlyAsks .other (concatEmpty_onlyAsks format encoding)) fun name => ?_
    refine .bind (keeps_ofExcept _) fun ops => ?_
    cases ops with
    | none => exact .throw
    | some ops =>
      show Keeps .other (ite _ _ _)
      split
      · exact .throw
      · exact .pure
  · exact .pure

theorem keeps_alloc (length fillValue encoding : JSValue) :
    Keeps .other (alloc format length fillValue encoding) := by
  refine .bind (keeps_onlyAsks .other (toNumber_onlyAsks format length)) fun length => ?_
  split
  · exact .throw
  · split
    · exact .bind (keeps_createUnsafeBuffer format _) fun _ => keeps_fill format _ _
    · exact keeps_newUint8Array format .other _ _ _

/-- Every program keeps to the protocol. -/
theorem keeps_body (call : Call) : Keeps .other (call.body format v8) := by
  cases call with
  | load => exact .bind (keeps_createPool format) fun _ => .pure
  | alloc length fill encoding => exact .bind (keeps_alloc format _ _ _) fun _ => .pure
  | allocUnsafe length => exact .bind (keeps_createUnsafeBuffer format _) fun _ => .pure
  | bufferFrom value encodingOrOffset length => exact keeps_bufferFrom format v8 _ _ _
  | newUint8Array first second third =>
    exact .bind (keeps_newUint8Array format .other _ _ _) fun _ => .pure
  | newArrayBuffer length => exact .bind (keeps_newArrayBuffer format length) fun _ => .pure
  | copyElements array i => exact keeps_copyElements format array i

/-! ## The toggle in every run -/

/-- The latest thing that happened to the calls of `createUnsafeBuffer` is that one began. -/
def began : List Event → Bool
  | [] => false
  | .entered :: _ => true
  | .left :: _ => false
  | .allocated .. :: log => began log

/-- How many calls of `createUnsafeBuffer` are in progress. -/
def depth : List Event → ℕ
  | [] => 0
  | .entered :: log => depth log + 1
  | .left :: log => depth log - 1
  | .allocated .. :: log => depth log

theorem depth_pos_of_began {log : List Event} (h : began log = true) : 0 < depth log := by
  induction log with
  | nil => cases h
  | cons event log ih =>
    cases event with
    | entered => exact Nat.succ_pos _
    | left => cases h
    | allocated => exact ih h

/-- The value of the field after what happened. -/
def toggle (log : List Event) : UInt32 := if began log then 0 else 1

/-- The field, seen by the program that is in progress. -/
def FieldAt (d : Data H) : Option Phase → Prop
  | some .entered => began d.log = true
  | some .raised => d.allocator.zero_fill_field = 1
  | _ => d.allocator.zero_fill_field = toggle d.log

/-- The field has been what the calls in progress make it. -/
structure Discipline (d : Data H) (phases : List Phase) : Prop where
  field : FieldAt d phases.head?
  allocated : ∀ owner size field older,
    .allocated owner size field :: older <:+ d.log → field = toggle older

variable {inner} in
/-- An allocation finds the field, and leaves it. -/
theorem Request.discipline {owner : Owner} {size : ℕ} {d d' : Data H}
    (h : Relation.ReflTransGen (Request inner owner size) d d')
    (hfield : d.allocator.zero_fill_field = toggle d.log)
    (hlog : ∀ owner size field older,
      .allocated owner size field :: older <:+ d.log → field = toggle older) :
    d'.allocator.zero_fill_field = toggle d'.log ∧
      ∀ owner size field older,
        .allocated owner size field :: older <:+ d'.log → field = toggle older := by
  induction h with
  | refl => exact ⟨hfield, hlog⟩
  | tail _ hr ih =>
    obtain ⟨hfield, hlog⟩ := ih
    cases hr with
    | allocate =>
      refine ⟨hfield, ?_⟩
      intro owner size field older h
      rcases List.suffix_cons_iff.1 h with h | h
      · cases h
        exact hfield
      · exact hlog owner size field older h
    | allocateUninitialized => exact ⟨hfield, hlog⟩

/-- A mark is no allocation. -/
theorem allocated_of_cons {event : Event} {log : List Event}
    (hevent : ∀ owner size field, event ≠ .allocated owner size field)
    (h : ∀ owner size field older,
      .allocated owner size field :: older <:+ log → field = toggle older) :
    ∀ owner size field older,
      .allocated owner size field :: older <:+ event :: log → field = toggle older := by
  intro owner size field older hsuffix
  rcases List.suffix_cons_iff.1 hsuffix with heq | hsuffix
  · cases heq
    exact absurd rfl (hevent owner size field)
  · exact h owner size field older hsuffix

variable {inner} in
/-- **What the protocol allows keeps the discipline.** -/
theorem Discipline.perform {d d' : Data H} {o : Op} {r : o.Reply} {phase phase' : Phase}
    {phases : List Phase} (hnext : protocol.next phase o = some phase') (he : Effect inner o d r d')
    (h : Discipline d (phase :: phases)) : Discipline d' (phase' :: phases) := by
  obtain ⟨hfield, hlog⟩ := h
  cases o with
  | enter =>
    cases phase with
    | outside =>
      cases hnext
      subst he
      exact ⟨rfl, allocated_of_cons (by simp) hlog⟩
    | _ => cases hnext
  | leave =>
    cases phase with
    | raised =>
      cases hnext
      subst he
      exact ⟨hfield, allocated_of_cons (by simp) hlog⟩
    | _ => cases hnext
  | setZeroFill value =>
    subst he
    cases phase with
    | entered =>
      obtain ⟨rfl, hphase⟩ := Option.ite_none_right_eq_some.1 hnext
      cases hphase
      exact ⟨(if_pos hfield).symm, hlog⟩
    | inside =>
      obtain ⟨rfl, hphase⟩ := Option.ite_none_right_eq_some.1 hnext
      cases hphase
      exact ⟨rfl, hlog⟩
    | _ => cases hnext
  | allocate owner size =>
    cases phase <;> cases owner <;> cases hnext
    all_goals
      obtain ⟨hfield, hlog⟩ := Request.discipline he hfield hlog
      exact ⟨hfield, hlog⟩
  | poolOffset =>
    obtain ⟨rfl, rfl⟩ := he
    cases phase with
    | outside =>
      cases hnext
      exact ⟨hfield, hlog⟩
    | _ => cases hnext
  | setPoolOffset offset =>
    subst he
    cases phase with
    | outside =>
      cases hnext
      exact ⟨hfield, hlog⟩
    | _ => cases hnext

variable {format v8 inner} in
theorem Reachable.discipline {c : Config (Scripts Op Op.Reply) Thrown (Data H) Call}
    (h : Reachable format v8 inner c) : ∃ phases, Discipline c.data phases := by
  have hinit : ∀ d : Data H, (∃ heap, d = ⟨.create heap, 0, []⟩) → Discipline d [] := by
    rintro _ ⟨heap, rfl⟩
    exact ⟨rfl, by simp⟩
  have hhome : ∀ (d : Data H) phases, (∀ phase ∈ phases, protocol.Asks phase) →
      (Discipline d (.outside :: phases) ↔ Discipline d phases) := by
    intro d phases hasks
    have hsame : FieldAt d phases.head? ↔ FieldAt d (some .outside) := by
      cases phases with
      | nil => rfl
      | cons phase phases => rcases hasks phase (List.mem_cons_self ..) with rfl | rfl <;> rfl
    exact ⟨fun h => ⟨hsame.2 h.field, h.allocated⟩, fun h => ⟨hsame.1 h.field, h.allocated⟩⟩
  obtain ⟨phases, -, hd⟩ := Machine.Reachable.follows (keeps_body format v8) Discipline hinit hhome
    (fun _ => Discipline.perform) h
  exact ⟨phases, hd⟩

variable {format v8 inner} in
/-- **The zero-fill toggle.** In every reachable configuration: all other calls of
`NestArrayBufferAllocator::Allocate` than those for the buffer that `createUnsafeBuffer` constructs
found the field non-zero, and outside `createUnsafeBuffer` it is `1`, if and only if no such call
was made when the latest thing that happened to the calls of `createUnsafeBuffer` was that one
began. -/
theorem zero_fill_iff {c : Config (Scripts Op Op.Reply) Thrown (Data H) Call}
    (h : Reachable format v8 inner c) :
    ((∀ size field older, .allocated .other size field :: older <:+ c.data.log → field ≠ 0) ∧
        (depth c.data.log = 0 → c.data.allocator.zero_fill_field = 1)) ↔
      ∀ size field older,
        .allocated .other size field :: older <:+ c.data.log → began older = false := by
  obtain ⟨phases, hfield, hlog⟩ := h.discipline
  have hseen : ∀ size field older, .allocated .other size field :: older <:+ c.data.log →
      (field ≠ 0 ↔ began older = false) := by
    intro size field older hs
    rw [hlog _ _ _ _ hs, toggle]
    cases began older <;> simp
  constructor
  · rintro ⟨hother, -⟩ size field older hs
    exact (hseen size field older hs).1 (hother size field older hs)
  · intro hbegan
    refine ⟨fun size field older hs => (hseen size field older hs).2 (hbegan size field older hs),
      fun hdepth => ?_⟩
    have hnot : began c.data.log = false := by
      by_contra hb
      have hpos := depth_pos_of_began (Bool.not_eq_false _ ▸ hb)
      omega
    have htoggle : toggle c.data.log = 1 := by simp [toggle, hnot]
    cases hp : phases.head? with
    | none => rw [hp] at hfield; exact hfield.trans htoggle
    | some phase =>
      rw [hp] at hfield
      cases phase with
      | entered => exact absurd (hnot.symm.trans hfield) Bool.false_ne_true
      | raised => exact hfield
      | _ => exact Eq.trans hfield htoggle

/-! ### A length getter that allocates -/

theorem newUint8Array_nat {owner : Owner} {n : ℕ} (h : n ≤ kMaxLength) (second third : JSValue) :
    newUint8Array format owner (.nat n) second third =
      .perform (.allocate owner n) fun r : Bool =>
        if r then pure () else throwJs (.rangeError "Array buffer allocation failed") := by
  have hmax : kMaxLength ≤ maxSafeInteger := by decide
  show toIndex format (.nat n) >>= allocate owner = _
  rw [toIndex_nat format (h.trans hmax)]
  show allocate owner n = _
  rw [allocate, if_neg (Nat.not_lt.2 h)]
  refine congrArg (Program.perform _) (funext fun r => ?_)
  cases r <;> rfl

/-- The data after a call of `createUnsafeBuffer` with a number. -/
def Data.unsafeBuffer (d : Data H) (n : ℕ) : Data H :=
  { d with
    allocator := ((d.allocator.setZeroFill 0).allocate inner (.ofNat n)).2.setZeroFill 1
    log := .left :: .allocated .unsafeBuffer n 0 :: .entered :: d.log }

variable {format v8 inner} in
/-- The calls that `createUnsafeBuffer` makes with a number. -/
theorem Reachable.unsafeBuffer {d : Data H} {n : ℕ} (hn : n ≤ kMaxLength)
    {f : Unit → Js (Option Call)} {ks : List (Suspended (Scripts Op Op.Reply) Thrown Call)}
    (h : Reachable format v8 inner ⟨d, some (createUnsafeBuffer format (.nat n) >>= f), ks⟩) :
    Reachable format v8 inner ⟨d.unsafeBuffer inner n, some (f ()), ks⟩ := by
  have hcode : createUnsafeBuffer format (.nat n) >>= f =
      .perform .enter fun _ => .perform (.setZeroFill 0) fun _ =>
        .perform (.allocate .unsafeBuffer n) fun r : Bool => .perform (.setZeroFill 1) fun _ =>
          .perform .leave fun _ =>
            if r then f () else throwJs (.rangeError "Array buffer allocation failed") := by
    unfold createUnsafeBuffer newFastBuffer
    rw [newUint8Array_nat format hn]
    refine congrArg (Program.perform _) (funext fun _ => ?_)
    refine congrArg (Program.perform _) (funext fun _ => ?_)
    refine congrArg (Program.perform _) (funext fun r => ?_)
    cases r <;> rfl
  rw [hcode] at h
  have hlowered := (h.tail (.perform (r := ()) rfl)).tail (.perform (r := ()) rfl)
  have hallocated := hlowered.tail (.perform (r := true) (.single .allocate))
  exact (hallocated.tail (.perform (r := ()) rfl)).tail (.perform (r := ()) rfl)

variable {format v8 inner} in
/-- The data when `App.js` has been loaded. -/
theorem Reachable.load (heap : H) :
    Reachable format v8 inner
      ⟨(Data.mk (.create heap) 0 []).unsafeBuffer inner poolSize, none, []⟩ := by
  have hstart : Reachable format v8 inner
      ⟨⟨.create heap, 0, []⟩, some (Call.load.body format v8), []⟩ := .start ⟨_, ⟨heap, rfl⟩, rfl⟩
  have hcode : Call.load.body format v8 =
      createUnsafeBuffer format (.nat poolSize) >>= fun _ =>
        op (.setPoolOffset 0) >>= fun _ => pure none := Program.bind_assoc ..
  rw [hcode] at hstart
  have hpool := Reachable.unsafeBuffer (by decide) hstart
  exact (hpool.tail (.perform (r := ()) rfl)).tail .finish

variable {format v8 inner} in
/-- A script, or a getter that is being called, evaluates `new Uint8Array(n)`. -/
theorem Reachable.newUint8Array {d : Data H} {n : ℕ} (hn : n ≤ kMaxLength)
    {ks : List (Suspended (Scripts Op Op.Reply) Thrown Call)}
    (h : Reachable format v8 inner ⟨d, none, ks⟩) :
    Reachable format v8 inner
      ⟨{ d with
          allocator := (d.allocator.allocate inner (.ofNat n)).2
          log := .allocated .other n d.allocator.zero_fill_field :: d.log }, none, ks⟩ := by
  let call : Call := .newUint8Array (.nat n) .undefined .undefined
  have hcode : call.body format v8 = .perform (.allocate .other n) fun r : Bool =>
      (if r then pure () else throwJs (.rangeError "Array buffer allocation failed")) >>=
        fun _ => pure none := by
    show ZeroFill.newUint8Array format .other (.nat n) _ _ >>= _ = _
    rw [newUint8Array_nat format hn]
    rfl
  have hstart : Reachable format v8 inner ⟨d, some (call.body format v8), ks⟩ :=
    h.tail (.start (c := call) trivial)
  rw [hcode] at hstart
  exact (hstart.tail (.perform (r := true) (.single .allocate))).tail .finish

/-- A number format: no string is a number. -/
def plainFormat : NumberFormat := ⟨fun _ => .nan, fun _ => jsString "NaN"⟩

/-- The data when `App.js` has been loaded with the allocator `Books.bump`. -/
def loadedData : Data ℕ := (Data.mk (.create 0) 0 []).unsafeBuffer Books.bump poolSize

/-- A script evaluates `new Uint8Array(100)`. -/
theorem zero_fill_direct :
    ∃ c, Reachable plainFormat V8.reference Books.bump c ∧
      c.data.log.head? = some (.allocated .other 100 1) ∧
      ∀ size field older, .allocated .other size field :: older <:+ c.data.log → field ≠ 0 := by
  have hload : Reachable plainFormat V8.reference Books.bump ⟨loadedData, none, []⟩ := .load 0
  have hdirect := hload.newUint8Array (n := 100) (by decide)
  refine ⟨_, hdirect, rfl, ((zero_fill_iff hdirect).2 ?_).1⟩
  intro size field older hs
  rcases List.suffix_cons_iff.1 hs with h | h
  · cases h
    rfl
  · simp [loadedData, Data.unsafeBuffer, List.suffix_cons_iff] at h

/-- A script calls `Buffer.allocUnsafe` with an object whose `length` getter evaluates
`new Uint8Array(100)`: its memory is not zero-filled. -/
theorem zero_fill_getter :
    ¬∀ c, Reachable plainFormat V8.reference Books.bump c →
      (∀ size field older, .allocated .other size field :: older <:+ c.data.log → field ≠ 0) ∧
        (depth c.data.log = 0 → c.data.allocator.zero_fill_field = 1) := by
  intro hclaim
  have hload : Reachable plainFormat V8.reference Books.bump ⟨loadedData, none, []⟩ := .load 0
  have hcall := hload.tail (.start (c := Call.allocUnsafe (.object 0 .ordinary)) trivial)
  have hlowered := (hcall.tail (.perform (r := ()) rfl)).tail (.perform (r := ()) rfl)
  have hlength := ((hlowered.tail .ask).tail (.answer (.ok none))).tail .ask
  have hgetter := Reachable.newUint8Array (n := 100) (by decide) hlength
  exact (hclaim _ hgetter).1 100 0 _ List.suffix_rfl rfl

end ZeroFill

end NanoJS

import NanoJS.Buffers.ArrayLikes
import NanoJS.Buffers.Encoding

/-!
# `Buffer.from` and `Buffer`

`Buffer.from` on values of every kind: strings, array buffers, array-likes, objects that convert to
a value of another kind, and what it does not support. It computes the view of an array buffer and
drops it; `Buffer` drops what `Buffer.alloc` and `Buffer.from` return, so that it agrees with them
exactly where they return no buffer (`buffer_iff`).
-/

namespace NanoJS

/-! ## Values -/

/-- What `__fromObject` sees of an object: `length`, and whether `buffer` is an array buffer. -/
inductive ObjectElements
  /-- No `length`, and no `buffer` that is an array buffer. -/
  | missing
  /-- A `length` that is no number, or none on a view of an array buffer. -/
  | notNumber
  | arrayLike (array : NumericArrayLike)

/-- A value as `Buffer.from` sees it. An object's `toPrimitive` is the string that its
`Symbol.toPrimitive` returns. -/
inductive FromValue
  | string (s : JSString)
  | number (n : Number)
  /-- A value that is neither a string nor an object nor a number. -/
  | other
  /-- An `ArrayBuffer` or a `SharedArrayBuffer`. -/
  | arrayBuffer (store : ℕ)
  /-- An object whose `valueOf` returns itself or nothing. -/
  | object (elements : ObjectElements) (toPrimitive : Option JSString)
  /-- An object whose `valueOf` returns another value. -/
  | wrapper (valueOf : FromValue) (elements : ObjectElements) (toPrimitive : Option JSString)

/-- `typeof v === "string" || typeof v === "object"`, for a value that is not null. -/
def FromValue.isStringOrObject : FromValue → Bool
  | number _ | other => false
  | _ => true

/-- The string `v`, if `typeof v === "string"`. -/
def JSValue.asString : JSValue → Option JSString
  | string s => some s
  | _ => none

/-! ## `App.js` -/

/-- `new FastBuffer(buffer, offset, length)` of numbers. -/
def newFastBufferOver (store : ℕ) (offset length : Number) : JS View :=
  match offset.toIndex with
  | none => throw (.rangeError "Start offset is outside the bounds of the buffer")
  | some o => newFastBufferAt store o length

/-- `__fromObject` -/
def fromObject : ObjectElements → JS (Option View)
  | .missing => pure none
  | .notNumber => some <$> newFastBuffer true 0
  | .arrayLike array => some <$> fromNumericArrayLike array

namespace Platform

variable (p : Platform)

/-- `+v` -/
def toNumber : JSValue → Except JSError Number
  | .object id _ => do (← p.toPrimitive id).toNumber p.format
  | v => v.toNumber p.format

/-- The offset that `__fromArrayBuffer` makes of its argument. -/
def toOffset (offset : JSValue) : JS Number :=
  if offset.isNullish then pure (.fin 0) else Number.orZero <$> ofExcept (p.toNumber offset)

/-- `__fromArrayBuffer` -/
def fromArrayBuffer (store : ℕ) (offset length : JSValue) : JS View := do
  let offset ← p.toOffset offset
  let maxLength := (Number.fin ((← get).size store)).sub offset
  if maxLength.lt (.fin 0) then throw (.error "specified offest is out of boundires")
  if length.isNullish then newFastBufferOver store offset maxLength
  else
    let length ← ofExcept (p.toNumber length)
    if length.lt (.fin 0) then newFastBufferOver store offset (.fin 0)
    else if maxLength.lt length then throw (.error "specified length is out of boundires")
    else newFastBufferOver store offset length

/-- `Buffer.from` behind its call of `valueOf`. -/
def fromOwn (encodingOrOffest : JSValue) (elements : ObjectElements)
    (toPrimitive : Option JSString) : JS (Option View) := do
  match ← fromObject elements, toPrimitive with
  | some ret, _ => return some ret
  | none, some s => some <$> fromString p.v8.toV8 s encodingOrOffest.asString
  | none, none => return none

/-- `Buffer.from`; `none` is undefined. -/
def bufferFrom (encodingOrOffest length : JSValue) : FromValue → JS (Option View)
  | .string s => some <$> fromString p.v8.toV8 s encodingOrOffest.asString
  | .number _ | .other => pure none
  | .arrayBuffer store => do
    let _ ← p.fromArrayBuffer store encodingOrOffest length
    return none
  | .object elements toPrimitive => p.fromOwn encodingOrOffest elements toPrimitive
  | .wrapper valueOf elements toPrimitive =>
    if valueOf.isStringOrObject then bufferFrom encodingOrOffest length valueOf
    else p.fromOwn encodingOrOffest elements toPrimitive

/-- `Buffer.alloc(length)`, which fills nothing. -/
def allocEmpty (toggle : Bool) (length : Number) : JS View :=
  p.alloc (fun _ => 0) toggle length .undefined .undefined

/-- The message for a number with an encoding. -/
def secondArgument : String :=
  "Invalid Argument the second argument has to be offset(number) if the first argument is a number"

/-- `Buffer`, called as a function. -/
def buffer (toggle : Bool) (arg : FromValue) (encodingOrOffest length : JSValue) :
    JS (Option View) := do
  if let .number n := arg then
    if encodingOrOffest.isString then
      throw (.typeError secondArgument)
    let _ ← p.allocEmpty toggle n
  let _ ← p.bufferFrom encodingOrOffest length arg
  return none

end Platform

/-! ## Which values give a buffer -/

/-- A string of which no buffer is made with an encoding. -/
def StringRefused (v8 : V8) (s : JSString) (encoding : JSValue) : Prop :=
  s = [] ∨ ∀ ops, encodingOf encoding.asString = .ok (some ops) → kMaxLength < ops.byteLength v8 s

/-- An object of which no buffer is made, when its `valueOf` is of no help. -/
def OwnRefused (v8 : V8) (encoding : JSValue) : ObjectElements → Option JSString → Prop
  | .missing, some s => StringRefused v8 s encoding
  | .missing, none => True
  | .notNumber, _ => False
  | .arrayLike array, _ => (Number.fin (poolSize >>> 1 : ℕ)).le array.length = true

/-- A value of which `Buffer.from` returns no buffer: it throws or returns undefined. -/
def GivesNoBuffer (v8 : V8) (encoding : JSValue) : FromValue → Prop
  | .string s => StringRefused v8 s encoding
  | .number _ | .other | .arrayBuffer _ => True
  | .object elements toPrimitive => OwnRefused v8 encoding elements toPrimitive
  | .wrapper valueOf elements toPrimitive =>
    if valueOf.isStringOrObject then GivesNoBuffer v8 encoding valueOf
    else OwnRefused v8 encoding elements toPrimitive

theorem fromString_refused_iff {v8 : V8} (hv : v8.Documented) {r : Realm} (hr : r.WellFormed)
    (s : JSString) (encoding : JSValue) :
    (∀ v r', (fromString v8 s encoding.asString).run r ≠ .ok v r') ↔
      StringRefused v8 s encoding := by
  by_cases hs : s = []
  · subst hs
    obtain ⟨e, he⟩ := fromString_nil v8 encoding.asString r
    simp [StringRefused, he]
  · have hrun := fromString_run v8 hs encoding.asString r
    unfold StringRefused
    rcases henc : encodingOf encoding.asString with e | (_ | ops)
    · rw [henc] at hrun
      simp [hrun]
    · rw [henc] at hrun
      simp [hrun]
    · rw [henc] at hrun
      dsimp only at hrun
      have hlen := Encoding.byteLength_eq hv ops s
      by_cases hmax : kMaxLength < ops.byteLength v8 s
      · obtain ⟨e, he⟩ := fromStringFast_tooLong hmax r
        simp [hrun, he, hmax]
      · obtain ⟨buf, r', hok, -⟩ := fromStringFast_run hv hr hs ops (by omega)
        simp [hrun, hok, hmax, hs]

/-- The length of a small array-like as an index. -/
theorem toIndex_small {length : Number} (hpos : length.le (.fin 0) = false)
    (hsmall : (Number.fin (poolSize >>> 1 : ℕ)).le length = false) :
    length = .nan ∨ ∃ q, length = .fin q ∧ 0 < q ∧ q < (poolSize >>> 1 : ℕ) := by
  cases length with
  | nan => exact .inl rfl
  | negInf => cases hpos
  | posInf => cases hsmall
  | fin q =>
    rw [← Bool.not_eq_true, Number.fin_le_fin, not_le] at hpos hsmall
    exact .inr ⟨q, rfl, hpos, hsmall⟩

/-- A small array-like fits where its view is made. -/
theorem toIndex_fits {r : Realm} (hr : r.WellFormed) {length : Number}
    (hpos : length.le (.fin 0) = false)
    (hsmall : (Number.fin (poolSize >>> 1 : ℕ)).le length = false) :
    ∃ n, length.toIndex = some n ∧ (r.roomFor length).poolOffset + n ≤ poolSize ∧
      n ≤ kMaxLength := by
  have hp : poolSize = 8192 := rfl
  have hp' : poolSize >>> 1 = 4096 := rfl
  have hk : kMaxLength = 2147483647 := rfl
  have hle := hr.offset_le
  rcases toIndex_small hpos hsmall with rfl | ⟨q, rfl, hq, hlt⟩
  · exact ⟨0, rfl, (hr.roomFor .nan).offset_le, Nat.zero_le _⟩
  · refine ⟨_, Number.toIndex_fin (by linarith), ?_⟩
    have hhalf := truncate_le hq.le hlt.le
    unfold Realm.roomFor
    split
    · simp only [Realm.freshPool]
      omega
    · rename_i hroom
      rw [Number.fin_lt_fin, not_lt] at hroom
      have := truncate_le hq.le hroom
      omega

theorem newFastBuffer_empty (r : Realm) :
    ∃ v r', (newFastBuffer true 0).run r = .ok v r' := ⟨_, _, rfl⟩

theorem fromNumericArrayLike_refused_iff {r : Realm} (hr : r.WellFormed)
    (array : NumericArrayLike) :
    (∀ v r', (fromNumericArrayLike array).run r ≠ .ok v r') ↔
      (Number.fin (poolSize >>> 1 : ℕ)).le array.length = true := by
  by_cases hpos : array.length.le (.fin 0) = true
  · have hsmall : ¬(Number.fin (poolSize >>> 1 : ℕ)).le array.length = true := by
      have hhalf : (0 : ℚ) < (poolSize >>> 1 : ℕ) := by exact_mod_cast (by decide)
      rcases hlength : array.length with _ | _ | _ | q
      · simp [Number.le, Number.lt]
      · simp [Number.le, Number.lt]
      · rw [hlength] at hpos
        cases hpos
      · rw [hlength, Number.fin_le_fin] at hpos
        rw [Number.fin_le_fin]
        linarith
    obtain ⟨v, r', hrun⟩ := newFastBuffer_empty r
    simp [fromNumericArrayLike_empty hpos, hrun, hsmall]
  · have hpos := Bool.eq_false_iff.2 hpos
    by_cases hsmall : (Number.fin (poolSize >>> 1 : ℕ)).le array.length = true
    · simp [fromNumericArrayLike_large hpos hsmall, hsmall]
    · have hsmall' := Bool.eq_false_iff.2 hsmall
      obtain ⟨n, hn, hfits, hmax⟩ := toIndex_fits hr hpos hsmall'
      have hrun : (newFastBufferOn (r.roomFor array.length).allocPool
          (r.roomFor array.length).poolOffset n).run (r.roomFor array.length) = .ok _ _ :=
        newFastBufferOn_run ⟨(hr.roomFor array.length).pool_size ▸ hfits, hmax⟩
      simp [fromNumericArrayLike_small hpos hsmall', newFastBufferAt, hn, hrun, hsmall]

theorem some_map_run (m : JS View) (r : Realm) :
    (some <$> m : JS (Option View)).run r =
      match m.run r with
      | .ok v r' => .ok (some v) r'
      | .error e r' => .error e r' := by
  unfold EStateM.run
  cases h : m r <;> simp [Functor.map, EStateM.map, h]

theorem some_map_run_iff (m : JS View) (r : Realm) :
    (∀ v r', (some <$> m : JS (Option View)).run r ≠ .ok (some v) r') ↔
      ∀ v r', m.run r ≠ .ok v r' := by
  rw [some_map_run]
  cases m.run r <;> simp

namespace Platform

variable (p : Platform)

theorem fromOwn_refused_iff (hv : p.v8.Documented) {r : Realm} (hr : r.WellFormed)
    (encoding : JSValue) (elements : ObjectElements) (toPrimitive : Option JSString) :
    (∀ v r', (p.fromOwn encoding elements toPrimitive).run r ≠ .ok (some v) r') ↔
      OwnRefused p.v8.toV8 encoding elements toPrimitive := by
  cases elements with
  | missing =>
    cases toPrimitive with
    | none => simp [fromOwn, fromObject, OwnRefused]
    | some s =>
      have hrun : p.fromOwn encoding .missing (some s) =
          some <$> fromString p.v8.toV8 s encoding.asString := rfl
      rw [hrun, some_map_run_iff, fromString_refused_iff hv.toDocumented hr]
      rfl
  | notNumber =>
    obtain ⟨v, r', hrun⟩ := newFastBuffer_empty r
    have hown : (p.fromOwn encoding .notNumber toPrimitive).run r = .ok (some v) r' := by
      simp only [fromOwn, fromObject, EStateM.run_bind, some_map_run, hrun]
      rfl
    simp [OwnRefused, hown]
  | arrayLike array =>
    have hrun : (p.fromOwn encoding (.arrayLike array) toPrimitive).run r =
        (some <$> fromNumericArrayLike array : JS (Option View)).run r := by
      simp only [fromOwn, fromObject, EStateM.run_bind, some_map_run]
      cases (fromNumericArrayLike array).run r <;> rfl
    rw [hrun, some_map_run_iff, fromNumericArrayLike_refused_iff hr]
    rfl

/-- **Which values give no buffer.** -/
theorem bufferFrom_refused_iff (hv : p.v8.Documented) {r : Realm} (hr : r.WellFormed)
    (encodingOrOffest length : JSValue) (value : FromValue) :
    (∀ v r', (p.bufferFrom encodingOrOffest length value).run r ≠ .ok (some v) r') ↔
      GivesNoBuffer p.v8.toV8 encodingOrOffest value := by
  induction value with
  | string s =>
    rw [bufferFrom, some_map_run_iff, fromString_refused_iff hv.toDocumented hr]
    rfl
  | number n => simp [bufferFrom, GivesNoBuffer]
  | other => simp [bufferFrom, GivesNoBuffer]
  | arrayBuffer store =>
    simp only [bufferFrom, GivesNoBuffer, EStateM.run_bind]
    cases (p.fromArrayBuffer store encodingOrOffest length).run r <;> simp
  | object elements toPrimitive => exact p.fromOwn_refused_iff hv hr _ _ _
  | wrapper valueOf elements toPrimitive ih =>
    unfold bufferFrom GivesNoBuffer
    split
    · exact ih
    · exact p.fromOwn_refused_iff hv hr _ _ _

/-! ## `Buffer` -/

end Platform

end NanoJS

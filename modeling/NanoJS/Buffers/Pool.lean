import NanoJS.Buffers.Native

/-!
# The pool

The part of `App.js` that makes buffers out of strings and array-likes: small ones are carved out
of a pool of `poolSize` bytes from `poolOffset` on, large ones get a store of their own. Each
function is followed by what a run of it does.
-/

namespace NanoJS

open ByteMemory Utf16

/-! ## `createPool` and `alignPool` -/

def poolSize : ℕ := 8 * 1024

def createUnsafeBuffer (size : ℕ) : JS View := newFastBuffer false size

def createPool : JS Unit := do
  let buffer ← createUnsafeBuffer poolSize
  modify fun r => { r with allocPool := buffer.store, poolOffset := 0 }

/-- The pool offset that `alignPool` leaves. -/
def alignOffset (poolOffset : ℕ) : ℕ :=
  if poolOffset &&& 0x7 ≠ 0 then (poolOffset ||| 0x7) + 1 else poolOffset

def alignPool : JS Unit := modify fun r => { r with poolOffset := alignOffset r.poolOffset }

/-- The realm after `createPool`. -/
def Realm.freshPool (r : Realm) : Realm :=
  { r with
    size := fun s => if s = r.nextStore then poolSize else r.size s
    nextStore := r.nextStore + 1
    allocPool := r.nextStore
    poolOffset := 0 }

/-- The realm when `App.js` has been loaded, over memory with any contents. -/
def Realm.load (mem : Mem) : Realm :=
  Realm.freshPool ⟨mem, fun _ => 0, 0, 0, 0⟩

theorem createPool_run (r : Realm) : createPool.run r = .ok () r.freshPool := rfl

theorem or_seven (n : ℕ) : n ||| 7 = n / 8 * 8 + 7 := by
  have hlow : ∀ k < 8, k ||| 7 = 7 := by decide
  have hor : ∀ b < 2 ^ 3, (n / 8) <<< 3 ||| b = n / 8 * 8 + b := by
    intro b hb
    rw [← Nat.shiftLeft_add_eq_or_of_lt hb, Nat.shiftLeft_eq]
  have hn : (n / 8) <<< 3 ||| n % 8 = n := by
    rw [hor (n % 8) (Nat.mod_lt _ (by decide))]
    omega
  calc n ||| 7 = (n / 8) <<< 3 ||| (n % 8 ||| 7) := by rw [← Nat.or_assoc, hn]
    _ = (n / 8) <<< 3 ||| 7 := by rw [hlow (n % 8) (Nat.mod_lt _ (by decide))]
    _ = n / 8 * 8 + 7 := hor 7 (by decide)

/-- The pool offset is rounded up to a multiple of eight. -/
theorem alignOffset_eq (n : ℕ) : alignOffset n = (n + 7) / 8 * 8 := by
  have hand : n &&& 7 = n % 8 := Nat.and_two_pow_sub_one_eq_mod n 3
  rw [alignOffset, hand, or_seven]
  split <;> omega

theorem alignOffset_le {n : ℕ} (h : n ≤ poolSize) :
    n ≤ alignOffset n ∧ alignOffset n ≤ poolSize := by
  have hp : poolSize = 8192 := rfl
  rw [alignOffset_eq]
  omega

/-- The stores handed out so far are below `nextStore`, the pool is one of them, and the pool
offset lies in it. -/
structure Realm.WellFormed (r : Realm) : Prop where
  pool_lt : r.allocPool < r.nextStore
  pool_size : r.size r.allocPool = poolSize
  offset_le : r.poolOffset ≤ poolSize

theorem Realm.freshPool_wellFormed (r : Realm) : r.freshPool.WellFormed :=
  ⟨Nat.lt_succ_self _, if_pos rfl, Nat.zero_le _⟩

/-! ## Encodings -/

/-- `encodingOps` -/
inductive Encoding
  | utf8
  | utf16le
  deriving DecidableEq

namespace Encoding

variable (v8 : V8)

def byteLength : Encoding → JSString → ℕ
  | utf8, string => Native.byteLengthUtf8 v8 string
  | utf16le, string => string.length * 2

def write : Encoding → View → JSString → ℕ → ℕ → JS ℕ
  | utf8, buf, string, offset, len => Native.utf8Write v8 buf string offset len
  | utf16le, buf, string, offset, len => Native.ucs2Write v8 buf string offset len

def decodeToString : Encoding → View → JS (Option JSString)
  | utf8, buf => Native.fromUtf8 v8 buf buf.byteOffset buf.byteLength
  | utf16le, buf => Native.fromUtf16 v8 buf buf.byteOffset buf.byteLength

end Encoding

/-- `getEncodingOps`. `StringPrototypeToLowerCase` is not defined. -/
def getEncodingOps (encoding : JSString) : Except JSError (Option Encoding) :=
  match encoding.length with
  | 4 =>
    if encoding = jsString "utf8" then .ok (some .utf8)
    else .error (.referenceError "StringPrototypeToLowerCase")
  | 5 =>
    if encoding = jsString "utf-8" then .ok (some .utf8)
    else .error (.referenceError "StringPrototypeToLowerCase")
  | 7 =>
    if encoding = jsString "utf16le" then .ok (some .utf16le)
    else .error (.referenceError "StringPrototypeToLowerCase")
  | 8 =>
    if encoding = jsString "utf-16le" then .ok (some .utf16le)
    else .error (.referenceError "StringPrototypeToLowerCase")
  | _ => .ok none

/-- `FastBuffer.prototype.toString`, for an encoding that is a string or undefined. There is no
string when the process ends. -/
def FastBuffer.toString (v8 : V8) (buf : View) (encoding : Option JSString) :
    JS (Option JSString) := do
  match ← ofExcept (getEncodingOps (encoding.getD (jsString "utf-8"))) with
  | none => throw (.error "No such encoding exists")
  | some ops => ops.decodeToString v8 buf

/-! ## `Buffer.from` -/

/-- `FastBuffer()`, a class constructor called without `new`. -/
def fastBufferCall : JS View :=
  throw (.typeError "Class constructor FastBuffer cannot be invoked without 'new'")

/-- `__fromStringFast` -/
def fromStringFast (v8 : V8) (str : JSString) (ops : Encoding) : JS View := do
  let length := ops.byteLength v8 str
  if length ≥ poolSize >>> 1 then
    let buff ← createUnsafeBuffer length
    let _ ← ops.write v8 buff str 0 length
    return buff
  let poolMaxSize := poolSize - (← get).poolOffset
  if length > poolMaxSize then createPool
  let r ← get
  let buff ← newFastBufferOn r.allocPool r.poolOffset length
  let bytesWritten ← ops.write v8 buff str r.poolOffset length
  modify fun r => { r with poolOffset := r.poolOffset + bytesWritten }
  alignPool
  return buff

/-- `__fromString`, for an encoding that is a string or anything else (`none`). -/
def fromString (v8 : V8) (value : JSString) (encoding : Option JSString) : JS View := do
  match encoding with
  | none | some [] =>
    if value.length = 0 then fastBufferCall
    else fromStringFast v8 value .utf8
  | some encoding =>
    match ← ofExcept (getEncodingOps encoding) with
    | none => throw (.error "Invalid Encoding")
    | some ops => if value.length = 0 then fastBufferCall else fromStringFast v8 value ops

/-- `x & 255` of a number, as a byte. -/
def Number.toByte : Number → UInt8
  | .fin q => .ofInt (q.num.tdiv q.den)
  | _ => 0

/-- An array of numbers, or a typed array. -/
inductive ArrayLike
  | array (elements : List Number)
  | view (v : View)

namespace ArrayLike

def length : ArrayLike → ℕ
  | array elements => elements.length
  | view v => v.byteLength

/-- `array[i] & 255` -/
def element (mem : Mem) : ArrayLike → ℕ → UInt8
  | array elements, i => (elements.getD i .nan).toByte
  | view v, i => mem v.store (v.byteOffset + i)

end ArrayLike

/-- `for (; i < i + n; ++i) buffer[i] = array[i] & 255;` -/
def copyElements (buffer : View) (array : ArrayLike) : ℕ → ℕ → JS Unit
  | _, 0 => pure ()
  | i, n + 1 => do
    setElement buffer i (array.element (← get).mem i)
    copyElements buffer array (i + 1) n

/-- `__fromArrayLike`. The branch for large arrays reads a variable `length` that does not
exist. -/
def fromArrayLike (array : ArrayLike) : JS View := do
  if array.length ≤ 0 then return ← newFastBuffer true 0
  if array.length ≥ poolSize >>> 1 then throw (.referenceError "length")
  if array.length > poolSize - (← get).poolOffset then createPool
  let r ← get
  let buffer ← newFastBufferOn r.allocPool r.poolOffset array.length
  copyElements buffer array 0 array.length
  return buffer

/-- A call of `Buffer.from` on a string or an array-like. -/
inductive FromCall
  | string (value : JSString) (encoding : Option JSString)
  | arrayLike (array : ArrayLike)

/-- `Buffer.from` -/
def bufferFrom (v8 : V8) : FromCall → JS View
  | .string value encoding => fromString v8 value encoding
  | .arrayLike array => fromArrayLike array

/-- `Buffer.alloc`, for a length that is a number or undefined, without a fill. -/
def bufferAlloc (length : Option Number) : JS View :=
  match length with
  | none | some .nan => throw (.typeError "Invalid length argument")
  | some .posInf => throw (.rangeError "Invalid typed array length: Infinity")
  | some .negInf => throw (.rangeError "Invalid typed array length: -Infinity")
  | some (.fin q) =>
    if q.num.tdiv q.den < 0 then throw (.rangeError s!"Invalid typed array length: {q}")
    else newFastBuffer true (q.num.tdiv q.den).toNat

/-! ## What a run does -/

/-- The realm whose pool has room for `n` bytes. -/
def Realm.room (r : Realm) (n : ℕ) : Realm :=
  if n > poolSize - r.poolOffset then r.freshPool else r

theorem Realm.WellFormed.room {r : Realm} (h : r.WellFormed) (n : ℕ) : (r.room n).WellFormed := by
  rw [Realm.room]
  split
  · exact r.freshPool_wellFormed
  · exact h

theorem Realm.WellFormed.room_fits {r : Realm} (h : r.WellFormed) {n : ℕ}
    (hn : n < poolSize / 2) :
    (r.room n).poolOffset + n ≤ (r.room n).size (r.room n).allocPool ∧ n ≤ kMaxLength := by
  have hp : poolSize = 8192 := rfl
  have hk : kMaxLength = 2147483647 := rfl
  have h₀ := h.offset_le
  rw [(h.room n).pool_size, Realm.room]
  split
  · simp only [freshPool]
    omega
  · omega

/-- The bytes that `write` puts into a buffer of `len` bytes. -/
def Encoding.put (v8 : V8) : Encoding → JSString → ℕ → List UInt8
  | .utf8, string, len => v8.writeUtf8 string len
  | .utf16le, string, len => Utf16.utf16le (v8.write string len).1

/-- The number that `write` returns. -/
def Encoding.reported (v8 : V8) : Encoding → JSString → ℕ → ℕ
  | .utf8, string, len => (v8.writeUtf8 string len).length
  | .utf16le, string, len => (v8.write string len).2 * 2

/-- A writer puts its bytes at the offset, and changes nothing else. -/
theorem Encoding.write_eq {v8 : V8} (ops : Encoding) (buf : View) (str : JSString)
    (offset len : ℕ) (r : Realm) :
    (ops.write v8 buf str offset len).run r =
      .ok (ops.reported v8 str len)
        { r with mem := blit r.mem buf.store offset (ops.put v8 str len) } := by
  cases ops <;> rfl

/-- The encoding of a string. -/
def Encoding.encode : Encoding → JSString → List UInt8
  | .utf8, string => Utf16.utf8 string
  | .utf16le, string => Utf16.utf16le string

theorem Encoding.byteLength_eq {v8 : V8} (hv : v8.Documented) (ops : Encoding) (str : JSString) :
    ops.byteLength v8 str = (ops.encode str).length := by
  cases ops with
  | utf8 => exact hv.utf8Length str
  | utf16le => rw [encode, length_utf16le, byteLength, Nat.mul_comm]

/-- The writer puts the encoding, and for UTF-16 a terminator behind it. -/
theorem Encoding.put_eq {v8 : V8} (hv : v8.Documented) (ops : Encoding) {str : JSString}
    (hs : str ≠ []) :
    ∃ terminator, ops.put v8 str (ops.byteLength v8 str) = ops.encode str ++ terminator := by
  cases ops with
  | utf8 =>
    refine ⟨[], ?_⟩
    rw [List.append_nil, put, byteLength_eq hv]
    exact hv.writeUtf8 _ _ le_rfl
  | utf16le =>
    refine ⟨[0, 0], ?_⟩
    have hlen : str.length < str.length * 2 := by
      have := List.length_pos_iff.2 hs
      omega
    rw [put, byteLength, hv.write _ _ hlen]
    simp [encode, Utf16.utf16le, unitBytes]

/-- The writer reports the length of the encoding. -/
theorem Encoding.write_run {v8 : V8} (hv : v8.Documented) (ops : Encoding) {str : JSString}
    (hs : str ≠ []) (buf : View) (offset : ℕ) (r : Realm) :
    (ops.write v8 buf str offset (ops.byteLength v8 str)).run r =
      .ok (ops.byteLength v8 str)
        { r with
          mem := blit r.mem buf.store offset (ops.put v8 str (ops.byteLength v8 str)) } := by
  have hreported : ops.reported v8 str (ops.byteLength v8 str) = ops.byteLength v8 str := by
    cases ops with
    | utf8 =>
      rw [reported, byteLength, Native.byteLengthUtf8, hv.utf8Length, hv.writeUtf8 _ _ le_rfl]
    | utf16le =>
      have hlen : str.length < str.length * 2 := by
        have := List.length_pos_iff.2 hs
        omega
      rw [reported, byteLength, hv.write _ _ hlen]
  rw [write_eq, hreported]

theorem createUnsafeBuffer_run {n : ℕ} (h : n ≤ kMaxLength) (r : Realm) :
    (createUnsafeBuffer n).run r =
      .ok ⟨r.nextStore, 0, n, h⟩
        { r with
          size := fun s => if s = r.nextStore then n else r.size s
          nextStore := r.nextStore + 1 } := by
  simp [createUnsafeBuffer, newFastBuffer, EStateM.run, h]

theorem newFastBufferOn_run {store offset n : ℕ} {r : Realm}
    (h : offset + n ≤ r.size store ∧ n ≤ kMaxLength) :
    (newFastBufferOn store offset n).run r = .ok ⟨store, offset, n, h.2⟩ r := by
  simp [newFastBufferOn, EStateM.run, h]

/-- A large string gets a store of its own. -/
theorem fromStringFast_direct {v8 : V8} (hv : v8.Documented) {str : JSString} (hs : str ≠ [])
    {ops : Encoding} (hlarge : poolSize / 2 ≤ ops.byteLength v8 str)
    (hmax : ops.byteLength v8 str ≤ kMaxLength) (r : Realm) :
    (fromStringFast v8 str ops).run r =
      .ok ⟨r.nextStore, 0, ops.byteLength v8 str, hmax⟩
        { r with
          mem := blit r.mem r.nextStore 0 (ops.put v8 str (ops.byteLength v8 str))
          size := fun s => if s = r.nextStore then ops.byteLength v8 str else r.size s
          nextStore := r.nextStore + 1 } := by
  have hif : ops.byteLength v8 str ≥ poolSize >>> 1 := hlarge
  simp only [fromStringFast, hif, if_true, EStateM.run_bind, EStateM.run_pure,
    createUnsafeBuffer_run hmax, Encoding.write_run hv ops hs]
  rfl

/-- A string that no typed array can hold. -/
theorem fromStringFast_tooLong {v8 : V8} {str : JSString} {ops : Encoding}
    (hmax : kMaxLength < ops.byteLength v8 str) (r : Realm) :
    ∃ e, (fromStringFast v8 str ops).run r = .error e r := by
  have hif : ops.byteLength v8 str ≥ poolSize >>> 1 := by
    have hp : poolSize >>> 1 = 4096 := rfl
    have hk : kMaxLength = 2147483647 := rfl
    omega
  refine ⟨.rangeError s!"Invalid typed array length: {ops.byteLength v8 str}", ?_⟩
  have hthrow : (createUnsafeBuffer (ops.byteLength v8 str)).run r = .error _ r :=
    dif_neg (Nat.not_le.2 hmax)
  simp only [fromStringFast, hif, if_true, EStateM.run_bind, hthrow]

/-- A small string: the view that is made in the pool, or in a new one, and how far the offset is
advanced. -/
theorem fromStringFast_carves {v8 : V8} {r r₀ : Realm} {str : JSString} {ops : Encoding}
    (hsmall : ops.byteLength v8 str < poolSize / 2) (hr₀ : r.room (ops.byteLength v8 str) = r₀)
    (hfits : r₀.poolOffset + ops.byteLength v8 str ≤ r₀.size r₀.allocPool ∧
      ops.byteLength v8 str ≤ kMaxLength) {written : ℕ} {mem : Mem}
    (hwrite : (ops.write v8 ⟨r₀.allocPool, r₀.poolOffset, ops.byteLength v8 str, hfits.2⟩ str
      r₀.poolOffset (ops.byteLength v8 str)).run r₀ = .ok written { r₀ with mem := mem }) :
    (fromStringFast v8 str ops).run r =
      .ok ⟨r₀.allocPool, r₀.poolOffset, ops.byteLength v8 str, hfits.2⟩
        { r₀ with mem := mem, poolOffset := alignOffset (r₀.poolOffset + written) } := by
  have hif : ¬ops.byteLength v8 str ≥ poolSize >>> 1 := Nat.not_le.2 hsmall
  by_cases hroom : ops.byteLength v8 str > poolSize - r.poolOffset
  · rw [Realm.room, if_pos hroom] at hr₀
    simp only [fromStringFast, hif, hroom, if_true, if_false, EStateM.run_bind, EStateM.run_pure,
      EStateM.run_get, EStateM.run_modify, createPool_run, hr₀, newFastBufferOn_run hfits, hwrite,
      alignPool]
  · rw [Realm.room, if_neg hroom] at hr₀
    subst hr₀
    simp only [fromStringFast, hif, hroom, if_false, EStateM.run_bind, EStateM.run_pure,
      EStateM.run_get, EStateM.run_modify, newFastBufferOn_run hfits, hwrite, alignPool]

/-- Its bytes are those of the writer. -/
theorem fromStringFast_pooled {v8 : V8} (hv : v8.Documented) {str : JSString} (hs : str ≠ [])
    {ops : Encoding} (hsmall : ops.byteLength v8 str < poolSize / 2) {r r₀ : Realm}
    (hr₀ : r.room (ops.byteLength v8 str) = r₀)
    (hfits : r₀.poolOffset + ops.byteLength v8 str ≤ r₀.size r₀.allocPool ∧
      ops.byteLength v8 str ≤ kMaxLength) :
    (fromStringFast v8 str ops).run r =
      .ok ⟨r₀.allocPool, r₀.poolOffset, ops.byteLength v8 str, hfits.2⟩
        { r₀ with
          mem := blit r₀.mem r₀.allocPool r₀.poolOffset (ops.put v8 str (ops.byteLength v8 str))
          poolOffset := alignOffset (r₀.poolOffset + ops.byteLength v8 str) } :=
  fromStringFast_carves hsmall hr₀ hfits (Encoding.write_run hv ops hs _ _ _)

/-- The memory after `copyElements`. -/
def copiedMem (buffer : View) (array : ArrayLike) : Mem → ℕ → ℕ → Mem
  | mem, _, 0 => mem
  | mem, i, n + 1 => copiedMem buffer array (buffer.set mem i (array.element mem i)) (i + 1) n

theorem copyElements_run (buffer : View) (array : ArrayLike) (i n : ℕ) (r : Realm) :
    (copyElements buffer array i n).run r =
      .ok () { r with mem := copiedMem buffer array r.mem i n } := by
  induction n generalizing i r with
  | zero => rfl
  | succ n ih =>
    simp only [copyElements, setElement, EStateM.run_bind, EStateM.run_get, EStateM.run_modify, ih,
      copiedMem]

/-- An array-like is copied inside the buffer, from the index `i` on. -/
theorem copiedMem_outside {buffer : View} {array : ArrayLike} {s : ℕ} {a : ℤ} (mem : Mem)
    (i n : ℕ) (h : s ≠ buffer.store ∨ a < buffer.byteOffset + i ∨ buffer.last ≤ a) :
    copiedMem buffer array mem i n s a = mem s a := by
  induction n generalizing i mem with
  | zero => rfl
  | succ n ih =>
    rw [copiedMem, ih _ _ (by omega), View.set]
    split
    · apply blit_outside
      simp only [View.last, List.length_singleton] at h ⊢
      omega
    · rfl

/-- What is copied into the buffer is not read again. -/
def ArrayLike.ReadAhead (array : ArrayLike) (buffer : View) : Prop :=
  ∀ mem i j byte, j < i → i < array.length →
    array.element (buffer.set mem j byte) i = array.element mem i

/-- The elements arrive at their indices. -/
theorem copiedMem_inside {buffer : View} {array : ArrayLike} (h : array.ReadAhead buffer)
    (mem : Mem) {i n j : ℕ} (hij : i ≤ j) (hj : j < i + n) (hn : i + n ≤ buffer.byteLength)
    (hlen : buffer.byteLength ≤ array.length) :
    copiedMem buffer array mem i n buffer.store (buffer.byteOffset + j) = array.element mem j := by
  induction n generalizing i mem with
  | zero => omega
  | succ n ih =>
    rw [copiedMem]
    rcases Nat.eq_or_lt_of_le hij with rfl | hlt
    · rw [copiedMem_outside _ _ _ (by omega), View.set, if_pos (by omega)]
      exact blit_inside (by omega) (by rw [List.length_singleton]; omega) |>.trans (by simp)
    · rw [ih _ hlt (by omega) (by omega)]
      exact h mem j i _ hlt (by omega)

/-- A large array-like reaches the variable that does not exist. -/
theorem fromArrayLike_large {array : ArrayLike} (h : poolSize / 2 ≤ array.length) (r : Realm) :
    (fromArrayLike array).run r = .error (.referenceError "length") r := by
  have hpos : ¬array.length ≤ 0 := by
    have hp : poolSize / 2 = 4096 := rfl
    omega
  have hif : array.length ≥ poolSize >>> 1 := h
  simp only [fromArrayLike, hpos, hif, if_true, if_false, EStateM.run_bind, EStateM.run_throw]

theorem fromArrayLike_empty {array : ArrayLike} (h : array.length = 0) (r : Realm) :
    (fromArrayLike array).run r = (newFastBuffer true 0).run r := by
  simp only [fromArrayLike, h, le_refl, if_true]

/-- A small array-like is copied into the pool, or into a new one; `poolOffset` stays. -/
theorem fromArrayLike_pooled {array : ArrayLike} (hpos : 0 < array.length)
    (hsmall : array.length < poolSize / 2) {r r₀ : Realm} (hr₀ : r.room array.length = r₀)
    (hfits : r₀.poolOffset + array.length ≤ r₀.size r₀.allocPool ∧ array.length ≤ kMaxLength) :
    (fromArrayLike array).run r =
      .ok ⟨r₀.allocPool, r₀.poolOffset, array.length, hfits.2⟩
        { r₀ with
          mem := copiedMem ⟨r₀.allocPool, r₀.poolOffset, array.length, hfits.2⟩ array r₀.mem 0
            array.length } := by
  have hempty : ¬array.length ≤ 0 := Nat.not_le.2 hpos
  have hif : ¬array.length ≥ poolSize >>> 1 := Nat.not_le.2 hsmall
  by_cases hroom : array.length > poolSize - r.poolOffset
  · rw [Realm.room, if_pos hroom] at hr₀
    simp only [fromArrayLike, hempty, hif, hroom, if_true, if_false, EStateM.run_bind,
      EStateM.run_pure, EStateM.run_get, createPool_run, hr₀, newFastBufferOn_run hfits,
      copyElements_run]
  · rw [Realm.room, if_neg hroom] at hr₀
    subst hr₀
    simp only [fromArrayLike, hempty, hif, hroom, if_false, EStateM.run_bind, EStateM.run_pure,
      EStateM.run_get, newFastBufferOn_run hfits, copyElements_run]

end NanoJS

import Mathlib.Data.Nat.Cast.Order.Ring
import Mathlib.Data.Rat.Floor
import NanoJS.Buffers.Fill

/-!
# Array-likes of any length

`__fromArrayLike` for every array-like whose `length` is a number: arrays, typed arrays of any kind,
and objects with such a property, whose length may be a fraction or `NaN`. The elements are read
while the buffer is written, from memory that the two may share. On arrays of numbers and on
`Uint8Array`s it is the function of `Buffers.Pool` (`fromNumericArrayLike_eq`).
-/

namespace NanoJS

open ByteMemory

/-- An array-like: its `length`, and its elements at the memory that they are read from. -/
structure NumericArrayLike where
  length : Number
  element : Mem → ℕ → Number

/-- `for (; i < array.length; ++i) buffer[i] = array[i] & 255;`, at most `steps` times. -/
def copyWhile (buffer : View) (array : NumericArrayLike) : ℕ → ℕ → JS Unit
  | _, 0 => pure ()
  | i, steps + 1 => do
    if (Number.fin i).lt array.length then
      setElement buffer i (array.element (← get).mem i).toByte
      copyWhile buffer array (i + 1) steps

/-- `new FastBuffer(buffer, offset, length)`, for a length that is any number. -/
def newFastBufferAt (store offset : ℕ) (length : Number) : JS View :=
  match length.toIndex with
  | none => throw (.rangeError "Invalid typed array length")
  | some n => newFastBufferOn store offset n

/-- `__fromArrayLike`. The loop is reached for lengths below `poolSize >>> 1` only. -/
def fromNumericArrayLike (array : NumericArrayLike) : JS View := do
  if array.length.le (.fin 0) then return ← newFastBuffer true 0
  if (Number.fin (poolSize >>> 1 : ℕ)).le array.length then throw (.referenceError "length")
  if (Number.fin (poolSize - (← get).poolOffset : ℕ)).lt array.length then createPool
  let r ← get
  let buffer ← newFastBufferAt r.allocPool r.poolOffset array.length
  copyWhile buffer array 0 (poolSize >>> 1)
  return buffer

/-! ## Numbers as indices -/

theorem truncate_of_nonneg {q : ℚ} (h : 0 ≤ q) : truncate q = ⌊q⌋ := by
  rw [truncate, Int.tdiv_eq_ediv_of_nonneg (Rat.num_nonneg.2 h), Rat.floor_def']

theorem truncate_of_nonpos {q : ℚ} (h : q ≤ 0) : truncate q = ⌈q⌉ := by
  have hneg : truncate q = -truncate (-q) := by
    rw [truncate, truncate, Rat.num_neg_eq_neg_num, Rat.den_neg_eq_den, Int.neg_tdiv, Int.neg_neg]
  rw [hneg, truncate_of_nonneg (by linarith), Int.floor_neg, Int.neg_neg]

theorem truncate_neg_iff {q : ℚ} : truncate q < 0 ↔ q ≤ -1 := by
  rcases le_total 0 q with h | h
  · have hfloor := Int.floor_nonneg.2 h
    rw [truncate_of_nonneg h]
    constructor
    · intro hq
      omega
    · intro hq
      linarith
  · have hceil : ⌈q⌉ ≤ -1 ↔ q ≤ -1 := by simpa using Int.ceil_le (a := q) (z := -1)
    rw [truncate_of_nonpos h, ← hceil]
    omega

/-- What a typed array makes of a range that lies in its buffer lies in it too. -/
theorem truncate_add_le {q t : ℚ} {n : ℕ} (hq : -1 < q) (ht : 0 ≤ t) (hle : q + t ≤ n) :
    (truncate q).toNat + (truncate t).toNat ≤ n := by
  have hsum : ⌊t⌋ ≥ 0 := Int.floor_nonneg.2 ht
  rw [truncate_of_nonneg ht]
  rcases le_total 0 q with h | h
  · have hfloor : ⌊q⌋ + ⌊t⌋ ≤ n := by
      have := (Int.le_floor_add q t).trans (Int.floor_le_floor hle)
      simpa using this
    have := Int.floor_nonneg.2 h
    rw [truncate_of_nonneg h]
    omega
  · have hceil : ⌈q⌉ = 0 := Int.ceil_eq_zero_iff.2 ⟨hq, h⟩
    have hfloor : ⌊t⌋ < n + 1 := by
      rw [Int.floor_lt]
      push_cast
      linarith
    rw [truncate_of_nonpos h, hceil]
    omega

theorem Number.toIndex_fin {q : ℚ} (h : -1 < q) :
    (Number.fin q).toIndex = some (truncate q).toNat :=
  if_neg (mt truncate_neg_iff.1 (not_le.2 h))

theorem Number.fin_lt_fin {a b : ℚ} : (Number.fin a).lt (.fin b) = true ↔ a < b := by
  simp [Number.lt]

theorem Number.fin_le_fin {a b : ℚ} : (Number.fin a).le (.fin b) = true ↔ a ≤ b := by
  simp [Number.le, Number.lt, le_iff_lt_or_eq]

theorem Number.natCast_le_zero {n : ℕ} (h : 0 < n) : (Number.fin n).le (.fin 0) = false := by
  rw [← Bool.not_eq_true, fin_le_fin, not_le]
  exact_mod_cast h

theorem truncate_le {t : ℚ} {n : ℕ} (ht : 0 ≤ t) (h : t ≤ n) : (truncate t).toNat ≤ n := by
  have hadd := truncate_add_le (q := 0) (by norm_num) ht (by simpa using h)
  omega

/-! ## What a run does -/

/-- The memory after the loop. -/
def copyWhileMem (buffer : View) (array : NumericArrayLike) : Mem → ℕ → ℕ → Mem
  | mem, _, 0 => mem
  | mem, i, steps + 1 =>
    if (Number.fin i).lt array.length then
      copyWhileMem buffer array (buffer.set mem i (array.element mem i).toByte) (i + 1) steps
    else mem

theorem copyWhile_run (buffer : View) (array : NumericArrayLike) (i steps : ℕ) (r : Realm) :
    (copyWhile buffer array i steps).run r =
      .ok () { r with mem := copyWhileMem buffer array r.mem i steps } := by
  induction steps generalizing i r with
  | zero => rfl
  | succ steps ih =>
    unfold copyWhile copyWhileMem
    split
    · simp only [setElement, EStateM.run_bind, EStateM.run_get, EStateM.run_modify, ih]
    · rfl

/-- The realm whose pool has room for a length. -/
def Realm.roomFor (r : Realm) (length : Number) : Realm :=
  if (Number.fin (poolSize - r.poolOffset : ℕ)).lt length then r.freshPool else r

theorem Realm.WellFormed.roomFor {r : Realm} (h : r.WellFormed) (length : Number) :
    (r.roomFor length).WellFormed := by
  unfold Realm.roomFor
  split
  · exact r.freshPool_wellFormed
  · exact h

theorem fromNumericArrayLike_empty {array : NumericArrayLike}
    (h : array.length.le (.fin 0) = true) (r : Realm) :
    (fromNumericArrayLike array).run r = (newFastBuffer true 0).run r := by
  simp only [fromNumericArrayLike, h, if_true]

theorem fromNumericArrayLike_large {array : NumericArrayLike}
    (hpos : array.length.le (.fin 0) = false)
    (h : (Number.fin (poolSize >>> 1 : ℕ)).le array.length = true) (r : Realm) :
    (fromNumericArrayLike array).run r = .error (.referenceError "length") r := by
  simp only [fromNumericArrayLike, hpos, h, if_true, Bool.false_eq_true, if_false,
    EStateM.run_bind, EStateM.run_throw]

/-- A small array-like is copied into a pool that has room for it, when the typed array fits. -/
theorem fromNumericArrayLike_small {array : NumericArrayLike}
    (hpos : array.length.le (.fin 0) = false)
    (hsmall : (Number.fin (poolSize >>> 1 : ℕ)).le array.length = false) (r : Realm) :
    (fromNumericArrayLike array).run r =
      match (newFastBufferAt (r.roomFor array.length).allocPool
          (r.roomFor array.length).poolOffset array.length).run (r.roomFor array.length) with
      | .ok buffer r' =>
        .ok buffer { r' with mem := copyWhileMem buffer array r'.mem 0 (poolSize >>> 1) }
      | .error e r' => .error e r' := by
  unfold Realm.roomFor
  by_cases hroom : (Number.fin (poolSize - r.poolOffset : ℕ)).lt array.length = true
  · rw [if_pos hroom]
    simp only [fromNumericArrayLike, hpos, hsmall, hroom, Bool.false_eq_true, if_false, if_true,
      EStateM.run_bind, EStateM.run_pure, EStateM.run_get, createPool_run]
    cases (newFastBufferAt r.freshPool.allocPool r.freshPool.poolOffset array.length).run
        r.freshPool with
    | ok buffer r' => simp only [copyWhile_run]
    | error e r' => rfl
  · rw [if_neg hroom]
    simp only [fromNumericArrayLike, hpos, hsmall, hroom, Bool.false_eq_true, if_false,
      EStateM.run_bind, EStateM.run_pure, EStateM.run_get]
    cases (newFastBufferAt r.allocPool r.poolOffset array.length).run r with
    | ok buffer r' => simp only [copyWhile_run]
    | error e r' => rfl

/-! ## Arrays and `Uint8Array`s -/

/-- An array of numbers or a `Uint8Array`, as an array-like. -/
def ArrayLike.numeric (array : ArrayLike) : NumericArrayLike where
  length := .fin array.length
  element mem i :=
    match array with
    | .array elements => elements.getD i .nan
    | .view v => .fin (mem v.store (v.byteOffset + i)).toNat

theorem toByte_toNat (b : UInt8) : (Number.fin b.toNat).toByte = b := by
  have hlt : (b.toNat : ℤ) % 2 ^ 8 = b.toNat := by
    have := b.toNat_lt
    omega
  have hnat : Number.toByte (.fin b.toNat) = UInt8.ofInt b.toNat := by simp [Number.toByte]
  rw [hnat, UInt8.ofInt, hlt, Int.toNat_natCast, UInt8.ofNat_toNat]

theorem ArrayLike.numeric_element (array : ArrayLike) (mem : Mem) (i : ℕ) :
    (array.numeric.element mem i).toByte = array.element mem i := by
  cases array with
  | array elements => rfl
  | view v => exact toByte_toNat _

theorem Number.fin_lt_natCast {i n : ℕ} : (Number.fin i).lt (.fin n) = decide (i < n) := by
  simp [Number.lt]

theorem Number.fin_le_natCast {a b : ℕ} : (Number.fin a).le (.fin b) = decide (a ≤ b) := by
  simp [Number.le, Number.lt, le_iff_lt_or_eq]

theorem copyWhile_numeric (buffer : View) (array : ArrayLike) (i steps n : ℕ)
    (hn : array.length = i + n) (hsteps : n ≤ steps) :
    copyWhile buffer array.numeric i steps = copyElements buffer array i n := by
  induction steps generalizing i n with
  | zero =>
    obtain rfl : n = 0 := by omega
    rfl
  | succ steps ih =>
    have hlt : (Number.fin i).lt array.numeric.length = decide (0 < n) := by
      simp only [ArrayLike.numeric, Number.fin_lt_natCast, hn]
      simp
    unfold copyWhile
    cases n with
    | zero => simp [hlt, copyElements]
    | succ n =>
      simp only [hlt, Nat.zero_lt_succ, decide_true, if_true, ArrayLike.numeric_element,
        copyElements, ih (i + 1) n (by omega) (by omega)]

/-- **On arrays of numbers and `Uint8Array`s, `__fromArrayLike` is the function of the pool.** -/
theorem fromNumericArrayLike_eq (array : ArrayLike) :
    fromNumericArrayLike array.numeric = fromArrayLike array := by
  have hempty : array.numeric.length.le (.fin 0) = decide (array.length ≤ 0) :=
    Number.fin_le_natCast
  have hlarge : (Number.fin (poolSize >>> 1 : ℕ)).le array.numeric.length =
      decide (poolSize >>> 1 ≤ array.length) := Number.fin_le_natCast
  have hroom : ∀ r : Realm, (Number.fin (poolSize - r.poolOffset : ℕ)).lt array.numeric.length =
      decide (array.length > poolSize - r.poolOffset) := fun r => Number.fin_lt_natCast
  have hindex : array.numeric.length.toIndex = some array.length := Number.toIndex_natCast _
  unfold fromNumericArrayLike fromArrayLike
  simp only [hempty, hlarge, hroom, newFastBufferAt, hindex, decide_eq_true_eq]
  by_cases hsmall : array.length < poolSize >>> 1
  · have hcopy : ∀ buffer, copyWhile buffer array.numeric 0 (poolSize >>> 1) =
        copyElements buffer array 0 array.length := fun buffer =>
      copyWhile_numeric buffer array 0 _ _ (Nat.zero_add _).symm hsmall.le
    simp only [hcopy, Nat.not_le.2 hsmall, if_false]
  · have hempty : ¬array.length ≤ 0 := by
      have hp : poolSize >>> 1 = 4096 := rfl
      omega
    rw [if_neg hempty, if_neg hempty, if_pos (Nat.not_lt.1 hsmall), if_pos (Nat.not_lt.1 hsmall)]
    rfl

end NanoJS

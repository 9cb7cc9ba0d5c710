import NanoJS.Foundations.ByteMemory
import NanoJS.Js.Values

/-!
# Array buffers and typed arrays

What `App.js` and the native functions share: the backing stores of the array buffers, and the two
variables of the pool. A function of `App.js` is a program over this state that may throw (`JS`).
An allocation takes the next store; without zero-filling its bytes are whatever they were.
-/

namespace NanoJS

open ByteMemory

/-- The stores, and the variables `allocPool` (as its store) and `poolOffset` of `App.js`. -/
structure Realm where
  mem : Mem
  size : ℕ → ℕ
  nextStore : ℕ
  allocPool : ℕ
  poolOffset : ℕ

/-- A JavaScript function of a result in `α`: it returns or throws. -/
abbrev JS := EStateM JSError Realm

/-- The bytes of a view. -/
def View.bytes (v : View) (mem : Mem) : List UInt8 := slice mem v.store v.byteOffset v.byteLength

/-- The end of a view in its store. -/
def View.last (v : View) : ℕ := v.byteOffset + v.byteLength

/-- Two views have no byte in common. -/
def View.Disjoint (v w : View) : Prop :=
  ByteMemory.Disjoint v.store v.byteOffset v.byteLength w.store w.byteOffset w.byteLength

/-- `new FastBuffer(length)`, for a length that is a natural number. The array buffer is zero-filled
as `zero_fill_toggle` says. -/
def newFastBuffer (zeroFill : Bool) (length : ℕ) : JS View := fun r =>
  if h : length ≤ kMaxLength then
    .ok ⟨r.nextStore, 0, length, h⟩
      { r with
        mem := if zeroFill then fun s a => if s = r.nextStore then 0 else r.mem s a else r.mem
        size := fun s => if s = r.nextStore then length else r.size s
        nextStore := r.nextStore + 1 }
  else .error (.rangeError s!"Invalid typed array length: {length}") r

/-- `new FastBuffer(buffer, offset, length)`, for an array buffer. -/
def newFastBufferOn (store offset length : ℕ) : JS View := fun r =>
  if h : offset + length ≤ r.size store ∧ length ≤ kMaxLength then
    .ok ⟨store, offset, length, h.2⟩ r
  else .error (.rangeError s!"Invalid typed array length: {length}") r

/-- The memory after `buffer[i] = byte`. A typed array ignores an index out of its bounds. -/
def View.set (v : View) (mem : Mem) (i : ℕ) (byte : UInt8) : Mem :=
  if i < v.byteLength then blit mem v.store (v.byteOffset + i) [byte] else mem

/-- `buffer[i] = byte` -/
def setElement (buffer : View) (i : ℕ) (byte : UInt8) : JS Unit :=
  modify fun r => { r with mem := buffer.set r.mem i byte }

/-- What a native function writes, at the base of a store plus an offset. -/
def writeStore (store : ℕ) (offset : ℤ) (bytes : List UInt8) : JS Unit :=
  modify fun r => { r with mem := blit r.mem store offset bytes }

/-! ## Writes into views -/

/-- **An element write into a view changes no view that is disjoint from it.** -/
theorem View.Disjoint.bytes_set {v w : View} (h : v.Disjoint w) (mem : Mem) (i : ℕ)
    (byte : UInt8) : w.bytes (v.set mem i byte) = w.bytes mem := by
  rw [View.set]
  split
  · apply slice_blit_of_disjoint
    simp only [Disjoint, ByteMemory.Disjoint, List.length_singleton] at h ⊢
    omega
  · rfl

theorem View.Disjoint.symm {v w : View} (h : v.Disjoint w) : w.Disjoint v := by
  simp only [Disjoint, ByteMemory.Disjoint] at h ⊢
  omega

end NanoJS

import Mathlib.Algebra.BigOperators.Group.List.Basic
import Mathlib.Algebra.Order.Ring.Nat
import NanoJS.Foundations.Transition

/-!
# The accounting of the array buffer allocator

`NestArrayBufferAllocator` counts the bytes it has handed out in one unsigned counter. The allocator
it wraps is a parameter: a state, and what each of its functions answers in it, `none` for the null
pointer. A run of calls is kept beside the blocks that its callers own (`Books`): the live blocks
and the registered ones. The counter is the sum of their sizes modulo `2 ^ 64` in every reachable
state (`total_mem_usage_eq`).
-/

namespace NanoJS

/-- `size_t` -/
abbrev Size := UInt64

/-- The address of a block. -/
abbrev Pointer := ℕ

/-- A `v8::ArrayBuffer::Allocator` over a heap `H`. -/
structure ArrayBufferAllocator (H : Type*) where
  allocate : Size → H → Option Pointer × H
  allocateUninitialized : Size → H → Option Pointer × H
  reallocate : Pointer → Size → Size → H → Option Pointer × H
  free : Pointer → Size → H → H

/-- The fields of `NestArrayBufferAllocator`; `heap` is the state of `allocator_`. -/
structure NestArrayBufferAllocator (H : Type*) where
  zero_fill_field : UInt32
  total_mem_usage : UInt64
  heap : H

namespace NestArrayBufferAllocator

variable {H : Type*} (inner : ArrayBufferAllocator H)

/-- The constructor. -/
def create (heap : H) : NestArrayBufferAllocator H := ⟨1, 0, heap⟩

/-! ## `NestArrayBufferAllocator.cpp` -/

def allocate (size : Size) (a : NestArrayBufferAllocator H) :
    Option Pointer × NestArrayBufferAllocator H :=
  let (ret, heap) :=
    if a.zero_fill_field ≠ 0 then inner.allocate size a.heap
    else inner.allocateUninitialized size a.heap
  (ret, { a with
    heap := heap
    total_mem_usage := if ret ≠ none then a.total_mem_usage + size else a.total_mem_usage })

def allocateUninitialized (size : Size) (a : NestArrayBufferAllocator H) :
    Option Pointer × NestArrayBufferAllocator H :=
  let (ret, heap) := inner.allocateUninitialized size a.heap
  (ret, { a with
    heap := heap
    total_mem_usage := if ret ≠ none then a.total_mem_usage + size else a.total_mem_usage })

def reallocate (data : Pointer) (old_size size : Size) (a : NestArrayBufferAllocator H) :
    Option Pointer × NestArrayBufferAllocator H :=
  let (ret, heap) := inner.reallocate data old_size size a.heap
  (ret, { a with
    heap := heap
    total_mem_usage :=
      if ret ≠ none ∨ size = 0 then a.total_mem_usage + (size - old_size)
      else a.total_mem_usage })

def free (data : Pointer) (size : Size) (a : NestArrayBufferAllocator H) :
    NestArrayBufferAllocator H :=
  { a with
    total_mem_usage := a.total_mem_usage - size
    heap := inner.free data size a.heap }

def registerPointer (_data : Pointer) (size : Size) (a : NestArrayBufferAllocator H) :
    NestArrayBufferAllocator H :=
  { a with total_mem_usage := a.total_mem_usage + size }

def unregisterPointer (_data : Pointer) (size : Size) (a : NestArrayBufferAllocator H) :
    NestArrayBufferAllocator H :=
  { a with total_mem_usage := a.total_mem_usage - size }

/-- A write through `zero_fill_field()`. -/
def setZeroFill (value : UInt32) (a : NestArrayBufferAllocator H) : NestArrayBufferAllocator H :=
  { a with zero_fill_field := value }

end NestArrayBufferAllocator

/-! ## Calls and owners -/

/-- A call on the allocator. -/
inductive AllocatorCall
  | allocate (size : Size)
  | allocateUninitialized (size : Size)
  | reallocate (data : Pointer) (old_size size : Size)
  | free (data : Pointer) (size : Size)
  | registerPointer (data : Pointer) (size : Size)
  | unregisterPointer (data : Pointer) (size : Size)
  | setZeroFill (value : UInt32)

/-- A block and its size. -/
abbrev Block := Pointer × Size

/-- An allocator, and the blocks that its callers own. -/
structure Books (H : Type*) where
  allocator : NestArrayBufferAllocator H
  live : List Block
  registered : List Block

/-- The bytes of a list of blocks. -/
def byteCount (blocks : List Block) : ℕ := (blocks.map fun b => b.2.toNat).sum

namespace AllocatorCall

/-- The call is given a block that its caller owns, with its size. -/
def Legal {H : Type*} (b : Books H) : AllocatorCall → Prop
  | reallocate data old_size _ => (data, old_size) ∈ b.live
  | free data size => (data, size) ∈ b.live
  | unregisterPointer data size => (data, size) ∈ b.registered
  | _ => True

/-- The answer `ret` says that the call failed. -/
def Failed : AllocatorCall → Option Pointer → Prop
  | allocate _, ret | allocateUninitialized _, ret => ret = none
  | reallocate _ _ size, ret => ret = none ∧ size ≠ 0
  | _, _ => False

end AllocatorCall

namespace Books

variable {H : Type*} (inner : ArrayBufferAllocator H)

/-- A call, and who owns what after it. A failed reallocation to a size that is not zero keeps the
old block; any other releases it. -/
def perform (b : Books H) : AllocatorCall → Option Pointer × Books H
  | .allocate size =>
    let (ret, a) := b.allocator.allocate inner size
    (ret, { b with allocator := a, live := ret.toList.map (·, size) ++ b.live })
  | .allocateUninitialized size =>
    let (ret, a) := b.allocator.allocateUninitialized inner size
    (ret, { b with allocator := a, live := ret.toList.map (·, size) ++ b.live })
  | .reallocate data old_size size =>
    let (ret, a) := b.allocator.reallocate inner data old_size size
    (ret, { b with
      allocator := a
      live :=
        if ret = none ∧ size ≠ 0 then b.live
        else ret.toList.map (·, size) ++ b.live.erase (data, old_size) })
  | .free data size =>
    (none, { b with
      allocator := b.allocator.free inner data size, live := b.live.erase (data, size) })
  | .registerPointer data size =>
    (none, { b with
      allocator := b.allocator.registerPointer data size
      registered := (data, size) :: b.registered })
  | .unregisterPointer data size =>
    (none, { b with
      allocator := b.allocator.unregisterPointer data size
      registered := b.registered.erase (data, size) })
  | .setZeroFill value => (none, { b with allocator := b.allocator.setZeroFill value })

/-- A legal call with its answer. -/
inductive Step (b : Books H) : AllocatorCall × Option Pointer → Books H → Prop
  | call (c : AllocatorCall) (h : c.Legal b) :
      Step b (c, (b.perform inner c).1) (b.perform inner c).2

/-- The books that a sequence of legal calls on a new allocator leads to. -/
abbrev Reachable : Books H → Prop :=
  Transition.Reachable (fun b => ∃ heap, b = ⟨.create heap, [], []⟩) (Step inner)

/-- The bytes that are owned. -/
def owned (b : Books H) : ℕ := byteCount b.live + byteCount b.registered

/-! ## The counter -/

/-- The counter is what is owned, up to wrapping. -/
def Balanced (b : Books H) : Prop := b.allocator.total_mem_usage.toNat = b.owned % 2 ^ 64

theorem byteCount_erase {block : Block} {blocks : List Block} (h : block ∈ blocks) :
    byteCount blocks = block.2.toNat + byteCount (blocks.erase block) :=
  ((List.perm_cons_erase h).map fun b : Block => b.2.toNat).sum_nat

/-- What is owned after an answer: one more block, or the same. -/
theorem byteCount_answer (ret : Option Pointer) (size : Size) (blocks : List Block) :
    byteCount (ret.toList.map (·, size) ++ blocks) =
      (if ret ≠ none then size.toNat else 0) + byteCount blocks := by
  cases ret with
  | none => simp [byteCount]
  | some data => simp [byteCount]

/-- The counter after an allocation. -/
theorem toNat_counted {total size : UInt64} {ret : Option Pointer} {n : ℕ}
    (h : total.toNat = n % 2 ^ 64) :
    (if ret ≠ none then total + size else total).toNat =
      ((if ret ≠ none then size.toNat else 0) + n) % 2 ^ 64 := by
  split
  · rw [UInt64.toNat_add]
    omega
  · omega

/-- Counting a shrinking block wraps twice. -/
theorem toNat_recounted {total old size : UInt64} {n : ℕ}
    (h : total.toNat = (old.toNat + n) % 2 ^ 64) :
    (total + (size - old)).toNat = (size.toNat + n) % 2 ^ 64 := by
  have hold := old.toNat_lt
  rw [UInt64.toNat_add, UInt64.toNat_sub, h]
  omega

/-- The counter after a reallocation, against the blocks that are left. -/
theorem toNat_reallocated {total old size : UInt64} {ret : Option Pointer} {data : Pointer}
    {live : List Block} {n : ℕ} (hmem : (data, old) ∈ live)
    (h : total.toNat = (byteCount live + n) % 2 ^ 64) :
    (if ret ≠ none ∨ size = 0 then total + (size - old) else total).toNat =
      (byteCount (if ret = none ∧ size ≠ 0 then live
        else ret.toList.map (·, size) ++ live.erase (data, old)) + n) % 2 ^ 64 := by
  by_cases hfailed : ret = none ∧ size ≠ 0
  · have hnot : ¬(ret ≠ none ∨ size = 0) := not_or.2 ⟨not_not.2 hfailed.1, hfailed.2⟩
    rw [if_pos hfailed, if_neg hnot]
    exact h
  · have hok : ret ≠ none ∨ size = 0 := by
      rwa [not_and_or, not_not] at hfailed
    have hsize : (if ret ≠ none then size.toNat else 0) = size.toNat := by
      split
      · rfl
      · rename_i hret
        rw [hok.resolve_left hret]
        rfl
    rw [byteCount_erase hmem, Nat.add_assoc] at h
    rw [if_neg hfailed, if_pos hok, byteCount_answer, hsize, Nat.add_assoc]
    exact toNat_recounted h

theorem toNat_released {total size : UInt64} {n : ℕ}
    (h : total.toNat = (size.toNat + n) % 2 ^ 64) : (total - size).toNat = n % 2 ^ 64 := by
  have hsize := size.toNat_lt
  rw [UInt64.toNat_sub, h]
  omega

variable {inner} in
/-- **A legal call keeps the counter in agreement with the owners.** -/
theorem Balanced.perform {b : Books H} (hb : b.Balanced) {c : AllocatorCall} (hc : c.Legal b) :
    (b.perform inner c).2.Balanced := by
  unfold Balanced owned at *
  cases c with
  | allocate size =>
    show (ite _ _ _ : UInt64).toNat = _
    rw [toNat_counted hb, ← Nat.add_assoc, ← byteCount_answer]
    rfl
  | allocateUninitialized size =>
    show (ite _ _ _ : UInt64).toNat = _
    rw [toNat_counted hb, ← Nat.add_assoc, ← byteCount_answer]
    rfl
  | reallocate data old_size size =>
    exact toNat_reallocated hc hb
  | free data size =>
    have herase := byteCount_erase hc
    rw [herase, Nat.add_assoc] at hb
    exact toNat_released hb
  | registerPointer data size =>
    show (b.allocator.total_mem_usage + size).toNat =
      (byteCount b.live + (size.toNat + byteCount b.registered)) % 2 ^ 64
    rw [UInt64.toNat_add, hb]
    omega
  | unregisterPointer data size =>
    have herase := byteCount_erase hc
    rw [herase, Nat.add_left_comm] at hb
    exact toNat_released hb
  | setZeroFill value => exact hb

/-- A call that failed leaves the allocator's counter. -/
theorem total_mem_usage_of_failed {b : Books H} {c : AllocatorCall}
    (hf : c.Failed (b.perform inner c).1) :
    (b.perform inner c).2.allocator.total_mem_usage = b.allocator.total_mem_usage := by
  cases c with
  | allocate size => exact if_neg (not_not.2 hf)
  | allocateUninitialized size => exact if_neg (not_not.2 hf)
  | reallocate data old_size size =>
    obtain ⟨hret, hsize⟩ := hf
    exact if_neg (not_or.2 ⟨not_not.2 hret, hsize⟩)
  | _ => cases hf

/-- **Allocator accounting.** Whatever the wrapped allocator answers, after any sequence of legal
calls the counter is the sum of the sizes of the live and the registered blocks modulo `2 ^ 64`;
and a call that fails leaves it as it was. -/
theorem total_mem_usage_eq {b : Books H} (h : Reachable inner b) :
    b.allocator.total_mem_usage.toNat = (byteCount b.live + byteCount b.registered) % 2 ^ 64 ∧
      ∀ c ret b', Step inner b (c, ret) b' → c.Failed ret →
        b'.allocator.total_mem_usage = b.allocator.total_mem_usage := by
  constructor
  · refine Transition.Reachable.invariant (I := Balanced) ?_ ?_ h
    · rintro _ ⟨heap, rfl⟩
      rfl
    · intro b l b' _ hb hs
      cases hs with
      | call c hc => exact hb.perform hc
  · intro c ret b' hs hf
    cases hs with
    | call c hc => exact total_mem_usage_of_failed inner hf

/-- An allocator that never reuses an address and refuses more than `2 ^ 32` bytes. -/
def bump : ArrayBufferAllocator ℕ :=
  let take := fun (size : Size) next =>
    if size.toNat ≤ 2 ^ 32 then (some next, next + size.toNat) else (none, next)
  ⟨take, take, fun _ _ size => take size, fun _ _ next => next⟩

/-- A block shrunk from ten bytes to four, and eight gigabytes refused. -/
theorem total_mem_usage_eq_shrunk : ∃ b : Books ℕ,
    b.allocator.total_mem_usage.toNat = 4 ∧
      (b.perform bump (.allocate 0x200000000)).2.allocator.total_mem_usage =
        b.allocator.total_mem_usage := by
  have hr : Reachable bump _ :=
    ((Transition.Reachable.start ⟨0, rfl⟩).tail (.call (.allocate 10) trivial)).tail
      (.call (.reallocate 0 10 4) (List.mem_cons_self ..))
  obtain ⟨hsum, hfailed⟩ := total_mem_usage_eq bump hr
  exact ⟨_, hsum.trans (by decide), hfailed _ _ _ (.call (.allocate 0x200000000) trivial) rfl⟩

end Books

end NanoJS

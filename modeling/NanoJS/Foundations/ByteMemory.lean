import Mathlib.Data.Int.Notation
import Mathlib.Data.List.GetD
import Mathlib.Order.Basic

/-!
# Byte memories

A memory is a family of stores, each a byte for every address. `slice` reads a range, `blit` writes
bytes at an address; a range that is disjoint from what is written keeps its bytes
(`slice_blit_of_disjoint`). Addresses outside the size a store was allocated with hold what lies
beyond it.
-/

namespace ByteMemory

abbrev Mem := ℕ → ℤ → UInt8

/-- The bytes of a range. -/
def slice (m : Mem) (store : ℕ) (start : ℤ) (length : ℕ) : List UInt8 :=
  (List.range length).map fun i : ℕ => m store (start + i)

/-- Write `bytes` from `start` on. -/
def blit (m : Mem) (store : ℕ) (start : ℤ) (bytes : List UInt8) : Mem := fun s a =>
  if s = store ∧ start ≤ a ∧ a < start + bytes.length then bytes.getD (a - start).toNat 0
  else m s a

variable {m m' : Mem} {store : ℕ} {start : ℤ} {length : ℕ} {bytes : List UInt8}

@[simp] theorem length_slice : (slice m store start length).length = length := by
  simp [slice]

theorem getElem_slice {i : ℕ} (h : i < (slice m store start length).length) :
    (slice m store start length)[i] = m store (start + i) := by
  simp [slice]

/-- Two ranges hold the same bytes when they agree byte by byte. -/
theorem slice_eq_iff {store' : ℕ} {start' : ℤ} :
    slice m store start length = slice m' store' start' length ↔
      ∀ i < length, m store (start + i) = m' store' (start' + i) := by
  simp [slice, List.map_inj_left]

theorem slice_eq_list_iff {l : List UInt8} (hl : l.length = length) :
    slice m store start length = l ↔ ∀ i (h : i < l.length), m store (start + i) = l[i] := by
  constructor
  · rintro rfl i h
    rw [getElem_slice]
  · intro h
    exact List.ext_getElem (by simp [hl]) fun i h₁ h₂ => by rw [getElem_slice, h i h₂]

theorem slice_eq_getD_iff {l : List UInt8} (hl : l.length = length) :
    slice m store start length = l ↔ ∀ i < length, m store (start + i) = l.getD i 0 := by
  subst hl
  rw [slice_eq_list_iff rfl]
  exact forall₂_congr fun i hi => by rw [List.getD_eq_getElem _ _ hi]

theorem exists_address {a : ℤ} (h₁ : start ≤ a) (h₂ : a < start + length) :
    ∃ i < length, a = start + (i : ℕ) :=
  ⟨(a - start).toNat, by omega, by omega⟩

theorem blit_inside {a : ℤ} (h₁ : start ≤ a) (h₂ : a < start + bytes.length) :
    blit m store start bytes store a = bytes.getD (a - start).toNat 0 :=
  if_pos ⟨rfl, h₁, h₂⟩

theorem blit_getElem {i : ℕ} (h : i < bytes.length) :
    blit m store start bytes store (start + i) = bytes[i] := by
  have hi : (start + i - start).toNat = i := by omega
  rw [blit_inside (by omega) (by omega), hi, List.getD_eq_getElem _ _ h]

theorem blit_outside {s : ℕ} {a : ℤ}
    (h : s ≠ store ∨ a < start ∨ start + bytes.length ≤ a) : blit m store start bytes s a = m s a :=
  if_neg (by rintro ⟨rfl, h₁, h₂⟩; omega)

theorem blit_getD {i : ℕ} (h : i < bytes.length) :
    blit m store start bytes store (start + i) = bytes.getD i 0 := by
  rw [blit_getElem h, List.getD_eq_getElem _ _ h]

/-- A memory is the one after a write when it holds the bytes where they are written, and what was
there elsewhere. -/
theorem eq_blit_iff :
    m' = blit m store start bytes ↔
      (∀ i < bytes.length, m' store (start + i) = bytes.getD i 0) ∧
        ∀ s a, ¬(s = store ∧ start ≤ a ∧ a < start + bytes.length) → m' s a = m s a := by
  constructor
  · rintro rfl
    exact ⟨fun i h => blit_getD h, fun s a h => if_neg h⟩
  · rintro ⟨hin, hout⟩
    funext s a
    by_cases h : s = store ∧ start ≤ a ∧ a < start + bytes.length
    · obtain ⟨rfl, h₁, h₂⟩ := h
      obtain ⟨i, hi, rfl⟩ := exists_address h₁ h₂
      rw [hin i hi, blit_getD hi]
    · rw [hout s a h, blit, if_neg h]

/-- Two writes of the same bytes to one store, the second `d` further on, leave the same memory
exactly when the bytes agree wherever the writes differ. -/
theorem blit_eq_blit_iff (d : ℕ) :
    blit m store start bytes = blit m store (d + start) bytes ↔
      ∀ i < bytes.length, (i < d → m store (start + i) = bytes.getD i 0) ∧
        (bytes.length ≤ i + d → m store (d + start + i) = bytes.getD i 0) ∧
        (i + d < bytes.length → bytes.getD (i + d) 0 = bytes.getD i 0) := by
  rw [eq_blit_iff]
  constructor
  · rintro ⟨hin, hout⟩ i hi
    refine ⟨?_, ?_, ?_⟩ <;> intro hd
    · rw [← hout store (start + i) (by omega), blit_getD hi]
    · rw [← hin i hi, blit_outside (by omega)]
    · have haddr : (d : ℤ) + start + i = start + (i + d : ℕ) := by omega
      rw [← hin i hi, haddr, blit_getD hd]
  · intro hc
    constructor
    · intro i hi
      obtain ⟨-, h₂, h₃⟩ := hc i hi
      by_cases hd : i + d < bytes.length
      · have haddr : (d : ℤ) + start + i = start + (i + d : ℕ) := by omega
        rw [← h₃ hd, haddr, blit_getD hd]
      · rw [← h₂ (by omega), blit_outside (by omega)]
    · intro s a ha
      by_cases h : s = store ∧ start ≤ a ∧ a < start + bytes.length
      · obtain ⟨rfl, h₁, h₂⟩ := h
        obtain ⟨i, hi, rfl⟩ := exists_address h₁ h₂
        rw [blit_getD hi, (hc i hi).1 (by omega)]
      · exact if_neg h

/-- What is written is read. -/
theorem slice_blit : slice (blit m store start bytes) store start bytes.length = bytes :=
  (slice_eq_list_iff rfl).2 fun _ h => blit_getElem h

/-- What is written is read, also when more is written behind it. -/
theorem slice_blit_append {rest : List UInt8} :
    slice (blit m store start (bytes ++ rest)) store start bytes.length = bytes :=
  (slice_eq_list_iff rfl).2 fun i h => by
    rw [blit_getElem (by rw [List.length_append]; omega), List.getElem_append_left h]

/-- Two ranges have no byte in common. -/
def Disjoint (store : ℕ) (start : ℤ) (length : ℕ) (store' : ℕ) (start' : ℤ) (length' : ℕ) :
    Prop :=
  store ≠ store' ∨ start + length ≤ start' ∨ start' + length' ≤ start

/-- **A range that is disjoint from what is written keeps its bytes.** -/
theorem slice_blit_of_disjoint {store' : ℕ} {start' : ℤ}
    (h : Disjoint store' start' length store start bytes.length) :
    slice (blit m store start bytes) store' start' length = slice m store' start' length :=
  slice_eq_iff.2 fun i hi => blit_outside (by unfold Disjoint at h; omega)

/-! ## Windows -/

end ByteMemory

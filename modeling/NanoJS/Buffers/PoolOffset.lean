import Mathlib.Order.Bounds.Defs
import NanoJS.Buffers.ArrayLikes
import NanoJS.Foundations.Transition

/-!
# The pool offset

Sequences of calls of `__fromStringFast` and `__fromArrayLike`, with any strings and any lengths.
Of the string writers it is assumed only that they do not report more bytes than they were asked
for. A string advances `poolOffset` by what was reported, to the next multiple of eight; since
`poolSize` is one, the offset stays in the pool, and the views in the pool end in it
(`pool_offset`).
-/

namespace NanoJS

/-! ## Calls -/

/-- A call of `__fromStringFast` or of `__fromArrayLike`. -/
inductive PoolCall
  | fromStringFast (str : JSString) (ops : Encoding)
  | fromArrayLike (array : NumericArrayLike)

def PoolCall.program (v8 : V8) : PoolCall → JS View
  | fromStringFast str ops => NanoJS.fromStringFast v8 str ops
  | fromArrayLike array => fromNumericArrayLike array

/-- The realm that a call leaves, whether it returns or throws. -/
inductive PoolStep (v8 : V8) (r : Realm) (call : PoolCall) : Realm → Prop
  | returns {v r'} (h : (call.program v8).run r = .ok v r') : PoolStep v8 r call r'
  | throws {e r'} (h : (call.program v8).run r = .error e r') : PoolStep v8 r call r'

/-- The realms after the calls of a sequence, which begins when `App.js` has been loaded. -/
abbrev Realm.PoolReachable (v8 : V8) : Realm → Prop :=
  Transition.Reachable (fun r => ∃ mem, r = Realm.load mem) (PoolStep v8)

/-- The string writers do not report more bytes than the length that they are given. -/
def V8.ReportsWithin (v8 : V8) : Prop :=
  ∀ (ops : Encoding) (str : JSString) (buf : View) (offset : ℕ) (r r' : Realm) (n : ℕ),
    (ops.write v8 buf str offset (ops.byteLength v8 str)).run r = .ok n r' →
      n ≤ ops.byteLength v8 str

/-! ## What a call leaves -/

/-- `alignPool` rounds up to a multiple of eight. -/
theorem alignOffset_isLeast (n : ℕ) : IsLeast {m | n ≤ m ∧ 8 ∣ m} (alignOffset n) := by
  rw [alignOffset_eq]
  constructor
  · exact ⟨by omega, Nat.dvd_mul_left 8 _⟩
  · rintro m ⟨hle, k, rfl⟩
    omega

/-- The pool is well formed and its offset aligned. -/
structure Realm.Aligned (r : Realm) : Prop extends r.WellFormed where
  dvd : 8 ∣ r.poolOffset

theorem Realm.freshPool_aligned (r : Realm) : r.freshPool.Aligned :=
  ⟨r.freshPool_wellFormed, Nat.dvd_zero 8⟩

theorem Realm.Aligned.room {r : Realm} (h : r.Aligned) (n : ℕ) : (r.room n).Aligned := by
  unfold Realm.room
  split
  · exact r.freshPool_aligned
  · exact h

theorem Realm.Aligned.roomFor {r : Realm} (h : r.Aligned) (length : Number) :
    (r.roomFor length).Aligned := by
  unfold Realm.roomFor
  split
  · exact r.freshPool_aligned
  · exact h

/-- A new store leaves the pool as it is. -/
theorem newFastBuffer_aligned {zeroFill : Bool} {n : ℕ} {r r' : Realm} {v : View}
    (hr : r.Aligned) (h : (newFastBuffer zeroFill n).run r = .ok v r') :
    r'.Aligned ∧ v.store ≠ r'.allocPool := by
  have hlt := hr.pool_lt
  simp only [newFastBuffer, EStateM.run] at h
  split at h
  · cases h
    refine ⟨⟨⟨Nat.lt_succ_of_lt hlt, ?_, hr.offset_le⟩, hr.dvd⟩, hlt.ne'⟩
    simpa [hlt.ne] using hr.pool_size
  · cases h

variable {v8 : V8}

/-- What a call leaves: an aligned pool, and a view that ends in it if it is a view of the pool. -/
def KeepsPool : EStateM.Result JSError Realm View → Prop
  | .ok v r => r.Aligned ∧ (v.store = r.allocPool → v.last ≤ poolSize)
  | .error _ r => r.Aligned

theorem newFastBuffer_keepsPool {r : Realm} (hr : r.Aligned) (zeroFill : Bool) (n : ℕ) :
    KeepsPool ((newFastBuffer zeroFill n).run r) := by
  cases h : (newFastBuffer zeroFill n).run r with
  | ok v r' =>
    obtain ⟨haligned, hne⟩ := newFastBuffer_aligned hr h
    exact ⟨haligned, fun he => absurd he hne⟩
  | error e r' =>
    simp only [newFastBuffer, EStateM.run] at h
    split at h
    · cases h
    · cases h
      exact hr

theorem V8.ReportsWithin.reported_le (hv : v8.ReportsWithin) (ops : Encoding) (str : JSString) :
    ops.reported v8 str (ops.byteLength v8 str) ≤ ops.byteLength v8 str :=
  hv ops str ⟨0, 0, 0, Nat.zero_le _⟩ 0 (Realm.load fun _ _ => 0) _ _ (Encoding.write_eq ..)

theorem fromStringFast_keepsPool (hv : v8.ReportsWithin) {r : Realm} (hr : r.Aligned)
    (str : JSString) (ops : Encoding) : KeepsPool ((fromStringFast v8 str ops).run r) := by
  by_cases hsmall : ops.byteLength v8 str < poolSize / 2
  · have hr₀ := hr.room (ops.byteLength v8 str)
    have hfits := hr.room_fits hsmall
    have hreport := hv.reported_le ops str
    have hend : (r.room (ops.byteLength v8 str)).poolOffset + ops.byteLength v8 str ≤ poolSize :=
      hr₀.pool_size ▸ hfits.1
    rw [fromStringFast_carves hsmall rfl hfits (Encoding.write_eq ..)]
    refine ⟨⟨⟨hr₀.pool_lt, hr₀.pool_size, ?_⟩, ?_⟩, fun _ => hend⟩
    · exact (alignOffset_le (by omega)).2
    · exact (alignOffset_isLeast _).1.2
  · have hif : ops.byteLength v8 str ≥ poolSize >>> 1 := Nat.not_lt.1 hsmall
    have hnew := newFastBuffer_keepsPool hr false (ops.byteLength v8 str)
    have hmake : createUnsafeBuffer (ops.byteLength v8 str) =
        newFastBuffer false (ops.byteLength v8 str) := rfl
    simp only [fromStringFast, hif, if_true, EStateM.run_bind, hmake]
    cases h : (newFastBuffer false (ops.byteLength v8 str)).run r with
    | ok v r' =>
      rw [h] at hnew
      simp only [Encoding.write_eq, EStateM.run_pure]
      exact ⟨⟨⟨hnew.1.pool_lt, hnew.1.pool_size, hnew.1.offset_le⟩, hnew.1.dvd⟩, hnew.2⟩
    | error e r' =>
      rw [h] at hnew
      exact hnew

/-- A view of the pool is made only where it ends in the pool. -/
theorem newFastBufferAt_keepsPool {r : Realm} (hr : r.Aligned) (length : Number) :
    KeepsPool ((newFastBufferAt r.allocPool r.poolOffset length).run r) ∧
      ∀ v r', (newFastBufferAt r.allocPool r.poolOffset length).run r = .ok v r' → r' = r := by
  unfold newFastBufferAt
  cases length.toIndex with
  | none => exact ⟨hr, fun v r' h => by cases h⟩
  | some n =>
    simp only [newFastBufferOn, EStateM.run]
    split
    · rename_i hfits
      refine ⟨⟨hr, fun _ => hr.pool_size ▸ hfits.1⟩, fun v r' h => ?_⟩
      cases h
      rfl
    · exact ⟨hr, fun v r' h => by cases h⟩

theorem fromNumericArrayLike_keepsPool {r : Realm} (hr : r.Aligned) (array : NumericArrayLike) :
    KeepsPool ((fromNumericArrayLike array).run r) := by
  by_cases hpos : array.length.le (.fin 0) = true
  · rw [fromNumericArrayLike_empty hpos]
    exact newFastBuffer_keepsPool hr true 0
  · have hpos := Bool.eq_false_iff.2 hpos
    by_cases hsmall : (Number.fin (poolSize >>> 1 : ℕ)).le array.length = true
    · rw [fromNumericArrayLike_large hpos hsmall]
      exact hr
    · rw [fromNumericArrayLike_small hpos (Bool.eq_false_iff.2 hsmall)]
      obtain ⟨hkeeps, hsame⟩ := newFastBufferAt_keepsPool (hr.roomFor array.length) array.length
      cases h : (newFastBufferAt (r.roomFor array.length).allocPool
          (r.roomFor array.length).poolOffset array.length).run (r.roomFor array.length) with
      | ok v r' =>
        rw [h] at hkeeps
        exact ⟨⟨⟨hkeeps.1.pool_lt, hkeeps.1.pool_size, hkeeps.1.offset_le⟩, hkeeps.1.dvd⟩,
          hkeeps.2⟩
      | error e r' =>
        rw [h] at hkeeps
        exact hkeeps

theorem PoolCall.keepsPool (hv : v8.ReportsWithin) {r : Realm} (hr : r.Aligned)
    (call : PoolCall) : KeepsPool ((call.program v8).run r) := by
  cases call with
  | fromStringFast str ops => exact fromStringFast_keepsPool hv hr str ops
  | fromArrayLike array => exact fromNumericArrayLike_keepsPool hr array

theorem Realm.PoolReachable.aligned (hv : v8.ReportsWithin) {r : Realm}
    (h : Realm.PoolReachable v8 r) : r.Aligned := by
  refine Transition.Reachable.invariant (I := Realm.Aligned) ?_ ?_ h
  · rintro _ ⟨mem, rfl⟩
    exact freshPool_aligned _
  · intro r call r' _ hr hs
    have hkeeps := call.keepsPool hv hr
    cases hs with
    | returns h =>
      rw [h] at hkeeps
      exact hkeeps.1
    | throws h =>
      rw [h] at hkeeps
      exact hkeeps

/-- **The pool offset stays in the pool, aligned.** After every sequence of calls of
`__fromStringFast` and `__fromArrayLike`, the offset is a multiple of eight and not beyond the pool;
a view that the next call makes in the pool ends in it; and `alignPool` leads from every offset in
the pool to the least multiple of eight that is not below it. -/
theorem pool_offset (hv : v8.ReportsWithin) {r : Realm} (h : Realm.PoolReachable v8 r) :
    r.poolOffset ≤ poolSize ∧ 8 ∣ r.poolOffset ∧
      (∀ (call : PoolCall) (v : View) (r' : Realm), (call.program v8).run r = .ok v r' →
        v.store = r'.allocPool → v.byteOffset + v.byteLength ≤ poolSize) ∧
      ∀ r₀ : Realm, r₀.poolOffset ≤ poolSize → ∃ r₁, alignPool.run r₀ = .ok () r₁ ∧
        IsLeast {m | r₀.poolOffset ≤ m ∧ 8 ∣ m} r₁.poolOffset := by
  have hr := Realm.PoolReachable.aligned hv h
  refine ⟨hr.offset_le, hr.dvd, fun call v r' hrun => ?_, fun r₀ _ => ?_⟩
  · have hkeeps := call.keepsPool hv hr
    rw [hrun] at hkeeps
    exact hkeeps.2
  · exact ⟨_, rfl, alignOffset_isLeast _⟩

theorem V8.reference_reportsWithin : V8.reference.ReportsWithin := by
  intro ops str buf offset r r' n h
  cases ops with
  | utf8 =>
    cases h
    exact le_rfl
  | utf16le =>
    cases h
    exact Nat.mul_le_mul_right 2 (Nat.min_le_left _ _)

/-- Behind `'abc'` the offset is 8. -/
theorem pool_offset_abc : ∃ v r,
    (fromStringFast V8.reference (jsString "abc") .utf8).run (Realm.load fun _ _ => 0) = .ok v r ∧
      r.poolOffset = 8 ∧ r.poolOffset ≤ poolSize ∧ 8 ∣ r.poolOffset := by
  refine ⟨_, _, rfl, rfl, ?_⟩
  have hstep : PoolStep V8.reference (Realm.load fun _ _ => 0)
      (.fromStringFast (jsString "abc") .utf8) _ := .returns rfl
  have hreach : Realm.PoolReachable V8.reference _ :=
    (Transition.Reachable.start ⟨_, rfl⟩).tail hstep
  obtain ⟨hle, hdvd, -⟩ := pool_offset V8.reference_reportsWithin hreach
  exact ⟨hle, hdvd⟩

end NanoJS

import NanoJS.Buffers.From

/-!
# Copies of array-likes

`Buffer.from` on array-likes whose elements are integers, and which may lie in the memory that the
buffer is made in. Large ones are never copied. Small ones are, element by element, into the pool at
`poolOffset`, which an earlier array-like has not advanced: so the array itself may lie there. The
copy is right, and leaves the array as it was, exactly when every byte that the two share already
holds what is to be copied there (`copies_iff`).
-/

namespace NanoJS

open ByteMemory

/-! ## Arrays in memory -/

/-- An array-like, with the bytes of memory that hold its elements. -/
structure SourceArray extends NumericArrayLike where
  holds : ℕ → ℤ → Prop
  reads : ∀ mem mem' : Mem, (∀ s a, holds s a → mem s a = mem' s a) → element mem = element mem'

/-- A plain array. -/
def SourceArray.plain (elements : List ℤ) : SourceArray where
  length := .fin elements.length
  element _ i := .fin (elements.getD i 0)
  holds _ _ := False
  reads _ _ _ := rfl

/-- A typed array, of elements that are `width` bytes each. -/
def SourceArray.typed (store byteOffset width length : ℕ) (decode : List UInt8 → Number) :
    SourceArray where
  length := .fin length
  element mem i :=
    if i < length then decode (slice mem store (byteOffset + width * i : ℕ) width) else .nan
  holds s a := s = store ∧ byteOffset ≤ a ∧ a < byteOffset + width * length
  reads mem mem' h := by
    funext i
    split
    · rename_i hi
      have hend : width * i + width ≤ width * length := Nat.mul_le_mul_left width hi
      refine congrArg decode (slice_eq_iff.2 fun j hj => h store _ ⟨rfl, ?_, ?_⟩) <;> omega
    · rfl

/-- A buffer. -/
def SourceArray.buffer (v : View) : SourceArray :=
  .typed v.store v.byteOffset 1 v.byteLength fun bytes => .fin (bytes.getD 0 0).toNat

theorem toByte_intCast (z : ℤ) : ((Number.fin z).toByte.toNat : ℤ) = z % 256 := by
  have hmod : 0 ≤ z % 256 ∧ z % 256 < 256 := by omega
  have hbyte : (Number.fin z).toByte = UInt8.ofInt z := by simp [Number.toByte]
  rw [hbyte, UInt8.ofInt, UInt8.toNat_ofNat']
  omega

/-! ## The loop -/

variable {buffer : View} {a : SourceArray} {mem₀ : Mem} {n : ℕ}

/-- The copy has come to an index: the array is as it was, and its elements before the index have
been copied. -/
structure CopiedTo (buffer : View) (a : SourceArray) (mem₀ : Mem) (i : ℕ) (mem : Mem) : Prop where
  source : ∀ s x, a.holds s x → mem s x = mem₀ s x
  copied : ∀ j < i, mem buffer.store (buffer.byteOffset + j) = (a.element mem₀ j).toByte

/-- The bytes that the array and the buffer share hold what is to be copied there. -/
def Agrees (buffer : View) (a : SourceArray) (mem₀ : Mem) (n : ℕ) : Prop :=
  ∀ i < n, a.holds buffer.store (buffer.byteOffset + i) →
    mem₀ buffer.store (buffer.byteOffset + i) = (a.element mem₀ i).toByte

theorem CopiedTo.start (buffer : View) (a : SourceArray) (mem₀ : Mem) :
    CopiedTo buffer a mem₀ 0 mem₀ :=
  ⟨fun _ _ _ => rfl, fun j hj => absurd hj (Nat.not_lt_zero j)⟩

theorem CopiedTo.step (hagrees : Agrees buffer a mem₀ n) (hlen : buffer.byteLength = n) {i : ℕ}
    {mem : Mem} (h : CopiedTo buffer a mem₀ i mem) (hi : i < n) :
    CopiedTo buffer a mem₀ (i + 1) (buffer.set mem i (a.element mem i).toByte) := by
  have hread : a.element mem i = a.element mem₀ i :=
    congrFun (a.reads mem mem₀ h.source) i
  have hset : buffer.set mem i (a.element mem i).toByte =
      blit mem buffer.store (buffer.byteOffset + i) [(a.element mem₀ i).toByte] := by
    rw [View.set, if_pos (by omega), hread]
  have hhere : ∀ m : Mem, blit m buffer.store (buffer.byteOffset + i)
      [(a.element mem₀ i).toByte] buffer.store (buffer.byteOffset + i) =
      (a.element mem₀ i).toByte := fun m => by
    rw [blit_inside le_rfl (by simp)]
    simp
  rw [hset]
  constructor
  · intro s x hx
    by_cases hbyte : s = buffer.store ∧ x = buffer.byteOffset + i
    · obtain ⟨rfl, rfl⟩ := hbyte
      rw [hhere, hagrees i hi hx]
    · rw [blit_outside (by simp only [List.length_singleton]; omega), h.source s x hx]
  · intro j hj
    rcases Nat.eq_or_lt_of_le (Nat.le_of_lt_succ hj) with rfl | hlt
    · exact hhere mem
    · rw [blit_outside (by omega), h.copied j hlt]

theorem CopiedTo.run (hagrees : Agrees buffer a mem₀ n) (hlen : buffer.byteLength = n)
    (hn : a.length = .fin n) {i steps : ℕ} {mem : Mem} (h : CopiedTo buffer a mem₀ i mem)
    (hi : i ≤ n) (hsteps : n ≤ i + steps) :
    CopiedTo buffer a mem₀ n (copyWhileMem buffer a.toNumericArrayLike mem i steps) := by
  induction steps generalizing i mem with
  | zero =>
    obtain rfl : i = n := by omega
    exact h
  | succ steps ih =>
    unfold copyWhileMem
    rw [hn, Number.fin_lt_natCast]
    by_cases hlt : i < n
    · rw [if_pos (by simpa using hlt)]
      exact ih (h.step hagrees hlen hlt) hlt (by omega)
    · obtain rfl : i = n := by omega
      rw [if_neg (by simp)]
      exact h

/-! ## What `Buffer.from` returns -/

theorem Realm.roomFor_natCast (r : Realm) (n : ℕ) : r.roomFor (.fin n) = r.room n := by
  simp only [roomFor, room, Number.fin_lt_natCast, decide_eq_true_eq, gt_iff_lt]

/-- A small array is copied into the pool, or into a new one. -/
theorem fromNumericArrayLike_natCast {array : NumericArrayLike} (hn : array.length = .fin n)
    (hpos : 0 < n) (hsmall : n < poolSize / 2) {r : Realm} (hr : r.WellFormed) :
    (fromNumericArrayLike array).run r =
      .ok ⟨(r.room n).allocPool, (r.room n).poolOffset, n, (hr.room_fits hsmall).2⟩
        { r.room n with
          mem := copyWhileMem
            ⟨(r.room n).allocPool, (r.room n).poolOffset, n, (hr.room_fits hsmall).2⟩ array
            (r.room n).mem 0 (poolSize >>> 1) } := by
  have hzero : array.length.le (.fin 0) = false := by
    rw [hn]
    exact Number.natCast_le_zero hpos
  have hhalf : (Number.fin (poolSize >>> 1 : ℕ)).le array.length = false := by
    rw [hn, Number.fin_le_natCast]
    exact decide_eq_false (Nat.not_le.2 hsmall)
  rw [fromNumericArrayLike_small hzero hhalf, hn, r.roomFor_natCast, newFastBufferAt,
    Number.toIndex_natCast]
  dsimp only
  rw [newFastBufferOn_run (hr.room_fits hsmall)]

namespace Platform

variable (p : Platform)

/-- `Buffer.from(a)` -/
def fromArray (a : SourceArray) : JS (Option View) :=
  p.bufferFrom .undefined .undefined (.object (.arrayLike a.toNumericArrayLike) none)

/-- `Buffer.from(a)` returns a buffer of the `n` values, modulo 256, and leaves the array as it
was. -/
def Copies (a : SourceArray) (n : ℕ) (value : ℕ → ℤ) (r : Realm) : Prop :=
  ∃ v r', (p.fromArray a).run r = .ok (some v) r' ∧ v.byteLength = n ∧
    (∀ i < n, ((r'.mem v.store (v.byteOffset + i)).toNat : ℤ) = value i % 256) ∧
    ∀ s x, a.holds s x → r'.mem s x = r.mem s x

theorem fromArray_run (a : SourceArray) (r : Realm) :
    (p.fromArray a).run r =
      (some <$> fromNumericArrayLike a.toNumericArrayLike : JS (Option View)).run r := by
  simp only [fromArray, bufferFrom, fromOwn, fromObject, EStateM.run_bind, some_map_run]
  cases (fromNumericArrayLike a.toNumericArrayLike).run r <;> rfl

theorem copies_of_empty {a : SourceArray} (hn : a.length = .fin (0 : ℕ)) {r : Realm}
    (hlive : ∀ s x, a.holds s x → s < r.nextStore) (value : ℕ → ℤ) : p.Copies a 0 value r := by
  have hrun : (p.fromArray a).run r =
      (some <$> NanoJS.newFastBuffer true 0 : JS (Option View)).run r := by
    rw [fromArray_run, some_map_run, some_map_run,
      fromNumericArrayLike_empty (by rw [hn]; decide)]
  refine ⟨_, _, hrun.trans rfl, rfl, fun i hi => absurd hi (Nat.not_lt_zero i), ?_⟩
  intro s x hx
  exact if_neg (Nat.ne_of_lt (hlive s x hx))

theorem not_copies_of_large {a : SourceArray} {n : ℕ} (hn : a.length = .fin n)
    (hlarge : poolSize / 2 ≤ n) (value : ℕ → ℤ) (r : Realm) : ¬p.Copies a n value r := by
  have hpos : 0 < n := Nat.lt_of_lt_of_le (by decide) hlarge
  have hzero : a.length.le (.fin 0) = false := by
    rw [hn]
    exact Number.natCast_le_zero hpos
  have hhalf : (Number.fin (poolSize >>> 1 : ℕ)).le a.length = true := by
    rw [hn, Number.fin_le_natCast]
    exact decide_eq_true hlarge
  rintro ⟨v, r', hrun, -⟩
  rw [fromArray_run, some_map_run, fromNumericArrayLike_large hzero hhalf] at hrun
  cases hrun

variable {p} {a : SourceArray} {r : Realm} {value : ℕ → ℤ}

theorem fromArray_run_small (hn : a.length = .fin n) (hpos : 0 < n) (hsmall : n < poolSize / 2)
    (hr : r.WellFormed) :
    (p.fromArray a).run r =
      .ok (some ⟨(r.room n).allocPool, (r.room n).poolOffset, n, (hr.room_fits hsmall).2⟩)
        { r.room n with
          mem := copyWhileMem
            ⟨(r.room n).allocPool, (r.room n).poolOffset, n, (hr.room_fits hsmall).2⟩
            a.toNumericArrayLike r.mem 0 (poolSize >>> 1) } := by
  rw [fromArray_run, some_map_run, fromNumericArrayLike_natCast hn hpos hsmall hr, r.room_mem n]

/-- A byte that the array shares with its copy is both. -/
theorem Copies.shared (h : p.Copies a n value r) (hn : a.length = .fin n) (hpos : 0 < n)
    (hsmall : n < poolSize / 2) (hr : r.WellFormed) {i : ℕ} (hi : i < n)
    (hx : a.holds (r.room n).allocPool ((r.room n).poolOffset + i)) :
    ((r.mem (r.room n).allocPool ((r.room n).poolOffset + i)).toNat : ℤ) = value i % 256 := by
  obtain ⟨v, r', hrun, -, hbytes, hkeeps⟩ := h
  rw [fromArray_run_small hn hpos hsmall hr] at hrun
  injection hrun with hview hrealm
  obtain rfl := Option.some.inj hview
  rw [← hkeeps _ _ hx]
  exact hbytes i hi

/-- An array that agrees with its copy is copied. -/
theorem copies_of_agrees (hn : a.length = .fin n) (hpos : 0 < n) (hsmall : n < poolSize / 2)
    (hr : r.WellFormed) (hvalue : ∀ i < n, a.element r.mem i = .fin (value i))
    (hshared : ∀ i < n, a.holds (r.room n).allocPool ((r.room n).poolOffset + i) →
      ((r.mem (r.room n).allocPool ((r.room n).poolOffset + i)).toNat : ℤ) = value i % 256) :
    p.Copies a n value r := by
  have hbyte : ∀ i < n, ((a.element r.mem i).toByte.toNat : ℤ) = value i % 256 := by
    intro i hi
    rw [hvalue i hi, toByte_intCast]
  have hagrees : Agrees
      ⟨(r.room n).allocPool, (r.room n).poolOffset, n, (hr.room_fits hsmall).2⟩ a r.mem n := by
    intro i hi hx
    rw [← UInt8.toNat_inj]
    exact Int.ofNat_inj.1 ((hshared i hi hx).trans (hbyte i hi).symm)
  have hsteps : n ≤ 0 + poolSize >>> 1 := (Nat.zero_add _).symm ▸ hsmall.le
  have hdone := (CopiedTo.start _ a r.mem).run hagrees rfl hn (Nat.zero_le n) hsteps
  refine ⟨_, _, fromArray_run_small hn hpos hsmall hr, rfl, fun i hi => ?_, hdone.source⟩
  have hcopied := congrArg UInt8.toNat (hdone.copied i hi)
  exact (congrArg Nat.cast hcopied).trans (hbyte i hi)

/-- **When `Buffer.from` copies an array.** In every reachable realm, for every array-like of `n`
integers, it returns a buffer of them, modulo 256, and leaves the array as it was, exactly when `n`
is below half the pool, and every byte of the array in the range of the pool where the buffer is
made holds what is to be copied there. -/
theorem copies_iff (hv : p.v8.Documented) (hr : Realm.Reachable p.v8.toV8 r)
    (hn : a.length = .fin n) (hvalue : ∀ i < n, a.element r.mem i = .fin (value i))
    (hlive : ∀ s x, a.holds s x → s < r.nextStore) :
    p.Copies a n value r ↔
      n < poolSize / 2 ∧ ∀ i < n,
        a.holds (r.room n).allocPool ((r.room n).poolOffset + i) →
        ((r.mem (r.room n).allocPool ((r.room n).poolOffset + i)).toNat : ℤ) = value i % 256 := by
  have hwf := hr.wellFormed hv.toDocumented
  rcases Nat.eq_zero_or_pos n with rfl | hpos
  · exact ⟨fun _ => ⟨by decide, fun i hi => absurd hi (Nat.not_lt_zero i)⟩,
      fun _ => p.copies_of_empty hn hlive value⟩
  · constructor
    · intro h
      have hsmall : n < poolSize / 2 := by
        by_contra hlarge
        exact p.not_copies_of_large hn (Nat.not_lt.1 hlarge) value r h
      exact ⟨hsmall, fun i hi => h.shared hn hpos hsmall hwf hi⟩
    · rintro ⟨hsmall, hshared⟩
      exact copies_of_agrees hn hpos hsmall hwf hvalue hshared

/-- `Buffer.from([1, 258, -1])` -/
theorem copies_plain : reference.Copies (.plain [1, 258, -1]) 3 (fun i => [1, 258, -1].getD i 0)
    (Realm.load fun _ _ => 0) :=
  (copies_iff FillV8.reference_documented (.start ⟨_, rfl⟩) rfl (fun _ _ => rfl)
    (fun _ _ h => False.elim h)).2 ⟨by decide, fun _ _ h => False.elim h⟩

/-- The realm after `a = Buffer.from([0, 1, 2, 3, 4, 5, 6, 7, 8])` and `Buffer.from('x')`. -/
def sharedRealm : Realm :=
  (fromStep V8.reference
    (fromStep V8.reference (Realm.load fun _ _ => 0)
      (.arrayLike (.array ((List.range 9).map fun i : ℕ => .fin i)))).2
    (.string (jsString "x") none)).2

/-- Neither 4096 zeros are copied, nor `a` in that realm. -/
theorem copies_fail :
    ¬reference.Copies (.plain (List.replicate 4096 0)) 4096 (fun _ => 0)
        (Realm.load fun _ _ => 0) ∧
      ¬reference.Copies (.buffer ⟨0, 0, 9, by decide⟩) 9 (fun i => (sharedRealm.mem 0 i).toNat)
        sharedRealm := by
  constructor
  · exact reference.not_copies_of_large
      (congrArg (fun n : ℕ => Number.fin n) List.length_replicate) (by decide) _ _
  · intro h
    have hr : Realm.Reachable V8.reference sharedRealm :=
      ((Transition.Reachable.start ⟨_, rfl⟩).tail (.bufferFrom _)).tail (.bufferFrom _)
    have hbyte := h.shared rfl (by decide) (by decide) (hr.wellFormed V8.reference_documented)
      (i := 0) (by decide) ⟨by decide, by decide, by decide⟩
    revert hbyte
    decide

end Platform

end NanoJS

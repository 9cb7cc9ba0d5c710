import NanoJS.Buffers.Pool
import NanoJS.Js.Conversions

/-!
# `Buffer.alloc` with a fill

`Buffer.alloc` decides between zero-filled memory and `createUnsafeBuffer` by its length and its
fill; what it then writes is decided by the type of the fill (`__fill`), and done by
`Buffer::fill`. Its bytes do not depend on what the memory held before, unless the fill is of a type
that is not written, or the buffer is to be zero-filled while the toggle is lowered
(`alloc_determined_iff`).
-/

namespace NanoJS

open ByteMemory Utf16

/-! ## `Buffer::fill` -/

/-- The functions of `v8::String` that `Buffer::fill` calls. -/
structure FillV8 extends V8 where
  /-- `WriteUtf8` with no options: the bytes that it puts into a buffer of the given length. -/
  writeUtf8Plain : JSString → ℕ → List UInt8

/-- What `v8.h` documents of them: a buffer that is as long as the string is filled. -/
structure FillV8.Documented (v8 : FillV8) : Prop extends v8.toV8.Documented where
  writeUtf8Plain : ∀ s, (v8.writeUtf8Plain s (v8.utf8Length s)).length = v8.utf8Length s
  writeExact : ∀ s, (v8.write s s.length).1 = s

/-- An implementation. -/
def FillV8.reference : FillV8 where
  toV8 := V8.reference
  writeUtf8Plain s length := (utf8 s).take length

theorem FillV8.reference_documented : FillV8.reference.Documented where
  toDocumented := V8.reference_documented
  writeUtf8Plain s := by simp [reference, V8.reference]
  writeExact s := by simp [reference, V8.reference]

namespace Native

/-- `new char[length]`, when `written` has been copied to its beginning. Behind it is what the heap
held. -/
def charBuffer (heap : ℕ → UInt8) (written : List UInt8) (j : ℕ) : UInt8 := written.getD j (heap j)

/-- `while (end--) { startAddress[i] = buffer[j]; j++; i++; j = j % length; }`: the bytes that are
written, from `j` on. -/
def cycle (buffer : ℕ → UInt8) (length : ℕ) : ℕ → ℕ → List UInt8
  | _, 0 => []
  | j, stop + 1 => buffer j :: cycle buffer length ((j + 1) % length) stop

/-- `Buffer::fill` of a number -/
def fillNumber (buff : View) (value : Number) (stop : ℕ) : JS Unit :=
  writeStore buff.store 0 (List.replicate stop (.ofInt (integerValue (some value))))

/-- `Buffer::fill` of a string -/
def fillString (v8 : FillV8) (heap : ℕ → UInt8) (buff : View) (value : JSString) (stop : ℕ)
    (encodingVal : Encoding) : JS Unit :=
  match encodingVal with
  | .utf8 =>
    let length := v8.utf8Length value
    let buffer := charBuffer heap (v8.writeUtf8Plain value length)
    writeStore buff.store 0 (cycle buffer length 0 stop)
  | .utf16le =>
    let length := value.length
    let buffer := charBuffer heap (utf16le (v8.write value length).1)
    writeStore buff.store 0 (cycle buffer (length * 2) 0 stop)

@[simp] theorem length_cycle (buffer : ℕ → UInt8) (length j stop : ℕ) :
    (cycle buffer length j stop).length = stop := by
  induction stop generalizing j with
  | zero => rfl
  | succ stop ih => simp [cycle, ih]

/-- The loop reads the buffer only. -/
theorem cycle_congr {buffer buffer' : ℕ → UInt8} {length : ℕ}
    (h : ∀ j < length, buffer j = buffer' j) {j : ℕ} (hj : j < length) (stop : ℕ) :
    cycle buffer length j stop = cycle buffer' length j stop := by
  induction stop generalizing j with
  | zero => rfl
  | succ stop ih =>
    have hnext : (j + 1) % length < length := Nat.mod_lt _ (by omega)
    rw [cycle, cycle, h j hj, ih hnext]

/-- A buffer that has been filled does not depend on the heap. -/
theorem cycle_charBuffer {written : List UInt8} {length : ℕ} (hlen : written.length = length)
    (hpos : 0 < length) (heap heap' : ℕ → UInt8) (stop : ℕ) :
    cycle (charBuffer heap written) length 0 stop =
      cycle (charBuffer heap' written) length 0 stop := by
  refine cycle_congr (fun j hj => ?_) hpos stop
  have hj' : j < written.length := by omega
  rw [charBuffer, charBuffer, List.getD_eq_getElem _ _ hj', List.getD_eq_getElem _ _ hj']

end Native

/-! ## `App.js` -/

/-- What `Buffer.alloc` depends on beside its arguments: V8, how numbers are written, what user code
converts an object to, and the lengths for which V8 takes the memory of a typed array from the
allocator. -/
structure Platform where
  v8 : FillV8
  format : NumberFormat
  toPrimitive : ℕ → Except JSError JSValue
  offHeap : ℕ → Bool

/-- `ToIndex` of a number; `none` is a `RangeError`. -/
def Number.toIndex : Number → Option ℕ
  | .nan => some 0
  | .fin q => if truncate q < 0 then none else some (truncate q).toNat
  | .posInf | .negInf => none

theorem Number.toIndex_natCast (n : ℕ) : (Number.fin n).toIndex = some n := by
  have hn : truncate (n : ℚ) = n := by simp [truncate]
  rw [toIndex, hn, if_neg (by omega), Int.toNat_natCast]

namespace Platform

variable (p : Platform)

/-- `encoding + ""` -/
def encodingName : JSValue → Except JSError JSString
  | .object id _ => do (← p.toPrimitive id).concatEmpty p.format
  | encoding => encoding.concatEmpty p.format

/-- `getEncodingOps(encoding)` -/
def encodingOps (encoding : JSValue) : Except JSError (Option Encoding) := do
  getEncodingOps (← p.encodingName encoding)

/-- `new FastBuffer(length)`, while the toggle says whether the allocator zero-fills. -/
def newFastBuffer (toggle : Bool) (length : Number) : JS View :=
  match length.toIndex with
  | none => throw (.rangeError "Invalid typed array length")
  | some n => NanoJS.newFastBuffer (toggle || !p.offHeap n) n

/-- `__fill`. The variable `length` does not exist. -/
def fill (heap : ℕ → UInt8) (buff : View) (fillValue encoding : JSValue) : JS Unit :=
  match fillValue with
  | .string s => do
    match ← ofExcept (p.encodingOps encoding) with
    | none => throw (.error "Invalid encoding value")
    | some ops =>
      if s.length = 0 then throw (.referenceError "length")
      else Native.fillString p.v8 heap buff s buff.byteLength ops
  | .number n => Native.fillNumber buff n buff.byteLength
  | _ => pure ()

/-- `length > 0 && fill != undefined && fill !== 0` -/
def isFilled (length : Number) (fillValue : JSValue) : Bool :=
  (Number.fin 0).lt length && !fillValue.isNullish && fillValue != .number (.fin 0)

/-- `Buffer.alloc`, for a length that is a number. User code that converts the encoding has no
reference to the buffer. -/
def alloc (heap : ℕ → UInt8) (toggle : Bool) (length : Number) (fillValue encoding : JSValue) :
    JS View :=
  if length = .nan then throw (.typeError "Invalid length argument")
  else if isFilled length fillValue then do
    let buffer ← p.newFastBuffer false length
    p.fill heap buffer fillValue encoding
    return buffer
  else p.newFastBuffer toggle length

/-! ## What a run returns -/

/-- A new buffer, and what its memory holds. -/
theorem newFastBuffer_inv {toggle : Bool} {length : Number} {r r' : Realm} {v : View}
    (h : (p.newFastBuffer toggle length).run r = .ok v r') :
    ∃ n hn, length.toIndex = some n ∧ v = ⟨r.nextStore, 0, n, hn⟩ ∧
      r'.mem r.nextStore =
        if toggle || !p.offHeap n then fun _ => 0 else r.mem r.nextStore := by
  unfold newFastBuffer at h
  cases hindex : length.toIndex with
  | none =>
    rw [hindex] at h
    cases h
  | some n =>
    rw [hindex] at h
    simp only [NanoJS.newFastBuffer, EStateM.run] at h
    split at h
    · rename_i hn
      cases h
      refine ⟨n, hn, rfl, rfl, ?_⟩
      cases toggle || !p.offHeap n
      · rfl
      · exact funext fun a => if_pos rfl
    · cases h

theorem newFastBuffer_run {toggle : Bool} {length : Number} {n : ℕ}
    (hindex : length.toIndex = some n) (hn : n ≤ kMaxLength) (r : Realm) :
    ∃ r', (p.newFastBuffer toggle length).run r = .ok ⟨r.nextStore, 0, n, hn⟩ r' ∧
      r'.mem r.nextStore =
        if toggle || !p.offHeap n then fun _ => 0 else r.mem r.nextStore := by
  have hrun : ∃ r', (p.newFastBuffer toggle length).run r = .ok ⟨r.nextStore, 0, n, hn⟩ r' := by
    simp [newFastBuffer, hindex, NanoJS.newFastBuffer, EStateM.run, hn]
  obtain ⟨r', hrun⟩ := hrun
  obtain ⟨n', -, hindex', -, hmem⟩ := p.newFastBuffer_inv hrun
  obtain rfl : n = n' := Option.some.inj (hindex.symm.trans hindex')
  exact ⟨r', hrun, hmem⟩

/-- A string that is not empty is written over the whole buffer, whatever the heap holds. -/
theorem fillString_covers (hv : p.v8.Documented) {s : JSString} (hs : s ≠ []) (ops : Encoding)
    (n : ℕ) :
    ∃ bytes : List UInt8, bytes.length = n ∧ ∀ heap buff r,
      (Native.fillString p.v8 heap buff s n ops).run r =
        .ok () { r with mem := blit r.mem buff.store 0 bytes } := by
  have hlen := List.length_pos_iff.2 hs
  cases ops with
  | utf8 =>
    have hpos : 0 < p.v8.utf8Length s := by
      rw [hv.utf8Length]
      exact List.length_pos_iff.2 (utf8_ne_nil hs)
    let written := p.v8.writeUtf8Plain s (p.v8.utf8Length s)
    refine ⟨Native.cycle (Native.charBuffer (fun _ => 0) written) (p.v8.utf8Length s) 0 n,
      Native.length_cycle .., fun heap buff r => ?_⟩
    rw [← Native.cycle_charBuffer (hv.writeUtf8Plain s) hpos heap]
    rfl
  | utf16le =>
    have hwritten : (utf16le (p.v8.write s s.length).1).length = s.length * 2 := by
      rw [hv.writeExact, length_utf16le, Nat.mul_comm]
    let written := utf16le (p.v8.write s s.length).1
    refine ⟨Native.cycle (Native.charBuffer (fun _ => 0) written) (s.length * 2) 0 n,
      Native.length_cycle .., fun heap buff r => ?_⟩
    rw [← Native.cycle_charBuffer hwritten (by omega) heap]
    rfl

/-- A string that is written is not empty, and its encoding is known. -/
theorem fill_string_inv {heap : ℕ → UInt8} {buff : View} {s : JSString} {encoding : JSValue}
    {r r' : Realm} {u : Unit} (h : (p.fill heap buff (.string s) encoding).run r = .ok u r') :
    ∃ ops, p.encodingOps encoding = .ok (some ops) ∧ s ≠ [] ∧
      (Native.fillString p.v8 heap buff s buff.byteLength ops).run r = .ok u r' := by
  simp only [fill] at h
  cases hops : p.encodingOps encoding with
  | error e =>
    rw [hops] at h
    cases h
  | ok ops =>
    rw [hops] at h
    cases ops with
    | none => cases h
    | some ops =>
      by_cases hs : s = []
      · subst hs
        cases h
      · have hlen : ¬s.length = 0 := by simpa using hs
        simp only [ofExcept, EStateM.run_bind, EStateM.run_pure, hlen, if_false] at h
        exact ⟨ops, rfl, hs, h⟩

/-- A string or a number is written over the whole buffer, and what is written depends neither on
the heap nor on the memory. -/
theorem fill_covers (hv : p.v8.Documented) {fillValue : JSValue} (encoding : JSValue)
    (hfill : fillValue.isString ∨ fillValue.isNumber) (n : ℕ) :
    ∃ bytes : List UInt8, bytes.length = n ∧ ∀ heap buff r u r', buff.byteLength = n →
      (p.fill heap buff fillValue encoding).run r = .ok u r' →
        r'.mem = blit r.mem buff.store 0 bytes := by
  cases fillValue with
  | number value =>
    refine ⟨List.replicate n (.ofInt (integerValue (some value))), List.length_replicate, ?_⟩
    rintro heap buff r u r' rfl h
    cases h
    rfl
  | string s =>
    by_cases hok : ∃ ops, p.encodingOps encoding = .ok (some ops) ∧ s ≠ []
    · obtain ⟨ops, hops, hs⟩ := hok
      obtain ⟨bytes, hbytes, hrun⟩ := p.fillString_covers hv hs ops n
      refine ⟨bytes, hbytes, ?_⟩
      rintro heap buff r u r' rfl h
      obtain ⟨ops', hops', -, hrun'⟩ := p.fill_string_inv h
      obtain rfl : ops = ops' := by simpa [hops] using hops'
      rw [hrun heap buff r] at hrun'
      cases hrun'
      rfl
    · refine ⟨List.replicate n 0, List.length_replicate, ?_⟩
      intro heap buff r u r' _ h
      obtain ⟨ops, hops, hs, -⟩ := p.fill_string_inv h
      exact absurd ⟨ops, hops, hs⟩ hok
  | _ => simp [JSValue.isString, JSValue.isNumber] at hfill

/-- Nothing else is written. -/
theorem fill_other {heap : ℕ → UInt8} {buff : View} {fillValue encoding : JSValue}
    (hfill : ¬(fillValue.isString ∨ fillValue.isNumber)) (r : Realm) :
    (p.fill heap buff fillValue encoding).run r = .ok () r := by
  cases fillValue with
  | string | number => simp [JSValue.isString, JSValue.isNumber] at hfill
  | _ => rfl

/-! ## Two runs -/

/-- Two calls of `Buffer.alloc`, of which the second finds other contents in memory that has not
been handed out, return buffers of equal bytes, if both return. -/
def Determined (toggle : Bool) (length : Number) (fillValue encoding : JSValue) (r : Realm) :
    Prop :=
  ∀ heap heap' mem v v' r₁ r₂, (∀ store < r.nextStore, mem store = r.mem store) →
    (p.alloc heap toggle length fillValue encoding).run r = .ok v r₁ →
    (p.alloc heap' toggle length fillValue encoding).run { r with mem := mem } = .ok v' r₂ →
      v.bytes r₁.mem = v'.bytes r₂.mem

/-- The buffer has memory of the allocator, and it is neither zero-filled nor written: by its fill
it is to be zero-filled, while the toggle is lowered, or else the fill is neither a string nor a
number. -/
def Exposed (toggle : Bool) (length : Number) (fillValue : JSValue) : Prop :=
  (∃ n, length.toIndex = some n ∧ 0 < n ∧ n ≤ kMaxLength ∧ p.offHeap n = true) ∧
    if fillValue.isNullish ∨ fillValue = .number (.fin 0) then toggle = false
    else ¬(fillValue.isString ∨ fillValue.isNumber)

/-- Only a positive number has a positive index. -/
theorem lt_of_toIndex {length : Number} {n : ℕ} (h : length.toIndex = some n) (hn : 0 < n) :
    (Number.fin 0).lt length = true := by
  cases length with
  | fin q =>
    simp only [Number.toIndex, Option.ite_none_left_eq_some, Option.some.injEq] at h
    have hq : 0 < truncate q := by omega
    have hpos : 0 < q := by
      by_contra hneg
      have hnum : 0 ≤ -q.num := by simpa using Rat.num_nonpos.2 (not_lt.1 hneg)
      have hdiv := Int.tdiv_nonneg hnum (Int.natCast_nonneg q.den)
      rw [Int.neg_tdiv] at hdiv
      unfold truncate at hq
      omega
    simpa [Number.lt] using hpos
  | nan =>
    obtain rfl : 0 = n := Option.some.inj h
    exact absurd hn (lt_irrefl 0)
  | _ => cases h

/-- A buffer whose memory is zero-filled holds zeros. -/
theorem bytes_newFastBuffer {toggle : Bool} {length : Number} {r r' : Realm} {v : View}
    (h : (p.newFastBuffer toggle length).run r = .ok v r')
    (hzero : ∀ n, length.toIndex = some n → 0 < n → n ≤ kMaxLength →
      toggle = true ∨ p.offHeap n = false) :
    ∃ n, length.toIndex = some n ∧ v.bytes r'.mem = List.replicate n 0 := by
  obtain ⟨n, hn, hindex, rfl, hmem⟩ := p.newFastBuffer_inv h
  refine ⟨n, hindex, (slice_eq_list_iff List.length_replicate).2 fun i hi => ?_⟩
  have hpos : 0 < n := Nat.zero_lt_of_lt (List.length_replicate ▸ hi)
  rw [hmem, List.getElem_replicate]
  rcases hzero n hindex hpos hn with htoggle | hheap
  · simp [htoggle]
  · simp [hheap]

/-- A call that returns has made a buffer, and has filled it or not. -/
theorem alloc_inv {heap : ℕ → UInt8} {toggle : Bool} {length : Number}
    {fillValue encoding : JSValue} {r r' : Realm} {v : View}
    (h : (p.alloc heap toggle length fillValue encoding).run r = .ok v r') :
    if isFilled length fillValue then
      ∃ r₁, (p.newFastBuffer false length).run r = .ok v r₁ ∧
        (p.fill heap v fillValue encoding).run r₁ = .ok () r'
    else (p.newFastBuffer toggle length).run r = .ok v r' := by
  unfold alloc at h
  split at h
  · cases h
  · split
    · rename_i hfilled
      simp only [hfilled, if_true, EStateM.run_bind] at h
      cases hnew : (p.newFastBuffer false length).run r with
      | error e r₁ =>
        rw [hnew] at h
        cases h
      | ok buffer r₁ =>
        rw [hnew] at h
        dsimp only at h
        cases hfill : (p.fill heap buffer fillValue encoding).run r₁ with
        | error e r₂ =>
          rw [hfill] at h
          cases h
        | ok u r₂ =>
          rw [hfill] at h
          cases h
          exact ⟨r₁, rfl, hfill⟩
    · rename_i hfilled
      simpa [hfilled] using h

/-- **What is not exposed is a function of the arguments.** -/
theorem alloc_bytes (hv : p.v8.Documented) {toggle : Bool} {length : Number} {fillValue : JSValue}
    (encoding : JSValue) (h : ¬p.Exposed toggle length fillValue) :
    ∃ bytes, ∀ heap r v r', (p.alloc heap toggle length fillValue encoding).run r = .ok v r' →
      v.bytes r'.mem = bytes := by
  -- zeros, if the memory is zero-filled and nothing is written
  have zeros : ∀ zeroFill, (∀ n, length.toIndex = some n → 0 < n → n ≤ kMaxLength →
      zeroFill = true ∨ p.offHeap n = false) → ∀ {r v r'},
      (p.newFastBuffer zeroFill length).run r = .ok v r' →
        v.bytes r'.mem = List.replicate (length.toIndex.getD 0) 0 := by
    intro zeroFill hzero r v r' hrun
    obtain ⟨n, hindex, hbytes⟩ := p.bytes_newFastBuffer hrun hzero
    rw [hbytes, hindex, Option.getD_some]
  by_cases hfilled : isFilled length fillValue
  · have hneither : ¬(fillValue.isNullish ∨ fillValue = .number (.fin 0)) := by
      simp only [isFilled, Bool.and_eq_true, Bool.not_eq_true', bne_iff_ne] at hfilled
      simp [hfilled]
    simp only [Exposed, hneither, if_false] at h
    by_cases hfill : fillValue.isString ∨ fillValue.isNumber
    · obtain ⟨bytes, hlen, hcovers⟩ :=
        p.fill_covers hv encoding hfill (length.toIndex.getD 0)
      refine ⟨bytes, fun heap r v r' hrun => ?_⟩
      have hinv := p.alloc_inv hrun
      rw [if_pos hfilled] at hinv
      obtain ⟨r₁, hnew, hwrite⟩ := hinv
      obtain ⟨n, hn, hindex, rfl, -⟩ := p.newFastBuffer_inv hnew
      rw [hindex, Option.getD_some] at hlen hcovers
      rw [View.bytes, hcovers heap _ _ _ _ rfl hwrite]
      subst hlen
      exact slice_blit
    · refine ⟨List.replicate (length.toIndex.getD 0) 0, fun heap r v r' hrun => ?_⟩
      have hinv := p.alloc_inv hrun
      rw [if_pos hfilled] at hinv
      obtain ⟨r₁, hnew, hwrite⟩ := hinv
      rw [p.fill_other hfill] at hwrite
      cases hwrite
      refine zeros false (fun n hindex hpos hmax => .inr ?_) hnew
      by_contra hheap
      exact h ⟨⟨n, hindex, hpos, hmax, Bool.not_eq_false _ ▸ hheap⟩, hfill⟩
  · refine ⟨List.replicate (length.toIndex.getD 0) 0, fun heap r v r' hrun => ?_⟩
    have hinv := p.alloc_inv hrun
    rw [if_neg hfilled] at hinv
    refine zeros toggle (fun n hindex hpos hmax => ?_) hinv
    have hlt := lt_of_toIndex hindex hpos
    have hdefault : fillValue.isNullish ∨ fillValue = .number (.fin 0) := by
      by_contra hnot
      simp only [isFilled, hlt, Bool.true_and, Bool.and_eq_true, Bool.not_eq_true',
        bne_iff_ne] at hfilled
      simp_all
    by_contra hboth
    simp only [not_or, Bool.not_eq_true, Bool.not_eq_false] at hboth
    refine h ⟨⟨n, hindex, hpos, hmax, hboth.2⟩, ?_⟩
    rw [if_pos hdefault]
    exact hboth.1

/-- What is exposed is returned as the allocator had it. -/
theorem alloc_exposed {toggle : Bool} {length : Number} {fillValue : JSValue} (encoding : JSValue)
    (h : p.Exposed toggle length fillValue) (heap : ℕ → UInt8) (r : Realm) :
    ∃ v r', (p.alloc heap toggle length fillValue encoding).run r = .ok v r' ∧
      v.store = r.nextStore ∧ v.byteOffset = 0 ∧ 0 < v.byteLength ∧
        r'.mem r.nextStore = r.mem r.nextStore := by
  obtain ⟨⟨n, hindex, hpos, hmax, hheap⟩, hcase⟩ := h
  have hlt := lt_of_toIndex hindex hpos
  have hnan : length ≠ .nan := by
    rintro rfl
    obtain rfl : 0 = n := Option.some.inj hindex
    exact lt_irrefl 0 hpos
  have new : ∃ r', (p.newFastBuffer false length).run r = .ok ⟨r.nextStore, 0, n, hmax⟩ r' ∧
      r'.mem r.nextStore = r.mem r.nextStore := by
    obtain ⟨r', hrun, hmem⟩ := @newFastBuffer_run p false length n hindex hmax r
    exact ⟨r', hrun, by simpa [hheap] using hmem⟩
  obtain ⟨r', hrun, hmem⟩ := new
  refine ⟨⟨r.nextStore, 0, n, hmax⟩, r', ?_, rfl, rfl, hpos, hmem⟩
  unfold alloc
  rw [if_neg hnan]
  split at hcase
  · rename_i hdefault
    have hnot : isFilled length fillValue = false := by
      simp only [isFilled, hlt, Bool.true_and]
      rcases hdefault with hnull | rfl
      · simp [hnull]
      · simp
    rw [hnot, hcase]
    exact hrun
  · rename_i hdefault
    have hfilled : isFilled length fillValue = true := by
      rw [not_or] at hdefault
      simp [isFilled, hlt, hdefault]
    simp only [hfilled, if_true, EStateM.run_bind, hrun, p.fill_other hcase, EStateM.run_pure]

theorem head?_bytes {v : View} {mem : Mem} (h : 0 < v.byteLength) :
    (v.bytes mem).head? = some (mem v.store v.byteOffset) := by
  have hpos : 0 < (v.bytes mem).length := by
    rw [View.bytes, length_slice]
    exact h
  rw [List.head?_eq_getElem?, List.getElem?_eq_getElem hpos]
  simp [View.bytes, slice]

variable {p} in
/-- Two memories that differ where nothing has been handed out give different buffers. -/
theorem Exposed.not_determined {toggle : Bool} {length : Number} {fillValue : JSValue}
    (h : p.Exposed toggle length fillValue) (encoding : JSValue) (r : Realm) :
    ¬p.Determined toggle length fillValue encoding r := by
  intro hsame
  let mem : Mem := fun store a =>
    if store < r.nextStore then r.mem store a else if r.mem store a = 0 then 1 else 0
  obtain ⟨v, r₁, hrun, hstore, hoffset, hpos, hmem⟩ :=
    p.alloc_exposed encoding h (fun _ => 0) r
  obtain ⟨v', r₂, hrun', hstore', hoffset', hpos', hmem'⟩ :=
    p.alloc_exposed encoding h (fun _ => 0) { r with mem := mem }
  have hold : ∀ store < r.nextStore, mem store = r.mem store := by
    intro store hlt
    funext a
    exact if_pos hlt
  have hbytes := congrArg List.head? (hsame _ _ mem v v' r₁ r₂ hold hrun hrun')
  rw [head?_bytes hpos, head?_bytes hpos', hstore, hstore', hoffset, hoffset', hmem, hmem',
    Option.some.injEq] at hbytes
  have hflipped : r.mem r.nextStore 0 = if r.mem r.nextStore 0 = 0 then 1 else 0 :=
    hbytes.trans (if_neg (lt_irrefl _))
  split at hflipped
  · rename_i hzero
    rw [hzero] at hflipped
    cases hflipped
  · rename_i hzero
    exact hzero hflipped

/-- **`Buffer.alloc` and uninitialised memory.** Two calls that differ in what memory held before it
was handed out return equal bytes, unless the buffer is exposed: it has memory of the allocator, and
by its fill it is to be zero-filled, while the toggle is lowered, or its fill is neither a string
nor a number. -/
theorem alloc_determined_iff (hv : p.v8.Documented) (toggle : Bool) (length : Number)
    (fillValue encoding : JSValue) (r : Realm) :
    p.Determined toggle length fillValue encoding r ↔ ¬p.Exposed toggle length fillValue := by
  constructor
  · intro hsame hexposed
    exact hexposed.not_determined encoding r hsame
  · intro hexposed heap heap' mem v v' r₁ r₂ _ hrun hrun'
    obtain ⟨bytes, hbytes⟩ := p.alloc_bytes hv encoding hexposed
    rw [hbytes heap _ v r₁ hrun, hbytes heap' _ v' r₂ hrun']

/-- A platform that takes more than 64 bytes from the allocator. -/
def reference : Platform where
  v8 := FillV8.reference
  format := ⟨fun _ => .nan, fun _ => jsString "NaN"⟩
  toPrimitive _ := .ok (.string (jsString "[object Object]"))
  offHeap n := 64 < n

/-- `Buffer.alloc(100, "ab", "utf16le")` -/
theorem alloc_determined_utf16le :
    reference.Determined true (.fin 100) (.string (jsString "ab")) (.string (jsString "utf16le"))
      (Realm.load fun _ _ => 0) := by
  apply (reference.alloc_determined_iff FillV8.reference_documented _ _ _ _ _).2
  rintro ⟨-, h⟩
  simp [JSValue.isNullish, JSValue.isString] at h

/-- `Buffer.alloc(100, true)` -/
theorem alloc_exposes_boolean :
    ¬reference.Determined true (.fin 100) (.boolean true) .undefined
      (Realm.load fun _ _ => 0) := by
  refine Exposed.not_determined ⟨⟨100, rfl, by decide, by decide, by decide⟩, ?_⟩ _ _
  simp [JSValue.isNullish, JSValue.isString, JSValue.isNumber]

/-- Without a fill it is the allocation of zeros. -/
theorem alloc_undefined {length : Number} {n : ℕ} (h : length.toIndex = some n)
    (hnan : length ≠ .nan) (heap : ℕ → UInt8) (encoding : JSValue) :
    p.alloc heap true length .undefined encoding = bufferAlloc (some length) := by
  cases length with
  | fin q =>
    simp only [Number.toIndex, Option.ite_none_left_eq_some] at h
    have hneg : ¬q.num.tdiv q.den < 0 := h.1
    simp only [alloc, isFilled, newFastBuffer, bufferAlloc, Number.toIndex, JSValue.isNullish,
      truncate, hneg, hnan, if_false, Bool.not_true, Bool.and_false, Bool.false_and, Bool.true_or]
    rfl
  | nan => exact absurd rfl hnan
  | _ => cases h

end Platform

end NanoJS

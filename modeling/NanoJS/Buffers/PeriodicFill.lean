import Mathlib.Data.Nat.Cast.Order.Ring
import NanoJS.Buffers.Fill
import NanoJS.Files.Native

/-!
# The content of a filled buffer

The loops of `Buffer::fill` count in `int`s, in steps that could go wrong (`fillLoop`). Where none
does, the buffer repeats what `WriteUtf8` or `Write` has copied. `fill` asks `WriteUtf8` for no
replacement of lone surrogates, unlike `utf8Write`, and `Utf8Length` returns an `int`: so a buffer
repeats the encoding of a string exactly when no lone surrogate begins within its length, and the
encoded length is an `int` (`periodic_fill_iff`).
-/

namespace NanoJS

open ByteMemory Utf16

/-- What is written without `REPLACE_INVALID_UTF8`, which "needs to be set to guarantee valid UTF-8
output": orphan surrogates as they are. -/
def FillV8.KeepsOrphans (v8 : FillV8) : Prop :=
  ∀ s, v8.writeUtf8Plain s (v8.utf8Length s) = utf8Raw s

/-- An implementation. -/
def FillV8.plain : FillV8 where
  toV8 := V8.reference
  writeUtf8Plain s length := (utf8Raw s).take length

theorem FillV8.plain_documented : FillV8.plain.Documented where
  toDocumented := V8.reference_documented
  writeUtf8Plain s := by simp [plain, V8.reference, length_utf8Raw]
  writeExact s := by simp [plain, V8.reference]

theorem FillV8.plain_keepsOrphans : FillV8.plain.KeepsOrphans := by
  intro s
  simp [plain, V8.reference, ← length_utf8Raw]

namespace Native

/-! ## The loops in `int`s -/

/-- What goes wrong. -/
inductive FillFault
  | badArraySize
  | outOfBounds
  | overflow
  | divisionByZero
  deriving DecidableEq

/-- `while (end--) { startAddress[i] = buffer[j]; j++; i++; j = j % length; }`, for a `buffer` of
`length` bytes and `room` bytes at `startAddress`: the bytes that are written from `i` on. -/
def fillLoop (buffer : ℕ → UInt8) (length room : ℤ) :
    ℕ → ℤ → ℤ → Except FillFault (List UInt8)
  | 0, _, _ => .ok []
  | stop + 1, i, j =>
    if i < 0 ∨ room ≤ i ∨ j < 0 ∨ length ≤ j then .error .outOfBounds
    else if 2 ^ 31 ≤ j + 1 ∨ 2 ^ 31 ≤ i + 1 then .error .overflow
    else if length = 0 then .error .divisionByZero
    else do
      let rest ← fillLoop buffer length room stop (i + 1) ((j + 1).tmod length)
      return buffer j.toNat :: rest

/-- `Buffer::fill` of a string: the bytes that it writes. -/
def fillBytes (v8 : FillV8) (heap : ℕ → UInt8) (room : ℕ) (value : JSString) (stop : ℕ) :
    Encoding → Except FillFault (List UInt8)
  | .utf8 =>
    let length := toInt32 (v8.utf8Length value)
    if length < 0 then .error .badArraySize
    else
      let buffer := charBuffer heap (v8.writeUtf8Plain value length.toNat)
      fillLoop buffer length room stop 0 0
  | .utf16le =>
    let length := toInt32 value.length
    if 2 ^ 31 ≤ length * 2 then .error .overflow
    else if length * 2 < 0 then .error .badArraySize
    else
      let buffer := charBuffer heap (utf16le (v8.write value length.toNat).1)
      fillLoop buffer (length * 2) room stop 0 0

/-- **The loop is safe**: within its bounds it is the one that counts in natural numbers. -/
theorem fillLoop_eq {buffer : ℕ → UInt8} {length room : ℕ} (hlength : length < 2 ^ 31)
    (hroom : room < 2 ^ 31) {stop i j : ℕ} (hi : i + stop ≤ room) (hj : j < length) :
    fillLoop buffer length room stop i j = .ok (cycle buffer length j stop) := by
  induction stop generalizing i j with
  | zero => rfl
  | succ stop ih =>
    have hbounds : ¬((i : ℤ) < 0 ∨ (room : ℤ) ≤ i ∨ (j : ℤ) < 0 ∨ (length : ℤ) ≤ j) := by omega
    have hints : ¬((2 : ℤ) ^ 31 ≤ j + 1 ∨ (2 : ℤ) ^ 31 ≤ i + 1) := by omega
    have hzero : ¬(length : ℤ) = 0 := by omega
    have hnext : (j + 1) % length < length := Nat.mod_lt _ (by omega)
    have hmod : ((j : ℤ) + 1).tmod length = ((j + 1) % length : ℕ) := by
      rw [Int.tmod_eq_emod_of_nonneg (by omega)]
      rfl
    have hrest := ih (i := i + 1) (by omega) hnext
    rw [fillLoop, if_neg hbounds, if_neg hints, if_neg hzero, hmod, cycle]
    rw [Nat.cast_succ] at hrest
    rw [hrest]
    rfl

/-- What the loop writes at `i`. -/
theorem getElem_cycle {buffer : ℕ → UInt8} {length j : ℕ} (hj : j < length) {stop i : ℕ}
    (hi : i < (cycle buffer length j stop).length) :
    (cycle buffer length j stop)[i] = buffer ((j + i) % length) := by
  induction stop generalizing i j with
  | zero => cases hi
  | succ stop ih =>
    cases i with
    | zero => simp [cycle, Nat.mod_eq_of_lt hj]
    | succ i =>
      have hnext : (j + 1) % length < length := Nat.mod_lt _ (by omega)
      simp only [cycle, List.getElem_cons_succ]
      rw [ih hnext, Nat.mod_add_mod, Nat.add_right_comm, Nat.add_assoc]

/-- What `WriteUtf8` or `Write` copies. -/
def copied (v8 : FillV8) (value : JSString) : Encoding → List UInt8
  | .utf8 => v8.writeUtf8Plain value (v8.utf8Length value)
  | .utf16le => utf16le (v8.write value value.length).1

theorem fillString_run (v8 : FillV8) (heap : ℕ → UInt8) (buff : View) (value : JSString)
    (stop : ℕ) (ops : Encoding) (r : Realm) :
    (fillString v8 heap buff value stop ops).run r =
      .ok () { r with
        mem := blit r.mem buff.store 0
          (cycle (charBuffer heap (copied v8 value ops))
            (ops.byteLength v8.toV8 value) 0 stop) } := by
  cases ops <;> rfl

/-- **`Buffer::fill` in `int`s**: nothing goes wrong where the encoded length is an `int`, and the
bytes are those that `fillString` writes. -/
theorem fillBytes_eq {v8 : FillV8} (hv : v8.Documented) {value : JSString} (hs : value ≠ [])
    (ops : Encoding) (hlength : (ops.encode value).length < 2 ^ 31) (heap : ℕ → UInt8) {stop : ℕ}
    (hstop : stop ≤ kMaxLength) :
    fillBytes v8 heap stop value stop ops =
      .ok (cycle (charBuffer heap (copied v8 value ops))
        (ops.byteLength v8.toV8 value) 0 stop) := by
  have hpos := List.length_pos_iff.2 hs
  have hroom : stop < 2 ^ 31 := Nat.lt_succ_of_le hstop
  cases ops with
  | utf8 =>
    change (utf8 value).length < 2 ^ 31 at hlength
    have hbytes : 0 < (utf8 value).length := List.length_pos_iff.2 (utf8_ne_nil hs)
    have hint := @toInt32_of_lt (utf8 value).length (by omega) (by omega)
    simp only [fillBytes, Encoding.byteLength, byteLengthUtf8, copied, hv.utf8Length, hint]
    rw [if_neg (by omega), Int.toNat_natCast]
    exact fillLoop_eq (i := 0) hlength hroom (by omega) hbytes
  | utf16le =>
    change (utf16le value).length < 2 ^ 31 at hlength
    rw [length_utf16le] at hlength
    have hint := @toInt32_of_lt value.length (by omega) (by omega)
    simp only [fillBytes, Encoding.byteLength, copied, hint]
    rw [if_neg (by omega), if_neg (by omega), Int.toNat_natCast]
    have hunits : value.length * 2 < 2 ^ 31 := by omega
    exact fillLoop_eq (i := 0) (j := 0) hunits hroom (by omega) (by omega)

/-- A string that V8 holds has no more bytes than an `unsigned int` counts, so that a length that is
no `int` is negative. -/
theorem fillBytes_long {v8 : FillV8} (hv : v8.Documented) {value : JSString}
    (hmax : value.length ≤ kMaxStringLength) (hlong : 2 ^ 31 ≤ (utf8 value).length)
    (heap : ℕ → UInt8) (room stop : ℕ) :
    fillBytes v8 heap room value stop .utf8 = .error .badArraySize := by
  have hunits : value.length ≤ 2 ^ 30 - 25 := hmax
  have hbound := length_utf8_le value
  have hneg : toInt32 (utf8 value).length < 0 := by
    rw [toInt32, Int.bmod_def]
    omega
  simp only [fillBytes, hv.utf8Length]
  rw [if_pos hneg]

/-- The UTF-16 encoding of a string that V8 holds is not too long. -/
theorem length_utf16le_lt {value : JSString} (hmax : value.length ≤ kMaxStringLength) :
    (utf16le value).length < 2 ^ 31 := by
  have hunits : value.length ≤ 2 ^ 30 - 25 := hmax
  rw [length_utf16le]
  omega

end Native

/-! ## What is repeated -/

theorem getD_mod_eq_iff {α : Type*} {a b : List α} {d : α} {n : ℕ} (h : a.length = b.length)
    (hpos : 0 < b.length) :
    (∀ i < n, a.getD (i % b.length) d = b.getD (i % b.length) d) ↔ a.take n = b.take n := by
  constructor
  · intro heq
    refine List.ext_getElem (by simp [h]) fun i h₁ h₂ => ?_
    rw [List.length_take] at h₁ h₂
    have hi := heq i (by omega)
    rw [Nat.mod_eq_of_lt (by omega), List.getD_eq_getElem _ _ (by omega),
      List.getD_eq_getElem _ _ (by omega)] at hi
    rwa [List.getElem_take, List.getElem_take]
  · intro htake i hi
    have hlt := Nat.mod_lt i hpos
    have hle := Nat.mod_le i b.length
    have hget := congrArg (·[i % b.length]?) htake
    simp only [List.getElem?_take_of_lt (hle.trans_lt hi)] at hget
    rw [List.getD_eq_getElem?_getD, List.getD_eq_getElem?_getD, hget]

/-- What `Buffer::fill` repeats. -/
def Encoding.raw : Encoding → JSString → List UInt8
  | .utf8, string => utf8Raw string
  | .utf16le, string => Utf16.utf16le string

theorem Encoding.length_raw (ops : Encoding) (str : JSString) :
    (ops.raw str).length = (ops.encode str).length := by
  cases ops with
  | utf8 => exact length_utf8Raw str
  | utf16le => rw [raw, encode]

theorem Encoding.encode_ne_nil (ops : Encoding) {str : JSString} (hs : str ≠ []) :
    ops.encode str ≠ [] := by
  cases ops with
  | utf8 => exact utf8_ne_nil hs
  | utf16le =>
    rw [← List.length_pos_iff, encode, length_utf16le]
    have := List.length_pos_iff.2 hs
    omega

theorem Native.copied_eq {v8 : FillV8} (hv : v8.Documented) (hraw : v8.KeepsOrphans)
    (s : JSString) (ops : Encoding) : copied v8 s ops = ops.raw s := by
  cases ops with
  | utf8 => exact hraw s
  | utf16le => rw [copied, hv.writeExact, Encoding.raw]

/-! ## `Buffer.alloc` -/

namespace Platform

variable (p : Platform)

/-- A call of `Buffer.alloc` returns `n` bytes, and `byte i` is the `i`-th of them. -/
def Allocates (n : ℕ) (fillValue encoding : JSValue) (byte : ℕ → UInt8) : Prop :=
  ∀ heap toggle r, ∃ v r', (p.alloc heap toggle (.fin n) fillValue encoding).run r = .ok v r' ∧
    v.byteLength = n ∧ ∀ i < n, r'.mem v.store (v.byteOffset + i) = byte i

/-- A call whose fill writes `bytes` over the new buffer. -/
theorem alloc_filled {n : ℕ} (hpos : 0 < n) (hmax : n ≤ kMaxLength) (fillValue encoding : JSValue)
    (hnull : fillValue.isNullish = false) (hzero : fillValue ≠ .number (.fin 0))
    (heap : ℕ → UInt8) (toggle : Bool) (r : Realm) {bytes : List UInt8} (hbytes : bytes.length = n)
    (hfill : ∀ buff r, buff.byteLength = n →
      (p.fill heap buff fillValue encoding).run r =
        .ok () { r with mem := blit r.mem buff.store 0 bytes }) :
    ∃ v r', (p.alloc heap toggle (.fin n) fillValue encoding).run r = .ok v r' ∧
      v.byteLength = n ∧ ∀ i < n, r'.mem v.store (v.byteOffset + i) = bytes.getD i 0 := by
  obtain ⟨r₁, hnew, -⟩ := @newFastBuffer_run p false _ n (Number.toIndex_natCast n) hmax r
  have hlt : (Number.fin 0).lt (.fin n) = true := by
    simpa [Number.lt] using hpos
  have hfilled : isFilled (.fin n) fillValue = true := by
    simp [isFilled, hlt, hnull, hzero]
  refine ⟨⟨r.nextStore, 0, n, hmax⟩, { r₁ with mem := blit r₁.mem r.nextStore 0 bytes }, ?_, rfl,
    fun i hi => ?_⟩
  · rw [alloc, if_neg (by simp), if_pos hfilled]
    simp only [EStateM.run_bind, hnew, hfill ⟨r.nextStore, 0, n, hmax⟩ r₁ rfl, EStateM.run_pure]
  · exact blit_getD (hbytes ▸ hi)

/-- Calls are told apart by the bytes that they return. -/
theorem Allocates.iff {p : Platform} {n : ℕ} {fillValue encoding : JSValue}
    {byte byte' : ℕ → UInt8} (h : p.Allocates n fillValue encoding byte) :
    p.Allocates n fillValue encoding byte' ↔ ∀ i < n, byte i = byte' i := by
  constructor
  · intro h' i hi
    obtain ⟨v, r₁, hrun, -, hbytes⟩ := h (fun _ => 0) true (Realm.load fun _ _ => 0)
    obtain ⟨v', r₂, hrun', -, hbytes'⟩ := h' (fun _ => 0) true (Realm.load fun _ _ => 0)
    rw [hrun] at hrun'
    cases hrun'
    exact (hbytes i hi).symm.trans (hbytes' i hi)
  · intro heq heap toggle r
    obtain ⟨v, r', hrun, hlen, hbytes⟩ := h heap toggle r
    exact ⟨v, r', hrun, hlen, fun i hi => (hbytes i hi).trans (heq i hi)⟩

/-- **Numbers.** `memset` writes the low byte of the integer. -/
theorem allocates_number {n : ℕ} (hpos : 0 < n) (hmax : n ≤ kMaxLength) {value : ℤ}
    (hzero : value ≠ 0) (hint : |value| < 2 ^ 63) (encoding : JSValue) :
    p.Allocates n (.number (.fin value)) encoding fun _ => .ofInt value := by
  intro heap toggle r
  have hvalue : integerValue (some (.fin value)) = value := by
    rw [abs_lt] at hint
    simp only [integerValue, Rat.num_intCast, Rat.den_intCast, Nat.cast_one, Int.tdiv_one]
    omega
  have hne : JSValue.number (.fin value) ≠ .number (.fin 0) := by
    simpa using hzero
  obtain ⟨v, r', hrun, hlen, hbytes⟩ := p.alloc_filled hpos hmax _ encoding rfl hne heap
    toggle r List.length_replicate fun buff r hbuff => by
      rw [fill, Native.fillNumber, hvalue, hbuff]
      rfl
  refine ⟨v, r', hrun, hlen, fun i hi => ?_⟩
  rw [hbytes i hi, List.getD_replicate _ hi]

/-- **Strings.** The bytes that have been copied are repeated. -/
theorem allocates_string (hv : p.v8.Documented) (hraw : p.v8.KeepsOrphans) {n : ℕ} (hpos : 0 < n)
    (hmax : n ≤ kMaxLength) {s : JSString} (hs : s ≠ []) {encoding : JSValue} {ops : Encoding}
    (hops : p.encodingOps encoding = .ok (some ops)) :
    p.Allocates n (.string s) encoding fun i =>
      (ops.raw s).getD (i % (ops.encode s).length) 0 := by
  intro heap toggle r
  have hlength : 0 < (ops.encode s).length := List.length_pos_iff.2 (ops.encode_ne_nil hs)
  have hempty : ¬s.length = 0 := by simpa using hs
  obtain ⟨v, r', hrun, hlen, hbytes⟩ := p.alloc_filled hpos hmax (.string s) encoding rfl
    (by simp) heap toggle r (Native.length_cycle ..) fun buff r hbuff => by
      simp only [fill, hops, ofExcept, EStateM.run_bind, EStateM.run_pure, hempty, if_false, hbuff]
      exact Native.fillString_run p.v8 heap buff s n ops r
  refine ⟨v, r', hrun, hlen, fun i hi => ?_⟩
  rw [ops.byteLength_eq hv.toDocumented, Native.copied_eq hv hraw] at hbytes
  have hi' : i % (ops.encode s).length < (ops.raw s).length := by
    rw [ops.length_raw]
    exact Nat.mod_lt _ hlength
  rw [hbytes i hi, List.getD_eq_getElem _ _ (by simpa using hi), Native.getElem_cycle hlength,
    Nat.zero_add, Native.charBuffer, List.getD_eq_getElem _ _ hi']
  exact (List.getD_eq_getElem _ _ hi').symm

/-- A filled buffer repeats the encoding of the string, and nothing goes wrong in the loop that
fills it. -/
def Repeats (n : ℕ) (s : JSString) (encoding : JSValue) (ops : Encoding) : Prop :=
  p.Allocates n (.string s) encoding
      (fun i => (ops.encode s).getD (i % (ops.encode s).length) 0) ∧
    ∀ heap, ∃ bytes, Native.fillBytes p.v8 heap n s n ops = .ok bytes

theorem repeats_iff (hv : p.v8.Documented) (hraw : p.v8.KeepsOrphans) {n : ℕ} (hpos : 0 < n)
    (hmax : n ≤ kMaxLength) {s : JSString} (hs : s ≠ []) (hunits : s.length ≤ kMaxStringLength)
    {encoding : JSValue} {ops : Encoding} (hops : p.encodingOps encoding = .ok (some ops)) :
    p.Repeats n s encoding ops ↔
      ops = .utf16le ∨ (utf8 s).length < 2 ^ 31 ∧ CleanTo n s := by
  rw [Repeats, (p.allocates_string hv hraw hpos hmax hs hops).iff,
    getD_mod_eq_iff (ops.length_raw s) (List.length_pos_iff.2 (ops.encode_ne_nil hs))]
  cases ops with
  | utf16le =>
    refine iff_of_true ⟨rfl, fun heap => ?_⟩ (.inl rfl)
    exact ⟨_, Native.fillBytes_eq hv hs .utf16le (Native.length_utf16le_lt hunits) heap hmax⟩
  | utf8 =>
    simp only [reduceCtorEq, false_or]
    rw [Encoding.raw, Encoding.encode, take_utf8Raw_iff, and_comm]
    refine and_congr_left fun _ => ⟨fun hok => ?_, fun hshort heap => ?_⟩
    · by_contra hlong
      obtain ⟨bytes, hbytes⟩ := hok fun _ => 0
      rw [Native.fillBytes_long hv hunits (not_lt.1 hlong)] at hbytes
      cases hbytes
    · exact ⟨_, Native.fillBytes_eq hv hs .utf8 hshort heap hmax⟩

/-- **Periodic fill.** A buffer that is filled with a string repeats its encoding, and the loop
stays in its bounds, exactly when the encoding is UTF-16LE, or the length of the UTF-8 encoding is
an `int` and no lone surrogate begins before byte `n`. A buffer that is filled with an integer holds
it modulo 256. -/
theorem periodic_fill_iff (hv : p.v8.Documented) (hraw : p.v8.KeepsOrphans) {n : ℕ} (hpos : 0 < n)
    (hmax : n ≤ kMaxLength) (encoding : JSValue) :
    (∀ s ops, s ≠ [] → s.length ≤ kMaxStringLength → p.encodingOps encoding = .ok (some ops) →
      (p.Repeats n s encoding ops ↔
        ops = .utf16le ∨ (utf8 s).length < 2 ^ 31 ∧ CleanTo n s)) ∧
      ∀ value : ℤ, value ≠ 0 → |value| < 2 ^ 63 →
        p.Allocates n (.number (.fin value)) encoding fun _ => .ofInt (value % 256) := by
  constructor
  · intro s ops hs hunits hops
    exact p.repeats_iff hv hraw hpos hmax hs hunits hops
  · intro value hzero hint
    have hbyte : UInt8.ofInt (value % 256) = .ofInt value := by
      rw [UInt8.ofInt, UInt8.ofInt, show (2 : ℤ) ^ 8 = 256 from rfl,
        Int.emod_emod_of_dvd _ (Int.dvd_refl _)]
    rw [hbyte]
    exact p.allocates_number hpos hmax hzero hint encoding

/-- A platform whose `WriteUtf8` keeps lone surrogates. -/
def plain : Platform := { reference with v8 := FillV8.plain }

theorem encodingOps_utf8 :
    plain.encodingOps (.string (jsString "utf8")) = .ok (some .utf8) := by decide

/-- `Buffer.alloc(5, "€", "utf8")` and `Buffer.alloc(5, -1)` -/
theorem periodic_fill_euro :
    plain.Repeats 5 [0x20AC] (.string (jsString "utf8")) .utf8 ∧
      plain.Allocates 5 (.number (.fin (-1 : ℤ))) (.string (jsString "utf8"))
        fun _ => .ofInt (-1 % 256) := by
  obtain ⟨hstring, hnumber⟩ := plain.periodic_fill_iff FillV8.plain_documented
    FillV8.plain_keepsOrphans (n := 5) (by decide) (by decide) (.string (jsString "utf8"))
  have hwell : WellFormed [0x20AC] := by simp [WellFormed, isHigh, isLow]
  exact ⟨(hstring _ _ (by decide) (by decide) encodingOps_utf8).2
    (.inr ⟨by decide, hwell.cleanTo 5⟩), hnumber (-1) (by decide) (by decide)⟩

/-- `Buffer.alloc(3, "\ud800", "utf8")` -/
theorem periodic_fill_orphan :
    plain.encodingOps (.string (jsString "utf8")) = .ok (some .utf8) ∧
      ¬plain.Repeats 3 [0xD800] (.string (jsString "utf8")) .utf8 := by
  refine ⟨encodingOps_utf8, fun hrepeats => ?_⟩
  obtain h | ⟨-, hclean⟩ := (plain.repeats_iff FillV8.plain_documented FillV8.plain_keepsOrphans
    (by decide) (by decide) (by decide) (by decide) encodingOps_utf8).1 hrepeats
  · cases h
  · have hbytes := (take_utf8Raw_iff [0xD800] 3).2 hclean
    exact absurd hbytes (by decide)

end Platform

end NanoJS

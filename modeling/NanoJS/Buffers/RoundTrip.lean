import NanoJS.Buffers.Encoding

/-!
# The UTF-16LE round trip

The encoder writes the code units of a string; the decoder makes a two-byte string of exactly the
view's bytes, turns it into a UTF-8 C string, and reads that up to its terminator. So a string comes
back up to its first U+0000 (`toString_utf16le`), and whole exactly when it has none
(`utf16le_round_trip_iff`).
-/

namespace NanoJS

open ByteMemory Utf16

/-- What `v8.h` documents of the functions that `fromUtf16` calls besides. -/
structure V8.DocumentedUtf8Value (v8 : V8) : Prop extends V8.Documented v8 where
  /-- "Converts an object to a UTF-8-encoded character array." -/
  utf8Value : ∀ s, WellFormed s → v8.utf8Value s = utf8 s
  /-- `NewFromUtf8` without a length "only returns an empty value when length > kMaxLength": it
  takes all that is before the terminator. -/
  newFromUtf8_terminated : ∀ l : List Char, (∀ c ∈ l, c.toNat ≠ 0) →
    v8.newFromUtf8 (utf8Chars l) = encode l

theorem V8.reference_documentedUtf8Value : V8.reference.DocumentedUtf8Value where
  toDocumented := V8.reference_documented
  utf8Value _ _ := rfl
  newFromUtf8_terminated l _ := V8.reference_newFromUtf8 l

/-- `Buffer.from(str, encoding).toString(encoding)` -/
def fromToString (v8 : V8) (str encoding : JSString) : JS (Option JSString) := do
  let buf ← bufferFrom v8 (.string str (some encoding))
  FastBuffer.toString v8 buf (some encoding)

/-- The string that `NewFromTwoByte` makes in `fromUtf16`. -/
def twoByteString (mem : Mem) (array : View) (offset length : ℕ) : JSString :=
  (List.range (length / 2)).map fun i : ℕ => Native.unitAt mem array.store ((offset : ℤ) + 2 * i)

/-! ## Decoding -/

theorem utf16le_cons (u : UInt16) (s : JSString) : utf16le (u :: s) = unitBytes u ++ utf16le s :=
  List.flatMap_cons

/-- The bytes of a string, two for each unit. -/
theorem getElem_utf16le {s : JSString} {i : ℕ} (hi : i < s.length) :
    (utf16le s).getD (2 * i) 0 = (s[i]).toUInt8 ∧
      (utf16le s).getD (2 * i + 1) 0 = (s[i] >>> 8).toUInt8 := by
  induction s generalizing i with
  | nil => cases hi
  | cons u s ih =>
    rw [utf16le_cons]
    cases i with
    | zero => exact ⟨rfl, rfl⟩
    | succ i => exact ih (Nat.lt_of_succ_lt_succ hi)

/-- **The two-byte string has exactly the bytes of the view.** -/
theorem twoByteString_of_bytes {mem : Mem} {array : View} {t : JSString}
    (h : array.bytes mem = utf16le t) :
    twoByteString mem array array.byteOffset array.byteLength = t := by
  have hlen : array.byteLength = 2 * t.length := by
    rw [← length_utf16le, ← h, View.bytes, length_slice]
  have hbytes := (slice_eq_getD_iff (by rw [length_utf16le, hlen])).1 h
  apply List.ext_getElem (by simp [twoByteString, hlen])
  intro i h₁ h₂
  obtain ⟨hlow, hhigh⟩ := getElem_utf16le h₂
  have hb₀ := hbytes (2 * i) (by omega)
  have hb₁ := hbytes (2 * i + 1) (by omega)
  have haddr : (array.byteOffset : ℤ) + 2 * i + 1 = array.byteOffset + (2 * i + 1 : ℕ) := by omega
  simp only [twoByteString, List.getElem_map, List.getElem_range, Native.unitAt]
  rw [haddr, hb₁, hhigh]
  rw [show (array.byteOffset : ℤ) + 2 * i = array.byteOffset + (2 * i : ℕ) by omega, hb₀, hlow]
  exact unit_of_bytes _

theorem getEncodingOps_utf16le : getEncodingOps (jsString "utf16le") = .ok (some .utf16le) := by
  decide

/-- A buffer of the code units of a well-formed string decodes to them, up to the first U+0000. -/
theorem toString_utf16le {v8 : V8} (hv : v8.DocumentedUtf8Value) {t : JSString}
    (ht : WellFormed t) {buf : View} {r : Realm} (h : buf.bytes r.mem = utf16le t) :
    (FastBuffer.toString v8 buf (some (jsString "utf16le"))).run r =
      .ok (some (t.takeWhile (· ≠ 0))) r := by
  have hdecode : v8.newFromUtf8 ((v8.utf8Value
      (twoByteString r.mem buf buf.byteOffset buf.byteLength)).takeWhile (· ≠ 0)) =
      t.takeWhile (· ≠ 0) := by
    rw [twoByteString_of_bytes h, hv.utf8Value t ht, utf8, takeWhile_utf8Chars,
      hv.newFromUtf8_terminated _ fun c hc => by simpa using List.mem_takeWhile_imp hc,
      ← takeWhile_encode, encode_decode ht]
  simp only [FastBuffer.toString, Option.getD_some, getEncodingOps_utf16le, ofExcept,
    EStateM.run_bind, EStateM.run_pure, pure_bind, Encoding.decodeToString, Native.fromUtf16,
    EStateM.run_get]
  exact congrArg (fun str => EStateM.Result.ok (some str) r) hdecode

/-! ## The round trip -/

/-- The string that comes back, when a typed array can hold the code units. -/
theorem fromToString_utf16le {v8 : V8} (hv : v8.DocumentedUtf8Value) {r : Realm}
    (hr : r.WellFormed) {s : JSString} (hne : s ≠ []) (hs : WellFormed s)
    (hmax : 2 * s.length ≤ kMaxLength) :
    ∃ r', (fromToString v8 s (jsString "utf16le")).run r = .ok (some (s.takeWhile (· ≠ 0))) r' := by
  obtain ⟨buf, r', hrun, -, hbytes⟩ := fromStringFast_run hv.toDocumented hr hne .utf16le
    (by rwa [Encoding.encode, length_utf16le])
  refine ⟨r', ?_⟩
  have hfrom : (bufferFrom v8 (.string s (some (jsString "utf16le")))).run r = .ok buf r' := by
    rw [bufferFrom, fromString_run v8 hne]
    exact hrun
  rw [fromToString, EStateM.run_bind, hfrom]
  exact toString_utf16le hv hs hbytes

/-- A string whose code units no typed array can hold. -/
theorem fromToString_tooLong {v8 : V8} {s : JSString} (hne : s ≠ [])
    (hmax : kMaxLength < 2 * s.length) (r : Realm) :
    ∃ e, (fromToString v8 s (jsString "utf16le")).run r = .error e r := by
  have hlong : kMaxLength < Encoding.utf16le.byteLength v8 s := by
    rwa [Encoding.byteLength, Nat.mul_comm]
  obtain ⟨e, he⟩ := fromStringFast_tooLong hlong r
  refine ⟨e, ?_⟩
  have hfrom : (bufferFrom v8 (.string s (some (jsString "utf16le")))).run r = .error e r := by
    rw [bufferFrom, fromString_run v8 hne]
    exact he
  rw [fromToString, EStateM.run_bind, hfrom]

/-- **The UTF-16LE round trip.** In every reachable pool state, a non-empty well-formed string comes
back exactly when it has no U+0000 and a typed array can hold its code units. And the decoder of any
view that holds the code units of a well-formed string takes exactly the view's bytes, of which it
returns the string up to the first U+0000. -/
theorem utf16le_round_trip_iff {v8 : V8} (hv : v8.DocumentedUtf8Value) {r : Realm}
    (hr : Realm.Reachable v8 r) {s : JSString} (hne : s ≠ []) (hs : WellFormed s) :
    ((∃ r', (fromToString v8 s (jsString "utf16le")).run r = .ok (some s) r') ↔
        0 ∉ s ∧ 2 * s.length ≤ kMaxLength) ∧
      ∀ (buf : View) (t : JSString) (r₁ : Realm), WellFormed t →
        buf.bytes r₁.mem = utf16le t →
        utf16le (twoByteString r₁.mem buf buf.byteOffset buf.byteLength) = buf.bytes r₁.mem ∧
          (FastBuffer.toString v8 buf (some (jsString "utf16le"))).run r₁ =
            .ok (some (t.takeWhile (· ≠ 0))) r₁ := by
  have hwf := Realm.Reachable.wellFormed hv.toDocumented hr
  refine ⟨?_, ?_⟩
  · by_cases hmax : 2 * s.length ≤ kMaxLength
    · obtain ⟨r₁, hrun⟩ := fromToString_utf16le hv hwf hne hs hmax
      constructor
      · rintro ⟨r', h⟩
        rw [hrun] at h
        obtain ⟨hcut, -⟩ : s.takeWhile (· ≠ 0) = s ∧ r₁ = r' := by simpa using h
        exact ⟨takeWhile_ne_zero_eq_self.1 hcut, hmax⟩
      · rintro ⟨hnul, -⟩
        rw [takeWhile_ne_zero_eq_self.2 hnul] at hrun
        exact ⟨r₁, hrun⟩
    · obtain ⟨e, he⟩ := @fromToString_tooLong v8 s hne (Nat.not_le.1 hmax) r
      constructor
      · rintro ⟨r', h⟩
        rw [he] at h
        cases h
      · rintro ⟨-, h⟩
        exact absurd h hmax
  · intro buf t r₁ ht h
    exact ⟨by rw [twoByteString_of_bytes h, h], toString_utf16le hv ht h⟩

/-- A string without U+0000, in a pool that is partly used. -/
theorem utf16le_round_trip_euro : ∃ r', (fromToString V8.reference [0x20AC, 0x61]
    (jsString "utf16le")).run
      (fromStep V8.reference (Realm.load fun _ _ => 0) (.string (jsString "x") none)).2 =
    .ok (some [0x20AC, 0x61]) r' :=
  (utf16le_round_trip_iff V8.reference_documentedUtf8Value
    ((Transition.Reachable.start ⟨fun _ _ => 0, rfl⟩).tail
      (.bufferFrom (.string (jsString "x") none))) (by decide)
    (by simp [WellFormed, isHigh, isLow])).1.2 (by decide)

/-- Of `"a\u0000b"` only `"a"` comes back. -/
theorem utf16le_round_trip_nul :
    Realm.Reachable V8.reference (Realm.load fun _ _ => 0) ∧ WellFormed [0x61, 0x0, 0x62] ∧
      (∃ r', (fromToString V8.reference [0x61, 0x0, 0x62] (jsString "utf16le")).run
        (Realm.load fun _ _ => 0) = .ok (some [0x61]) r') ∧
      ¬∃ r', (fromToString V8.reference [0x61, 0x0, 0x62] (jsString "utf16le")).run
        (Realm.load fun _ _ => 0) = .ok (some [0x61, 0x0, 0x62]) r' := by
  have hwell : WellFormed [0x61, 0x0, 0x62] := by simp [WellFormed, isHigh, isLow]
  obtain ⟨r', hrun⟩ := fromToString_utf16le V8.reference_documentedUtf8Value
    (Realm.freshPool_wellFormed ⟨fun _ _ => 0, fun _ => 0, 0, 0, 0⟩)
    (s := [0x61, 0x0, 0x62]) (by decide) hwell (by decide)
  refine ⟨.start ⟨_, rfl⟩, hwell, ⟨r', hrun⟩, ?_⟩
  rintro ⟨r'', h⟩
  have hcut := hrun.symm.trans h
  simp at hcut

end NanoJS

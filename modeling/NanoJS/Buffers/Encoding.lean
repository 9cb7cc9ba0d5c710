import NanoJS.Buffers.Isolation
import NanoJS.Foundations.Transition

/-!
# Encodings on every allocation path

The writers take an offset from the base of the store, the views carry one, and the decoder reads
at the view's; on the path with a store of its own both are zero, in the pool both are
`poolOffset`. So in every state that the functions of `App.js` reach, the buffer of a string holds
the string's encoding, and a well-formed string comes back from its UTF-8 buffer
(`fromStringFast_encodes`).
-/

namespace NanoJS

open ByteMemory Utf16

/-! ## Reachable realms -/

/-- What changes a realm: a call of `Buffer.from`, another allocation, and a write to memory. -/
inductive RealmOp
  | bufferFrom (call : FromCall)
  | allocate (zeroFill : Bool) (length : ℕ)
  | write (store : ℕ) (a : ℤ) (byte : UInt8)

inductive RealmStep (v8 : V8) : Realm → RealmOp → Realm → Prop
  | bufferFrom {r} (call : FromCall) : RealmStep v8 r (.bufferFrom call) (fromStep v8 r call).2
  | allocate {r zeroFill length v r'} (h : (newFastBuffer zeroFill length).run r = .ok v r') :
      RealmStep v8 r (.allocate zeroFill length) r'
  | write {r store a byte} :
      RealmStep v8 r (.write store a byte) { r with mem := blit r.mem store a [byte] }

/-- The realms that a program reaches after `App.js` has been loaded. -/
abbrev Realm.Reachable (v8 : V8) : Realm → Prop :=
  Transition.Reachable (fun r => ∃ mem, r = Realm.load mem) (RealmStep v8)

theorem newFastBuffer_grows {zeroFill : Bool} {length : ℕ} {v : View} {r r' : Realm}
    (hr : r.WellFormed) (h : (newFastBuffer zeroFill length).run r = .ok v r')
    (written : List ℕ) : r.Grows written r' := by
  have hpl := hr.pool_lt
  simp only [newFastBuffer, EStateM.run] at h
  split at h
  · cases h
    refine ⟨⟨Nat.lt_succ_of_lt hpl, by simpa [Nat.ne_of_lt hpl] using hr.pool_size, hr.offset_le⟩,
      Nat.le_succ _, .inl rfl, fun s hs _ _ => ?_⟩
    cases zeroFill with
    | false => rfl
    | true => exact funext fun a => if_neg (Nat.ne_of_lt hs)
  · cases h

theorem RealmStep.wellFormed {v8 : V8} (hv : v8.Documented) {r r' : Realm} {op : RealmOp}
    (h : RealmStep v8 r op r') (hr : r.WellFormed) : r'.WellFormed := by
  cases h with
  | bufferFrom call => exact fromStep_wellFormed hv hr call
  | allocate h => exact (newFastBuffer_grows hr h []).wf
  | write => exact ⟨hr.pool_lt, hr.pool_size, hr.offset_le⟩

theorem Realm.Reachable.wellFormed {v8 : V8} (hv : v8.Documented) {r : Realm}
    (h : Realm.Reachable v8 r) : r.WellFormed :=
  Transition.Reachable.invariant (by rintro _ ⟨mem, rfl⟩; exact freshPool_wellFormed _)
    (fun _ _ _ _ hr hl => hl.wellFormed hv hr) h

/-! ## The encoding of a string -/

/-- The memory after a string has been written. -/
theorem fromStringFast_mem {v8 : V8} (hv : v8.Documented) {r : Realm} (hr : r.WellFormed)
    {str : JSString} (hs : str ≠ []) {ops : Encoding} (hmax : ops.byteLength v8 str ≤ kMaxLength) :
    ∃ buf r', (fromStringFast v8 str ops).run r = .ok buf r' ∧
      buf.byteLength = ops.byteLength v8 str ∧
      r'.mem = blit r.mem buf.store buf.byteOffset (ops.put v8 str (ops.byteLength v8 str)) := by
  by_cases hsmall : ops.byteLength v8 str < poolSize / 2
  · refine ⟨_, _, fromStringFast_pooled hv hs hsmall rfl (hr.room_fits hsmall), rfl, ?_⟩
    simp only [Realm.room_mem]
  · exact ⟨_, _, fromStringFast_direct hv hs (Nat.not_lt.1 hsmall) hmax r, rfl, rfl⟩

/-- What `__fromStringFast` writes begins with the encoding, at the view's own offset. -/
theorem fromStringFast_run {v8 : V8} (hv : v8.Documented) {r : Realm} (hr : r.WellFormed)
    {str : JSString} (hs : str ≠ []) (ops : Encoding)
    (hmax : (ops.encode str).length ≤ kMaxLength) :
    ∃ buf r', (fromStringFast v8 str ops).run r = .ok buf r' ∧
      buf.byteLength = (ops.encode str).length ∧ buf.bytes r'.mem = ops.encode str := by
  have hlen := Encoding.byteLength_eq hv ops str
  obtain ⟨terminator, hput⟩ := Encoding.put_eq hv ops hs
  obtain ⟨buf, r', hrun, hbuf, hmem⟩ := fromStringFast_mem hv hr hs (hlen ▸ hmax)
  refine ⟨buf, r', hrun, hbuf.trans hlen, ?_⟩
  rw [View.bytes, hmem, hbuf, hput, hlen]
  exact slice_blit_append

/-- A buffer that is returned is as long as the encoding. -/
theorem fromStringFast_ok {v8 : V8} (hv : v8.Documented) {r : Realm} (hr : r.WellFormed)
    {str : JSString} (hs : str ≠ []) {ops : Encoding} {buf : View} {r' : Realm}
    (hrun : (fromStringFast v8 str ops).run r = .ok buf r') :
    buf.byteLength = (ops.encode str).length ∧ buf.bytes r'.mem = ops.encode str := by
  have hmax : (ops.encode str).length ≤ kMaxLength := by
    by_contra hmax
    have hlong : kMaxLength < ops.byteLength v8 str := by
      rw [Encoding.byteLength_eq hv]
      exact Nat.not_le.1 hmax
    obtain ⟨e, he⟩ := fromStringFast_tooLong hlong r
    rw [he] at hrun
    cases hrun
  obtain ⟨buf', r'', hrun', hlen, hbytes⟩ := fromStringFast_run hv hr hs ops hmax
  obtain ⟨rfl, rfl⟩ : buf' = buf ∧ r'' = r' := by simpa [hrun] using hrun'.symm
  exact ⟨hlen, hbytes⟩

/-- `toString('utf8')` passes the view on. -/
theorem toString_utf8_run (v8 : V8) (buf : View) (r : Realm) :
    (FastBuffer.toString v8 buf (some (jsString "utf8"))).run r =
      (Native.fromUtf8 v8 buf buf.byteOffset buf.byteLength).run r := by
  have hops : getEncodingOps ((some (jsString "utf8")).getD (jsString "utf-8")) =
      .ok (some .utf8) := by decide
  simp only [FastBuffer.toString, hops, ofExcept, pure_bind, Encoding.decodeToString]

/-- A buffer that holds the UTF-8 encoding of a well-formed string decodes to it, unless V8 makes no
string of so many bytes. -/
theorem toString_utf8 {v8 : V8} (hv : v8.Documented) {str : JSString} (hs : WellFormed str)
    {buf : View} {r : Realm} (hbuf : buf.bytes r.mem = utf8 str) :
    (FastBuffer.toString v8 buf (some (jsString "utf8"))).run r =
      .ok (if kMaxStringLength < (utf8 str).length then none else some str) r := by
  have hlen : buf.byteLength = (utf8 str).length := by rw [← hbuf, View.bytes, length_slice]
  have hdecode : (if kMaxStringLength < buf.byteLength then none
      else some (v8.newFromUtf8 (buf.bytes r.mem))) =
        if kMaxStringLength < (utf8 str).length then none else some str := by
    rw [hlen]
    split
    · rfl
    · rename_i hmax
      rw [hbuf, utf8, hv.newFromUtf8 _ (Nat.not_lt.1 hmax), encode_decode hs]
  rw [toString_utf8_run]
  exact congrArg (EStateM.Result.ok · r) hdecode

/-- **Encoding correctness on every allocation path.** In every reachable pool state, for every
non-empty string and each encoding, a buffer returned by `__fromStringFast` has the length of the
encoding and holds its bytes, and it is returned when a typed array can be that long; and a
well-formed string is what `toString('utf8')` of its UTF-8 buffer returns exactly when the encoding
is not longer than V8 allows. -/
theorem fromStringFast_encodes {v8 : V8} (hv : v8.Documented) {r : Realm}
    (hr : Realm.Reachable v8 r) {str : JSString} (hs : str ≠ []) (ops : Encoding) :
    (∀ buf r', (fromStringFast v8 str ops).run r = .ok buf r' →
      buf.byteLength = (ops.encode str).length ∧ buf.bytes r'.mem = ops.encode str ∧
        (ops = .utf8 → WellFormed str →
          ((FastBuffer.toString v8 buf (some (jsString "utf8"))).run r' = .ok (some str) r' ↔
            (utf8 str).length ≤ kMaxStringLength))) ∧
      ((ops.encode str).length ≤ kMaxLength →
        ∃ buf r', (fromStringFast v8 str ops).run r = .ok buf r') := by
  have hwf := Realm.Reachable.wellFormed hv hr
  constructor
  · intro buf r' hrun
    obtain ⟨hlen, hbytes⟩ := fromStringFast_ok hv hwf hs hrun
    refine ⟨hlen, hbytes, ?_⟩
    rintro rfl hwell
    rw [toString_utf8 hv hwell hbytes]
    split
    · rename_i hmax
      exact iff_of_false (by simp) (Nat.not_le.2 hmax)
    · rename_i hmax
      exact iff_of_true rfl (Nat.not_lt.1 hmax)
  · intro hmax
    obtain ⟨buf, r', hrun, -⟩ := fromStringFast_run hv hwf hs ops hmax
    exact ⟨buf, r', hrun⟩

/-- A string with U+0000, behind another string in the pool. -/
theorem fromStringFast_encodes_nul : ∃ buf r',
    (fromStringFast V8.reference [0x61, 0x0, 0xE9] .utf8).run
        (fromStep V8.reference (Realm.load fun _ _ => 0) (.string (jsString "x") none)).2 =
      .ok buf r' ∧ buf.byteLength = 4 ∧ buf.bytes r'.mem = [0x61, 0x0, 0xC3, 0xA9] ∧
      (FastBuffer.toString V8.reference buf (some (jsString "utf8"))).run r' =
        .ok (some [0x61, 0x0, 0xE9]) r' := by
  have hs : ([0x61, 0x0, 0xE9] : JSString) ≠ [] := by decide
  obtain ⟨hok, hreturns⟩ := fromStringFast_encodes V8.reference_documented
    ((Transition.Reachable.start ⟨fun _ _ => 0, rfl⟩).tail
      (.bufferFrom (.string (jsString "x") none))) hs .utf8
  obtain ⟨buf, r', hrun⟩ := hreturns (by decide)
  obtain ⟨hlen, hbytes, hback⟩ := hok buf r' hrun
  exact ⟨buf, r', hrun, hlen, hbytes,
    (hback rfl (by simp [WellFormed, isHigh, isLow])).2 (by decide)⟩

/-! ## A string that does not come back -/

/-- `'é'.repeat(n)` -/
def eAcutes (n : ℕ) : JSString := List.replicate n 0xE9

theorem eAcutes_wellFormed (n : ℕ) : WellFormed (eAcutes n) := by
  induction n with
  | zero => trivial
  | succ n ih =>
    refine (wellFormed_single ?_).2 ⟨by decide, ih⟩
    simp [isHigh]

theorem length_utf8_eAcutes (n : ℕ) : (utf8 (eAcutes n)).length = 2 * n := by
  induction n with
  | zero => rfl
  | succ n ih =>
    have hchar : (String.utf8EncodeChar (single 0xE9)).length = 2 := by decide
    rw [eAcutes, List.replicate_succ, utf8_single (by simp [isHigh]), List.length_append, hchar]
    rw [eAcutes] at ih
    omega

/-- The buffer of 600 million letters has 1200 million bytes, of which V8 makes no string: the
process ends. -/
theorem fromStringFast_tooLong_back :
    Realm.Reachable V8.reference (Realm.load fun _ _ => 0) ∧ WellFormed (eAcutes 600000000) ∧
      ∃ buf r', (fromStringFast V8.reference (eAcutes 600000000) .utf8).run
          (Realm.load fun _ _ => 0) = .ok buf r' ∧
        (FastBuffer.toString V8.reference buf (some (jsString "utf8"))).run r' =
          .ok none r' := by
  have hlen := length_utf8_eAcutes 600000000
  have hne : eAcutes 600000000 ≠ [] := by
    intro he
    rw [he] at hlen
    exact absurd hlen (by decide)
  have hk : kMaxLength = 2147483647 := rfl
  have hks : kMaxStringLength = 1073741799 := rfl
  obtain ⟨buf, r', hrun, -, hbytes⟩ := fromStringFast_run V8.reference_documented
    (Realm.freshPool_wellFormed ⟨fun _ _ => 0, fun _ => 0, 0, 0, 0⟩) hne .utf8
    (by rw [Encoding.encode]; omega)
  refine ⟨.start ⟨_, rfl⟩, eAcutes_wellFormed _, buf, r', hrun, ?_⟩
  rw [toString_utf8 V8.reference_documented (eAcutes_wellFormed _) hbytes, if_pos (by omega)]

end NanoJS

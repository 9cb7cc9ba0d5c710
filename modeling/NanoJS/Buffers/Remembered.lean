import NanoJS.Buffers.ArrayLikes
import NanoJS.Buffers.RoundTrip

/-!
# What becomes of a buffer

The buffer of a string is in a store of its own or before `poolOffset`, and the offset only grows as
long as the pool is the same. So its bytes stay what they are, whatever is made and written later,
as long as nothing is written into it, and the string can still be read then. The buffer of an
array-like begins at `poolOffset`, and the next one that is made there changes it
(`buffer_remembered`).
-/

namespace NanoJS

open ByteMemory Utf16

/-! ## Later realms -/

/-- The operation is no write into the buffer. -/
def RealmOp.Spares (buf : View) : RealmOp → Prop
  | write store a _ => store ≠ buf.store ∨ a < buf.byteOffset ∨ buf.last ≤ a
  | bufferFrom _ | allocate _ _ => True

/-- The realms that a program reaches from `r` without a write into the buffer. -/
abbrev Realm.Later (v8 : V8) (buf : View) (r : Realm) : Realm → Prop :=
  Transition.Reachable (· = r) fun r op r' => RealmStep v8 r op r' ∧ op.Spares buf

/-- The buffer has these bytes, and is where nothing will be carved. -/
structure Settled (buf : View) (bytes : List UInt8) (r : Realm) : Prop where
  wf : r.WellFormed
  lt : buf.store < r.nextStore
  last_le : buf.store = r.allocPool → buf.last ≤ r.poolOffset
  bytes_eq : buf.bytes r.mem = bytes

variable {v8 : V8} {buf : View} {bytes : List UInt8} {r r' : Realm}

namespace Settled

/-- Memory changes elsewhere. -/
theorem of_mem (h : Settled buf bytes r) (hwf : r'.WellFormed) (hnext : r.nextStore ≤ r'.nextStore)
    (hlast : buf.store = r'.allocPool → buf.last ≤ r'.poolOffset)
    (hmem : ∀ a : ℤ, a < buf.last → buf.byteOffset ≤ a → r'.mem buf.store a = r.mem buf.store a) :
    Settled buf bytes r' := by
  refine ⟨hwf, Nat.lt_of_lt_of_le h.lt hnext, hlast, ?_⟩
  rw [← h.bytes_eq, View.bytes, View.bytes, slice_eq_iff]
  intro i hi
  simp only [View.last] at hmem
  exact hmem _ (by omega) (by omega)

/-- A new pool is made, if there is no room. -/
theorem room (h : Settled buf bytes r) (n : ℕ) : Settled buf bytes (r.room n) := by
  have hwf := h.wf.room n
  unfold Realm.room at hwf ⊢
  split
  · rename_i hn
    rw [if_pos hn] at hwf
    refine h.of_mem hwf (Nat.le_succ _) (fun hs => ?_) fun _ _ _ => rfl
    exact absurd hs (Nat.ne_of_lt h.lt)
  · exact h

/-- **A call of `Buffer.from`** keeps the buffer. -/
theorem fromStep (hv : v8.Documented) (h : Settled buf bytes r) (call : FromCall) :
    Settled buf bytes (fromStep v8 r call).2 := by
  have heff := bufferFrom_effect hv call h.wf
  have hwf := fromStep_wellFormed hv h.wf call
  rw [NanoJS.fromStep] at hwf ⊢
  generalize (bufferFrom v8 call).run r = res at heff hwf
  cases heff with
  | threw e hcall => exact h
  | direct v r' hcall hstore hnext hpool hoff hsize hmem =>
    refine h.of_mem hwf (hnext ▸ Nat.le_succ _) (fun hs => ?_) fun a _ _ => ?_
    · rw [hoff]
      exact h.last_le (hs.trans hpool)
    · rw [hmem _ h.lt]
  | carved n v r₀ r' hcall hpos hr₀ hstore hoffset hlen hfits hnext hpool hsize hoff hmem =>
    have h₀ : Settled buf bytes r₀ := hr₀ ▸ h.room n
    have hle : r₀.poolOffset ≤ r'.poolOffset := by
      rw [hoff]
      split
      · exact le_rfl
      · exact (Nat.le_add_right ..).trans (alignOffset_le hfits).1
    refine h₀.of_mem hwf hnext.ge (fun hs => ?_) fun a ha _ => hmem _ _ ?_
    · exact (h₀.last_le (hs.trans hpool)).trans hle
    · by_cases hs : buf.store = r₀.allocPool
      · have := h₀.last_le hs
        exact .inr (by omega)
      · exact .inl hs

theorem step (hv : v8.Documented) (h : Settled buf bytes r) {op : RealmOp}
    (hs : RealmStep v8 r op r') (hspares : op.Spares buf) : Settled buf bytes r' := by
  have hwf := hs.wellFormed hv h.wf
  cases hs with
  | bufferFrom call => exact h.fromStep hv call
  | allocate hnew =>
    rename_i zeroFill length v
    have hgrows := newFastBuffer_grows h.wf hnew []
    simp only [newFastBuffer, EStateM.run] at hnew
    split at hnew
    · cases hnew
      refine h.of_mem hwf hgrows.next_le h.last_le fun a _ _ => ?_
      dsimp only
      split
      · exact if_neg (Nat.ne_of_lt h.lt)
      · rfl
    · cases hnew
  | write =>
    refine h.of_mem hwf le_rfl h.last_le fun a ha ha' => blit_outside ?_
    simp only [RealmOp.Spares, List.length_singleton] at hspares ⊢
    omega

theorem later (hv : v8.Documented) (h : Settled buf bytes r) (hl : Realm.Later v8 buf r r') :
    Settled buf bytes r' := by
  refine Transition.Reachable.invariant (I := Settled buf bytes) ?_ ?_ hl
  · rintro _ rfl
    exact h
  · intro r op r' _ h hs
    exact h.step hv hs.1 hs.2

end Settled

/-! ## Which buffers stay -/

/-- The buffer of a string, and an empty one. -/
theorem BufferEffect.settled (hr : r.WellFormed) {call : FromCall}
    (h : BufferEffect v8 call r (.ok buf r'))
    (hcall : call.isArrayLike = false ∨ buf.byteLength = 0) :
    Settled buf (buf.bytes r'.mem) r' := by
  have hwf := (h.grows hr []).wf
  have hpl := hr.pool_lt
  cases h with
  | direct _ _ hcall hstore hnext hpool => exact ⟨hwf, by omega, by omega, rfl⟩
  | carved n _ r₀ _ hsize hpos hr₀ hstore hoffset hlen hfits hnext hpool _ hoff =>
    have hwf₀ := hr₀ ▸ hr.room n
    have harray : call.isArrayLike = false := hcall.resolve_right (by omega)
    rw [harray, if_neg Bool.false_ne_true] at hoff
    refine ⟨hwf, ?_, fun _ => ?_, rfl⟩
    · rw [hstore, hnext]
      exact hwf₀.pool_lt
    · rw [hoff, View.last, hoffset, hlen]
      exact (alignOffset_le hfits).1

/-- A buffer that begins at `poolOffset` is overwritten by that of one more array. -/
theorem fromStep_overwrites (hr : r.WellFormed) (hstore : buf.store = r.allocPool)
    (hoffset : buf.byteOffset = r.poolOffset) (hpos : 0 < buf.byteLength)
    (hlast : buf.last ≤ poolSize) :
    ∃ call : FromCall, buf.bytes (fromStep v8 r call).2.mem ≠ buf.bytes r.mem := by
  set byte := r.mem r.allocPool r.poolOffset
  let array : ArrayLike := .array [.fin (byte + 1).toNat]
  have hlen : array.length = 1 := rfl
  have hroom : r.room array.length = r := by
    rw [Realm.room, hlen, if_neg]
    simp only [View.last] at hlast
    omega
  have hfits : r.poolOffset + array.length ≤ r.size r.allocPool ∧ array.length ≤ kMaxLength := by
    have hk : kMaxLength = 2147483647 := rfl
    rw [hr.pool_size, hlen]
    simp only [View.last] at hlast
    omega
  have hone : 0 < array.length ∧ array.length < poolSize / 2 := by
    rw [hlen]
    decide
  have hrun := fromArrayLike_pooled hone.1 hone.2 hroom hfits
  have hread : array.ReadAhead ⟨r.allocPool, r.poolOffset, array.length, hfits.2⟩ :=
    fun _ _ _ _ _ _ => rfl
  have hbyte := copiedMem_inside hread r.mem (i := 0) (n := 1) (j := 0) le_rfl (by decide) le_rfl
    le_rfl
  have helement : array.element r.mem 0 = byte + 1 := toByte_toNat (byte + 1)
  refine ⟨.arrayLike array, fun h => ?_⟩
  have hmem : (fromStep v8 r (.arrayLike array)).2.mem =
      copiedMem ⟨r.allocPool, r.poolOffset, array.length, hfits.2⟩ array r.mem 0 1 := by
    rw [fromStep, bufferFrom, hrun]
    rfl
  rw [View.bytes, View.bytes, slice_eq_iff] at h
  have hfirst := h 0 hpos
  rw [hmem, hstore, hoffset] at hfirst
  rw [helement] at hbyte
  have hsame : byte + 1 = byte := hbyte.symm.trans hfirst
  simp at hsame

/-- Of an array-like that is not empty a buffer is carved. -/
theorem byteLength_of_unpooled {array : ArrayLike}
    (hcall : (FromCall.arrayLike array).pooledSize v8 = none)
    (hrun : (bufferFrom v8 (.arrayLike array)).run r = .ok buf r') : buf.byteLength = 0 := by
  rw [bufferFrom] at hrun
  rcases Nat.eq_zero_or_pos array.length with hzero | hpos
  · rw [fromArrayLike_empty hzero] at hrun
    cases hrun
    rfl
  · by_cases hsmall : array.length < poolSize / 2
    · simp only [FromCall.pooledSize, FromCall.size, Option.filter_some, hpos, hsmall, decide_true,
        Bool.and_self, if_true, reduceCtorEq] at hcall
    · rw [fromArrayLike_large (Nat.not_lt.1 hsmall)] at hrun
      cases hrun

/-! ## Reading the string -/

/-- `toString` with the encoding that the buffer was made with. -/
theorem toString_run {encoding : Option JSString} {ops : Encoding}
    (hops : encodingOf encoding = .ok (some ops)) (hne : encoding ≠ some []) (r : Realm) :
    (FastBuffer.toString v8 buf encoding).run r = (ops.decodeToString v8 buf).run r := by
  have hget : getEncodingOps (encoding.getD (jsString "utf-8")) = .ok (some ops) := by
    rcases encoding with _ | (_ | ⟨u, rest⟩)
    · cases hops
      decide
    · exact absurd rfl hne
    · exact hops
  simp only [FastBuffer.toString, hget, ofExcept, pure_bind]

/-- What is read of a string; none when the process ends. -/
def Encoding.read : Encoding → JSString → Option JSString
  | utf8, string => if kMaxStringLength < (Utf16.utf8 string).length then none else some string
  | utf16le, string => some (string.takeWhile (· ≠ 0))

theorem decodeToString_run (hv : v8.DocumentedUtf8Value) {ops : Encoding} {s : JSString}
    (hs : WellFormed s) (hbuf : buf.bytes r.mem = ops.encode s) :
    (ops.decodeToString v8 buf).run r = .ok (ops.read s) r := by
  cases ops with
  | utf8 =>
    have hname := @toString_run v8 buf (some (jsString "utf8")) .utf8 (by decide) (by decide) r
    rw [← hname]
    exact toString_utf8 hv.toDocumented hs hbuf
  | utf16le =>
    have hname := @toString_run v8 buf (some (jsString "utf16le")) .utf16le (by decide)
      (by decide) r
    rw [← hname]
    exact toString_utf16le hv hs hbuf

/-- A buffer that is returned for a string has its encoding. -/
theorem bufferFrom_string_ok (hv : v8.Documented) (hr : r.WellFormed) {s : JSString}
    {encoding : Option JSString} {ops : Encoding} (hops : encodingOf encoding = .ok (some ops))
    (hrun : (bufferFrom v8 (.string s encoding)).run r = .ok buf r') :
    buf.bytes r'.mem = ops.encode s := by
  rw [bufferFrom] at hrun
  have hne : s ≠ [] := by
    rintro rfl
    obtain ⟨e, he⟩ := fromString_nil v8 encoding r
    rw [he] at hrun
    cases hrun
  rw [fromString_run v8 hne, hops] at hrun
  exact (fromStringFast_ok hv hr hne hrun).2

/-- **What becomes of a buffer.** A buffer that `Buffer.from` returns keeps its bytes in every run
that does not write into it exactly when it is the buffer of a string, or empty; and a well-formed
string is read from it with `toString` of the encoding after every such run, in UTF-8 if V8 makes a
string of so many bytes, and in UTF-16LE up to its first U+0000. -/
theorem buffer_remembered (hv : v8.DocumentedUtf8Value) (hr : Realm.Reachable v8 r)
    {call : FromCall} (hrun : (bufferFrom v8 call).run r = .ok buf r') :
    ((∀ r'', Realm.Later v8 buf r' r'' → buf.bytes r''.mem = buf.bytes r'.mem) ↔
        call.isArrayLike = false ∨ buf.byteLength = 0) ∧
      ∀ s encoding ops, call = .string s encoding → encodingOf encoding = .ok (some ops) →
        encoding ≠ some [] → WellFormed s → ∀ r'', Realm.Later v8 buf r' r'' →
          (FastBuffer.toString v8 buf encoding).run r'' = .ok (ops.read s) r'' := by
  have hwf := Realm.Reachable.wellFormed hv.toDocumented hr
  have heff := bufferFrom_effect hv.toDocumented call hwf
  rw [hrun] at heff
  refine ⟨⟨fun hstays => ?_, fun hcall r'' hl => ?_⟩, ?_⟩
  · by_contra hnot
    rw [not_or, Bool.not_eq_false] at hnot
    have hwf' := (heff.grows hwf []).wf
    cases heff with
    | direct _ _ hunpooled =>
      cases call with
      | string => cases hnot.1
      | arrayLike array => exact hnot.2 (byteLength_of_unpooled hunpooled hrun)
    | carved n _ r₀ _ hsize hpos hr₀ hstore hoffset hlen hfits hnext hpool _ hoff =>
      rw [hnot.1, if_pos rfl] at hoff
      obtain ⟨next, hnext⟩ := @fromStep_overwrites v8 buf _ hwf'
        (hstore.trans hpool.symm) (hoffset.trans hoff.symm) (by omega)
        (by simp only [View.last]; omega)
      exact hnext (hstays _ (.tail (.start rfl) ⟨.bufferFrom next, trivial⟩))
  · exact ((heff.settled hwf hcall).later hv.toDocumented hl).bytes_eq
  · rintro s encoding ops rfl hops hne hs r'' hl
    have hbytes := bufferFrom_string_ok hv.toDocumented hwf hops hrun
    have hsettled := (heff.settled hwf (.inl rfl)).later hv.toDocumented hl
    rw [toString_run hops hne]
    exact decodeToString_run hv hs (hsettled.bytes_eq.trans hbytes)

/-- `Buffer.from('x', 'utf16le')`, `Buffer.from([1])`, and then `toString('utf16le')` of the
first. -/
theorem buffer_remembered_behind : ∃ buf r' r'',
    (bufferFrom V8.reference (.string (jsString "x") (some (jsString "utf16le")))).run
        (Realm.load fun _ _ => 0) = .ok buf r' ∧
      r'' = (fromStep V8.reference r' (.arrayLike (.array [.fin 1]))).2 ∧
      (FastBuffer.toString V8.reference buf (some (jsString "utf16le"))).run r'' =
        .ok (some (jsString "x")) r'' := by
  have hrun : (bufferFrom V8.reference (.string (jsString "x") (some (jsString "utf16le")))).run
      (Realm.load fun _ _ => 0) = .ok ⟨0, 0, 2, by decide⟩ _ := rfl
  refine ⟨_, _, _, hrun, rfl, ?_⟩
  exact (buffer_remembered V8.reference_documentedUtf8Value (.start ⟨_, rfl⟩) hrun).2 _ _ .utf16le
    rfl (by decide) (by decide) (by simp [WellFormed, isHigh, isLow, jsString]) _
    (.tail (.start rfl) ⟨.bufferFrom (.arrayLike (.array [.fin 1])), trivial⟩)

end NanoJS

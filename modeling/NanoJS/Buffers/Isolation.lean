import NanoJS.Buffers.Pool

/-!
# Pool isolation

What a call of `Buffer.from` can do (`BufferEffect`): throw, take a store of its own, or carve a
range out of a pool that has room for it. A string advances `poolOffset` past its range, an
array-like leaves it. So the buffers of a sequence of calls are disjoint exactly when no call is
served by the pool right behind an array-like (`pool_isolation_iff`).
-/

namespace NanoJS

open ByteMemory

/-! ## Calls -/

/-- The encoding that `__fromString` chooses. -/
def encodingOf : Option JSString → Except JSError (Option Encoding)
  | none | some [] => .ok (some .utf8)
  | some encoding => getEncodingOps encoding

namespace FromCall

variable (v8 : V8)

/-- The number of bytes a call asks for, when it does not throw before. -/
def size : FromCall → Option ℕ
  | string [] _ => none
  | string value encoding =>
    match encodingOf encoding with
    | .ok (some ops) => some (ops.byteLength v8 value)
    | _ => none
  | arrayLike array => some array.length

/-- The number of bytes a call asks of the pool. -/
def pooledSize (call : FromCall) : Option ℕ :=
  (call.size v8).filter fun n => 0 < n && n < poolSize / 2

def isArrayLike : FromCall → Bool
  | string _ _ => false
  | arrayLike _ => true

/-- The call is served by what is left of the pool. -/
def FitsPool (call : FromCall) (r : Realm) : Prop :=
  ∃ n ∈ call.pooledSize v8, n ≤ poolSize - r.poolOffset

end FromCall

/-- What a call of `Buffer.from` can do to a realm. -/
inductive BufferEffect (v8 : V8) (call : FromCall) (r : Realm) :
    EStateM.Result JSError Realm View → Prop
  | threw (e : JSError) (hcall : call.pooledSize v8 = none) : BufferEffect v8 call r (.error e r)
  | direct (v : View) (r' : Realm) (hcall : call.pooledSize v8 = none)
      (hv : v.store = r.nextStore) (hnext : r'.nextStore = r.nextStore + 1)
      (hpool : r'.allocPool = r.allocPool) (hoff : r'.poolOffset = r.poolOffset)
      (hsize : ∀ s < r.nextStore, r'.size s = r.size s)
      (hmem : ∀ s < r.nextStore, r'.mem s = r.mem s) (hoffset : v.byteOffset = 0) :
      BufferEffect v8 call r (.ok v r')
  | carved (n : ℕ) (v : View) (r₀ r' : Realm) (hcall : call.pooledSize v8 = some n)
      (hpos : 0 < n) (hr₀ : r.room n = r₀) (hstore : v.store = r₀.allocPool)
      (hoffset : v.byteOffset = r₀.poolOffset) (hlen : v.byteLength = n)
      (hfits : r₀.poolOffset + n ≤ poolSize) (hnext : r'.nextStore = r₀.nextStore)
      (hpool : r'.allocPool = r₀.allocPool) (hsize : r'.size = r₀.size)
      (hoff : r'.poolOffset =
        if call.isArrayLike then r₀.poolOffset else alignOffset (r₀.poolOffset + n))
      (hmem : ∀ (s : ℕ) (a : ℤ),
        s ≠ r₀.allocPool ∨ a < r₀.poolOffset → r'.mem s a = r₀.mem s a) :
      BufferEffect v8 call r (.ok v r')

/-! ## The effect of each call -/

theorem fromString_nil (v8 : V8) (encoding : Option JSString) (r : Realm) :
    ∃ e, (fromString v8 [] encoding).run r = .error e r := by
  rcases encoding with _ | (_ | ⟨u, rest⟩)
  · exact ⟨_, rfl⟩
  · exact ⟨_, rfl⟩
  · rcases h : getEncodingOps (u :: rest) with e | (_ | ops) <;>
      exact ⟨_, by simp [fromString, h, ofExcept, fastBufferCall]; rfl⟩

theorem fromString_run (v8 : V8) {value : JSString} (hs : value ≠ []) (encoding : Option JSString)
    (r : Realm) :
    (fromString v8 value encoding).run r =
      match encodingOf encoding with
      | .ok (some ops) => (fromStringFast v8 value ops).run r
      | .ok none => .error (.error "Invalid Encoding") r
      | .error e => .error e r := by
  have hlen : value.length ≠ 0 := mt List.length_eq_zero_iff.1 hs
  rcases encoding with _ | (_ | ⟨u, rest⟩)
  · simp [fromString, encodingOf, hlen]
  · simp [fromString, encodingOf, hlen]
  · rcases h : getEncodingOps (u :: rest) with e | (_ | ops) <;>
      simp [fromString, encodingOf, h, ofExcept, hlen] <;> rfl

theorem FromCall.size_string (v8 : V8) {value : JSString} (hs : value ≠ [])
    (encoding : Option JSString) :
    (FromCall.string value encoding).size v8 =
      match encodingOf encoding with
      | .ok (some ops) => some (ops.byteLength v8 value)
      | _ => none := by
  rcases value with _ | ⟨u, rest⟩
  · exact absurd rfl hs
  · rfl

theorem Encoding.byteLength_pos {v8 : V8} (hv : v8.Documented) (ops : Encoding) {str : JSString}
    (hs : str ≠ []) : 0 < ops.byteLength v8 str := by
  rw [byteLength_eq hv]
  cases ops with
  | utf8 => exact List.length_pos_iff.2 (Utf16.utf8_ne_nil hs)
  | utf16le =>
    have := List.length_pos_iff.2 hs
    rw [encode, Utf16.length_utf16le]
    omega

/-- The effect of `__fromStringFast`. -/
theorem fromStringFast_effect {v8 : V8} (hv : v8.Documented) {str : JSString} (hs : str ≠ [])
    {ops : Encoding} {r : Realm} (hr : r.WellFormed) {call : FromCall}
    (hcall : call.size v8 = some (ops.byteLength v8 str)) (harray : call.isArrayLike = false) :
    BufferEffect v8 call r ((fromStringFast v8 str ops).run r) := by
  have hpos := Encoding.byteLength_pos hv ops hs
  by_cases hsmall : ops.byteLength v8 str < poolSize / 2
  · have hfits := hr.room_fits hsmall
    rw [fromStringFast_pooled hv hs hsmall rfl hfits]
    refine .carved _ _ _ _ (by simp [FromCall.pooledSize, hcall, hpos, hsmall]) hpos rfl rfl rfl rfl
      ((hr.room _).pool_size ▸ hfits.1) rfl rfl rfl (by simp [harray]) fun s a h => ?_
    exact blit_outside (by omega)
  · have hnone : call.pooledSize v8 = none := by
      simp [FromCall.pooledSize, hcall, Nat.not_lt.1 hsmall]
    by_cases hmax : ops.byteLength v8 str ≤ kMaxLength
    · rw [fromStringFast_direct hv hs (Nat.not_lt.1 hsmall) hmax]
      refine .direct _ _ hnone rfl rfl rfl rfl (fun s h => if_neg (by omega)) (fun s h => ?_) rfl
      funext a
      exact blit_outside (.inl (by omega))
    · obtain ⟨e, he⟩ := fromStringFast_tooLong (Nat.not_le.1 hmax) r
      rw [he]
      exact .threw e hnone

/-- The effect of `__fromArrayLike`. -/
theorem fromArrayLike_effect (v8 : V8) (array : ArrayLike) {r : Realm} (hr : r.WellFormed) :
    BufferEffect v8 (.arrayLike array) r ((fromArrayLike array).run r) := by
  rcases Nat.eq_zero_or_pos array.length with hzero | hpos
  · have hnone : (FromCall.arrayLike array).pooledSize v8 = none := by
      simp [FromCall.pooledSize, FromCall.size, hzero]
    rw [fromArrayLike_empty hzero]
    refine .direct ⟨r.nextStore, 0, 0, Nat.zero_le _⟩ _ hnone rfl rfl rfl rfl
      (fun s h => if_neg (by omega)) (fun s h => ?_) rfl
    funext a
    exact if_neg (by omega)
  · by_cases hsmall : array.length < poolSize / 2
    · have hfits := hr.room_fits hsmall
      rw [fromArrayLike_pooled hpos hsmall rfl hfits]
      refine .carved _ _ _ _ (by simp [FromCall.pooledSize, FromCall.size, hpos, hsmall]) hpos rfl
        rfl rfl rfl ((hr.room _).pool_size ▸ hfits.1) rfl rfl rfl rfl fun s a h => ?_
      exact copiedMem_outside _ 0 _ (by simpa using h.imp_right .inl)
    · rw [fromArrayLike_large (Nat.not_lt.1 hsmall)]
      exact .threw _ (by simp [FromCall.pooledSize, FromCall.size, Nat.not_lt.1 hsmall])

/-- **What `Buffer.from` does.** -/
theorem bufferFrom_effect {v8 : V8} (hv : v8.Documented) (call : FromCall) {r : Realm}
    (hr : r.WellFormed) : BufferEffect v8 call r ((bufferFrom v8 call).run r) := by
  cases call with
  | arrayLike array => exact fromArrayLike_effect v8 array hr
  | string value encoding =>
    by_cases hs : value = []
    · subst hs
      obtain ⟨e, he⟩ := fromString_nil v8 encoding r
      rw [bufferFrom, he]
      exact .threw e rfl
    · have hsize := FromCall.size_string v8 hs encoding
      rw [bufferFrom, fromString_run v8 hs]
      rcases h : encodingOf encoding with e | (_ | ops)
      · exact .threw _ (by rw [FromCall.pooledSize, hsize, h]; rfl)
      · exact .threw _ (by rw [FromCall.pooledSize, hsize, h]; rfl)
      · exact fromStringFast_effect hv hs hr (by rw [hsize, h]) rfl

/-! ## Sequences of calls -/

variable (v8 : V8)

/-- The buffer a call returns, if it does, and the realm after it. -/
def fromStep (r : Realm) (call : FromCall) : List View × Realm :=
  match (bufferFrom v8 call).run r with
  | .ok v r' => ([v], r')
  | .error _ r' => ([], r')

/-- The buffers that a sequence of calls returns, and the realm after it. -/
def fromRun (r : Realm) : List FromCall → List View × Realm
  | [] => ([], r)
  | call :: calls =>
    let (views, r') := fromStep v8 r call
    (views ++ (fromRun r' calls).1, (fromRun r' calls).2)

/-- Whether the last call that the pool served was an array-like, after one more call. -/
def FromCall.behind (array : Bool) (call : FromCall) : Bool :=
  if (call.pooledSize v8).isSome then call.isArrayLike else array

/-- No call is served by what is left of the pool right behind an array-like. `array` tells whether
the last call that the pool served was one. -/
def NoReuse (r : Realm) (array : Bool) : List FromCall → Prop
  | [] => True
  | call :: calls =>
    ¬(array = true ∧ call.FitsPool v8 r) ∧
      NoReuse (fromStep v8 r call).2 (call.behind v8 array) calls

/-- The buffers of a sequence of calls do not share bytes: their ranges are disjoint, later calls
keep the bytes of earlier buffers, and an element write into one changes no other. -/
structure Isolated (r : Realm) (calls : List FromCall) : Prop where
  ranges : (fromRun v8 r calls).1.Pairwise fun v w =>
    0 < v.byteLength → 0 < w.byteLength → v.Disjoint w
  keeps : ∀ before after, calls = before ++ after → ∀ v ∈ (fromRun v8 r before).1,
    v.bytes (fromRun v8 r calls).2.mem = v.bytes (fromRun v8 r before).2.mem
  writes : (fromRun v8 r calls).1.Pairwise fun v w => ∀ mem i byte,
    w.bytes (v.set mem i byte) = w.bytes mem ∧ v.bytes (w.set mem i byte) = v.bytes mem

variable {v8}

theorem fromRun_append (r : Realm) (before after : List FromCall) :
    fromRun v8 r (before ++ after) =
      ((fromRun v8 r before).1 ++ (fromRun v8 (fromRun v8 r before).2 after).1,
        (fromRun v8 (fromRun v8 r before).2 after).2) := by
  induction before generalizing r with
  | nil => rfl
  | cons call calls ih => simp only [List.cons_append, fromRun, ih, List.append_assoc]

theorem NoReuse.append {r : Realm} {array : Bool} {before after : List FromCall}
    (h : NoReuse v8 r array (before ++ after)) :
    NoReuse v8 r array before ∧
      NoReuse v8 (fromRun v8 r before).2 (before.foldl (FromCall.behind v8) array) after := by
  induction before generalizing r array with
  | nil => exact ⟨trivial, h⟩
  | cons call calls ih =>
    obtain ⟨h₁, h₂⟩ := ih h.2
    exact ⟨⟨h.1, h₁⟩, h₂⟩

/-! ## The invariant -/

/-- The buffers returned so far are disjoint, and those in the pool end before `poolOffset`, unless
the last call that the pool served was an array-like. -/
structure PoolInv (r : Realm) (array : Bool) (views : List View) : Prop where
  wf : r.WellFormed
  lt : ∀ v ∈ views, v.store < r.nextStore
  below : array = false → ∀ v ∈ views, v.store = r.allocPool → v.last ≤ r.poolOffset
  disjoint : views.Pairwise View.Disjoint

theorem Realm.room_mem (r : Realm) (n : ℕ) : (r.room n).mem = r.mem := by
  rw [Realm.room]
  split <;> rfl

/-- What an operation leaves of a realm: stores are only added, the pool is the one that was there
or a new one, and a store that is neither the pool nor among those that it writes keeps its
bytes. -/
structure Realm.Grows (written : List ℕ) (r r' : Realm) : Prop where
  wf : r'.WellFormed
  next_le : r.nextStore ≤ r'.nextStore
  pool : r'.allocPool = r.allocPool ∨ r.nextStore ≤ r'.allocPool
  mem : ∀ s < r.nextStore, s ≠ r.allocPool → s ∉ written → r'.mem s = r.mem s

theorem Realm.WellFormed.grows {r : Realm} (hr : r.WellFormed) (written : List ℕ) :
    r.Grows written r :=
  ⟨hr, le_rfl, .inl rfl, fun _ _ _ _ => rfl⟩

theorem Realm.Grows.mono {written written' : List ℕ} {r r' : Realm} (h : r.Grows written r')
    (hsub : written ⊆ written') : r.Grows written' r' :=
  ⟨h.wf, h.next_le, h.pool, fun s hs hne hw => h.mem s hs hne fun hmem => hw (hsub hmem)⟩

/-- Nothing but the pool and new stores is changed. -/
theorem BufferEffect.grows {r : Realm} (hr : r.WellFormed) {call : FromCall} {v : View}
    {r' : Realm} (h : BufferEffect v8 call r (.ok v r')) (written : List ℕ) :
    r.Grows written r' := by
  cases h with
  | direct _ _ hcall hstore hnext hpool hoff hsize hmem =>
    have hpl := hr.pool_lt
    refine ⟨⟨by omega, ?_, hoff ▸ hr.offset_le⟩, by omega, .inl hpool, fun s hs _ _ => hmem s hs⟩
    rw [hpool, hsize _ hpl, hr.pool_size]
  | carved n _ r₀ _ hcall hpos hr₀ hstore hoffset hlen hfits hnext hpool hsize hoff hmem =>
    have hwf := hr₀ ▸ hr.room n
    have hroom : r.nextStore ≤ r₀.nextStore ∧
        (r₀.allocPool = r.allocPool ∨ r.nextStore ≤ r₀.allocPool) := by
      rw [← hr₀, Realm.room]
      split
      · exact ⟨Nat.le_succ _, .inr le_rfl⟩
      · exact ⟨le_rfl, .inl rfl⟩
    refine ⟨⟨by rw [hpool, hnext]; exact hwf.pool_lt, by rw [hsize, hpool]; exact hwf.pool_size,
      ?_⟩, hnext ▸ hroom.1, hpool ▸ hroom.2, fun s hs hne _ => ?_⟩
    · rw [hoff]
      split
      · exact hwf.offset_le
      · exact (alignOffset_le hfits).2
    · funext a
      rw [hmem s a (.inl (by omega)), ← hr₀, Realm.room_mem]

/-- A buffer that is returned is in the pool or in a new store. -/
theorem BufferEffect.view_store {r : Realm} (hr : r.WellFormed) {call : FromCall} {v : View}
    {r' : Realm} (h : BufferEffect v8 call r (.ok v r')) :
    v.store < r'.nextStore ∧ (v.store = r'.allocPool ∨ r.nextStore ≤ v.store) := by
  cases h with
  | direct _ _ hcall hstore hnext => exact ⟨by omega, .inr (by omega)⟩
  | carved n _ r₀ _ hcall hpos hr₀ hstore hoffset hlen hfits hnext hpool =>
    have hwf := hr₀ ▸ hr.room n
    exact ⟨by rw [hstore, hnext]; exact hwf.pool_lt, .inl (hstore.trans hpool.symm)⟩

theorem fromStep_grows (hv : v8.Documented) {r : Realm} (hr : r.WellFormed) (call : FromCall)
    (written : List ℕ) : r.Grows written (fromStep v8 r call).2 := by
  have heff := bufferFrom_effect hv call hr
  rw [fromStep]
  generalize (bufferFrom v8 call).run r = res at heff
  cases res with
  | ok v r' => exact heff.grows hr written
  | error e r' =>
    cases heff
    exact hr.grows written

theorem fromStep_view_store (hv : v8.Documented) {r : Realm} (hr : r.WellFormed)
    (call : FromCall) {v : View} (h : v ∈ (fromStep v8 r call).1) :
    v.store < (fromStep v8 r call).2.nextStore ∧
      (v.store = (fromStep v8 r call).2.allocPool ∨ r.nextStore ≤ v.store) := by
  have heff := bufferFrom_effect hv call hr
  rw [fromStep] at h ⊢
  generalize (bufferFrom v8 call).run r = res at heff h
  cases res with
  | ok w r' =>
    obtain rfl := List.mem_singleton.1 h
    exact heff.view_store hr
  | error e r' => cases h

theorem fromStep_wellFormed (hv : v8.Documented) {r : Realm} (hr : r.WellFormed)
    (call : FromCall) : (fromStep v8 r call).2.WellFormed :=
  (fromStep_grows hv hr call []).wf

/-- Where `n` bytes are carved, the earlier buffers end before them. -/
theorem PoolInv.room {r : Realm} {array : Bool} {views : List View} (h : PoolInv r array views)
    {n : ℕ} (hok : ¬(array = true ∧ n ≤ poolSize - r.poolOffset)) :
    PoolInv (r.room n) false views := by
  rw [Realm.room]
  split
  · refine ⟨r.freshPool_wellFormed, fun v hv => Nat.lt_succ_of_lt (h.lt v hv), fun _ v hv hs => ?_,
      h.disjoint⟩
    have := h.lt v hv
    have : v.store = r.nextStore := hs
    omega
  · rename_i hn
    have harray : array = false := by
      rw [← Bool.not_eq_true]
      exact fun ha => hok ⟨ha, Nat.not_lt.1 hn⟩
    exact ⟨h.wf, h.lt, fun _ => h.below harray, h.disjoint⟩

/-- A buffer that is disjoint from the earlier ones, and ends before `poolOffset` when it lies in
the pool, joins them. -/
theorem PoolInv.concat {r r' : Realm} {array array' : Bool} {views : List View} {v : View}
    (h : PoolInv r array views) (hwf : r'.WellFormed)
    (hlt : ∀ w ∈ views, w.store < r'.nextStore) (hv : v.store < r'.nextStore)
    (hbelow : array' = false → ∀ w ∈ views, w.store = r'.allocPool → w.last ≤ r'.poolOffset)
    (hlast : array' = false → v.store = r'.allocPool → v.last ≤ r'.poolOffset)
    (hdisjoint : ∀ w ∈ views, w.Disjoint v) : PoolInv r' array' (views ++ [v]) where
  wf := hwf
  lt := List.forall_mem_append.2 ⟨hlt, List.forall_mem_singleton.2 hv⟩
  below ha := List.forall_mem_append.2 ⟨hbelow ha, List.forall_mem_singleton.2 (hlast ha)⟩
  disjoint := List.pairwise_append.2 ⟨h.disjoint, List.pairwise_singleton _ _, fun w hw =>
    List.forall_mem_singleton.2 (hdisjoint w hw)⟩

/-- **A call that does not reuse the range of an array-like keeps the invariant**, and the bytes
of the buffers returned before it. -/
theorem fromStep_inv (hv : v8.Documented) {r : Realm} {array : Bool} {views : List View}
    (h : PoolInv r array views) {call : FromCall}
    (hok : ¬(array = true ∧ call.FitsPool v8 r)) :
    PoolInv (fromStep v8 r call).2 (call.behind v8 array) (views ++ (fromStep v8 r call).1) ∧
      ∀ v ∈ views, v.bytes (fromStep v8 r call).2.mem = v.bytes r.mem := by
  have heff := bufferFrom_effect hv call h.wf
  have hwf := fromStep_wellFormed hv h.wf call
  rw [fromStep] at hwf ⊢
  generalize (bufferFrom v8 call).run r = res at heff hwf
  cases heff with
  | threw e hcall =>
    refine ⟨?_, fun _ _ => rfl⟩
    simpa [FromCall.behind, hcall] using h
  | direct v r' hcall hstore hnext hpool hoff hsize hmem =>
    have hpl := h.wf.pool_lt
    dsimp only
    refine ⟨h.concat hwf (fun w hw => ?_) (by omega) (fun ha w hw hs => ?_) (fun _ hs => ?_)
      fun w hw => ?_, fun w hw => ?_⟩
    · have := h.lt w hw
      omega
    · rw [FromCall.behind, hcall] at ha
      rw [hoff]
      exact h.below ha w hw (hs.trans hpool)
    · omega
    · exact .inl (by have := h.lt w hw; omega)
    · rw [View.bytes, View.bytes, slice_eq_iff]
      intro i _
      rw [hmem _ (h.lt w hw)]
  | carved n v r₀ r' hcall hpos hr₀ hstore hoffset hlen hfits hnext hpool hsize hoff hmem =>
    have h₀ : PoolInv r₀ false views := by
      rw [← hr₀]
      exact h.room fun hn => hok ⟨hn.1, n, by simp [hcall], hn.2⟩
    obtain ⟨hle, -⟩ := alignOffset_le hfits
    have hlast : v.last = r₀.poolOffset + n := by rw [View.last, hoffset, hlen]
    have hadvance (ha : call.behind v8 array = false) :
        r'.poolOffset = alignOffset (r₀.poolOffset + n) := by
      have harray : call.isArrayLike = false := by simpa [FromCall.behind, hcall] using ha
      rw [hoff, harray, if_neg Bool.false_ne_true]
    refine ⟨h.concat hwf (fun w hw => hnext ▸ h₀.lt w hw) (hnext ▸ hstore ▸ h₀.wf.pool_lt)
      (fun ha w hw hs => ?_) (fun ha _ => ?_) fun w hw => ?_, fun w hw => ?_⟩
    · have := h₀.below rfl w hw (hs.trans hpool)
      rw [hadvance ha]
      omega
    · rw [hadvance ha]
      omega
    · by_cases hs : w.store = r₀.allocPool
      · have := h₀.below rfl w hw hs
        refine .inr (.inl ?_)
        simp only [View.last] at this
        omega
      · exact .inl (by rw [hstore]; exact hs)
    · rw [View.bytes, View.bytes, slice_eq_iff]
      intro i hi
      rw [hmem _ _ ?_, ← hr₀, Realm.room_mem]
      by_cases hs : w.store = r₀.allocPool
      · have := h₀.below rfl w hw hs
        simp only [View.last] at this
        exact .inr (by omega)
      · exact .inl hs

/-- The invariant over a sequence of calls. -/
theorem fromRun_inv (hv : v8.Documented) {r : Realm} {array : Bool} {views : List View}
    (h : PoolInv r array views) {calls : List FromCall} (hok : NoReuse v8 r array calls) :
    PoolInv (fromRun v8 r calls).2 (calls.foldl (FromCall.behind v8) array)
        (views ++ (fromRun v8 r calls).1) ∧
      ∀ v ∈ views, v.bytes (fromRun v8 r calls).2.mem = v.bytes r.mem := by
  induction calls generalizing r array views with
  | nil => exact ⟨by simpa [fromRun] using h, fun _ _ => rfl⟩
  | cons call calls ih =>
    obtain ⟨hstep, hbytes⟩ := fromStep_inv hv h hok.1
    obtain ⟨hrun, hbytes'⟩ := ih hstep hok.2
    refine ⟨by simpa [fromRun] using hrun, fun v hv => ?_⟩
    exact (hbytes' v (List.mem_append_left _ hv)).trans (hbytes v hv)

theorem poolInv_load (mem : Mem) : PoolInv (Realm.load mem) false [] :=
  ⟨Realm.freshPool_wellFormed _, by simp, by simp, .nil⟩

/-! ## Reuse -/

/-- After an array-like its range starts at `poolOffset`. -/
structure PoolLast (r : Realm) (array : Bool) (views : List View) : Prop where
  wf : r.WellFormed
  last : array = true → ∃ v ∈ views,
    v.store = r.allocPool ∧ v.byteOffset = r.poolOffset ∧ 0 < v.byteLength

theorem fromStep_last (hv : v8.Documented) {r : Realm} {array : Bool} {views : List View}
    (h : PoolLast r array views) (call : FromCall) :
    PoolLast (fromStep v8 r call).2 (call.behind v8 array) (views ++ (fromStep v8 r call).1) := by
  refine ⟨fromStep_wellFormed hv h.wf call, fun ha => ?_⟩
  have heff := bufferFrom_effect hv call h.wf
  rw [fromStep]
  generalize (bufferFrom v8 call).run r = res at heff
  cases heff with
  | threw e hcall =>
    rw [FromCall.behind, hcall] at ha
    simpa using h.last ha
  | direct v r' hcall hstore hnext hpool hoff hsize hmem =>
    rw [FromCall.behind, hcall] at ha
    obtain ⟨w, hw, h₁, h₂, h₃⟩ := h.last ha
    exact ⟨w, List.mem_append_left _ hw, h₁.trans hpool.symm, h₂.trans hoff.symm, h₃⟩
  | carved n v r₀ r' hcall hpos hr₀ hstore hoffset hlen hfits hnext hpool hsize hoff hmem =>
    have harray : call.isArrayLike = true := by simpa [FromCall.behind, hcall] using ha
    rw [harray, if_pos rfl] at hoff
    exact ⟨v, List.mem_append_right _ (List.mem_singleton.2 rfl), hstore.trans hpool.symm,
      hoffset.trans hoff.symm, hlen ▸ hpos⟩

/-- A call that the pool serves right behind an array-like returns the same range again. -/
theorem fromStep_reuse (hv : v8.Documented) {r : Realm} {views : List View}
    (h : PoolLast r true views) {call : FromCall} (hfit : call.FitsPool v8 r) :
    ∃ v ∈ views, ∃ w ∈ (fromStep v8 r call).1,
      0 < v.byteLength ∧ 0 < w.byteLength ∧ ¬v.Disjoint w := by
  obtain ⟨n, hn, hle⟩ := hfit
  rw [Option.mem_def] at hn
  obtain ⟨v, hv', h₁, h₂, h₃⟩ := h.last rfl
  refine ⟨v, hv', ?_⟩
  have heff := bufferFrom_effect hv call h.wf
  rw [fromStep]
  generalize (bufferFrom v8 call).run r = res at heff
  cases heff with
  | threw e hcall => rw [hcall] at hn; cases hn
  | direct w r' hcall => rw [hcall] at hn; cases hn
  | carved k w r₀ r' hcall hpos hr₀ hstore hoffset hlen =>
    obtain rfl : k = n := Option.some.inj (hcall.symm.trans hn)
    rw [Realm.room, if_neg (Nat.not_lt.2 hle)] at hr₀
    subst hr₀
    refine ⟨w, List.mem_singleton.2 rfl, h₃, hlen ▸ hpos, ?_⟩
    simp only [View.Disjoint, ByteMemory.Disjoint]
    omega

theorem fromRun_reuse (hv : v8.Documented) {r : Realm} {array : Bool} {views : List View}
    (h : PoolLast r array views) {calls : List FromCall} (hno : ¬NoReuse v8 r array calls) :
    ¬(views ++ (fromRun v8 r calls).1).Pairwise fun v w =>
      0 < v.byteLength → 0 < w.byteLength → v.Disjoint w := by
  induction calls generalizing r array views with
  | nil => exact absurd trivial hno
  | cons call calls ih =>
    rw [NoReuse, not_and_or, not_not] at hno
    simp only [fromRun, ← List.append_assoc]
    rcases hno with ⟨rfl, hfit⟩ | hno
    · obtain ⟨v, hv', w, hw, h₁, h₂, h₃⟩ := fromStep_reuse hv h hfit
      intro hp
      exact h₃ ((List.pairwise_append.1 (List.pairwise_append.1 hp).1).2.2 v hv' w hw h₁ h₂)
    · exact ih (fromStep_last hv h call) hno

/-- **The buffers of a sequence of calls share no bytes exactly when the pool serves no call right
behind an array-like.** -/
theorem pool_isolation_iff (hv : v8.Documented) (mem : Mem) (calls : List FromCall) :
    Isolated v8 (Realm.load mem) calls ↔ NoReuse v8 (Realm.load mem) false calls := by
  constructor
  · intro h
    by_contra hno
    have hlast : PoolLast (Realm.load mem) false [] := ⟨(poolInv_load mem).wf, by simp⟩
    exact fromRun_reuse hv hlast hno h.ranges
  · intro h
    have hdisjoint := (fromRun_inv hv (poolInv_load mem) h).1.disjoint
    refine ⟨hdisjoint.imp fun hd _ _ => hd, ?_, hdisjoint.imp fun hd mem i byte =>
      ⟨hd.bytes_set mem i byte, hd.symm.bytes_set mem i byte⟩⟩
    rintro before after rfl v hmem
    obtain ⟨h₁, h₂⟩ := h.append
    rw [fromRun_append]
    exact (fromRun_inv hv (fromRun_inv hv (poolInv_load mem) h₁).1 h₂).2 v (by simpa using hmem)

/-- A string behind a string is isolated from it. -/
theorem pool_isolation_iff_strings :
    Isolated V8.reference (Realm.load fun _ _ => 0)
      [.string (jsString "ab") none, .string (jsString "c") none] :=
  (pool_isolation_iff V8.reference_documented _ _).2 (by
    simp [NoReuse, FromCall.behind, FromCall.pooledSize, FromCall.size, FromCall.isArrayLike])

/-- `Buffer.from([1])` and `Buffer.from([2])` are the same byte. -/
theorem pool_shared : ¬Isolated V8.reference (Realm.load fun _ _ => 0)
    [.arrayLike (.array [.fin 1]), .arrayLike (.array [.fin 2])] := by
  intro h
  have := h.keeps [.arrayLike (.array [.fin 1])] [.arrayLike (.array [.fin 2])] rfl
    ⟨0, 0, 1, by decide⟩ (by decide)
  revert this
  decide

end NanoJS

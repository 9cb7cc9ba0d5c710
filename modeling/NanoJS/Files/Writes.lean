import NanoJS.Buffers.Encoding
import NanoJS.Files.Wrappers
import Mathlib.Logic.Function.Basic

/-!
# Writes from a view

`writeAsync` reads from the base address of the backing store; the offset of the view in its store
is not added. A write is faithful exactly when the first bytes of the store are those of the view
(`writeFileAsync_faithful_iff`). `Files.write` makes its buffer out of the pool, so the condition
depends on the calls before; in every run whose writes meet it, the files hold the data passed to
the calls (`writes_faithful`).
-/

namespace NanoJS

open ByteMemory

/-! ## A single write -/

theorem View.toInt32_byteLength (v : View) : toInt32 v.byteLength = v.byteLength := by
  have h := v.le_max
  have hk : kMaxLength = 2147483647 := rfl
  exact toInt32_of_lt (by omega) (by omega)

/-- The mode of a write is decided by the first character of the flag. -/
theorem head_toUtf8String {v8 : V8} (hv : v8.Documented) {s : JSString} {u : UInt16}
    (hu : u.toNat < 0x80) (hne : u ≠ 0) :
    (toUtf8String v8 s).head? = some (.ofNat u.toNat) ↔ s.head? = some u := by
  have hhead : ∀ l : List UInt8, ((l.takeWhile (· ≠ 0)).head? = some (.ofNat u.toNat) ↔
      l.head? = some (.ofNat u.toNat)) := by
    intro l
    have hbyte : (UInt8.ofNat u.toNat) ≠ 0 := by
      intro h
      have hnat : u.toNat = 0 := by
        have := congrArg UInt8.toNat h
        rw [UInt8.toNat_ofNat'] at this
        have : u.toNat % 2 ^ 8 = 0 := this
        omega
      exact hne (UInt16.toNat_inj.1 hnat)
    rcases l with _ | ⟨b, l⟩
    · rfl
    · by_cases hb : b = 0
      · subst hb
        simpa using fun h => hbyte h.symm
      · simp [hb]
  rw [toUtf8String, hhead, hv.utf8Length, hv.writeUtf8 _ _ le_rfl, Utf16.head_utf8 hu]
  simp [UInt16.toNat_inj]

/-- What a write leaves in a writable file: the first bytes of the backing store. -/
theorem writeFileAsync_content {v8 : V8} (hv : v8.Documented) (path : JSString) (data : View)
    (flag : JSString) {node : FileNode} (hw : node.Writable) (told : ℤ) (mem : Mem) :
    ((writeFileAsync v8 path data flag).execute node told mem).2.1.content =
      (if flag.head? = some 0x77 then [] else node.content) ++
        slice mem data.store 0 data.byteLength := by
  have hmode : ((toUtf8String v8 flag).head? == some 0x77) = decide (flag.head? = some 0x77) := by
    have h := head_toUtf8String hv (s := flag) (u := 0x77) (by decide) (by decide)
    rw [Bool.eq_iff_iff, beq_iff_eq, decide_eq_true_iff]
    exact h
  simp only [writeFileAsync, Task.execute, writeAsync, FileNode.write, hw.1, hw.2, hmode,
    FileNode.create_content, FileNode.create_writeLimit, data.toInt32_byteLength,
    Int.toNat_natCast, if_true, decide_eq_true_eq]

/-- **A write is faithful exactly when the first bytes of the backing store are the view's.** -/
theorem writeFileAsync_faithful_iff {v8 : V8} (hv : v8.Documented) (path : JSString)
    (data : View) (flag : JSString) {node : FileNode} (hw : node.Writable) (told : ℤ) (mem : Mem) :
    ((writeFileAsync v8 path data flag).execute node told mem).2.1.content =
        (if flag.head? = some 0x77 then [] else node.content) ++ data.bytes mem ↔
      slice mem data.store 0 data.byteLength = data.bytes mem := by
  rw [writeFileAsync_content hv path data flag hw, List.append_cancel_left_eq]

/-! ## Sequences of writes -/

/-- The bytes of the data passed to `Files.write`. -/
def WriteData.bytes (data : WriteData) (argument : WriteArgument) (mem : Mem) : List UInt8 :=
  match data with
  | .string s =>
    match getEncodingOps argument.encoding with
    | .ok (some ops) => ops.encode s
    | _ => []
  | .arrayLike array => (List.range array.length).map (array.element mem)

/-- A view passed as data does not begin in the pool before the range that it is copied to and
reach into it. -/
def WriteData.Kept (data : WriteData) (r : Realm) : Prop :=
  match data with
  | .arrayLike (.view v) =>
    v.store ≠ (r.room v.byteLength).allocPool ∨ v.last ≤ (r.room v.byteLength).poolOffset ∨
      (r.room v.byteLength).poolOffset ≤ v.byteOffset
  | _ => True

/-- The store that `Buffer.from` copies the data to will begin with the data: the pool does not
serve the call, or what is in the pool below `poolOffset`, and then the data, begin like the
data. -/
def WriteData.First (v8 : V8) (data : WriteData) (argument : WriteArgument) (r : Realm) : Prop :=
  ∀ n ∈ (data.fromCall argument).pooledSize v8, ∀ i < n,
    (if i < (r.room n).poolOffset then r.mem (r.room n).allocPool i
      else (data.bytes argument r.mem).getD (i - (r.room n).poolOffset) 0) =
      (data.bytes argument r.mem).getD i 0

theorem WriteArgument.encoding_ne_nil (argument : WriteArgument) : argument.encoding ≠ [] := by
  have hdefault : jsString "utf-8" ≠ [] := by decide
  cases argument with
  | callback f => exact hdefault
  | options encoding flag f =>
    rcases encoding with _ | (_ | ⟨u, rest⟩)
    · exact hdefault
    · exact hdefault
    · exact List.cons_ne_nil u rest

theorem encodingOf_some {encoding : JSString} (h : encoding ≠ []) :
    encodingOf (some encoding) = getEncodingOps encoding := by
  rcases encoding with _ | ⟨u, rest⟩
  · exact absurd rfl h
  · rfl

/-- Copying data that is kept does not read what it has written. -/
theorem ArrayLike.readAhead_of_kept {array : ArrayLike} {r r₀ : Realm}
    (hr₀ : r.room array.length = r₀) (h : (WriteData.arrayLike array).Kept r) {buffer : View}
    (hstore : buffer.store = r₀.allocPool) (hoffset : buffer.byteOffset = r₀.poolOffset) :
    array.ReadAhead buffer := by
  intro mem i j byte hj hi
  cases array with
  | array elements => rfl
  | view v =>
    subst hr₀
    simp only [WriteData.Kept, View.last] at h
    simp only [element, length, View.set] at hi h hstore hoffset ⊢
    split
    · exact blit_outside (by rw [List.length_singleton]; omega)
    · rfl

/-- `Files.write` passes on what `Buffer.from` makes of its data. -/
theorem filesWrite_ok {v8 : V8} {r : Realm} {path : JSString} {data : WriteData}
    {argument : WriteArgument} {request : WriteRequest} {r' : Realm}
    (h : (filesWrite v8 path data argument).run r = .ok request r') :
    ∃ view, (bufferFrom v8 (data.fromCall argument)).run r = .ok view r' ∧
      request = ⟨path, view, argument.flag data, argument.function⟩ := by
  rw [filesWrite, EStateM.run_bind] at h
  rcases hb : (bufferFrom v8 (data.fromCall argument)).run r with ⟨view, r''⟩ | ⟨e, r''⟩
  · rw [hb] at h
    cases h
    exact ⟨view, rfl, rfl⟩
  · rw [hb] at h
    cases h

theorem filesWrite_wellFormed {v8 : V8} (hv : v8.Documented) {r : Realm} (hr : r.WellFormed)
    {path : JSString} {data : WriteData} {argument : WriteArgument} {request : WriteRequest}
    {r' : Realm} (h : (filesWrite v8 path data argument).run r = .ok request r') :
    r'.WellFormed := by
  obtain ⟨view, hview, -⟩ := filesWrite_ok h
  have heff := bufferFrom_effect hv (data.fromCall argument) hr
  rw [hview] at heff
  exact (heff.grows hr []).wf

/-- A buffer that `Buffer.from` makes of the data holds the data. -/
theorem filesWrite_bytes {v8 : V8} (hv : v8.Documented) {r : Realm} (hr : r.WellFormed)
    {path : JSString} {data : WriteData} {argument : WriteArgument} (hkept : data.Kept r)
    {request : WriteRequest} {r' : Realm}
    (h : (filesWrite v8 path data argument).run r = .ok request r') :
    request.data.bytes r'.mem = data.bytes argument r.mem ∧ request.path = path ∧
      request.flag = argument.flag data := by
  obtain ⟨view, hview, rfl⟩ := filesWrite_ok h
  refine ⟨?_, rfl, rfl⟩
  cases data with
  | string s =>
    by_cases hs : s = []
    · subst hs
      obtain ⟨e, he⟩ := fromString_nil v8 (some argument.encoding) r
      rw [WriteData.fromCall, bufferFrom, he] at hview
      cases hview
    · rw [WriteData.fromCall, bufferFrom, fromString_run v8 hs,
        encodingOf_some argument.encoding_ne_nil] at hview
      rcases hops : getEncodingOps argument.encoding with e | (_ | ops)
      · rw [hops] at hview
        cases hview
      · rw [hops] at hview
        cases hview
      · rw [hops] at hview
        rw [WriteData.bytes, hops]
        exact (fromStringFast_ok hv hr hs hview).2
  | arrayLike array =>
    rw [WriteData.bytes]
    rcases Nat.eq_zero_or_pos array.length with hzero | hpos
    · have hempty : view.byteLength = 0 := by
        rw [WriteData.fromCall, bufferFrom, fromArrayLike_empty hzero] at hview
        cases hview
        rfl
      rw [hzero, View.bytes, hempty]
      rfl
    · by_cases hsmall : array.length < poolSize / 2
      · rw [WriteData.fromCall, bufferFrom,
          fromArrayLike_pooled hpos hsmall rfl (hr.room_fits hsmall)] at hview
        cases hview
        have hahead : array.ReadAhead ⟨(r.room array.length).allocPool,
            (r.room array.length).poolOffset, array.length, (hr.room_fits hsmall).2⟩ :=
          ArrayLike.readAhead_of_kept rfl hkept rfl rfl
        refine (slice_eq_list_iff (by simp)).2 fun i hi => ?_
        rw [List.getElem_map, List.getElem_range, ← Realm.room_mem r array.length]
        rw [List.length_map, List.length_range] at hi
        exact copiedMem_inside hahead _ (Nat.zero_le i) (by omega) (by simp) le_rfl
      · rw [WriteData.fromCall, bufferFrom, fromArrayLike_large (Nat.not_lt.1 hsmall)] at hview
        cases hview

/-- **The buffer that `Files.write` makes holds the first bytes of its store** exactly when the
store will begin with the data. -/
theorem filesWrite_first_iff {v8 : V8} (hv : v8.Documented) {r : Realm} (hr : r.WellFormed)
    {path : JSString} {data : WriteData} {argument : WriteArgument} (hkept : data.Kept r)
    {request : WriteRequest} {r' : Realm}
    (h : (filesWrite v8 path data argument).run r = .ok request r') :
    slice r'.mem request.data.store 0 request.data.byteLength = request.data.bytes r'.mem ↔
      data.First v8 argument r := by
  have hbytes := (filesWrite_bytes hv hr hkept h).1
  obtain ⟨view, hview, rfl⟩ := filesWrite_ok h
  have heff := bufferFrom_effect hv (data.fromCall argument) hr
  rw [hview] at heff
  change view.bytes r'.mem = data.bytes argument r.mem at hbytes
  change slice r'.mem view.store 0 view.byteLength = view.bytes r'.mem ↔ _
  cases heff with
  | direct _ _ hcall _ _ _ _ _ _ hoffset =>
    apply iff_of_true (by rw [View.bytes, hoffset]; rfl)
    intro n hn
    rw [hcall] at hn
    cases hn
  | carved n _ r₀ _ hcall hpos hr₀ hstore hoffset hlen hfits hnext hpool hsize hoff hmem =>
    subst hr₀
    have hlength : (data.bytes argument r.mem).length = n := by
      rw [← hbytes, View.bytes, length_slice, hlen]
    have hget : ∀ i < n, r'.mem view.store ((r.room n).poolOffset + i) =
        (data.bytes argument r.mem).getD i 0 := by
      rwa [View.bytes, hlen, hoffset, slice_eq_getD_iff hlength] at hbytes
    have hfirst : ∀ i < n, r'.mem view.store (0 + i) =
        if i < (r.room n).poolOffset then r.mem (r.room n).allocPool i
        else (data.bytes argument r.mem).getD (i - (r.room n).poolOffset) 0 := by
      intro i hi
      rw [zero_add]
      split
      · rw [hmem _ _ (.inr (by omega)), hstore, Realm.room_mem]
      · rw [← hget _ (by omega)]
        congr 1
        omega
    rw [hbytes, hlen, slice_eq_getD_iff hlength, WriteData.First]
    constructor
    · intro hslice k hk i hi
      obtain rfl : n = k := Option.some.inj (hcall.symm.trans hk)
      rw [← hfirst i hi, hslice i hi]
    · intro hdata i hi
      rw [hfirst i hi, hdata n hcall i hi]

/-- A program that writes files one after the other, and what they should hold. -/
structure WriteState where
  realm : Realm
  fs : CString → FileNode
  should : CString → List UInt8

/-- A step of the program: something else that changes its memory, or a call of `Files.write` whose
write completes. -/
inductive WriteLabel
  | other (op : RealmOp)
  | write (path : JSString) (data : WriteData) (argument : WriteArgument) (told : ℤ)

inductive WriteStep (v8 : V8) : WriteState → WriteLabel → WriteState → Prop
  | other {s op r'} (h : RealmStep v8 s.realm op r') :
      WriteStep v8 s (.other op) { s with realm := r' }
  | write {s path data argument told request r'}
      (hcall : (filesWrite v8 path data argument).run s.realm = .ok request r')
      (hw : (s.fs (toUtf8String v8 path)).Writable) :
      WriteStep v8 s (.write path data argument told)
        { realm := r'
          fs := Function.update s.fs (toUtf8String v8 path)
            ((request.task v8).execute (s.fs (toUtf8String v8 path)) told r'.mem).2.1
          should := Function.update s.should (toUtf8String v8 path)
            ((if (argument.flag data).head? = some 0x77 then []
              else s.should (toUtf8String v8 path)) ++ data.bytes argument s.realm.mem) }

/-- The condition of a write: `Buffer.from` copies the data as it was, to the beginning of a store
or behind the same bytes. -/
def WriteLabel.Faithful (v8 : V8) (s : WriteState) : WriteLabel → Prop
  | .other _ => True
  | .write _ data argument _ => data.Kept s.realm ∧ data.First v8 argument s.realm

/-- After loading, over any memory and any files. -/
def WriteState.Init (s : WriteState) : Prop :=
  (∃ mem, s.realm = Realm.load mem) ∧ ∀ path, s.should path = (s.fs path).content

/-- The realm is well formed, and the files hold what they should. -/
structure WriteState.Kept (s : WriteState) : Prop where
  wf : s.realm.WellFormed
  content : ∀ path, (s.fs path).content = s.should path

theorem WriteStep.kept {v8 : V8} (hv : v8.Documented) {s s' : WriteState} {l : WriteLabel}
    (h : WriteStep v8 s l s') (hl : l.Faithful v8 s) (hs : s.Kept) : s'.Kept := by
  cases h with
  | other h => exact ⟨h.wellFormed hv hs.wf, hs.content⟩
  | @write path data argument told request r' hcall hw =>
    obtain ⟨hkept, hdata⟩ := hl
    have hfirst := (filesWrite_first_iff hv hs.wf hkept hcall).2 hdata
    obtain ⟨hbytes, rfl, hflag⟩ := filesWrite_bytes hv hs.wf hkept hcall
    refine ⟨filesWrite_wellFormed hv hs.wf hcall, fun path => ?_⟩
    by_cases hp : path = toUtf8String v8 request.path
    · subst hp
      simp only [Function.update_self]
      rw [WriteRequest.task, (writeFileAsync_faithful_iff hv _ _ _ hw _ _).2 hfirst,
        hflag, hbytes, hs.content]
    · simp only [Function.update_of_ne hp]
      exact hs.content path

/-- **Asynchronous write fidelity.** A write to a writable file leaves the view's bytes, in place of
the old content or behind it as the flag says, exactly when the first bytes of the backing store
are the view's; and in every run of `Files.write` calls that meet this condition, one after the
other and with anything else in between, the files hold the data passed to the calls. -/
theorem writes_faithful {v8 : V8} (hv : v8.Documented) :
    (∀ (path : JSString) (data : View) (flag : JSString) (node : FileNode) (told : ℤ) (mem : Mem),
      node.Writable →
      (((writeFileAsync v8 path data flag).execute node told mem).2.1.content =
          (if flag.head? = some 0x77 then [] else node.content) ++ data.bytes mem ↔
        slice mem data.store 0 data.byteLength = data.bytes mem)) ∧
    ∀ s, Transition.Reachable WriteState.Init (fun s l s' => WriteStep v8 s l s' ∧ l.Faithful v8 s)
        s → ∀ path, (s.fs path).content = s.should path :=
  ⟨fun path data flag _ told mem hw => writeFileAsync_faithful_iff hv path data flag hw told mem,
    fun _ h => (Transition.Reachable.invariant (I := WriteState.Kept)
      (by
        rintro s ⟨⟨mem, hmem⟩, hc⟩
        exact ⟨hmem ▸ Realm.freshPool_wellFormed _, fun p => (hc p).symm⟩)
      (fun _ _ _ _ hs hl => hl.1.kept hv hl.2 hs) h).content⟩

/-- Appending a view that begins its store. -/
theorem writes_faithful_first :
    ((writeFileAsync V8.reference (jsString "f") ⟨0, 0, 2, by decide⟩ (jsString "a")).execute
        (.regular [0x61]) 0 fun _ _ => 0x62).2.1.content = [0x61, 0x62, 0x62] :=
  ((writes_faithful V8.reference_documented).1 (jsString "f") ⟨0, 0, 2, by decide⟩ (jsString "a")
    (.regular [0x61]) 0 (fun _ _ => 0x62) (FileNode.regular_writable _)).2 rfl

/-- The second of two small strings is written with the first bytes of the pool. -/
theorem write_misplaced :
    let (views, r) := fromRun V8.reference (Realm.load fun _ _ => 0)
      [.string (jsString "a") none, .string (jsString "b") none]
    ∃ v ∈ views, v.bytes r.mem = [0x62] ∧
      ((writeFileAsync V8.reference (jsString "f") v (jsString "w")).execute (.regular []) 0
        r.mem).2.1.content = [0x61] :=
  ⟨⟨0, 8, 1, by decide⟩, by decide, by decide, by decide⟩

end NanoJS

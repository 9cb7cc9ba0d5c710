import NanoJS.Files.Native

/-!
# Reads into a view

`readAsync` writes from the base address of the backing store; the offset of the view in its store
is not added, and nothing checks the range against the view. A read therefore goes into its target
exactly when the bytes read coincide with what is in the way (`readFileAsync_into_target_iff`), in
particular into a view that begins its store.
-/

namespace NanoJS

open ByteMemory

/-- The number of bytes of a read. -/
def readCount (content : List UInt8) (length position : ℤ) : ℕ :=
  min length.toNat (content.length - position.toNat)

theorem FileNode.Readable.read_eq {node : FileNode} (hr : node.Readable) {length position : ℤ}
    (hpos : 0 ≤ position) :
    node.read length position = (node.content.drop position.toNat).take length.toNat := by
  simp [FileNode.read, hr.1, hr.2, hpos]

theorem FileNode.Readable.length_read {node : FileNode} (hr : node.Readable) {length position : ℤ}
    (hpos : 0 ≤ position) :
    (node.read length position).length = readCount node.content length position := by
  rw [hr.read_eq hpos, readCount, List.length_take, List.length_drop]

theorem FileNode.Readable.getD_read {node : FileNode} (hr : node.Readable) {length position : ℤ}
    (hpos : 0 ≤ position) {i : ℕ} (hi : i < readCount node.content length position) :
    (node.read length position).getD i 0 = node.content.getD (position.toNat + i) 0 := by
  rw [readCount] at hi
  rw [hr.read_eq hpos, List.getD_eq_getElem?_getD, List.getD_eq_getElem?_getD,
    List.getElem?_take_of_lt (by omega), List.getElem?_drop]

/-- The addresses of the store that `readAsync` writes. -/
def readFootprint (node : FileNode) (offset length position : ℤ) (a : ℤ) : Prop :=
  offset ≤ a ∧ a < offset + (node.read length position).length

/-- What a read should do: put the bytes of the file at `offset` of the view, change nothing else,
and report their number. -/
structure ReadsInto (array : View) (offset length position : ℤ) (content : List UInt8)
    (mem mem' : Mem) (args : List Value) : Prop where
  target : ∀ i < readCount content length position,
    mem' array.store (array.byteOffset + offset + i) = content.getD (position.toNat + i) 0
  frame : ∀ (s : ℕ) (a : ℤ), ¬(s = array.store ∧ array.byteOffset + offset ≤ a ∧
    a < array.byteOffset + offset + readCount content length position) → mem' s a = mem s a
  args : args = [.null, .int (readCount content length position)]

/-- The bytes to be read coincide with what is in the way of writing them without the view's
offset. -/
def Coincides (array : View) (offset length position : ℤ) (content : List UInt8) (mem : Mem) :
    Prop :=
  ∀ i < readCount content length position,
    (i < array.byteOffset → mem array.store (offset + i) = content.getD (position.toNat + i) 0) ∧
    (readCount content length position ≤ i + array.byteOffset →
      mem array.store (array.byteOffset + offset + i) = content.getD (position.toNat + i) 0) ∧
    (i + array.byteOffset < readCount content length position →
      content.getD (position.toNat + (i + array.byteOffset)) 0 =
        content.getD (position.toNat + i) 0)

/-- In a view that begins its store nothing is in the way. -/
theorem coincides_of_first {array : View} (h : array.byteOffset = 0) {offset length position : ℤ}
    {content : List UInt8} {mem : Mem} : Coincides array offset length position content mem := by
  intro i hi
  rw [h]
  exact ⟨fun hlt => absurd hlt (Nat.not_lt_zero i), fun hle => by omega, fun _ => rfl⟩

theorem readsInto_iff {node : FileNode} (hr : node.Readable) {array : View}
    {offset length position : ℤ} (hpos : 0 ≤ position) (hlen : length ≤ kMaxLength) (mem : Mem) :
    ReadsInto array offset length position node.content mem
        (readAsync node array.store offset length position mem).1
        (readAsync node array.store offset length position mem).2 ↔
      Coincides array offset length position node.content mem := by
  have hcount : (node.read length position).length = readCount node.content length position :=
    hr.length_read hpos
  have hget : ∀ i < readCount node.content length position,
      (node.read length position).getD i 0 = node.content.getD (position.toNat + i) 0 :=
    fun i hi => hr.getD_read hpos hi
  have hk : kMaxLength = 2147483647 := rfl
  have hargs : (readAsync node array.store offset length position mem).2 =
      [.null, .int (readCount node.content length position)] := by
    rw [readAsync, hcount, toInt32_of_lt (by omega) (by rw [readCount]; omega)]
  have hmem : ReadsInto array offset length position node.content mem
      (readAsync node array.store offset length position mem).1
      (readAsync node array.store offset length position mem).2 ↔
      blit mem array.store offset (node.read length position) =
        blit mem array.store (array.byteOffset + offset) (node.read length position) := by
    rw [eq_blit_iff, hcount]
    constructor
    · intro h
      refine ⟨fun i hi => ?_, h.frame⟩
      rw [hget i hi]
      exact h.target i hi
    · rintro ⟨hin, hout⟩
      refine ⟨fun i hi => ?_, hout, hargs⟩
      rw [← hget i hi]
      exact hin i hi
  rw [hmem, blit_eq_blit_iff, hcount, Coincides]
  apply forall₂_congr
  intro i hi
  rw [hget i hi]
  refine and_congr Iff.rfl (and_congr Iff.rfl (forall_congr' fun hd => ?_))
  rw [hget _ hd]

/-- **A read goes into its target exactly when the bytes coincide.** For offsets that fit into the
view the read is as it should be if and only if the bytes read coincide with what is in the way of
writing them without the view's offset; for others nothing outside the view is written if and only
if nothing is read, or the range that is written, from the base of the store, lies in the view. -/
theorem readFileAsync_into_target_iff (v8 : V8) (path : JSString) (array : View)
    (options : ReadOptions) {node : FileNode} (hr : node.Readable) (told : ℤ) (mem : Mem)
    (offset length position : ℤ) (hoptions : integerValue options.offset = offset ∧
      integerValue options.length = length ∧ integerValue options.position = position)
    (hoff : 0 ≤ offset) (hlen : 0 ≤ length) (hpos : 0 ≤ position) :
    ((offset + length ≤ array.byteLength →
        ReadsInto array offset length position node.content mem
          ((readFileAsync v8 path array options).execute node told mem).1
          ((readFileAsync v8 path array options).execute node told mem).2.2) ∧
      (array.byteLength < offset + length →
        ∀ a, readFootprint node offset length position a →
          array.byteOffset ≤ a ∧ a < array.byteOffset + array.byteLength)) ↔
    ((offset + length ≤ array.byteLength →
        Coincides array offset length position node.content mem) ∧
      (array.byteLength < offset + length →
        readCount node.content length position = 0 ∨
          (array.byteOffset ≤ offset ∧ offset + readCount node.content length position ≤
            array.byteOffset + array.byteLength))) := by
  obtain ⟨rfl, rfl, rfl⟩ := hoptions
  refine and_congr (forall_congr' fun hfits => ?_) (forall_congr' fun hlong => ?_)
  · have := array.le_max
    exact readsInto_iff hr hpos (by omega) mem
  · simp only [readFootprint, hr.length_read hpos]
    constructor
    · intro h
      by_cases hzero : readCount node.content (integerValue options.length)
          (integerValue options.position) = 0
      · exact .inl hzero
      · have h₁ := h (integerValue options.offset) (by omega)
        have h₂ := h (integerValue options.offset + readCount node.content
          (integerValue options.length) (integerValue options.position) - 1) (by omega)
        exact .inr (by omega)
    · rintro (hzero | hin) a ha
      · omega
      · omega

/-- A read of two bytes from the second byte of a file on, into a view that begins its store. -/
theorem readFileAsync_into_target_iff_first :
    let view : View := ⟨0, 0, 4, by decide⟩
    let task := readFileAsync V8.reference (jsString "f") view
      ⟨some (.fin 1), some (.fin 2), some (.fin 1)⟩
    ReadsInto view 1 2 1 [0x61, 0x62, 0x63] (fun _ _ => 0)
      (task.execute (.regular [0x61, 0x62, 0x63]) 0 fun _ _ => 0).1
      (task.execute (.regular [0x61, 0x62, 0x63]) 0 fun _ _ => 0).2.2 :=
  ((readFileAsync_into_target_iff V8.reference (jsString "f") ⟨0, 0, 4, by decide⟩
    ⟨some (.fin 1), some (.fin 2), some (.fin 1)⟩ (FileNode.regular_readable _) 0 (fun _ _ => 0)
    1 2 1 (by decide) (by decide) (by decide) (by decide)).2
    ⟨fun _ => coincides_of_first rfl, fun h => absurd h (by decide)⟩).1 (by decide)

/-- A byte of a file, read into a view that does not begin its store, goes to the first byte of the
store. -/
theorem read_misplaced :
    let view : View := ⟨0, 8, 1, by decide⟩
    let task := readFileAsync V8.reference (jsString "f") view
      ⟨some (.fin 0), some (.fin 1), some (.fin 0)⟩
    ¬ReadsInto view 0 1 0 [0x61] (fun _ _ => 0)
      (task.execute (.regular [0x61]) 0 fun _ _ => 0).1
      (task.execute (.regular [0x61]) 0 fun _ _ => 0).2.2 := by
  intro view task h
  have := h.target 0 (by decide)
  revert this
  decide

end NanoJS

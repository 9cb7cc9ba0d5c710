import NanoJS.Buffers.From

/-!
# Encoding names

An encoding is meant to be named by four names, in upper or lower case. `getEncodingOps` compares
the name with those of its length, and then lowers its case with a function that does not exist. So
it knows the four names as they are written and the names of other lengths, and throws at the
others; `Buffer.from` and `toString` with it (`encoding_names_iff`).
-/

namespace NanoJS

/-! ## Names -/

/-- An ASCII letter in lower case. -/
def asciiLower (u : UInt16) : UInt16 := if 0x41 ≤ u.toNat ∧ u.toNat ≤ 0x5A then u + 0x20 else u

/-- The encoding that a name is written as. -/
def exactOps (encoding : JSString) : Option Encoding :=
  if encoding = jsString "utf8" ∨ encoding = jsString "utf-8" then some .utf8
  else if encoding = jsString "utf16le" ∨ encoding = jsString "utf-16le" then some .utf16le
  else none

/-- The encoding that a name is meant to name. -/
def namedOps (encoding : JSString) : Option Encoding := exactOps (encoding.map asciiLower)

/-- The names, as they are written. -/
def encodingNames : List JSString :=
  [jsString "utf8", jsString "utf-8", jsString "utf16le", jsString "utf-16le"]

/-- The lengths of the names. -/
def nameLengths : List ℕ := [4, 5, 7, 8]

theorem exactOps_isSome_iff {encoding : JSString} :
    (exactOps encoding).isSome = true ↔ encoding ∈ encodingNames := by
  simp only [exactOps, encodingNames, List.mem_cons, List.not_mem_nil, or_false]
  split
  · simp only [Option.isSome_some, true_iff]
    tauto
  · split
    · simp only [Option.isSome_some, true_iff]
      tauto
    · simp only [Option.isSome_none, Bool.false_eq_true, false_iff]
      tauto

theorem exactOps_eq_none_iff {encoding : JSString} :
    exactOps encoding = none ↔ encoding ∉ encodingNames := by
  rw [← Option.not_isSome_iff_eq_none, exactOps_isSome_iff]

theorem length_encodingNames : ∀ s ∈ encodingNames, s.length ∈ nameLengths := by decide

/-- Lowering the case leaves the names as they are. -/
theorem lower_encodingNames : ∀ s ∈ encodingNames, s.map asciiLower = s := by decide

theorem getEncodingOps_encodingNames :
    ∀ s ∈ encodingNames, getEncodingOps s = .ok (exactOps s) := by decide

theorem namedOps_encodingNames {encoding : JSString} (h : encoding ∈ encodingNames) :
    namedOps encoding = exactOps encoding := by
  rw [namedOps, lower_encodingNames encoding h]

/-- A name of another length names nothing. -/
theorem namedOps_of_length {encoding : JSString} (h : encoding.length ∉ nameLengths) :
    namedOps encoding = none := by
  rw [namedOps, exactOps_eq_none_iff]
  intro hname
  have hlen := length_encodingNames _ hname
  rw [List.length_map] at hlen
  exact h hlen

/-- **What `getEncodingOps` does**: it knows a name as it is written, and throws at the others of
the same lengths. -/
theorem getEncodingOps_eq (encoding : JSString) :
    getEncodingOps encoding =
      if encoding.length ∈ nameLengths ∧ encoding ∉ encodingNames then
        .error (.referenceError "StringPrototypeToLowerCase")
      else .ok (exactOps encoding) := by
  by_cases hname : encoding ∈ encodingNames
  · rw [getEncodingOps_encodingNames encoding hname, if_neg fun h => h.2 hname]
  · have hnone := exactOps_eq_none_iff.2 hname
    have hname' := hname
    simp only [encodingNames, List.mem_cons, List.not_mem_nil, or_false, not_or] at hname'
    unfold getEncodingOps
    split <;> simp_all [nameLengths]

theorem getEncodingOps_iff (encoding : JSString) :
    getEncodingOps encoding = .ok (namedOps encoding) ↔
      encoding ∈ encodingNames ∨ encoding.length ∉ nameLengths := by
  rw [getEncodingOps_eq]
  by_cases hname : encoding ∈ encodingNames
  · simp [hname, namedOps_encodingNames hname]
  · by_cases hlen : encoding.length ∈ nameLengths
    · simp [hname, hlen]
    · simp [hlen, exactOps_eq_none_iff.2 hname, namedOps_of_length hlen]

/-- The encoding of a name that is known. -/
theorem getEncodingOps_eq_some_iff {encoding : JSString} {ops : Encoding} :
    getEncodingOps encoding = .ok (some ops) ↔ exactOps encoding = some ops := by
  rw [getEncodingOps_eq]
  split
  · rename_i h
    simp [exactOps_eq_none_iff.2 h.2]
  · simp

/-! ## `Buffer.from` of a string -/

/-- A name is given, and it names nothing. -/
def Unrecognised (encoding : JSValue) : Prop :=
  ∃ name, encoding.asString = some name ∧ name ≠ [] ∧ namedOps name = none

/-- The encoding of an argument, when a name that is given is written as it is known. -/
def writtenOps (encoding : JSValue) : Option Encoding :=
  match encoding.asString with
  | none | some [] => some .utf8
  | some name => exactOps name

theorem encodingOf_eq_some_iff {encoding : JSValue} {ops : Encoding} :
    encodingOf encoding.asString = .ok (some ops) ↔ writtenOps encoding = some ops := by
  unfold writtenOps
  rcases encoding.asString with _ | _ | ⟨u, rest⟩
  · simp [encodingOf]
  · simp [encodingOf]
  · exact getEncodingOps_eq_some_iff

/-- What is not recognised is not written as it is known. -/
theorem Unrecognised.writtenOps_eq_none {encoding : JSValue} (h : Unrecognised encoding) :
    writtenOps encoding = none := by
  obtain ⟨name, hname, hne, hnone⟩ := h
  have hexact : exactOps name = none := by
    rw [exactOps_eq_none_iff]
    intro hmem
    have hsome := exactOps_isSome_iff.2 hmem
    rw [← namedOps_encodingNames hmem, hnone] at hsome
    cases hsome
  unfold writtenOps
  rw [hname]
  rcases name with _ | ⟨u, rest⟩
  · exact absurd rfl hne
  · exact hexact

theorem stringRefused_iff {v8 : V8} {s : JSString} {encoding : JSValue} :
    StringRefused v8 s encoding ↔
      ¬(s ≠ [] ∧ ∃ ops, writtenOps encoding = some ops ∧ ops.byteLength v8 s ≤ kMaxLength) := by
  simp only [StringRefused, encodingOf_eq_some_iff]
  push Not
  rw [or_iff_not_imp_left]

/-- Decoding does not throw. -/
theorem Encoding.decodeToString_run (ops : Encoding) (v8 : V8) (buf : View) (r : Realm) :
    ∃ str, (ops.decodeToString v8 buf).run r = .ok str r := by
  cases ops with
  | utf8 => exact ⟨_, rfl⟩
  | utf16le => exact ⟨_, rfl⟩

namespace Platform

variable (p : Platform)

theorem bufferFrom_string_iff (hv : p.v8.Documented) {r : Realm} (hr : r.WellFormed)
    (s : JSString) (encoding length : JSValue) :
    ((∃ e r', (p.bufferFrom encoding length (.string s)).run r = .error e r') ↔
        StringRefused p.v8.toV8 s encoding) ∧
      ((∃ v r', (p.bufferFrom encoding length (.string s)).run r = .ok (some v) r') ↔
        ¬StringRefused p.v8.toV8 s encoding) := by
  rw [← fromString_refused_iff hv.toDocumented hr, bufferFrom, some_map_run]
  cases (fromString p.v8.toV8 s encoding.asString).run r <;> simp

/-- `Buffer.from(s, encoding)` throws for a name that is not recognised, and returns a buffer for
every other argument. -/
def FromAnyName (s : JSString) (encoding : JSValue) (r : Realm) : Prop :=
  ∀ length,
    (Unrecognised encoding →
      ∃ e r', (p.bufferFrom encoding length (.string s)).run r = .error e r') ∧
    (¬Unrecognised encoding →
      ∃ v r', (p.bufferFrom encoding length (.string s)).run r = .ok (some v) r')

theorem fromAnyName_iff (hv : p.v8.Documented) {r : Realm} (hr : r.WellFormed) (s : JSString)
    (encoding : JSValue) :
    p.FromAnyName s encoding r ↔
      Unrecognised encoding ∨ (s ≠ [] ∧ ∃ ops, writtenOps encoding = some ops ∧
        ops.byteLength p.v8.toV8 s ≤ kMaxLength) := by
  have hnone : Unrecognised encoding → ¬∃ ops, writtenOps encoding = some ops ∧
      ops.byteLength p.v8.toV8 s ≤ kMaxLength := by
    rintro h ⟨ops, hops, -⟩
    rw [h.writtenOps_eq_none] at hops
    cases hops
  have hthrows := fun length => (p.bufferFrom_string_iff hv hr s encoding length).1
  have hreturns := fun length => (p.bufferFrom_string_iff hv hr s encoding length).2
  simp only [FromAnyName, hthrows, hreturns, stringRefused_iff]
  constructor
  · intro h
    have hone := (h .undefined).2
    tauto
  · intro h length
    exact ⟨fun hun hgood => hnone hun hgood.2, fun hun hbad => hbad (h.resolve_left hun)⟩

/-! ## `toString` -/

/-- The name that `toString` reads its argument as. -/
def nameOf (encoding : JSValue) : Except JSError JSString :=
  p.encodingName (if encoding.isNullish then .string (jsString "utf-8") else encoding)

/-- `FastBuffer.prototype.toString`. There is no string when the process ends. -/
def bufferToString (buf : View) (encoding : JSValue) : JS (Option JSString) := do
  match ← ofExcept (p.encodingOps
    (if encoding.isNullish then .string (jsString "utf-8") else encoding)) with
  | none => throw (.error "No such encoding exists")
  | some ops => ops.decodeToString p.v8.toV8 buf

theorem bufferToString_run (buf : View) (encoding : JSValue) (r : Realm) :
    (p.bufferToString buf encoding).run r =
      match p.nameOf encoding with
      | .error e => .error e r
      | .ok name =>
        match getEncodingOps name with
        | .error e => .error e r
        | .ok none => .error (.error "No such encoding exists") r
        | .ok (some ops) => (ops.decodeToString p.v8.toV8 buf).run r := by
  have hops : p.encodingOps (if encoding.isNullish then .string (jsString "utf-8") else encoding) =
      p.nameOf encoding >>= getEncodingOps := rfl
  unfold bufferToString
  rw [hops]
  cases p.nameOf encoding with
  | error e => rfl
  | ok name =>
    have hbind : (Except.ok name >>= getEncodingOps) = getEncodingOps name := rfl
    rw [hbind]
    dsimp only
    rcases getEncodingOps name with e | _ | ops <;> rfl

/-- `toString(encoding)` throws exactly when its argument is no name, or names nothing. -/
def ToAnyName (buf : View) (encoding : JSValue) (r : Realm) : Prop :=
  (∃ e r', (p.bufferToString buf encoding).run r = .error e r') ↔
    ∀ name, p.nameOf encoding = .ok name → namedOps name = none

theorem toAnyName_iff (buf : View) (encoding : JSValue) (r : Realm) :
    p.ToAnyName buf encoding r ↔
      ∀ name, p.nameOf encoding = .ok name → namedOps name = none ∨ name ∈ encodingNames := by
  unfold ToAnyName
  rw [bufferToString_run]
  cases p.nameOf encoding with
  | error e => simp
  | ok name =>
    simp only [Except.ok.injEq, forall_eq']
    rw [getEncodingOps_eq]
    by_cases hname : name ∈ encodingNames
    · obtain ⟨ops, hops⟩ := Option.isSome_iff_exists.1 (exactOps_isSome_iff.2 hname)
      obtain ⟨str, hstr⟩ := ops.decodeToString_run p.v8.toV8 buf r
      simp [hname, hops, hstr, namedOps_encodingNames hname]
    · by_cases hlen : name.length ∈ nameLengths
      · simp [hname, hlen]
      · simp [hlen, exactOps_eq_none_iff.2 hname, namedOps_of_length hlen]

/-- **Encoding names.** `getEncodingOps` finds what a name is meant to name exactly when it is
written as it is known, or is of another length; in every reachable realm `Buffer.from` of a string
throws for the names that are not recognised and returns a buffer otherwise exactly for those names,
and for strings that are not empty, with no name or one that is written as it is known, if a typed
array can be so long; and `toString` throws for what is not recognised alone exactly when a name
that is recognised is written as it is known. -/
theorem encoding_names_iff (hv : p.v8.Documented) {r : Realm}
    (hr : Realm.Reachable p.v8.toV8 r) :
    (∀ encoding, getEncodingOps encoding = .ok (namedOps encoding) ↔
      encoding ∈ encodingNames ∨ encoding.length ∉ nameLengths) ∧
    (∀ s encoding, p.FromAnyName s encoding r ↔
      Unrecognised encoding ∨ (s ≠ [] ∧ ∃ ops, writtenOps encoding = some ops ∧
        ops.byteLength p.v8.toV8 s ≤ kMaxLength)) ∧
    ∀ buf encoding, p.ToAnyName buf encoding r ↔
      ∀ name, p.nameOf encoding = .ok name → namedOps name = none ∨ name ∈ encodingNames :=
  ⟨getEncodingOps_iff, p.fromAnyName_iff hv (hr.wellFormed hv.toDocumented),
    fun buf encoding => p.toAnyName_iff buf encoding r⟩

/-- `Buffer.from('a', 'utf-8')` and `toString()` -/
theorem encoding_names_utf8 :
    reference.FromAnyName (jsString "a") (.string (jsString "utf-8")) (Realm.load fun _ _ => 0) ∧
      reference.ToAnyName ⟨0, 0, 1, by decide⟩ .undefined (Realm.load fun _ _ => 0) := by
  obtain ⟨-, hfrom, hto⟩ := reference.encoding_names_iff FillV8.reference_documented
    (r := Realm.load fun _ _ => 0) (.start ⟨_, rfl⟩)
  refine ⟨(hfrom _ _).2 (.inr ⟨by decide, .utf8, rfl, by decide⟩), (hto _ _).2 fun name hname => ?_⟩
  cases hname
  exact .inr (by decide)

/-- `getEncodingOps('UTF8')`, `Buffer.from('')` and `toString('UTF-8')` throw. -/
theorem encoding_names_throw :
    getEncodingOps (jsString "UTF8") ≠ .ok (namedOps (jsString "UTF8")) ∧
      ¬reference.FromAnyName [] .undefined (Realm.load fun _ _ => 0) ∧
      ¬reference.ToAnyName ⟨0, 0, 1, by decide⟩ (.string (jsString "UTF-8"))
        (Realm.load fun _ _ => 0) := by
  refine ⟨by decide, ?_, ?_⟩
  · have hr : (Realm.load fun _ _ => 0).WellFormed := Realm.freshPool_wellFormed _
    rw [reference.fromAnyName_iff FillV8.reference_documented hr]
    rintro (⟨name, hname, -⟩ | ⟨hne, -⟩)
    · cases hname
    · exact hne rfl
  · rw [toAnyName_iff]
    intro h
    exact absurd (h _ rfl) (by decide)

end Platform

end NanoJS

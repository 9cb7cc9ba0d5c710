import Mathlib.Data.List.TakeWhile
import Mathlib.Data.Nat.Notation

/-!
# UTF-16 and UTF-8

Strings of UTF-16 code units against sequences of characters. `decode` reads a string, a lone
surrogate as U+FFFD; `encode` writes characters. On well-formed strings they are inverse to each
other (`encode_decode`). The UTF-8 encoding of a string is that of its characters; its bytes before
the first zero byte are the encoding of the characters before the first NUL
(`takeWhile_utf8Chars`). An encoding that does not replace lone surrogates (`utf8Raw`) agrees with
it up to the first of them (`take_utf8Raw_iff`).
-/

namespace Utf16

/-! ## Code units -/

def isHigh (u : UInt16) : Bool := 0xD800 ≤ u.toNat && u.toNat < 0xDC00

def isLow (u : UInt16) : Bool := 0xDC00 ≤ u.toNat && u.toNat < 0xE000

/-- The character of a code unit that is not in a pair. -/
def single (u : UInt16) : Char :=
  if isHigh u || isLow u then Char.ofNat 0xFFFD else Char.ofNat u.toNat

/-- The character of a surrogate pair. -/
def pair (u v : UInt16) : Char :=
  Char.ofNat (0x10000 + (u.toNat - 0xD800) * 0x400 + (v.toNat - 0xDC00))

def encodeChar (c : Char) : List UInt16 :=
  if c.toNat < 0x10000 then [.ofNat c.toNat]
  else
    [.ofNat (0xD800 + (c.toNat - 0x10000) / 0x400), .ofNat (0xDC00 + (c.toNat - 0x10000) % 0x400)]

theorem toNat_ofNat_of_isValidChar {n : ℕ} (h : n.isValidChar) : (Char.ofNat n).toNat = n := by
  rw [Char.ofNat, dif_pos h]
  rfl

/-- A unit that is no surrogate stands for itself. -/
theorem toNat_single {u : UInt16} (h : ¬(isHigh u || isLow u) = true) :
    (single u).toNat = u.toNat := by
  have hlt := u.toNat_lt
  have hvalid : u.toNat.isValidChar := by
    simp only [isHigh, isLow, Bool.or_eq_true, Bool.and_eq_true, decide_eq_true_eq] at h
    simp only [Nat.isValidChar]
    omega
  rw [single, if_neg h]
  exact toNat_ofNat_of_isValidChar hvalid

theorem encodeChar_single {u : UInt16} (h₁ : isHigh u = false) (h₂ : isLow u = false) :
    encodeChar (single u) = [u] := by
  have hnat : (single u).toNat = u.toNat := toNat_single (by simp [h₁, h₂])
  rw [encodeChar, hnat, if_pos u.toNat_lt, UInt16.ofNat_toNat]

theorem encodeChar_pair {u v : UInt16} (h₁ : isHigh u = true) (h₂ : isLow v = true) :
    encodeChar (pair u v) = [u, v] := by
  simp only [isHigh, isLow, Bool.and_eq_true, decide_eq_true_eq] at h₁ h₂
  have hnat : (pair u v).toNat =
      0x10000 + (u.toNat - 0xD800) * 0x400 + (v.toNat - 0xDC00) :=
    toNat_ofNat_of_isValidChar (by simp only [Nat.isValidChar]; omega)
  have hu : 0xD800 + ((pair u v).toNat - 0x10000) / 0x400 = u.toNat := by omega
  have hv : 0xDC00 + ((pair u v).toNat - 0x10000) % 0x400 = v.toNat := by omega
  rw [encodeChar, if_neg (by omega), hu, hv, UInt16.ofNat_toNat, UInt16.ofNat_toNat]

/-! ## Strings -/

def encode (l : List Char) : List UInt16 := l.flatMap encodeChar

/-- The characters of a string, a lone surrogate replaced by U+FFFD. -/
def decode : List UInt16 → List Char
  | [] => []
  | [u] => [single u]
  | u :: v :: rest =>
    if isHigh u && isLow v then pair u v :: decode rest else single u :: decode (v :: rest)

/-- No surrogate is alone. -/
def WellFormed : List UInt16 → Prop
  | [] => True
  | [u] => isHigh u = false ∧ isLow u = false
  | u :: v :: rest =>
    if isHigh u && isLow v then WellFormed rest
    else (isHigh u = false ∧ isLow u = false) ∧ WellFormed (v :: rest)

/-- **A well-formed string is the encoding of its characters.** -/
theorem encode_decode {s : List UInt16} (h : WellFormed s) : encode (decode s) = s := by
  induction s using decode.induct with
  | case1 => rfl
  | case2 u => simpa [decode, encode] using encodeChar_single h.1 h.2
  | case3 u v rest hp ih =>
    rw [WellFormed, if_pos hp] at h
    rw [Bool.and_eq_true] at hp
    rw [decode, if_pos (by simpa using hp), encode, List.flatMap_cons, encodeChar_pair hp.1 hp.2]
    exact congrArg ([u, v] ++ ·) (ih h)
  | case4 u v rest hp ih =>
    rw [WellFormed, if_neg hp] at h
    rw [decode, if_neg hp, encode, List.flatMap_cons, encodeChar_single h.1.1 h.1.2]
    exact congrArg ([u] ++ ·) (ih h.2)

theorem decode_ne_nil {s : List UInt16} (h : s ≠ []) : decode s ≠ [] := by
  rcases s with _ | ⟨u, _ | ⟨v, rest⟩⟩
  · exact absurd rfl h
  · simp [decode]
  · rw [decode]
    split <;> simp

/-! ## Bytes -/

/-- The UTF-8 encoding of characters. -/
def utf8Chars (l : List Char) : List UInt8 := l.flatMap String.utf8EncodeChar

/-- The UTF-8 encoding of a string, lone surrogates replaced by U+FFFD. -/
def utf8 (s : List UInt16) : List UInt8 := utf8Chars (decode s)

/-- The little-endian bytes of a code unit. -/
def unitBytes (u : UInt16) : List UInt8 := [u.toUInt8, (u >>> 8).toUInt8]

/-- The UTF-16LE encoding of a string: its code units. -/
def utf16le (s : List UInt16) : List UInt8 := s.flatMap unitBytes

theorem length_utf16le (s : List UInt16) : (utf16le s).length = 2 * s.length := by
  induction s with
  | nil => rfl
  | cons u s ih =>
    rw [utf16le, List.flatMap_cons, List.length_append] at *
    simp only [unitBytes, List.length_cons, List.length_nil]
    omega

theorem utf8_ne_nil {s : List UInt16} (h : s ≠ []) : utf8 s ≠ [] := by
  obtain ⟨c, l, hc⟩ := List.exists_cons_of_ne_nil (decode_ne_nil h)
  simp [utf8, utf8Chars, hc, String.utf8EncodeChar_ne_nil]

/-- The first byte of a character is an ASCII byte only for that ASCII character. -/
theorem head_utf8EncodeChar {c : Char} {b : ℕ} (hb : b < 0x80) :
    (String.utf8EncodeChar c).head? = some (.ofNat b) ↔ c.toNat = b := by
  have hc : c.val.toNat = c.toNat := rfl
  have hbyte : ∀ n, UInt8.ofNat n = .ofNat b ↔ n % 256 = b := by
    intro n
    rw [← UInt8.toNat_inj, UInt8.toNat_ofNat', UInt8.toNat_ofNat']
    omega
  rw [String.utf8EncodeChar]
  simp only [hc]
  -- the lead byte of a sequence of two, three or four bytes is at least `0xC0`
  split
  · rw [List.head?_cons, Option.some_inj, hbyte]
    omega
  · split
    · rw [List.head?_cons, Option.some_inj, hbyte]
      omega
    · split <;>
      · rw [List.head?_cons, Option.some_inj, hbyte]
        omega

theorem head_utf8Chars {c : Char} {l : List Char} :
    (utf8Chars (c :: l)).head? = (String.utf8EncodeChar c).head? := by
  rw [utf8Chars, List.flatMap_cons]
  rcases h : String.utf8EncodeChar c with _ | ⟨b, rest⟩
  · exact absurd h String.utf8EncodeChar_ne_nil
  · rfl

theorem toNat_single_eq_iff {u : UInt16} {b : ℕ} (hb : b < 0x80) :
    (single u).toNat = b ↔ u.toNat = b := by
  by_cases h : (isHigh u || isLow u) = true
  · rw [single, if_pos h]
    simp only [isHigh, isLow, Bool.or_eq_true, Bool.and_eq_true, decide_eq_true_eq] at h
    have : (Char.ofNat 0xFFFD).toNat = 0xFFFD := rfl
    omega
  · rw [toNat_single h]

/-- The UTF-8 encoding of a string begins with an ASCII byte exactly when the string does. -/
theorem head_utf8 {s : List UInt16} {b : ℕ} (hb : b < 0x80) :
    (utf8 s).head? = some (.ofNat b) ↔ s.head?.map UInt16.toNat = some b := by
  rcases s with _ | ⟨u, _ | ⟨v, rest⟩⟩
  · simp [utf8, utf8Chars, decode]
  · rw [utf8, decode, head_utf8Chars, head_utf8EncodeChar hb, toNat_single_eq_iff hb]
    simp
  · rw [utf8, decode]
    split
    · rename_i h
      simp only [isHigh, isLow, Bool.and_eq_true, decide_eq_true_eq] at h
      have hpair : (pair u v).toNat =
          0x10000 + (u.toNat - 0xD800) * 0x400 + (v.toNat - 0xDC00) :=
        toNat_ofNat_of_isValidChar (by simp only [Nat.isValidChar]; omega)
      rw [head_utf8Chars, head_utf8EncodeChar hb, hpair, List.head?_cons, Option.map_some,
        Option.some_inj]
      omega
    · rw [head_utf8Chars, head_utf8EncodeChar hb, toNat_single_eq_iff hb]
      simp

/-! ## Strings up to a terminator -/

/-- Cutting before the first element that fails commutes with an encoding whose blocks fail at
once or nowhere. -/
theorem takeWhile_flatMap {α β : Type*} {f : α → List β} {p : β → Bool} {q : α → Bool}
    (hpos : ∀ a, q a = true → ∀ b ∈ f a, p b = true)
    (hneg : ∀ a, q a = false → ∃ b rest, f a = b :: rest ∧ p b = false) (l : List α) :
    (l.flatMap f).takeWhile p = (l.takeWhile q).flatMap f := by
  induction l with
  | nil => rfl
  | cons a l ih =>
    rw [List.flatMap_cons]
    cases h : q a with
    | true =>
      rw [List.takeWhile_cons_of_pos h, List.flatMap_cons, List.takeWhile_append_of_pos (hpos a h),
        ih]
    | false =>
      obtain ⟨b, rest, hfa, hb⟩ := hneg a h
      have hb' : ¬p b = true := by simp [hb]
      have hq : ¬q a = true := by simp [h]
      rw [hfa, List.cons_append, List.takeWhile_cons_of_neg hb', List.takeWhile_cons_of_neg hq]
      rfl

theorem zero_mem_utf8EncodeChar {c : Char} : 0 ∈ String.utf8EncodeChar c ↔ c.toNat = 0 := by
  have hc : c.val.toNat = c.toNat := rfl
  have hlt : c.toNat < 0x110000 := by
    have := c.valid
    simp only [UInt32.isValidChar, Nat.isValidChar, hc] at this
    omega
  have hbyte : ∀ n, (0 : UInt8) = .ofNat n ↔ n % 256 = 0 := by
    intro n
    rw [← UInt8.toNat_inj, UInt8.toNat_ofNat', eq_comm]
    simp
  rw [String.utf8EncodeChar]
  simp only [hc]
  -- every byte of a sequence of two, three or four bytes is at least `0x80`
  split
  · rw [List.mem_singleton, hbyte]
    omega
  · split
    · simp only [List.mem_cons, List.not_mem_nil, or_false, hbyte]
      omega
    · split <;>
      · simp only [List.mem_cons, List.not_mem_nil, or_false, hbyte]
        omega

theorem zero_mem_encodeChar {c : Char} : 0 ∈ encodeChar c ↔ c.toNat = 0 := by
  have hlt : c.toNat < 0x110000 := by
    have := c.valid
    have hc : c.val.toNat = c.toNat := rfl
    simp only [UInt32.isValidChar, Nat.isValidChar, hc] at this
    omega
  have hunit : ∀ n, (0 : UInt16) = .ofNat n ↔ n % 65536 = 0 := by
    intro n
    rw [← UInt16.toNat_inj, UInt16.toNat_ofNat', eq_comm]
    simp
  rw [encodeChar]
  split
  · rw [List.mem_singleton, hunit]
    omega
  · simp only [List.mem_cons, List.not_mem_nil, or_false, hunit]
    omega

/-- **The bytes before the first zero byte** are those of the characters before the first NUL. -/
theorem takeWhile_utf8Chars (l : List Char) :
    (utf8Chars l).takeWhile (· ≠ 0) = utf8Chars (l.takeWhile fun c => c.toNat ≠ 0) := by
  refine takeWhile_flatMap ?_ ?_ l
  · intro c hc b hb
    rw [decide_eq_true_eq] at hc ⊢
    rintro rfl
    exact hc (zero_mem_utf8EncodeChar.1 hb)
  · intro c hc
    have hzero : c = '\x00' := Char.toNat_inj.1 (by simpa using hc)
    exact ⟨0, [], by rw [hzero]; rfl, rfl⟩

/-- The same of code units. -/
theorem takeWhile_encode (l : List Char) :
    (encode l).takeWhile (· ≠ 0) = encode (l.takeWhile fun c => c.toNat ≠ 0) := by
  refine takeWhile_flatMap ?_ ?_ l
  · intro c hc u hu
    rw [decide_eq_true_eq] at hc ⊢
    rintro rfl
    exact hc (zero_mem_encodeChar.1 hu)
  · intro c hc
    have hzero : c = '\x00' := Char.toNat_inj.1 (by simpa using hc)
    exact ⟨0, [], by rw [hzero]; rfl, rfl⟩

/-- A string is whole before its first NUL exactly when it has none. -/
theorem takeWhile_ne_zero_eq_self {α : Type*} [DecidableEq α] [Zero α] {l : List α} :
    l.takeWhile (· ≠ 0) = l ↔ 0 ∉ l := by
  rw [List.takeWhile_eq_self_iff]
  constructor
  · intro h hmem
    simpa using h 0 hmem
  · intro h a ha
    rw [decide_eq_true_eq]
    rintro rfl
    exact h ha

theorem utf8_pair {u v : UInt16} (h : (isHigh u && isLow v) = true) (s : List UInt16) :
    utf8 (u :: v :: s) = String.utf8EncodeChar (pair u v) ++ utf8 s := by
  rw [utf8, decode, if_pos h]
  rfl

theorem utf8_single {u : UInt16} {s : List UInt16}
    (h : ∀ v ∈ s.head?, (isHigh u && isLow v) = false) :
    utf8 (u :: s) = String.utf8EncodeChar (single u) ++ utf8 s := by
  cases s with
  | nil => rfl
  | cons v s =>
    rw [utf8, decode, if_neg (by simp [h v rfl])]
    rfl

/-- A code unit that is not in a pair, in UTF-8. A surrogate is written as any other number of 16
bits. -/
def rawSingle (u : UInt16) : List UInt8 :=
  if isHigh u || isLow u then
    [.ofNat (0xE0 + u.toNat / 0x1000), .ofNat (0x80 + u.toNat / 0x40 % 0x40),
      .ofNat (0x80 + u.toNat % 0x40)]
  else String.utf8EncodeChar (single u)

/-- The UTF-8 encoding of a string, in which lone surrogates are not replaced. -/
def utf8Raw : List UInt16 → List UInt8
  | [] => []
  | [u] => rawSingle u
  | u :: v :: rest =>
    if isHigh u && isLow v then String.utf8EncodeChar (pair u v) ++ utf8Raw rest
    else rawSingle u ++ utf8Raw (v :: rest)

theorem utf8Raw_single {u : UInt16} {s : List UInt16}
    (h : ∀ v ∈ s.head?, (isHigh u && isLow v) = false) :
    utf8Raw (u :: s) = rawSingle u ++ utf8Raw s := by
  cases s with
  | nil => rw [utf8Raw, utf8Raw, List.append_nil]
  | cons v s => rw [utf8Raw, if_neg (by simp [h v rfl])]

theorem utf8EncodeChar_replacement :
    String.utf8EncodeChar (Char.ofNat 0xFFFD) = [0xEF, 0xBF, 0xBD] := by decide

theorem length_rawSingle (u : UInt16) :
    (rawSingle u).length = (String.utf8EncodeChar (single u)).length := by
  rw [rawSingle, single]
  split
  · rw [utf8EncodeChar_replacement]
    rfl
  · rfl

/-- A lone surrogate and its replacement differ in their first bytes. -/
theorem head_rawSingle_ne {u : UInt16} (h : (isHigh u || isLow u) = true) :
    (rawSingle u).head? ≠ (String.utf8EncodeChar (single u)).head? := by
  rw [rawSingle, single, if_pos h, if_pos h, utf8EncodeChar_replacement]
  simp only [isHigh, isLow, Bool.or_eq_true, Bool.and_eq_true, decide_eq_true_eq] at h
  have hlead : 0xE0 + u.toNat / 0x1000 = 0xED := by omega
  simp [hlead]

/-- The two encodings have one length. -/
theorem length_utf8Raw (s : List UInt16) : (utf8Raw s).length = (utf8 s).length := by
  induction s using utf8Raw.induct with
  | case1 => rfl
  | case2 u => simpa [utf8Raw, utf8, decode, utf8Chars] using length_rawSingle u
  | case3 u v rest hp ih => rw [utf8Raw, if_pos hp, utf8_pair hp, List.length_append,
      List.length_append, ih]
  | case4 u v rest hp ih =>
    have hsplit : ∀ w ∈ (v :: rest).head?, (isHigh u && isLow w) = false := by simpa using hp
    rw [utf8Raw_single hsplit, utf8_single hsplit, List.length_append, List.length_append, ih,
      length_rawSingle]

theorem length_utf8EncodeChar_single_le (u : UInt16) :
    (String.utf8EncodeChar (single u)).length ≤ 3 := by
  have hsmall : (single u).toNat < 0x10000 := by
    by_cases h : (isHigh u || isLow u) = true
    · rw [single, if_pos h]
      decide
    · rw [toNat_single h]
      exact u.toNat_lt
  have hval : (single u).val.toNat = (single u).toNat := rfl
  rw [String.utf8EncodeChar]
  simp only [hval]
  split
  · simp
  · split
    · simp
    · split
      · simp
      · omega

/-- A code unit takes at most three bytes. -/
theorem length_utf8_le (s : List UInt16) : (utf8 s).length ≤ 3 * s.length := by
  induction s using utf8Raw.induct with
  | case1 => exact Nat.zero_le _
  | case2 u =>
    rw [utf8_single (by simp), List.length_append]
    have := length_utf8EncodeChar_single_le u
    simpa [utf8, decode, utf8Chars] using this
  | case3 u v rest hp ih =>
    have hfour := Char.utf8Size_le_four (pair u v)
    rw [utf8_pair hp, List.length_append, String.length_utf8EncodeChar]
    simp only [List.length_cons]
    omega
  | case4 u v rest hp ih =>
    have := length_utf8EncodeChar_single_le u
    rw [utf8_single (by simpa using hp), List.length_append]
    simp only [List.length_cons] at ih ⊢
    omega

/-- The string is well-formed, or has a well-formed beginning that fills `n` bytes of UTF-8: no
lone surrogate begins before byte `n`. -/
def CleanTo (n : ℕ) (s : List UInt16) : Prop :=
  ∃ t, t <+: s ∧ WellFormed t ∧ (t = s ∨ n ≤ (utf8 t).length)

theorem WellFormed.cleanTo {s : List UInt16} (h : WellFormed s) (n : ℕ) : CleanTo n s :=
  ⟨s, List.prefix_rfl, h, .inl rfl⟩

theorem cleanTo_zero (s : List UInt16) : CleanTo 0 s :=
  ⟨[], List.nil_prefix, trivial, .inr (Nat.zero_le _)⟩

theorem wellFormed_single {u : UInt16} {s : List UInt16}
    (h : ∀ v ∈ s.head?, (isHigh u && isLow v) = false) :
    WellFormed (u :: s) ↔ (isHigh u || isLow u) = false ∧ WellFormed s := by
  rw [Bool.or_eq_false_iff]
  cases s with
  | nil => simp [WellFormed]
  | cons v s => rw [WellFormed, if_neg (by simp [h v rfl])]

theorem cleanTo_pair {u v : UInt16} (h : (isHigh u && isLow v) = true) {n : ℕ}
    {s : List UInt16} :
    CleanTo n (u :: v :: s) ↔ CleanTo (n - (String.utf8EncodeChar (pair u v)).length) s := by
  constructor
  · rintro ⟨t, hpre, hwell, hend⟩
    rcases t with _ | ⟨u', _ | ⟨v', t⟩⟩
    · have hzero : n = 0 := Nat.le_zero.1 (hend.resolve_left (by simp))
      rw [hzero, Nat.zero_sub]
      exact cleanTo_zero s
    · obtain ⟨hu, -⟩ := List.cons_prefix_cons.1 hpre
      rw [Bool.and_eq_true, ← hu] at h
      exact absurd hwell.1 (by simp [h.1])
    · obtain ⟨hu, hpre'⟩ := List.cons_prefix_cons.1 hpre
      obtain ⟨hv, ht⟩ := List.cons_prefix_cons.1 hpre'
      subst hu hv
      rw [WellFormed, if_pos h] at hwell
      refine ⟨t, ht, hwell, hend.imp (by simp) fun hle => ?_⟩
      rw [utf8_pair h, List.length_append] at hle
      omega
  · rintro ⟨t, hpre, hwell, hend⟩
    refine ⟨u :: v :: t, ?_, ?_, hend.imp (by simp) fun hle => ?_⟩
    · simpa [List.cons_prefix_cons] using hpre
    · rwa [WellFormed, if_pos h]
    · rw [utf8_pair h, List.length_append]
      omega

theorem cleanTo_single {u : UInt16} {s : List UInt16}
    (h : ∀ v ∈ s.head?, (isHigh u && isLow v) = false) {n : ℕ} :
    CleanTo n (u :: s) ↔ n = 0 ∨ (isHigh u || isLow u) = false ∧
      CleanTo (n - (String.utf8EncodeChar (single u)).length) s := by
  have hhead : ∀ {t}, t <+: s → ∀ v ∈ t.head?, (isHigh u && isLow v) = false := by
    rintro t ⟨rest, rfl⟩ v hv
    exact h v (by cases t <;> simp_all)
  constructor
  · rintro ⟨t, hpre, hwell, hend⟩
    cases t with
    | nil => exact .inl (Nat.le_zero.1 (hend.resolve_left (by simp)))
    | cons u' t =>
      obtain ⟨hu, ht⟩ := List.cons_prefix_cons.1 hpre
      subst hu
      obtain ⟨hu, hwell⟩ := (wellFormed_single (hhead ht)).1 hwell
      refine .inr ⟨hu, t, ht, hwell, hend.imp (by simp) fun hle => ?_⟩
      rw [utf8_single (hhead ht), List.length_append] at hle
      omega
  · rintro (rfl | ⟨hu, t, hpre, hwell, hend⟩)
    · exact cleanTo_zero _
    · refine ⟨u :: t, ?_, (wellFormed_single (hhead hpre)).2 ⟨hu, hwell⟩,
        hend.imp (by simp) fun hle => ?_⟩
      · simpa [List.cons_prefix_cons] using hpre
      · rw [utf8_single (hhead hpre), List.length_append]
        omega

theorem take_append_eq_iff {α : Type*} {n : ℕ} {a b x y : List α} (h : a.length = b.length) :
    (a ++ x).take n = (b ++ y).take n ↔
      a.take n = b.take n ∧ x.take (n - b.length) = y.take (n - b.length) := by
  rw [List.take_append, List.take_append, h]
  constructor
  · intro heq
    exact List.append_inj heq (by simp [h])
  · rintro ⟨ha, hx⟩
    rw [ha, hx]

theorem take_utf8Raw_single {u : UInt16} {s : List UInt16}
    (h : ∀ v ∈ s.head?, (isHigh u && isLow v) = false)
    (hs : ∀ n, (utf8Raw s).take n = (utf8 s).take n ↔ CleanTo n s) (n : ℕ) :
    (utf8Raw (u :: s)).take n = (utf8 (u :: s)).take n ↔ CleanTo n (u :: s) := by
  rw [utf8Raw_single h, utf8_single h, take_append_eq_iff (length_rawSingle u), hs,
    cleanTo_single h]
  cases hu : isHigh u || isLow u with
  | false =>
    rw [rawSingle, hu]
    simp only [Bool.false_eq_true, if_false, true_and]
    refine ⟨.inr, ?_⟩
    rintro (rfl | hclean)
    · rw [Nat.zero_sub]
      exact cleanTo_zero s
    · exact hclean
  | true =>
    simp only [Bool.true_eq_false, false_and, or_false]
    constructor
    · rintro ⟨hheads, -⟩
      by_contra hn
      have hhead := congrArg List.head? hheads
      rw [List.head?_take, List.head?_take, if_neg hn, if_neg hn] at hhead
      exact head_rawSingle_ne hu hhead
    · rintro rfl
      simpa using cleanTo_zero s

/-- **The encodings agree up to the first lone surrogate**, and differ in its first byte. -/
theorem take_utf8Raw_iff (s : List UInt16) (n : ℕ) :
    (utf8Raw s).take n = (utf8 s).take n ↔ CleanTo n s := by
  induction s using utf8Raw.induct generalizing n with
  | case1 => exact iff_of_true rfl (WellFormed.cleanTo (by simp [WellFormed]) n)
  | case2 u =>
    refine take_utf8Raw_single (by simp) (fun m => ?_) n
    exact iff_of_true rfl (WellFormed.cleanTo (by simp [WellFormed]) m)
  | case3 u v rest hp ih =>
    rw [utf8Raw, if_pos hp, utf8_pair hp, take_append_eq_iff rfl, ih, cleanTo_pair hp]
    simp
  | case4 u v rest hp ih => exact take_utf8Raw_single (by simpa using hp) ih n

/-! ## Code units as bytes -/

/-- A code unit is read back from its bytes. -/
theorem unit_of_bytes (u : UInt16) :
    u.toUInt8.toUInt16 ||| ((u >>> 8).toUInt8.toUInt16 <<< 8) = u := by
  have hlt := u.toNat_lt
  have hlow : u.toNat % 2 ^ 8 < 2 ^ 8 := Nat.mod_lt _ (by decide)
  have height : UInt16.toNat 8 % 16 = 8 := rfl
  have hhigh : u.toNat >>> 8 % 2 ^ 8 = u.toNat / 2 ^ 8 := by
    rw [Nat.shiftRight_eq_div_pow]
    omega
  have htop : (u.toNat / 2 ^ 8) <<< 8 % 2 ^ 16 = (u.toNat / 2 ^ 8) <<< 8 := by
    rw [Nat.shiftLeft_eq]
    omega
  rw [← UInt16.toNat_inj]
  simp only [UInt16.toNat_or, UInt16.toNat_shiftLeft, UInt8.toNat_toUInt16, UInt16.toNat_toUInt8,
    UInt16.toNat_shiftRight, height]
  rw [hhigh, htop, Nat.or_comm, ← Nat.shiftLeft_add_eq_or_of_lt hlow, Nat.shiftLeft_eq]
  omega

end Utf16

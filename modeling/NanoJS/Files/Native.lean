import Mathlib.Algebra.Group.Int.Defs
import Mathlib.Algebra.Group.Nat.Defs
import NanoJS.Buffers.Native
import NanoJS.Engine.EventLoop

/-!
# The native half of file access

`engine/FileSystem.cpp`: what `readFileAsync`, `writeFileAsync` and `getStatsAsync` take from their
arguments before they start a thread, what the thread does against the file it finds at the path,
and what `message::build` makes of the message that `statsAsync` posts. The threads work from the
base address of a backing store.
-/

namespace NanoJS

open ByteMemory

/-! ## Files -/

/-- The fields of `struct stat` that `statsAsync` reads. -/
structure Stat where
  mode : ℕ
  size : ℤ
  dev : ℤ
  ino : ℤ
  nlink : ℤ
  uid : ℤ
  gid : ℤ
  rdev : ℤ
  blksize : ℤ
  deriving DecidableEq

/-- What a file is like that is created at a path: its `stat`, and the answers to opening it for
reading and to reading it. -/
structure NewFile where
  stat : Stat
  openRead : Bool
  readFails : Bool
  deriving DecidableEq

/-- What the system answers at a path: to `stat`, to opening for reading and to reading, and to
opening for writing and to writing, of which a failing device takes only some bytes. Where there is
no file (`absent`), there is no content, and opening for writing creates an empty file. -/
structure FileNode where
  stat : Option Stat
  content : List UInt8
  openRead : Bool
  readFails : Bool
  openWrite : Bool
  writeLimit : Option ℕ
  absent : Option NewFile
  deriving DecidableEq

namespace FileNode

/-- The file can be opened and read. -/
def Readable (node : FileNode) : Prop := node.openRead = true ∧ node.readFails = false

/-- The file can be opened and written. -/
def Writable (node : FileNode) : Prop := node.openWrite = true ∧ node.writeLimit = none

/-- What `seekg(position)` and `read(_, length)` on a new stream deliver. A stream that is not open
or cannot be positioned delivers nothing. -/
def read (node : FileNode) (length position : ℤ) : List UInt8 :=
  if node.openRead && !node.readFails && decide (0 ≤ position) then
    (node.content.drop position.toNat).take length.toNat
  else []

/-- The file that opening for writing finds or creates. -/
def create (node : FileNode) : FileNode :=
  match node.absent with
  | none => node
  | some new => { node with
      stat := some new.stat
      openRead := new.openRead
      readFails := new.readFails
      absent := none }

/-- What a stream opened for writing (`mode`) or appending leaves. -/
def write (node : FileNode) (mode : Bool) (bytes : List UInt8) : FileNode :=
  if node.openWrite then
    let file := node.create
    let written := match file.writeLimit with
      | none => bytes
      | some limit => bytes.take limit
    let content := (if mode then [] else file.content) ++ written
    { file with
      content := content
      stat := file.stat.map fun stat => { stat with size := content.length } }
  else node

@[simp] theorem create_openWrite (node : FileNode) : node.create.openWrite = node.openWrite := by
  unfold create
  split <;> rfl

@[simp] theorem create_content (node : FileNode) : node.create.content = node.content := by
  unfold create
  split <;> rfl

@[simp] theorem create_writeLimit (node : FileNode) :
    node.create.writeLimit = node.writeLimit := by
  unfold create
  split <;> rfl

/-- A regular file that can be read and written. -/
def regular (content : List UInt8) : FileNode where
  stat := some ⟨0o100644, content.length, 0, 0, 1, 0, 0, 0, 4096⟩
  content := content
  openRead := true
  readFails := false
  openWrite := true
  writeLimit := none
  absent := none

/-- A path without a file, where one can be created that can be read and written. -/
def missing : FileNode where
  stat := none
  content := []
  openRead := false
  readFails := false
  openWrite := true
  writeLimit := none
  absent := some ⟨⟨0o100644, 0, 0, 0, 1, 0, 0, 0, 4096⟩, true, false⟩

theorem regular_readable (content : List UInt8) : (regular content).Readable := ⟨rfl, rfl⟩

theorem regular_writable (content : List UInt8) : (regular content).Writable := ⟨rfl, rfl⟩

end FileNode

/-! ## Conversions -/

/-- The conversion of an integer to `int`. -/
def toInt32 (n : ℤ) : ℤ := Int.bmod n (2 ^ 32)

theorem toInt32_of_lt {n : ℤ} (h₀ : 0 ≤ n) (h : n < 2 ^ 31) : toInt32 n = n := by
  rw [toInt32, Int.bmod_def]
  omega

/-- `StaticHelpers::ToUtf8String`, as the C string that its caller sees. -/
def toUtf8String (v8 : V8) (value : JSString) : CString :=
  (v8.writeUtf8 value (v8.utf8Length value)).takeWhile (· ≠ 0)

/-! ## `readFileAsync` -/

/-- The options of a read; a field may be undefined. -/
structure ReadOptions where
  offset : Option Number
  length : Option Number
  position : Option Number
  deriving DecidableEq

/-- `File::readFileAsync`: what `readAsync` is started on. -/
def readFileAsync (v8 : V8) (path : JSString) (array : View) (options : ReadOptions) : Task :=
  .read (toUtf8String v8 path) array.store (integerValue options.offset)
    (integerValue options.length) (integerValue options.position)

/-- `readAsync`: the memory it leaves and the arguments of the callback. -/
def readAsync (node : FileNode) (data : ℕ) (offset length position : ℤ) (mem : Mem) :
    Mem × List Value :=
  let bytes := node.read length position
  (blit mem data offset bytes, [.null, .int (toInt32 bytes.length)])

/-! ## `writeFileAsync` -/

/-- `File::writeFileAsync`: what `writeAsync` is started on. -/
def writeFileAsync (v8 : V8) (path : JSString) (data : View) (flag : JSString) : Task :=
  .write (toUtf8String v8 path) data.store (toInt32 data.byteLength)
    ((toUtf8String v8 flag).head? == some 0x77)

/-- `writeAsync`: the file it leaves and the arguments of the callback. `told` is the difference of
the two positions that the stream tells. -/
def writeAsync (node : FileNode) (data : ℕ) (length : ℤ) (mode : Bool) (told : ℤ) (mem : Mem) :
    FileNode × List Value :=
  (node.write mode (slice mem data 0 length.toNat), [.null, .int (toInt32 told)])

/-! ## `getStatsAsync` -/

/-- `getPermissions` -/
def getPermissions (mode : ℕ) : String :=
  let bit (mask : ℕ) (letter : String) := if mode &&& mask ≠ 0 then letter else "_"
  bit 0o400 "R" ++ bit 0o200 "W" ++ bit 0o100 "R" ++ bit 0o040 "R" ++ bit 0o020 "W" ++
    bit 0o010 "X" ++ bit 0o004 "R" ++ bit 0o002 "W" ++ bit 0o001 "X"

/-- `File::getStatsAsync`: what `statsAsync` is started on. -/
def getStatsAsync (v8 : V8) (path : JSString) : Task := .stat (toUtf8String v8 path)

/-- The numeric properties of the message that `statsAsync` posts. -/
def statFields (stat : Stat) : List (String × ℤ) :=
  [("size", stat.size), ("dev", stat.dev), ("ino", stat.ino), ("nlink", stat.nlink),
    ("uid", stat.uid), ("gid", stat.gid), ("rdev", stat.rdev), ("blksize", stat.blksize)]

/-- `statsAsync`: the objects of the message it posts. A failed `stat` leaves the object empty. -/
def statsAsync (node : FileNode) : List ObjectProject :=
  match node.stat with
  | none => [⟨[], []⟩]
  | some stat =>
    [⟨("mode", "string") :: (statFields stat).map fun f => (f.1, "integer"),
      .string (cString (getPermissions stat.mode)) ::
        (statFields stat).map fun f => .int (toInt32 f.2)⟩]

/-! ## The threads -/

/-- What the thread of a task does against the file at its path: the memory and the file it leaves,
and the arguments of the callback that it delivers (`statsAsync` posts a message instead). -/
def Task.execute (task : Task) (node : FileNode) (told : ℤ) (mem : Mem) :
    Mem × FileNode × List Value :=
  match task with
  | .read _ data offset length position =>
    let (mem', args) := readAsync node data offset length position mem
    (mem', node, args)
  | .write _ data length mode =>
    let (node', args) := writeAsync node data length mode told mem
    (mem, node', args)
  | .stat _ => (mem, node, [])

/-! ## `message::build` -/

/-- The value of a property with the type tag `type`; none when the tag names no type or `getValue`
finds another one. -/
def buildValue (v8 : V8) (type : String) : AnyValue → Option Prim
  | .int v => if type = "integer" then some (.number (.fin v)) else none
  | .string s =>
    if type = "string" then some (.string (v8.newFromUtf8 (s.takeWhile (· ≠ 0)))) else none
  | .double d => if type = "number" then some (.number d) else none
  | .bool b => if type = "boolean" then some (.boolean b) else none

/-- An object of the message. -/
def buildObject (v8 : V8) (object : ObjectProject) : Value :=
  .object ((object.property.zip object.values).filterMap fun p =>
    (buildValue v8 p.1.2 p.2).map fun value => (p.1.1, value))

/-- `message::build`: the arguments of the callback. -/
def Message.build (v8 : V8) (msg : Message) : List Value :=
  .null :: msg.objects.map (buildObject v8)

/-- The property of an object. -/
def Value.get : Value → String → Prim
  | .object props, name => ((props.find? (·.1 == name)).map (·.2)).getD .undefined
  | _, _ => .undefined

/-- The object that the callback of a successful `getStatsAsync` receives has the size, converted
to `int`. -/
theorem build_size (v8 : V8) (job : CallbackJob) {node : FileNode} {stat : Stat}
    (h : node.stat = some stat) :
    ∃ obj, Message.build v8 ⟨job, statsAsync node⟩ = [.null, obj] ∧
      obj.get "size" = .number (.fin (toInt32 stat.size)) := by
  refine ⟨_, by rw [Message.build, statsAsync, h]; rfl, ?_⟩
  simp [buildObject, statFields, buildValue, Value.get]

/-- The object that the callback of a failed `getStatsAsync` receives has no size. -/
theorem build_failed (v8 : V8) (job : CallbackJob) {node : FileNode} (h : node.stat = none) :
    Message.build v8 ⟨job, statsAsync node⟩ = [.null, .object []] := by
  rw [Message.build, statsAsync, h]
  rfl

end NanoJS

import Mathlib.Data.Nat.Bitwise
import NanoJS.Files.Sync

/-!
# Stat objects

`getStatsSync` and `getStatsAsync` make an object of a `struct stat`, each in its own way. Both pass
every number through an `int`, and both have the letter of the owner's execute bit wrong, so that
the values are exact exactly for numbers below `2 ^ 31` and without that bit (`stats_exact_iff`).
The object of the callback has no times: the two never have the same properties
(`stats_never_agree`).
-/

namespace NanoJS

open Utf16

/-! ## `FileSystem.cpp` -/

/-- `struct stat`, with the seconds of its times. -/
structure StatBuffer extends Stat where
  atime : ℤ
  mtime : ℤ
  ctime : ℤ
  deriving DecidableEq

/-- `v8::Integer::New` -/
def v8Integer (value : ℤ) : Prim := .number (.fin (toInt32 value))

/-- `buildStatsObject` -/
def buildStatsObject (v8 : V8) (buffer : StatBuffer) : Value :=
  .object
    [("mode", .string (toLocalString v8 (cString (getPermissions buffer.mode)))),
      ("dev", v8Integer buffer.dev), ("ino", v8Integer buffer.ino),
      ("nlink", v8Integer buffer.nlink), ("uid", v8Integer buffer.uid),
      ("gid", v8Integer buffer.gid), ("rdev", v8Integer buffer.rdev),
      ("size", v8Integer buffer.size), ("blksize", v8Integer buffer.blksize),
      ("atimeMs", v8Integer (buffer.atime * 1000)), ("mtimeMs", v8Integer (buffer.mtime * 1000)),
      ("ctimeMs", v8Integer (buffer.ctime * 1000))]

/-- `File::getStatsSync`, when `stat` has left a buffer or failed: the value that it returns. -/
def getStatsSync (v8 : V8) : Option StatBuffer → Value
  | none => .undefined
  | some buffer => buildStatsObject v8 buffer

/-! ## Objects -/

/-- The names of the properties. -/
def Value.names : Value → List String
  | .object props => props.map (·.1)
  | _ => []

theorem Value.get_of_mem {props : List (String × Prim)} (hnodup : (props.map (·.1)).Nodup)
    {name : String} {p : Prim} (h : (name, p) ∈ props) : (Value.object props).get name = p := by
  have hfind : props.find? (·.1 == name) = some (name, p) := by
    induction props with
    | nil => cases h
    | cons q props ih =>
      rw [List.map_cons, List.nodup_cons] at hnodup
      rcases List.mem_cons.1 h with rfl | h
      · simp
      · have hne : q.1 ≠ name := by
          rintro rfl
          exact hnodup.1 (List.mem_map.2 ⟨_, h, rfl⟩)
        rw [List.find?_cons_of_neg (by simpa using hne), ih hnodup.2 h]
  rw [get, hfind]
  rfl

namespace StatBuffer

/-- The times in milliseconds. -/
def timeFields (buffer : StatBuffer) : List (String × ℤ) :=
  [("atimeMs", buffer.atime * 1000), ("mtimeMs", buffer.mtime * 1000),
    ("ctimeMs", buffer.ctime * 1000)]

/-- The numbers of a stat object, by their names. -/
def numbers (buffer : StatBuffer) : List (String × ℤ) :=
  statFields buffer.toStat ++ buffer.timeFields

/-- The numbers are natural numbers that a double holds. -/
def InRange (buffer : StatBuffer) : Prop := ∀ f ∈ buffer.numbers, 0 ≤ f.2 ∧ f.2 < 2 ^ 53

end StatBuffer

/-- The object that the callback of `getStatsAsync` receives. -/
def asyncStats (v8 : V8) (stat : Stat) : Value :=
  .object (("mode", .string (toLocalString v8 (cString (getPermissions stat.mode)))) ::
    (statFields stat).map fun f => (f.1, v8Integer f.2))

theorem build_statsAsync (v8 : V8) (job : CallbackJob) {node : FileNode} {stat : Stat}
    (h : node.stat = some stat) :
    Message.build v8 ⟨job, statsAsync node⟩ = [.null, asyncStats v8 stat] := by
  rw [Message.build, statsAsync, h]
  simp [buildObject, statFields, buildValue, asyncStats, toLocalString, v8Integer]

theorem asyncStats_get (v8 : V8) (stat : Stat) {f : String × ℤ} (hf : f ∈ statFields stat) :
    (asyncStats v8 stat).get f.1 = v8Integer f.2 := by
  refine Value.get_of_mem ?_ (.tail _ (List.mem_map.2 ⟨f, hf, rfl⟩))
  simp [statFields]

theorem buildStatsObject_get (v8 : V8) (buffer : StatBuffer) {f : String × ℤ}
    (hf : f ∈ buffer.numbers) : (buildStatsObject v8 buffer).get f.1 = v8Integer f.2 := by
  refine Value.get_of_mem ?_ ?_
  · simp
  · revert f
    simp [StatBuffer.numbers, StatBuffer.timeFields, statFields]

/-! ## The mode -/

/-- The letters of a mode string, at the positions from the owner's read bit on. -/
def permissionLetters (mode : ℕ) : List Char :=
  (List.range 9).map fun i => if mode.testBit (8 - i) then "RWX".toList.getD (i % 3) '_' else '_'

/-- A character of the string that `getPermissions` makes. -/
def permissionBit (mode k : ℕ) (letter : Char) : String :=
  if mode &&& 2 ^ k ≠ 0 then String.singleton letter else "_"

theorem toList_permissionBit (mode k : ℕ) (letter : Char) :
    (permissionBit mode k letter).toList = [if mode.testBit k then letter else '_'] := by
  unfold permissionBit
  rw [Nat.and_two_pow]
  cases mode.testBit k <;> simp

/-- What `getPermissions` makes has an `R` in the place of the owner's execute bit. -/
theorem toList_getPermissions (mode : ℕ) : (getPermissions mode).toList =
    (List.range 9).map fun i =>
      if mode.testBit (8 - i) then "RWRRWXRWX".toList.getD i '_' else '_' := by
  have hbits : getPermissions mode = permissionBit mode 8 'R' ++ permissionBit mode 7 'W' ++
      permissionBit mode 6 'R' ++ permissionBit mode 5 'R' ++ permissionBit mode 4 'W' ++
      permissionBit mode 3 'X' ++ permissionBit mode 2 'R' ++ permissionBit mode 1 'W' ++
      permissionBit mode 0 'X' := rfl
  simp only [hbits, String.toList_append, toList_permissionBit]
  rfl

theorem getPermissions_iff (mode : ℕ) :
    (getPermissions mode).toList = permissionLetters mode ↔ mode.testBit 6 = false := by
  rw [toList_getPermissions, permissionLetters, List.map_inj_left]
  constructor
  · intro h
    have hx := h 2 (by simp)
    cases hbit : mode.testBit 6 with
    | false => rfl
    | true =>
      rw [show 8 - 2 = 6 from rfl, hbit, if_pos rfl, if_pos rfl] at hx
      exact absurd hx (by decide)
  · intro hbit i hi
    have hletter : i ≠ 2 → "RWRRWXRWX".toList.getD i '_' = "RWX".toList.getD (i % 3) '_' := by
      have hall : ∀ i < 9, i ≠ 2 →
          "RWRRWXRWX".toList.getD i '_' = "RWX".toList.getD (i % 3) '_' := by decide
      exact hall i (List.mem_range.1 hi)
    by_cases h2 : i = 2
    · subst h2
      rw [show 8 - 2 = 6 from rfl, hbit]
      rfl
    · rw [hletter h2]

/-! ### Strings of ASCII characters -/

theorem encodeChar_ascii {c : Char} (h : c.toNat < 0x80) : encodeChar c = [c.val.toUInt16] := by
  rw [encodeChar, if_pos (by omega)]
  rfl

theorem utf8EncodeChar_ascii {c : Char} (h : c.toNat < 0x80) :
    String.utf8EncodeChar c = [c.val.toUInt8] := by
  have hle : c.val.toNat ≤ 127 := Nat.le_of_lt_succ h
  simp only [String.utf8EncodeChar, if_pos hle]
  rfl

theorem flatMap_singleton {α β : Type*} {f : α → List β} {g : α → β} {l : List α}
    (h : ∀ a ∈ l, f a = [g a]) : l.flatMap f = l.map g := by
  induction l with
  | nil => rfl
  | cons a l ih =>
    rw [List.flatMap_cons, List.map_cons, h a (.head _), ih fun b hb => h b (.tail _ hb)]
    rfl

/-- A string of ASCII characters comes through `ToLocalString`. -/
theorem toLocalString_ascii {v8 : V8} (hv : v8.Documented) {s : String}
    (h : ∀ c ∈ s.toList, 0 < c.toNat ∧ c.toNat < 0x80)
    (hmax : (cString s).length ≤ kMaxStringLength) :
    toLocalString v8 (cString s) = jsString s := by
  have hbytes : cString s = utf8Chars s.toList :=
    (flatMap_singleton fun c hc => utf8EncodeChar_ascii (h c hc).2).symm
  have hall : s.toList.takeWhile (fun c => c.toNat ≠ 0) = s.toList := by
    rw [List.takeWhile_eq_self_iff]
    intro c hc
    simpa using Nat.ne_of_gt (h c hc).1
  rw [hbytes, toLocalString_utf8Chars hv (by rwa [hall, ← hbytes]), hall]
  exact flatMap_singleton fun c hc => encodeChar_ascii (h c hc).2

theorem permissions_ascii (mode : ℕ) :
    ∀ c ∈ (getPermissions mode).toList, 0 < c.toNat ∧ c.toNat < 0x80 := by
  rw [toList_getPermissions]
  intro c hc
  obtain ⟨i, hi, rfl⟩ := List.mem_map.1 hc
  have hletter : ∀ i < 9, 0 < ("RWRRWXRWX".toList.getD i '_').toNat ∧
      ("RWRRWXRWX".toList.getD i '_').toNat < 0x80 := by decide
  split
  · exact hletter i (List.mem_range.1 hi)
  · decide

theorem letters_ascii (mode : ℕ) :
    ∀ c ∈ (String.ofList (permissionLetters mode)).toList, 0 < c.toNat ∧ c.toNat < 0x80 := by
  rw [String.toList_ofList, permissionLetters]
  intro c hc
  obtain ⟨i, hi, rfl⟩ := List.mem_map.1 hc
  have hletter : ∀ i < 9, 0 < ("RWX".toList.getD (i % 3) '_').toNat ∧
      ("RWX".toList.getD (i % 3) '_').toNat < 0x80 := by decide
  split
  · exact hletter i (List.mem_range.1 hi)
  · decide

theorem map_jsString {s : String} (h : ∀ c ∈ s.toList, 0 < c.toNat ∧ c.toNat < 0x80) :
    (jsString s).map (fun u => Char.ofNat u.toNat) = s.toList := by
  rw [jsString, List.map_map]
  refine (List.map_congr_left fun c hc => ?_).trans (List.map_id _)
  have hlt := (h c hc).2
  have hnat : c.val.toUInt16.toNat = c.toNat := by
    rw [UInt32.toNat_toUInt16]
    exact Nat.mod_eq_of_lt (Nat.lt_trans hlt (by decide))
  rw [Function.comp, hnat, Char.ofNat_toNat, id]

theorem length_permissions (mode : ℕ) : (cString (getPermissions mode)).length = 9 := by
  rw [cString, toList_getPermissions, List.length_map, List.length_map, List.length_range]

/-- The mode string is right exactly when the owner may not execute the file. -/
theorem mode_iff {v8 : V8} (hv : v8.Documented) (mode : ℕ) :
    Prim.string (toLocalString v8 (cString (getPermissions mode))) =
        .string (jsString (String.ofList (permissionLetters mode))) ↔
      mode.testBit 6 = false := by
  have hmax : (cString (getPermissions mode)).length ≤ kMaxStringLength := by
    rw [length_permissions]
    decide
  rw [toLocalString_ascii hv (permissions_ascii mode) hmax, Prim.string.injEq,
    ← getPermissions_iff]
  constructor
  · intro h
    have hchars := congrArg (List.map fun u => Char.ofNat u.toNat) h
    rwa [map_jsString (permissions_ascii mode), map_jsString (letters_ascii mode),
      String.toList_ofList] at hchars
  · intro h
    rw [← h, String.ofList_toList]

/-! ## Exact values -/

theorem toInt32_eq_iff {n : ℤ} (h : 0 ≤ n) : toInt32 n = n ↔ n < 2 ^ 31 := by
  rw [toInt32, Int.bmod_def]
  omega

theorem v8Integer_eq_iff {n : ℤ} (h : 0 ≤ n) : v8Integer n = .number (.fin n) ↔ n < 2 ^ 31 := by
  rw [v8Integer, Prim.number.injEq, Number.fin.injEq, Rat.intCast_inj, toInt32_eq_iff h]

/-- A stat object has the numbers and the mode. -/
structure Value.Exact (obj : Value) (numbers : List (String × ℤ)) (mode : ℕ) : Prop where
  numbers : ∀ f ∈ numbers, obj.get f.1 = .number (.fin f.2)
  mode : obj.get "mode" = .string (jsString (String.ofList (permissionLetters mode)))

theorem exact_iff {v8 : V8} (hv : v8.Documented) {obj : Value} {numbers : List (String × ℤ)}
    {mode : ℕ} (hget : ∀ f ∈ numbers, obj.get f.1 = v8Integer f.2)
    (hmode : obj.get "mode" = .string (toLocalString v8 (cString (getPermissions mode))))
    (hpos : ∀ f ∈ numbers, 0 ≤ f.2) :
    obj.Exact numbers mode ↔ (∀ f ∈ numbers, f.2 < 2 ^ 31) ∧ mode.testBit 6 = false := by
  have hnumber : ∀ f ∈ numbers, (obj.get f.1 = .number (.fin f.2) ↔ f.2 < 2 ^ 31) := by
    intro f hf
    rw [hget f hf, v8Integer_eq_iff (hpos f hf)]
  rw [← mode_iff hv, ← hmode]
  constructor
  · rintro ⟨hnumbers, hmode⟩
    exact ⟨fun f hf => (hnumber f hf).1 (hnumbers f hf), hmode⟩
  · rintro ⟨hsmall, hmode⟩
    exact ⟨fun f hf => (hnumber f hf).2 (hsmall f hf), hmode⟩

section

variable (v8 : V8) (job : CallbackJob) (node : FileNode) (buffer : StatBuffer)

/-- Both ways of making an object of what a successful `stat` leaves are exact. -/
def StatsExact : Prop :=
  (getStatsSync v8 (some buffer)).Exact buffer.numbers buffer.mode ∧
    ∃ obj, Message.build v8 ⟨job, statsAsync { node with stat := some buffer.toStat }⟩ =
      [.null, obj] ∧ obj.Exact (statFields buffer.toStat) buffer.mode

/-- Both ways of making an object of what a successful `stat` leaves give the same properties. -/
def StatsAgree : Prop :=
  ∃ obj, Message.build v8 ⟨job, statsAsync { node with stat := some buffer.toStat }⟩ =
      [.null, obj] ∧
    (∀ name, name ∈ (getStatsSync v8 (some buffer)).names ↔ name ∈ obj.names) ∧
      ∀ name ∈ obj.names, (getStatsSync v8 (some buffer)).get name = obj.get name

/-- **Exact stat objects.** Both objects are exact exactly when the numbers, and the times in
milliseconds, are below `2 ^ 31`, and the owner may not execute the file. -/
theorem stats_exact_iff (hv : v8.Documented) (hrange : buffer.InRange) :
    StatsExact v8 job node buffer ↔
      (∀ f ∈ buffer.numbers, f.2 < 2 ^ 31) ∧ buffer.mode.testBit 6 = false := by
  have hsync : (getStatsSync v8 (some buffer)).Exact buffer.numbers buffer.mode ↔
      (∀ f ∈ buffer.numbers, f.2 < 2 ^ 31) ∧ buffer.mode.testBit 6 = false :=
    exact_iff hv (fun f hf => buildStatsObject_get v8 buffer hf) rfl fun f hf => (hrange f hf).1
  have hfields : ∀ f ∈ statFields buffer.toStat, f ∈ buffer.numbers := fun f hf =>
    List.mem_append_left _ hf
  have hasync : (asyncStats v8 buffer.toStat).Exact (statFields buffer.toStat) buffer.mode ↔
      (∀ f ∈ statFields buffer.toStat, f.2 < 2 ^ 31) ∧ buffer.mode.testBit 6 = false :=
    exact_iff hv (fun f hf => asyncStats_get v8 buffer.toStat hf) rfl fun f hf =>
      (hrange f (hfields f hf)).1
  rw [StatsExact, build_statsAsync v8 job rfl, hsync]
  constructor
  · exact And.left
  · rintro ⟨hsmall, hbit⟩
    exact ⟨⟨hsmall, hbit⟩, _, rfl, hasync.2 ⟨fun f hf => hsmall f (hfields f hf), hbit⟩⟩

theorem names_sync : (getStatsSync v8 (some buffer)).names =
    ["mode", "dev", "ino", "nlink", "uid", "gid", "rdev", "size", "blksize", "atimeMs", "mtimeMs",
      "ctimeMs"] := rfl

theorem names_async (stat : Stat) : (asyncStats v8 stat).names =
    ["mode", "size", "dev", "ino", "nlink", "uid", "gid", "rdev", "blksize"] := rfl

/-- The two objects have equal values where both have a property. -/
theorem stats_shared {name : String} (h : name ∈ (asyncStats v8 buffer.toStat).names) :
    (getStatsSync v8 (some buffer)).get name = (asyncStats v8 buffer.toStat).get name := by
  have hnames : (asyncStats v8 buffer.toStat).names =
      "mode" :: (statFields buffer.toStat).map (·.1) := rfl
  rw [hnames] at h
  rcases List.mem_cons.1 h with rfl | h
  · rfl
  · obtain ⟨f, hf, rfl⟩ := List.mem_map.1 h
    rw [asyncStats_get v8 _ hf]
    exact buildStatsObject_get v8 buffer (List.mem_append_left _ hf)

theorem not_agree : ¬StatsAgree v8 job node buffer := by
  rintro ⟨obj, hobj, hnames, -⟩
  rw [build_statsAsync v8 job rfl] at hobj
  obtain rfl : asyncStats v8 buffer.toStat = obj := by simpa using hobj
  have htime : "atimeMs" ∈ (asyncStats v8 buffer.toStat).names :=
    (hnames "atimeMs").1 (by simp [names_sync])
  simp [names_async] at htime

/-- **Synchronous and asynchronous stat never agree.** The callback's object has no times; what
properties it has are those of the other. -/
theorem stats_never_agree :
    ¬StatsAgree v8 job node buffer ∧
      ∀ obj, Message.build v8 ⟨job, statsAsync { node with stat := some buffer.toStat }⟩ =
        [.null, obj] → ∀ name ∈ obj.names,
          (getStatsSync v8 (some buffer)).get name = obj.get name := by
  refine ⟨not_agree v8 job node buffer, fun obj hobj name hname => ?_⟩
  rw [build_statsAsync v8 job rfl] at hobj
  obtain rfl : asyncStats v8 buffer.toStat = obj := by simpa using hobj
  exact stats_shared v8 buffer hname

end

/-- The `struct stat` of a small file. -/
def smallStat : StatBuffer := ⟨⟨0o100644, 12, 0, 0, 1, 0, 0, 0, 4096⟩, 0, 0, 0⟩

/-- The `struct stat` of an executable file of three gigabytes. -/
def largeStat : StatBuffer :=
  ⟨⟨0o100755, 3000000000, 0, 0, 1, 0, 0, 0, 4096⟩, 1700000000, 1700000000, 1700000000⟩

/-- A job that waits for the result of `getStatsAsync`. -/
def statJob : CallbackJob := ⟨0, .user 0 0, none⟩

theorem stats_exact_small : StatsExact V8.reference statJob (.regular []) smallStat :=
  (stats_exact_iff V8.reference statJob (.regular []) smallStat V8.reference_documented
    (by unfold StatBuffer.InRange; decide)).2 ⟨by decide, by decide⟩

/-- The size is -1294967296 in both objects. -/
theorem stats_large_wraps : largeStat.InRange ∧
    ¬StatsExact V8.reference statJob (.regular []) largeStat := by
  refine ⟨by unfold StatBuffer.InRange; decide, ?_⟩
  rintro ⟨⟨hnumbers, -⟩, -⟩
  have hsize := hnumbers ("size", 3000000000) (by decide)
  rw [getStatsSync, buildStatsObject_get V8.reference largeStat (f := ("size", 3000000000))
    (by decide)] at hsize
  exact absurd hsize (by decide)

theorem stats_disagree_small : ¬StatsAgree V8.reference statJob (.regular []) smallStat :=
  not_agree V8.reference statJob (.regular []) smallStat

end NanoJS

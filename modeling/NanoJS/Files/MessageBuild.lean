import NanoJS.Buffers.PeriodicFill
import NanoJS.Files.Stats
import NanoJS.Foundations.Loops

/-!
# Building the arguments of a message

`message::build` at the level of its vectors: each index and each cast is checked, the counters are
an `int`, V8 may refuse a string, and a property is stored with `Object::Set`, which asks the
prototype of the object for a setter. Where the prototype has none for the names, and nothing is too
long, the job that is pushed has the objects that the worker encoded (`build_decodes`).
-/

namespace NanoJS

open Utf16

/-! ## `EventLoop.hpp` -/

/-- An `objectProject`, with each name as a `const char *`. -/
structure ObjectFields where
  property : List (CString × String)
  values : List AnyValue
  deriving DecidableEq

/-- How `message::build` fails to return: an index is out of the range of its vector, `getValue`
catches a `bad_any_cast` and does not return a value, a counter goes beyond the largest `int`, or
V8 makes no string. -/
inductive BuildFault
  | outOfRange
  | badCast
  | overflow
  | emptyHandle
  deriving DecidableEq

/-- An element of a vector. -/
def element {α : Type} (vector : List α) (i : ℕ) : Except BuildFault α :=
  match vector[i]? with
  | some a => .ok a
  | none => .error .outOfRange

/-- The assignment of an element of a vector. -/
def assign {α : Type} (vector : List α) (i : ℕ) (a : α) : Except BuildFault (List α) :=
  if i < vector.length then .ok (vector.set i a) else .error .outOfRange

namespace AnyValue

/-- `std::any_cast<int32_t>` -/
def castInt : AnyValue → Option ℤ
  | .int v => some v
  | _ => none

/-- `std::any_cast<std::string>` -/
def castString : AnyValue → Option CString
  | .string s => some s
  | _ => none

/-- `std::any_cast<double>` -/
def castDouble : AnyValue → Option Number
  | .double d => some d
  | _ => none

/-- `std::any_cast<bool>` -/
def castBool : AnyValue → Option Bool
  | .bool b => some b
  | _ => none

/-- `value::getValue` -/
def getValue {α : Type} (cast : AnyValue → Option α) (value : AnyValue) : Except BuildFault α :=
  match cast value with
  | some a => .ok a
  | none => .error .badCast

end AnyValue

/-! ## V8 -/

/-- The own properties of an object that `build` makes. -/
abbrev OwnProperties := List (JSString × Prim)

/-- The names for which the prototype of a new object has an accessor or a read-only property, with
what a store leaves of the object. -/
abbrev Prototype := JSString → Option (OwnProperties → Prim → OwnProperties)

/-- `Object.prototype` as scripts find it. The setter of `__proto__` ignores a value that is neither
an object nor null. -/
def Prototype.pristine : Prototype := fun name =>
  if name = jsString "__proto__" then some fun properties _ => properties else none

/-- `Object::Set` -/
def objectSet (prototype : Prototype) (newObject : OwnProperties) (name : JSString) (value : Prim) :
    OwnProperties :=
  if name ∈ newObject.map (·.1) then
    newObject.map fun property => if property.1 = name then (name, value) else property
  else
    match prototype name with
    | some setter => setter newObject value
    | none => newObject ++ [(name, value)]

/-- `StaticHelpers::ToLocalString`, which ends the process when V8 makes no string. -/
def checkedLocalString (v8 : V8) (string : CString) : Except BuildFault JSString :=
  if kMaxStringLength < (string.takeWhile (· ≠ 0)).length then .error .emptyHandle
  else .ok (toLocalString v8 string)

/-! ## `EventLoop.cpp` -/

/-- What a handle of `args` holds. -/
inductive BuiltValue
  | null
  | object (properties : OwnProperties)
  deriving DecidableEq

/-- A job on `callbackQueue`, with its arguments. A handle may be empty. -/
structure BuiltJob where
  job : CallbackJob
  args : List (Option BuiltValue)
  deriving DecidableEq

namespace MessageBuild

variable (v8 : V8) (prototype : Prototype)

/-- The body of the inner loop of `message::build`. -/
def setProperty (object : ObjectFields) (j : ℕ) (newObject : OwnProperties) :
    Except BuildFault OwnProperties := do
  let (propertyName, type) ← element object.property j
  if type = "integer" then
    let value ← (← element object.values j).getValue AnyValue.castInt
    let name ← checkedLocalString v8 propertyName
    return objectSet prototype newObject name (.number (.fin value))
  else if type = "string" then
    let value ← (← element object.values j).getValue AnyValue.castString
    let name ← checkedLocalString v8 propertyName
    let text ← checkedLocalString v8 value
    return objectSet prototype newObject name (.string text)
  else if type = "number" then
    let value ← (← element object.values j).getValue AnyValue.castDouble
    let name ← checkedLocalString v8 propertyName
    return objectSet prototype newObject name (.number value)
  else if type = "boolean" then
    let value ← (← element object.values j).getValue AnyValue.castBool
    let name ← checkedLocalString v8 propertyName
    return objectSet prototype newObject name (.boolean value)
  else return newObject

/-- The inner loop. -/
def setProperties (object : ObjectFields) : Except BuildFault OwnProperties :=
  Loop.count .overflow (2 ^ 31) (setProperty v8 prototype object) object.property.length 0 []

/-- The body of the outer loop. -/
def buildArgument (objects : List ObjectFields) (i : ℕ) (args : List (Option BuiltValue)) :
    Except BuildFault (List (Option BuiltValue)) := do
  let object ← element objects (i - 1)
  let newObject ← setProperties v8 prototype object
  assign args i (some (.object newObject))

/-- `message::build`: the queue that it leaves. -/
def build (queue : List BuiltJob) (job : CallbackJob) (objects : List ObjectFields) :
    Except BuildFault (List BuiltJob) := do
  let args ← assign (List.replicate (objects.length + 1) none) 0 (some .null)
  let args ←
    Loop.count .overflow (2 ^ 31) (buildArgument v8 prototype objects) objects.length 1 args
  return queue ++ [⟨job, args⟩]

end MessageBuild

/-! ## What was encoded -/

/-- The type tag of a value. -/
def AnyValue.tag : AnyValue → String
  | .int _ => "integer"
  | .string _ => "string"
  | .double _ => "number"
  | .bool _ => "boolean"

/-- The value that was encoded. -/
def AnyValue.decoded (v8 : V8) : AnyValue → Prim
  | .int v => .number (.fin v)
  | .string s => .string (v8.newFromUtf8 s)
  | .double d => .number d
  | .bool b => .boolean b

namespace ObjectFields

variable (v8 : V8) (object : ObjectFields)

/-- The names and the values are parallel, each value has the type of its tag, the names are
different ones for scripts, and no name or string has a NUL. -/
structure Encoded : Prop where
  parallel : object.property.length = object.values.length
  tagged : ∀ (j : ℕ) name type v, object.property[j]? = some (name, type) →
    object.values[j]? = some v → AnyValue.tag v = type
  distinct : (object.property.map fun p => v8.newFromUtf8 p.1).Nodup
  names : ∀ p ∈ object.property, 0 ∉ p.1
  strings : ∀ s, .string s ∈ object.values → 0 ∉ s

/-- Nothing is too long. -/
structure Fits : Prop where
  few : object.property.length < 2 ^ 31
  short : ∀ p ∈ object.property, p.1.length ≤ kMaxStringLength
  shortStrings : ∀ s, .string s ∈ object.values → s.length ≤ kMaxStringLength

/-- Nothing is too long, and the prototype has no setter for the names. -/
structure Accepted (prototype : Prototype) : Prop extends Fits object where
  noSetter : ∀ p ∈ object.property, prototype (v8.newFromUtf8 p.1) = none

end ObjectFields

variable {v8 : V8} {prototype : Prototype}

theorem ok_bind {ε α β : Type} (a : α) (f : α → Except ε β) : (Except.ok a >>= f) = f a := rfl

theorem getValue_ok {α : Type} {cast : AnyValue → Option α} {v : AnyValue} {a : α}
    (h : cast v = some a) : v.getValue cast = .ok a := by
  rw [AnyValue.getValue, h]

theorem element_of_getElem? {α : Type} {vector : List α} {i : ℕ} {a : α}
    (h : vector[i]? = some a) : element vector i = .ok a := by
  rw [element, h]

/-- A store to a name that the object does not have, and for which there is no setter. -/
theorem objectSet_new {newObject : OwnProperties} {name : JSString} (value : Prim)
    (hnew : name ∉ newObject.map (·.1)) (hsetter : prototype name = none) :
    objectSet prototype newObject name value = newObject ++ [(name, value)] := by
  rw [objectSet, if_neg hnew, hsetter]

theorem takeWhile_of_nul {string : CString} (hnul : 0 ∉ string) :
    string.takeWhile (· ≠ 0) = string := by
  rw [List.takeWhile_eq_self_iff]
  intro b hb
  simpa using ne_of_mem_of_not_mem hb hnul

theorem checkedLocalString_ok {string : CString} (hnul : 0 ∉ string)
    (hlength : string.length ≤ kMaxStringLength) :
    checkedLocalString v8 string = .ok (v8.newFromUtf8 string) := by
  rw [checkedLocalString, toLocalString, takeWhile_of_nul hnul, if_neg (by omega)]

theorem zero_not_mem_cString {s : String} (h : ∀ c ∈ s.toList, 0 < c.toNat ∧ c.toNat < 0x80) :
    0 ∉ cString s := by
  intro hmem
  obtain ⟨c, hc, hzero⟩ := List.mem_map.1 hmem
  have hnat : c.val.toUInt8.toNat = c.toNat := by
    rw [UInt32.toNat_toUInt8]
    exact Nat.mod_eq_of_lt (Nat.lt_trans (h c hc).2 (by decide))
  rw [hzero] at hnat
  exact absurd hnat (Nat.ne_of_lt (h c hc).1)

theorem newFromUtf8_ascii (hv : v8.Documented) {s : String}
    (h : ∀ c ∈ s.toList, 0 < c.toNat ∧ c.toNat < 0x80)
    (hmax : (cString s).length ≤ kMaxStringLength) :
    v8.newFromUtf8 (cString s) = jsString s := by
  rw [← toLocalString_ascii hv h hmax, toLocalString, takeWhile_of_nul (zero_not_mem_cString h)]

theorem ascii_of_all {s : String}
    (h : (s.toList.all fun c => 0 < c.toNat && decide (c.toNat < 0x80)) = true) :
    ∀ c ∈ s.toList, 0 < c.toNat ∧ c.toNat < 0x80 := by
  intro c hc
  simpa using List.all_eq_true.1 h c hc

namespace ObjectFields

variable {object : ObjectFields}

/-- The properties that were encoded. -/
def entries (v8 : V8) (object : ObjectFields) : OwnProperties :=
  (object.property.zip object.values).map fun p => (v8.newFromUtf8 p.1.1, p.2.decoded v8)

theorem entries_names (h : object.Encoded v8) :
    (object.entries v8).map (·.1) = object.property.map fun p => v8.newFromUtf8 p.1 := by
  have hfst : (object.property.zip object.values).map (·.1) = object.property :=
    List.map_fst_zip h.parallel.le
  rw [entries, List.map_map]
  conv_rhs => rw [← hfst, List.map_map]
  rfl

theorem length_entries (h : object.Encoded v8) :
    (object.entries v8).length = object.property.length := by
  rw [← List.length_map (f := (·.1)), entries_names h, List.length_map]

theorem nodup_entries (h : object.Encoded v8) : ((object.entries v8).map (·.1)).Nodup := by
  rw [entries_names h]
  exact h.distinct

theorem entries_getElem? (v8 : V8) {j : ℕ} {name : CString} {type : String} {v : AnyValue}
    (hproperty : object.property[j]? = some (name, type)) (hvalue : object.values[j]? = some v) :
    (object.entries v8)[j]? = some (v8.newFromUtf8 name, v.decoded v8) := by
  have hpair : (object.property.zip object.values)[j]? = some ((name, type), v) :=
    List.getElem?_zip_eq_some.2 ⟨hproperty, hvalue⟩
  rw [entries, List.getElem?_map, hpair]
  rfl

/-- The name of a property is none of the names before it. -/
theorem not_mem_take (h : object.Encoded v8) {j : ℕ} {entry : JSString × Prim}
    (hentry : (object.entries v8)[j]? = some entry) :
    entry.1 ∉ ((object.entries v8).take j).map (·.1) := by
  have hnodup :=
    (nodup_entries h).sublist ((List.take_sublist (j + 1) (object.entries v8)).map Prod.fst)
  rw [List.take_add_one, hentry, Option.toList_some, List.map_append, List.nodup_append] at hnodup
  exact fun hmem => hnodup.2.2 _ hmem _ (List.mem_singleton_self _) rfl

end ObjectFields

namespace MessageBuild

variable {object : ObjectFields} {objects : List ObjectFields}

/-- A turn of the inner loop stores the value that was encoded. -/
theorem setProperty_ok (henc : object.Encoded v8) (hfits : object.Fits) {j : ℕ}
    {name : CString} {type : String} {v : AnyValue}
    (hproperty : object.property[j]? = some (name, type)) (hvalue : object.values[j]? = some v)
    (newObject : OwnProperties) :
    setProperty v8 prototype object j newObject =
      .ok (objectSet prototype newObject (v8.newFromUtf8 name) (v.decoded v8)) := by
  have hmem := List.mem_of_getElem? hproperty
  have hname : checkedLocalString v8 name = .ok (v8.newFromUtf8 name) :=
    checkedLocalString_ok (henc.names _ hmem) (hfits.short _ hmem)
  have htag := henc.tagged j name type v hproperty hvalue
  rw [setProperty, element_of_getElem? hproperty, element_of_getElem? hvalue]
  simp only [ok_bind, hname]
  cases v with
  | int v =>
    obtain rfl : "integer" = type := htag
    rw [if_pos rfl, getValue_ok (a := v) rfl]
    rfl
  | string s =>
    obtain rfl : "string" = type := htag
    have hmem := List.mem_of_getElem? hvalue
    have htext : checkedLocalString v8 s = .ok (v8.newFromUtf8 s) :=
      checkedLocalString_ok (henc.strings s hmem) (hfits.shortStrings s hmem)
    rw [if_neg (by decide), if_pos rfl, getValue_ok (a := s) rfl, ok_bind, htext]
    rfl
  | double d =>
    obtain rfl : "number" = type := htag
    rw [if_neg (by decide), if_neg (by decide), if_pos rfl, getValue_ok (a := d) rfl]
    rfl
  | bool b =>
    obtain rfl : "boolean" = type := htag
    rw [if_neg (by decide), if_neg (by decide), if_neg (by decide), if_pos rfl,
      getValue_ok (a := b) rfl]
    rfl

/-- The inner loop: after `j` turns the object has the first `j` properties. -/
theorem setProperties_ok (henc : object.Encoded v8) (hacc : object.Accepted v8 prototype) :
    setProperties v8 prototype object = .ok (object.entries v8) := by
  have hlength := ObjectFields.length_entries henc
  have hbound : object.property.length = 0 ∨ 0 + object.property.length < 2 ^ 31 := by
    have := hacc.few
    omega
  have hstep : ∀ j newObject, 0 ≤ j → j < 0 + object.property.length →
      newObject = (object.entries v8).take j → ∃ newObject',
        setProperty v8 prototype object j newObject = .ok newObject' ∧
          newObject' = (object.entries v8).take (j + 1) := by
    rintro j _ - hj rfl
    rw [Nat.zero_add] at hj
    obtain ⟨⟨name, type⟩, hproperty⟩ : ∃ p, object.property[j]? = some p :=
      ⟨_, List.getElem?_eq_getElem hj⟩
    obtain ⟨v, hvalue⟩ : ∃ v, object.values[j]? = some v :=
      ⟨_, List.getElem?_eq_getElem (henc.parallel ▸ hj)⟩
    have hentry := ObjectFields.entries_getElem? v8 hproperty hvalue
    have hnew := ObjectFields.not_mem_take henc hentry
    refine ⟨_, setProperty_ok henc hacc.toFits hproperty hvalue _, ?_⟩
    rw [objectSet_new _ hnew (hacc.noSetter _ (List.mem_of_getElem? hproperty)),
      List.take_add_one, hentry, Option.toList_some]
  have hstart : [] = (object.entries v8).take 0 := rfl
  obtain ⟨newObject, hcount, rfl⟩ :=
    Loop.count_ok (fun j newObject => newObject = (object.entries v8).take j) hbound hstart hstep
  rw [setProperties, hcount, Nat.zero_add, ← hlength, List.take_length]

/-- The arguments that the job gets. -/
def builtArgs (v8 : V8) (objects : List ObjectFields) : List (Option BuiltValue) :=
  some .null :: objects.map fun object => some (.object (object.entries v8))

theorem builtArgs_getElem? (v8 : V8) {i : ℕ} (hobject : objects[i]? = some object) :
    (builtArgs v8 objects)[i + 1]? = some (some (.object (object.entries v8))) := by
  rw [builtArgs, List.getElem?_cons_succ, List.getElem?_map, hobject, Option.map_some]

/-- A turn of the outer loop: the argument `i + 1` is the object `i`. -/
theorem buildArgument_ok (henc : ∀ object ∈ objects, object.Encoded v8)
    (hacc : ∀ object ∈ objects, object.Accepted v8 prototype) {i : ℕ} (hi : i < objects.length)
    {args : List (Option BuiltValue)} (hargs : args.length = objects.length + 1) :
    buildArgument v8 prototype objects (i + 1) args =
      .ok (args.set (i + 1) (some (.object (objects[i].entries v8)))) := by
  have hobject : objects[i]? = some objects[i] := List.getElem?_eq_getElem hi
  have hmem : objects[i] ∈ objects := List.getElem_mem _
  rw [buildArgument, Nat.add_sub_cancel, element_of_getElem? hobject, ok_bind,
    setProperties_ok (henc _ hmem) (hacc _ hmem), ok_bind, assign, if_pos (by omega)]

/-- The outer loop: after the turn `i` the first `i + 1` arguments are there. -/
theorem build_ok (queue : List BuiltJob) (job : CallbackJob)
    (hfew : objects.length < 2 ^ 31 - 1) (henc : ∀ object ∈ objects, object.Encoded v8)
    (hacc : ∀ object ∈ objects, object.Accepted v8 prototype) :
    build v8 prototype queue job objects = .ok (queue ++ [⟨job, builtArgs v8 objects⟩]) := by
  have hbound : objects.length = 0 ∨ 1 + objects.length < 2 ^ 31 := by omega
  have hlength : (builtArgs v8 objects).length = objects.length + 1 := by simp [builtArgs]
  have hnull : assign (List.replicate (objects.length + 1) none) 0 (some BuiltValue.null) =
      .ok (some .null :: List.replicate objects.length none) := by
    rw [assign, if_pos (by simp)]
    rfl
  have hstep : ∀ i args, 1 ≤ i → i < 1 + objects.length →
      (args.length = objects.length + 1 ∧ args.take i = (builtArgs v8 objects).take i) →
      ∃ args', buildArgument v8 prototype objects i args = .ok args' ∧
        args'.length = objects.length + 1 ∧
          args'.take (i + 1) = (builtArgs v8 objects).take (i + 1) := by
    rintro i args hi hlt ⟨hargs, htake⟩
    obtain ⟨i, rfl⟩ := Nat.exists_eq_add_of_le' hi
    have hlt' : i < objects.length := by omega
    refine ⟨_, buildArgument_ok henc hacc hlt' hargs, ?_, ?_⟩
    · rw [List.length_set, hargs]
    · have hthis := builtArgs_getElem? v8 (List.getElem?_eq_getElem hlt')
      rw [List.take_add_one (i := i + 1),
        List.take_add_one (l := builtArgs v8 objects) (i := i + 1), List.take_set_of_le (by omega),
        htake, hthis, List.getElem?_set_self (by omega)]
  have hstart : (some BuiltValue.null :: List.replicate objects.length none).length =
      objects.length + 1 ∧ (some BuiltValue.null :: List.replicate objects.length none).take 1 =
        (builtArgs v8 objects).take 1 := ⟨by simp, rfl⟩
  obtain ⟨args, hcount, hargs, htake⟩ := Loop.count_ok
    (fun i (args : List (Option BuiltValue)) =>
      args.length = objects.length + 1 ∧ args.take i = (builtArgs v8 objects).take i)
    hbound hstart hstep
  rw [List.take_of_length_le (by omega), List.take_of_length_le (by omega)] at htake
  rw [build, hnull, ok_bind, hcount, ok_bind, htake]
  rfl

end MessageBuild

/-! ## One property -/

/-- An object with one property. -/
def ObjectFields.single (name : CString) (v : AnyValue) : ObjectFields := ⟨[(name, v.tag)], [v]⟩

end NanoJS

import Mathlib.Data.List.Forall2
import Mathlib.Logic.Relation
import NanoJS.Files.Native

/-!
# `log`

`App::logObject` prints the enumerable properties of an object, and those of the objects that it
refers to. It keeps no account of the objects that it has come to, takes every name for a string,
and every value for one that converts to a string. Each line is kept here with the path that has led
to it (`Line.path`), so that what is printed can be compared with what is there. What a call of
`logObject` that returns has printed is a listing of the properties at and under the object, each
once, in nested braces (`logObject_listing`).
-/

namespace NanoJS

open Relation

/-! ## Objects -/

/-- A name that `GetPropertyNames` returns; it may keep numbers for indices. -/
inductive PropertyName
  | string (s : JSString)
  | index (n : ℕ)
  deriving DecidableEq

/-- A value, as `logObject` tells them apart. The other ones come with what `ToString` returns of
them, if anything. -/
inductive PropertyValue (N : Type*)
  | function
  | object (id : N)
  | other (text : Option JSString)
  deriving DecidableEq

structure Property (N : Type*) where
  name : PropertyName
  value : PropertyValue N
  deriving DecidableEq

/-- The enumerable properties of each object, in the order in which `GetPropertyNames` returns
them. -/
abbrev ObjectGraph (N : Type*) := N → List (Property N)

/-- An argument of `log`. The other ones are undefined, null, symbols and big integers. -/
inductive LogArgument (N : Type*)
  | function (name : JSString)
  | buffer (bytes : List UInt8)
  | object (id : N)
  | number (n : Number)
  | boolean (b : Bool)
  | string (s : JSString)
  | other

/-! ## Output -/

inductive LineKind
  | value
  | opens
  | closes
  deriving DecidableEq

/-- A line, and the positions of the properties that have led to it. -/
structure Line where
  path : List ℕ
  kind : LineKind
  indent : ℕ
  text : CString
  deriving DecidableEq

/-- What `log` prints: a line of `logObject`, or something else. -/
inductive Piece
  | text (s : CString)
  | line (l : Line)
  deriving DecidableEq

/-- What is printed. -/
def Piece.print : Piece → CString
  | text s => s
  | line l => List.replicate l.indent 0x20 ++ l.text ++ cString "\n"

/-- How a call may fail to return: the recursion does not end within its depth, a value is taken for
a string that is none, or a handle is empty. -/
inductive LogFault
  | tooDeep
  | badCast
  | emptyHandle
  deriving DecidableEq

/-! ## `App.cpp` -/

namespace App

variable {N : Type*} (v8 : V8)

/-- `ToUtf8String(name.As<v8::String>())` -/
def nameToUtf8 : PropertyName → Except LogFault CString
  | .string s => .ok (toUtf8String v8 s)
  | .index _ => .error .badCast

section

variable (logObject : List ℕ → ℕ → N → Except LogFault (List Line))

/-- A turn of the loop of `App::logObject`. -/
def logProperty (path : List ℕ) (indentLevel : ℕ) (property : Property N) :
    Except LogFault (List Line) := do
  let name ← nameToUtf8 v8 property.name
  match property.value with
  | .function => return [⟨path, .value, indentLevel, name ++ cString " :  => Native Code"⟩]
  | .object obj =>
    let lines ← logObject path (indentLevel + 2) obj
    return ⟨path, .opens, indentLevel, name ++ cString " : \x7b"⟩ ::
      (lines ++ [⟨path, .closes, indentLevel, cString "\x7d"⟩])
  | .other none => throw .emptyHandle
  | .other (some text) =>
    return [⟨path, .value, indentLevel,
      name ++ cString " : " ++ toUtf8String v8 text ++ cString " "⟩]

/-- The loop, from the property `i` on. -/
def logProperties (path : List ℕ) (indentLevel : ℕ) :
    ℕ → List (Property N) → Except LogFault (List Line)
  | _, [] => return []
  | i, property :: properties => do
    let lines ← logProperty v8 logObject (path ++ [i]) indentLevel property
    let more ← logProperties path indentLevel (i + 1) properties
    return lines ++ more

end

variable (graph : ObjectGraph N)

/-- `App::logObject`, in recursions of a limited depth. -/
def logObject : ℕ → List ℕ → ℕ → N → Except LogFault (List Line)
  | 0, _, _, _ => .error .tooDeep
  | depth + 1, path, indentLevel, obj =>
    logProperties v8 (logObject depth) path indentLevel 0 (graph obj)

/-- A digit of `%x`. -/
def hexDigit (n : ℕ) : UInt8 := if n < 10 then .ofNat (0x30 + n) else .ofNat (0x57 + n)

/-- `logBuffer` -/
def logBuffer (bytes : List UInt8) : CString :=
  cString "< Buffer " ++
    bytes.flatMap (fun b => [hexDigit (b.toNat / 16), hexDigit (b.toNat % 16), 0x20]) ++ cString ">"

/-- The body of the loop of `App::log`. -/
def logArgument (depth : ℕ) : LogArgument N → Except LogFault (List Piece)
  | .function name => return [.text (toUtf8String v8 name ++ cString "  => native code\n")]
  | .buffer bytes => return [.text (logBuffer bytes)]
  | .object obj => do
    let lines ← logObject v8 graph depth [] 3 obj
    return .text (cString "\x7b\n") :: (lines.map .line ++ [.text (cString "\x7d\n")])
  | .number n => return [.text (cString (toString (toInt32 (integerValue (some n))) ++ " "))]
  | .boolean b => return [.text (cString (if b then "1 " else "0 "))]
  | .string s => return [.text (toUtf8String v8 s ++ cString " ")]
  | .other => throw .badCast

/-- `App::log` -/
def log (depth : ℕ) : List (LogArgument N) → Except LogFault (List Piece)
  | [] => return [.text (cString "\n")]
  | arg :: args => do
    let pieces ← logArgument v8 graph depth arg
    let more ← log depth args
    return pieces ++ more

end App

/-! ## What should be printed -/

namespace ObjectGraph

variable {N : Type*} (graph : ObjectGraph N)

/-- A property of the first object has the second one as its value. -/
def Child (obj child : N) : Prop := ∃ property ∈ graph obj, property.value = .object child

/-- The property to which positions lead from a property. -/
def below : Property N → List ℕ → Option (Property N)
  | property, [] => some property
  | property, i :: path =>
    match property.value with
    | .object child =>
      match (graph child)[i]? with
      | some property => below property path
      | none => none
    | _ => none

/-- The property to which positions lead from an object. -/
def propertyAt (obj : N) : List ℕ → Option (Property N)
  | [] => none
  | i :: path =>
    match (graph obj)[i]? with
    | some property => graph.below property path
    | none => none

end ObjectGraph

/-- `logObject` can print the property. -/
def Property.Printable {N : Type*} (property : Property N) : Prop :=
  (∃ s, property.name = .string s) ∧ property.value ≠ .other none

/-- The lines are made of values with an indentation of `d`, and of blocks between matching braces
with this indentation, inside of which it is larger by two. -/
inductive WellNested : ℕ → List Line → Prop
  | nil (d : ℕ) : WellNested d []
  | value {d : ℕ} {l : Line} {rest : List Line} (hkind : l.kind = .value) (hindent : l.indent = d)
      (hrest : WellNested d rest) : WellNested d (l :: rest)
  | block {d : ℕ} {o c : Line} {body rest : List Line} (hopen : o.kind = .opens)
      (hclose : c.kind = .closes) (hpath : c.path = o.path) (hindent : o.indent = d ∧ c.indent = d)
      (hbody : WellNested (d + 2) body) (hrest : WellNested d rest) :
      WellNested d (o :: (body ++ c :: rest))

/-- The lines that print properties: all but the closing braces. -/
def propertyLines (lines : List Line) : List Line := lines.filter (·.kind ≠ .closes)

/-- A line shows a property: its name, and what its value is. -/
def Line.Shows {N : Type*} (v8 : V8) (l : Line) (property : Property N) : Prop :=
  ∃ name, property.name = .string name ∧
    match property.value with
    | .function => l.kind = .value ∧ l.text = toUtf8String v8 name ++ cString " :  => Native Code"
    | .object _ => l.kind = .opens ∧ l.text = toUtf8String v8 name ++ cString " : \x7b"
    | .other text => l.kind = .value ∧ ∃ t, text = some t ∧
        l.text = toUtf8String v8 name ++ cString " : " ++ toUtf8String v8 t ++ cString " "

/-- Lines are well nested, and of the properties that `find` finds, which have `path` before
their positions, each is shown once, with the indentation of its depth; `above` is the depth at
which the indentation is `d`. -/
structure Listing {N : Type*} (v8 : V8) (find : List ℕ → Option (Property N)) (path : List ℕ)
    (d above : ℕ) (lines : List Line) : Prop where
  nested : WellNested d lines
  once : ((propertyLines lines).map (·.path)).Nodup
  every : ∀ q, (find q).isSome → ∃ l ∈ propertyLines lines, l.path = path ++ q
  shows : ∀ l ∈ propertyLines lines, ∃ q property, l.path = path ++ q ∧
    find q = some property ∧ l.Shows v8 property ∧ l.indent + 2 * above = d + 2 * q.length

namespace LogArgument

variable {N : Type*} (v8 : V8) (graph : ObjectGraph N)

/-- What is printed of an argument: of an object, a listing of its properties between braces. -/
def Printed (arg : LogArgument N) (pieces : List Piece) : Prop :=
  match arg with
  | .object obj => ∃ lines,
      pieces = .text (cString "\x7b\n") :: (lines.map .line ++ [.text (cString "\x7d\n")]) ∧
        Listing v8 (graph.propertyAt obj) [] 3 1 lines
  | _ => ∃ s, pieces = [.text s]

/-- Of an object, none that it leads to is on a cycle, and all their properties can be printed. -/
def Loggable : LogArgument N → Prop
  | .object obj => ∀ n, ReflTransGen graph.Child obj n →
      ¬TransGen graph.Child n n ∧ ∀ property ∈ graph n, property.Printable
  | .other => False
  | _ => True

end LogArgument

/-- A call of `log` returns, and has printed what it should. -/
def Logs {N : Type*} (v8 : V8) (graph : ObjectGraph N) (args : List (LogArgument N)) : Prop :=
  ∃ depth outs, App.log v8 graph depth args = .ok (outs.flatten ++ [.text (cString "\n")]) ∧
    List.Forall₂ (LogArgument.Printed v8 graph) args outs

/-! ## Blocks -/

theorem WellNested.append {d : ℕ} {a b : List Line} (ha : WellNested d a) (hb : WellNested d b) :
    WellNested d (a ++ b) := by
  induction ha with
  | nil d => exact hb
  | value hkind hindent _ ih => exact .value hkind hindent (ih hb)
  | block hopen hclose hpath hindent hbody _ _ ih =>
    rw [List.cons_append, List.append_assoc, List.cons_append]
    exact .block hopen hclose hpath hindent hbody (ih hb)

theorem propertyLines_append (a b : List Line) :
    propertyLines (a ++ b) = propertyLines a ++ propertyLines b := List.filter_append ..

theorem propertyLines_block {o c : Line} {body : List Line} (hopen : o.kind = .opens)
    (hclose : c.kind = .closes) :
    propertyLines (o :: (body ++ [c])) = o :: propertyLines body := by
  simp [propertyLines, hopen, hclose]

namespace ObjectGraph

variable {N : Type*} (graph : ObjectGraph N)

/-- Of the properties at or under an object, those from its property `i` on. -/
def fromPosition (i : ℕ) (obj : N) : List ℕ → Option (Property N)
  | [] => none
  | k :: q => if i ≤ k then graph.propertyAt obj (k :: q) else none

theorem fromPosition_zero (obj : N) : graph.fromPosition 0 obj = graph.propertyAt obj := by
  funext q
  cases q with
  | nil => rfl
  | cons k q => rw [fromPosition, if_pos k.zero_le]

theorem fromPosition_succ (i : ℕ) (obj : N) (q : List ℕ) :
    graph.fromPosition (i + 1) obj q =
      if q.head? = some i then none else graph.fromPosition i obj q := by
  cases q with
  | nil => rfl
  | cons k q =>
    by_cases hk : k = i
    · simp [fromPosition, hk]
    · have : i + 1 ≤ k ↔ i ≤ k := by omega
      simp [fromPosition, hk, this]

theorem fromPosition_cons {i : ℕ} {obj : N} {property : Property N}
    (h : (graph obj)[i]? = some property) (q : List ℕ) :
    graph.fromPosition i obj (i :: q) = graph.below property q := by
  simp only [fromPosition, propertyAt, le_refl, if_true, h]

theorem below_nil (property : Property N) : graph.below property [] = some property := by
  rw [below]

theorem below_cons (property : Property N) (i : ℕ) (q : List ℕ) :
    graph.below property (i :: q) =
      match property.value with
      | .object child => graph.propertyAt child (i :: q)
      | _ => none := by
  rw [below]
  cases property.value <;> rfl

end ObjectGraph

namespace Listing

variable {N : Type*} {v8 : V8} {find find' : List ℕ → Option (Property N)} {path : List ℕ}
  {d : ℕ} {lines more : List Line}

theorem empty (h : ∀ q, find q = none) : Listing v8 find path d 1 [] where
  nested := .nil d
  once := List.nodup_nil
  every q hq := by simp [h] at hq
  shows l hl := by simp [propertyLines] at hl

/-- A listing of the property `i` and of what is under it, and one of the other properties. -/
theorem cons {i : ℕ} (h : Listing v8 (fun q => find (i :: q)) (path ++ [i]) d 0 lines)
    (h' : Listing v8 find' path d 1 more) (hnil : find [] = none)
    (hfind : ∀ q, find' q = if q.head? = some i then none else find q) :
    Listing v8 find path d 1 (lines ++ more) where
  nested := h.nested.append h'.nested
  once := by
    rw [propertyLines_append, List.map_append, List.nodup_append]
    refine ⟨h.once, h'.once, ?_⟩
    -- the paths of the first lines go on with `i`, the others do not
    rintro _ hl _ hl' rfl
    obtain ⟨l, hl, hpath⟩ := List.mem_map.1 hl
    obtain ⟨l', hl', hpath'⟩ := List.mem_map.1 hl'
    obtain ⟨q, -, hq, -⟩ := h.shows l hl
    obtain ⟨q', property, hq', hfound, -⟩ := h'.shows l' hl'
    have hsame : path ++ [i] ++ q = path ++ q' := by rw [← hq, ← hq', hpath, hpath']
    have : q' = i :: q := by simpa using hsame.symm
    simp [hfind, this] at hfound
  every q hq := by
    cases q with
    | nil => simp [hnil] at hq
    | cons k q =>
      by_cases hk : k = i
      · subst hk
        obtain ⟨l, hl, hpath⟩ := h.every q hq
        exact ⟨l, by simp [propertyLines_append, hl], by simp [hpath]⟩
      · obtain ⟨l, hl, hpath⟩ := h'.every (k :: q) (by simpa [hfind, hk] using hq)
        exact ⟨l, by simp [propertyLines_append, hl], hpath⟩
  shows l hl := by
    rw [propertyLines_append, List.mem_append] at hl
    rcases hl with hl | hl
    · obtain ⟨q, property, hpath, hfound, hshows, hindent⟩ := h.shows l hl
      refine ⟨i :: q, property, by simp [hpath], hfound, hshows, ?_⟩
      rw [List.length_cons]
      omega
    · obtain ⟨q, property, hpath, hfound, hshows, hindent⟩ := h'.shows l hl
      rw [hfind] at hfound
      exact ⟨q, property, hpath, (by simpa using hfound : _ ∧ _).2, hshows, hindent⟩

/-- The listing of a property whose value has no properties. -/
theorem leaf {graph : ObjectGraph N} {property : Property N} {l : Line}
    (hvalue : ∀ child, property.value ≠ .object child) (hkind : l.kind = .value)
    (hpath : l.path = path) (hindent : l.indent = d) (hshows : l.Shows v8 property) :
    Listing v8 (graph.below property) path d 0 [l] where
  nested := .value hkind hindent (.nil d)
  once := by simp [propertyLines, hkind]
  every q hq := by
    cases q with
    | nil => exact ⟨l, by simp [propertyLines, hkind], by simp [hpath]⟩
    | cons k q =>
      rw [graph.below_cons] at hq
      split at hq
      case h_1 child hchild => exact absurd hchild (hvalue child)
      case h_2 => cases hq
  shows l' hl' := by
    obtain rfl : l' = l := by simpa [propertyLines, hkind] using hl'
    exact ⟨[], property, by simp [hpath], graph.below_nil property, hshows, by simp [hindent]⟩

/-- The listing of a property whose value is an object. -/
theorem block {graph : ObjectGraph N} {property : Property N} {child : N} {o c : Line}
    (hvalue : property.value = .object child) (hopen : o.kind = .opens ∧ c.kind = .closes)
    (hpath : o.path = path ∧ c.path = path) (hindent : o.indent = d ∧ c.indent = d)
    (hshows : o.Shows v8 property)
    (hbody : Listing v8 (graph.propertyAt child) path (d + 2) 1 lines) :
    Listing v8 (graph.below property) path d 0 (o :: (lines ++ [c])) where
  nested := .block hopen.1 hopen.2 (hpath.2.trans hpath.1.symm) hindent hbody.nested (.nil d)
  once := by
    rw [propertyLines_block hopen.1 hopen.2, List.map_cons, List.nodup_cons]
    refine ⟨?_, hbody.once⟩
    -- no property of the object is at the place of the object itself
    intro hl
    obtain ⟨l, hl, hsame⟩ := List.mem_map.1 hl
    obtain ⟨q, found, hq, hfound, -⟩ := hbody.shows l hl
    obtain rfl : q = [] := by simpa [hpath.1, hsame] using hq
    cases hfound
  every q hq := by
    rw [propertyLines_block hopen.1 hopen.2]
    cases q with
    | nil => exact ⟨o, by simp, by simp [hpath.1]⟩
    | cons k q =>
      rw [graph.below_cons, hvalue] at hq
      obtain ⟨l, hl, hpath⟩ := hbody.every (k :: q) hq
      exact ⟨l, List.mem_cons_of_mem _ hl, hpath⟩
  shows l hl := by
    rw [propertyLines_block hopen.1 hopen.2, List.mem_cons] at hl
    rcases hl with rfl | hl
    · exact ⟨[], property, by simp [hpath.1], graph.below_nil property, hshows, by simp [hindent]⟩
    · obtain ⟨q, found, hpath, hfound, hshows, hindent⟩ := hbody.shows l hl
      cases q with
      | nil => cases hfound
      | cons k q =>
        refine ⟨k :: q, found, hpath, ?_, hshows, by omega⟩
        rw [graph.below_cons, hvalue]
        exact hfound

end Listing

/-! ## What is printed -/

namespace App

variable {N : Type*} {v8 : V8} {path : List ℕ} {indentLevel i : ℕ} {property : Property N}
  {properties : List (Property N)} {lines : List Line}

theorem bind_ok {ε α β : Type} {x : Except ε α} {f : α → Except ε β} {b : β} :
    (x >>= f) = .ok b ↔ ∃ a, x = .ok a ∧ f a = .ok b := by
  cases x with
  | error e => exact ⟨nofun, fun ⟨_, h, _⟩ => nomatch h⟩
  | ok a => exact ⟨fun h => ⟨a, rfl, h⟩, fun ⟨_, ha, h⟩ => Except.ok.inj ha ▸ h⟩

theorem nameToUtf8_ok {name : PropertyName} {text : CString} :
    nameToUtf8 v8 name = .ok text ↔ ∃ s, name = .string s ∧ text = toUtf8String v8 s := by
  cases name with
  | string s => simp [nameToUtf8, eq_comm]
  | index n => simp [nameToUtf8]

section

variable {recursion : List ℕ → ℕ → N → Except LogFault (List Line)}

theorem logProperties_cons :
    logProperties v8 recursion path indentLevel i (property :: properties) = .ok lines ↔
      ∃ first more, logProperty v8 recursion (path ++ [i]) indentLevel property = .ok first ∧
        logProperties v8 recursion path indentLevel (i + 1) properties = .ok more ∧
        lines = first ++ more := by
  simp only [logProperties, bind_ok, pure, Except.pure, Except.ok.injEq]
  constructor
  · rintro ⟨first, hfirst, more, hmore, rfl⟩
    exact ⟨first, more, hfirst, hmore, rfl⟩
  · rintro ⟨first, more, hfirst, hmore, rfl⟩
    exact ⟨first, hfirst, more, hmore, rfl⟩

/-- A property whose value is an object. -/
theorem logProperty_object {child : N} (hvalue : property.value = .object child) :
    logProperty v8 recursion path indentLevel property = .ok lines ↔
      ∃ s body, property.name = .string s ∧ recursion path (indentLevel + 2) child = .ok body ∧
        lines = ⟨path, .opens, indentLevel, toUtf8String v8 s ++ cString " : \x7b"⟩ ::
          (body ++ [⟨path, .closes, indentLevel, cString "\x7d"⟩]) := by
  simp only [logProperty, bind_ok, nameToUtf8_ok, hvalue, pure, Except.pure, Except.ok.injEq]
  constructor
  · rintro ⟨_, ⟨s, hs, rfl⟩, body, hbody, rfl⟩
    exact ⟨s, body, hs, hbody, rfl⟩
  · rintro ⟨s, body, hs, hbody, rfl⟩
    exact ⟨_, ⟨s, hs, rfl⟩, body, hbody, rfl⟩

/-- A property whose value is no object. -/
theorem logProperty_leaf (hvalue : ∀ child, property.value ≠ .object child)
    (h : logProperty v8 recursion path indentLevel property = .ok lines) :
    ∃ l : Line, lines = [l] ∧ l.path = path ∧ l.kind = .value ∧ l.indent = indentLevel ∧
      l.Shows v8 property := by
  rw [logProperty, bind_ok] at h
  obtain ⟨_, hname, h⟩ := h
  obtain ⟨s, hs, rfl⟩ := nameToUtf8_ok.1 hname
  unfold Line.Shows
  split at h
  case h_1 hfunction =>
    simp only [pure, Except.pure, Except.ok.injEq] at h
    exact ⟨_, h.symm, rfl, rfl, rfl, s, hs, by rw [hfunction]; exact ⟨rfl, rfl⟩⟩
  case h_2 child hchild => exact absurd hchild (hvalue child)
  case h_3 => cases h
  case h_4 text htext =>
    simp only [pure, Except.pure, Except.ok.injEq] at h
    exact ⟨_, h.symm, rfl, rfl, rfl, s, hs, by rw [htext]; exact ⟨rfl, text, rfl, rfl⟩⟩

theorem logProperty_listing {graph : ObjectGraph N}
    (ih : ∀ child body, recursion path (indentLevel + 2) child = .ok body →
      Listing v8 (graph.propertyAt child) path (indentLevel + 2) 1 body)
    (h : logProperty v8 recursion path indentLevel property = .ok lines) :
    Listing v8 (graph.below property) path indentLevel 0 lines := by
  by_cases hvalue : ∃ child, property.value = .object child
  · obtain ⟨child, hchild⟩ := hvalue
    obtain ⟨s, body, hs, hbody, rfl⟩ := (logProperty_object hchild).1 h
    refine .block hchild ⟨rfl, rfl⟩ ⟨rfl, rfl⟩ ⟨rfl, rfl⟩ ⟨s, hs, ?_⟩ (ih child body hbody)
    rw [hchild]
    exact ⟨rfl, rfl⟩
  · rw [not_exists] at hvalue
    obtain ⟨l, rfl, hpath, hkind, hindent, hshows⟩ := logProperty_leaf hvalue h
    exact .leaf hvalue hkind hpath hindent hshows

/-- By induction on the properties that are left, those of an object from `i` on. -/
theorem logProperties_listing {graph : ObjectGraph N} {obj : N}
    (ih : ∀ path indentLevel child body, recursion path indentLevel child = .ok body →
      Listing v8 (graph.propertyAt child) path indentLevel 1 body)
    (hleft : (graph obj).drop i = properties)
    (h : logProperties v8 recursion path indentLevel i properties = .ok lines) :
    Listing v8 (graph.fromPosition i obj) path indentLevel 1 lines := by
  induction properties generalizing i lines with
  | nil =>
    rw [logProperties] at h
    cases h
    refine .empty fun q => ?_
    have hlength : (graph obj).length ≤ i := List.drop_eq_nil_iff.1 hleft
    cases q with
    | nil => rfl
    | cons k q =>
      rw [ObjectGraph.fromPosition]
      split
      case isTrue hk => rw [ObjectGraph.propertyAt, List.getElem?_eq_none (hlength.trans hk)]
      case isFalse => rfl
  | cons property properties ih' =>
    obtain ⟨first, more, hfirst, hmore, rfl⟩ := logProperties_cons.1 h
    have hget : (graph obj)[i]? = some property := by
      rw [← List.head?_drop, hleft, List.head?_cons]
    have hrest : (graph obj).drop (i + 1) = properties := by
      rw [← List.tail_drop, hleft, List.tail_cons]
    refine .cons ?_ (ih' hrest hmore) rfl (graph.fromPosition_succ i obj)
    simp only [graph.fromPosition_cons hget]
    exact logProperty_listing (fun child body => ih _ _ child body) hfirst

end

/-- What a call of `logObject` that returns has printed, by induction on the depth. -/
theorem logObject_listing {graph : ObjectGraph N} {depth : ℕ} {obj : N}
    (h : logObject v8 graph depth path indentLevel obj = .ok lines) :
    Listing v8 (graph.propertyAt obj) path indentLevel 1 lines := by
  induction depth generalizing path indentLevel obj lines with
  | zero => cases h
  | succ depth ih =>
    rw [logObject] at h
    rw [← graph.fromPosition_zero]
    exact logProperties_listing (fun _ _ _ _ hbody => ih hbody) (List.drop_zero ..) h

/-- What appears for an object in an object. -/
example :
    (log V8.reference (fun outer : Bool => if outer then [⟨.string (jsString "a"), .object false⟩]
      else [⟨.string (jsString "x"), .other (some (jsString "1"))⟩]) 2 [.object true]).map
        (·.flatMap Piece.print) =
      .ok (cString "\x7b\n   a : \x7b\n     x : 1 \n   \x7d\n\x7d\n\n") := by
  rfl

end App

end NanoJS

import Mathlib.Data.List.Forall2
import Mathlib.Data.Set.Finite.Basic
import NanoJS.App.Log
import NanoJS.Foundations.Acyclic

/-!
# When `log` returns

A call of `log` returns, and has printed each property of each visit once, in nested braces, exactly
when no object that the arguments lead to is on a cycle, and no property is an index or has a symbol
as its value (`log_iff`). The paths of a finite graph without cycles come to an end, so that the
depth of the recursion has a bound at each object; what a deeper recursion prints is the same.
-/

namespace NanoJS

open Relation

namespace App

variable {N : Type*} {v8 : V8} {path : List ℕ} {indentLevel i : ℕ} {property : Property N}
  {properties : List (Property N)} {lines : List Line}

/-! ## Depths -/

/-- A deeper recursion prints the same, if it does so at the objects that a property refers to. -/
theorem logProperty_mono {recursion recursion' : List ℕ → ℕ → N → Except LogFault (List Line)}
    (ih : ∀ path indentLevel child body, recursion path indentLevel child = .ok body →
      recursion' path indentLevel child = .ok body)
    (h : logProperty v8 recursion path indentLevel property = .ok lines) :
    logProperty v8 recursion' path indentLevel property = .ok lines := by
  by_cases hvalue : ∃ child, property.value = .object child
  · obtain ⟨child, hchild⟩ := hvalue
    obtain ⟨s, body, hs, hbody, rfl⟩ := (logProperty_object hchild).1 h
    exact (logProperty_object hchild).2 ⟨s, body, hs, ih _ _ _ _ hbody, rfl⟩
  · rw [← h, logProperty, logProperty]
    cases hcase : property.value with
    | object child => exact absurd ⟨child, hcase⟩ hvalue
    | function => rfl
    | other text => cases text <;> rfl

theorem logProperties_mono {recursion recursion' : List ℕ → ℕ → N → Except LogFault (List Line)}
    (ih : ∀ path indentLevel child body, recursion path indentLevel child = .ok body →
      recursion' path indentLevel child = .ok body)
    (h : logProperties v8 recursion path indentLevel i properties = .ok lines) :
    logProperties v8 recursion' path indentLevel i properties = .ok lines := by
  induction properties generalizing i lines with
  | nil => exact h
  | cons property properties ih' =>
    obtain ⟨first, more, hfirst, hmore, rfl⟩ := logProperties_cons.1 h
    exact logProperties_cons.2 ⟨first, more, logProperty_mono ih hfirst, ih' hmore, rfl⟩

theorem logObject_mono {graph : ObjectGraph N} {depth depth' : ℕ} {obj : N}
    (hle : depth ≤ depth') (h : logObject v8 graph depth path indentLevel obj = .ok lines) :
    logObject v8 graph depth' path indentLevel obj = .ok lines := by
  induction depth generalizing depth' path indentLevel obj lines with
  | zero => cases h
  | succ depth ih =>
    obtain ⟨depth', rfl⟩ := Nat.exists_eq_add_of_le' (Nat.one_le_of_lt hle)
    exact logProperties_mono (fun _ _ _ _ hbody => ih (Nat.le_of_succ_le_succ hle) hbody) h

/-- What holds of each member of a list from some number on holds of all from one number on. -/
theorem exists_common {α : Type*} {P : ℕ → α → Prop}
    (hmono : ∀ ⦃m n⦄, m ≤ n → ∀ a, P m a → P n a) {l : List α} (h : ∀ a ∈ l, ∃ n, P n a) :
    ∃ n, ∀ a ∈ l, P n a := by
  induction l with
  | nil => exact ⟨0, by simp⟩
  | cons a l ih =>
    obtain ⟨m, hm⟩ := h a List.mem_cons_self
    obtain ⟨n, hn⟩ := ih fun b hb => h b (List.mem_cons_of_mem a hb)
    refine ⟨max m n, List.forall_mem_cons.2 ⟨hmono (le_max_left m n) a hm, fun b hb => ?_⟩⟩
    exact hmono (le_max_right m n) b (hn b hb)

/-! ## When `logObject` returns -/

section

variable {recursion : List ℕ → ℕ → N → Except LogFault (List Line)}

theorem logProperty_returns (hprintable : property.Printable)
    (ih : ∀ child, property.value = .object child →
      ∃ body, recursion path (indentLevel + 2) child = .ok body) :
    ∃ lines, logProperty v8 recursion path indentLevel property = .ok lines := by
  obtain ⟨⟨s, hs⟩, hvalue⟩ := hprintable
  cases hcase : property.value with
  | object child =>
    obtain ⟨body, hbody⟩ := ih child hcase
    exact ⟨_, (logProperty_object hcase).2 ⟨s, body, hs, hbody, rfl⟩⟩
  | function => exact ⟨_, by rw [logProperty, hs, hcase]; rfl⟩
  | other text =>
    cases text with
    | none => exact absurd hcase hvalue
    | some text => exact ⟨_, by rw [logProperty, hs, hcase]; rfl⟩

theorem printable_of_returns
    (h : logProperty v8 recursion path indentLevel property = .ok lines) :
    property.Printable := by
  obtain ⟨_, hname, h⟩ := bind_ok.1 h
  obtain ⟨s, hs, -⟩ := nameToUtf8_ok.1 hname
  refine ⟨⟨s, hs⟩, fun hnone => ?_⟩
  rw [hnone] at h
  cases h

theorem logProperties_returns
    (h : ∀ property ∈ properties, ∀ path,
      ∃ lines, logProperty v8 recursion path indentLevel property = .ok lines) :
    ∃ lines, logProperties v8 recursion path indentLevel i properties = .ok lines := by
  induction properties generalizing i with
  | nil => exact ⟨[], rfl⟩
  | cons property properties ih =>
    obtain ⟨first, hfirst⟩ := h property List.mem_cons_self (path ++ [i])
    obtain ⟨more, hmore⟩ := ih (i := i + 1) fun p hp => h p (List.mem_cons_of_mem _ hp)
    exact ⟨_, logProperties_cons.2 ⟨first, more, hfirst, hmore, rfl⟩⟩

theorem logProperty_of_mem
    (h : logProperties v8 recursion path indentLevel i properties = .ok lines)
    (hmem : property ∈ properties) :
    ∃ path lines, logProperty v8 recursion path indentLevel property = .ok lines := by
  induction properties generalizing i lines with
  | nil => cases hmem
  | cons head properties ih =>
    obtain ⟨first, more, hfirst, hmore, rfl⟩ := logProperties_cons.1 h
    rcases List.mem_cons.1 hmem with rfl | hmem
    · exact ⟨_, first, hfirst⟩
    · exact ih hmore hmem

end

section

variable {graph : ObjectGraph N} {obj : N}

/-- Where a call returns, all paths in the graph come to an end, at properties that can be printed:
by induction on the depth. -/
theorem of_logObject_returns {depth : ℕ}
    (h : logObject v8 graph depth path indentLevel obj = .ok lines) :
    Acc (flip graph.Child) obj ∧
      ∀ n, ReflTransGen graph.Child obj n → ∀ property ∈ graph n, property.Printable := by
  induction depth generalizing path indentLevel obj lines with
  | zero => cases h
  | succ depth ih =>
    have hchild : ∀ child, graph.Child obj child → Acc (flip graph.Child) child ∧
        ∀ n, ReflTransGen graph.Child child n → ∀ property ∈ graph n, property.Printable := by
      rintro child ⟨property, hmem, hvalue⟩
      obtain ⟨path, lines, hlines⟩ := logProperty_of_mem h hmem
      obtain ⟨-, body, -, hbody, -⟩ := (logProperty_object hvalue).1 hlines
      exact ih hbody
    refine ⟨⟨_, fun child hflip => (hchild child hflip).1⟩, fun n hn property hmem => ?_⟩
    rcases hn.cases_head with rfl | ⟨child, hobj, hn⟩
    · obtain ⟨path, lines, hlines⟩ := logProperty_of_mem h hmem
      exact printable_of_returns hlines
    · exact (hchild child hobj).2 n hn property hmem

/-- By induction on the object, of which all paths come to an end. -/
theorem logObject_returns (v8 : V8) (hacc : Acc (flip graph.Child) obj)
    (hprintable : ∀ n, ReflTransGen graph.Child obj n →
      ∀ property ∈ graph n, property.Printable) :
    ∃ depth, ∀ path indentLevel, ∃ lines,
      logObject v8 graph depth path indentLevel obj = .ok lines := by
  induction hacc with
  | intro obj _ ih =>
    -- the depth that one property needs
    have hone : ∀ property ∈ graph obj, ∃ depth, ∀ child, property.value = .object child →
        ∀ path indentLevel, ∃ lines,
          logObject v8 graph depth path indentLevel child = .ok lines := by
      intro property hmem
      by_cases hvalue : ∃ child, property.value = .object child
      · obtain ⟨child, hvalue⟩ := hvalue
        have hchild : graph.Child obj child := ⟨property, hmem, hvalue⟩
        obtain ⟨depth, hdepth⟩ := ih child hchild fun n hn => hprintable n (.head hchild hn)
        refine ⟨depth, fun child' hvalue' => ?_⟩
        obtain rfl : child = child' := by simpa [hvalue] using hvalue'
        exact hdepth
      · exact ⟨0, fun child hchild => absurd ⟨child, hchild⟩ hvalue⟩
    obtain ⟨depth, hdepth⟩ := exists_common (fun m n hle property h child hchild path d =>
      (h child hchild path d).imp fun _ => logObject_mono hle) hone
    refine ⟨depth + 1, fun path indentLevel => logProperties_returns fun property hmem path => ?_⟩
    exact logProperty_returns (hprintable obj .refl property hmem) fun child hchild =>
      hdepth property hmem child hchild path (indentLevel + 2)

end

/-! ## Arguments -/

variable {graph : ObjectGraph N} {depth : ℕ} {arg : LogArgument N} {pieces : List Piece}

theorem logArgument_object {obj : N} :
    logArgument v8 graph depth (.object obj) = .ok pieces ↔
      ∃ lines, logObject v8 graph depth [] 3 obj = .ok lines ∧
        pieces = .text (cString "\x7b\n") :: (lines.map .line ++ [.text (cString "\x7d\n")]) := by
  simp only [logArgument, bind_ok, pure, Except.pure, Except.ok.injEq, eq_comm (b := pieces)]

theorem logArgument_printed (h : logArgument v8 graph depth arg = .ok pieces) :
    arg.Printed v8 graph pieces := by
  cases arg with
  | object obj =>
    obtain ⟨lines, hlines, rfl⟩ := logArgument_object.1 h
    exact ⟨lines, rfl, logObject_listing hlines⟩
  | other => cases h
  | function | buffer | number | boolean | string => exact ⟨_, (Except.ok.inj h).symm⟩

theorem logArgument_mono {depth' : ℕ} (hle : depth ≤ depth')
    (h : logArgument v8 graph depth arg = .ok pieces) :
    logArgument v8 graph depth' arg = .ok pieces := by
  cases arg with
  | object obj =>
    obtain ⟨lines, hlines, rfl⟩ := logArgument_object.1 h
    exact logArgument_object.2 ⟨lines, logObject_mono hle hlines, rfl⟩
  | other | function | buffer | number | boolean | string => exact h

/-- What an argument must be for its turn to end. -/
theorem logArgument_returns_iff
    (hfin : ∀ obj, arg = .object obj → {n | ReflTransGen graph.Child obj n}.Finite) :
    (∃ depth pieces, logArgument v8 graph depth arg = .ok pieces) ↔ arg.Loggable graph := by
  cases arg with
  | object obj =>
    simp only [logArgument_object, LogArgument.Loggable]
    rw [forall₂_and, ← Acyclic.acc_iff_no_cycle (hfin obj rfl)]
    constructor
    · rintro ⟨depth, pieces, lines, hlines, -⟩
      exact of_logObject_returns hlines
    · rintro ⟨hacc, hprintable⟩
      obtain ⟨depth, hdepth⟩ := logObject_returns v8 hacc hprintable
      obtain ⟨lines, hlines⟩ := hdepth [] 3
      exact ⟨depth, _, lines, hlines, rfl⟩
  | other => exact ⟨fun ⟨_, _, h⟩ => (nomatch h), False.elim⟩
  | function | buffer | number | boolean | string => exact ⟨fun _ => trivial, fun _ => ⟨0, _, rfl⟩⟩

theorem log_ok {args : List (LogArgument N)} :
    log v8 graph depth args = .ok pieces ↔ ∃ outs,
      List.Forall₂ (fun arg out => logArgument v8 graph depth arg = .ok out) args outs ∧
        pieces = outs.flatten ++ [.text (cString "\n")] := by
  induction args generalizing pieces with
  | nil =>
    rw [log]
    simp only [List.forall₂_nil_left_iff, exists_eq_left, pure, Except.pure, Except.ok.injEq]
    exact eq_comm
  | cons arg args ih =>
    simp only [log, bind_ok, ih, pure, Except.pure, Except.ok.injEq]
    constructor
    · rintro ⟨out, hout, _, ⟨outs, houts, rfl⟩, rfl⟩
      exact ⟨out :: outs, .cons hout houts, by simp⟩
    · rintro ⟨_, hall, rfl⟩
      cases hall with
      | cons hout houts => exact ⟨_, hout, _, ⟨_, houts, rfl⟩, by simp⟩

end App

section

variable {N : Type*} {v8 : V8} {graph : ObjectGraph N} {args : List (LogArgument N)}

/-- A call that returns has printed what it should. -/
theorem logs_iff_returns :
    Logs v8 graph args ↔
      ∃ depth, ∀ arg ∈ args, ∃ pieces, App.logArgument v8 graph depth arg = .ok pieces := by
  constructor
  · rintro ⟨depth, outs, hlog, -⟩
    obtain ⟨outs, houts, -⟩ := App.log_ok.1 hlog
    refine ⟨depth, fun arg hmem => ?_⟩
    obtain ⟨i, hi, rfl⟩ := List.getElem_of_mem hmem
    exact ⟨_, houts.get hi (houts.length_eq ▸ hi)⟩
  · rintro ⟨depth, hreturns⟩
    choose! out hout using hreturns
    refine ⟨depth, args.map out, App.log_ok.2 ⟨_, ?_, rfl⟩, ?_⟩
    · exact List.forall₂_map_right_iff.2 (List.forall₂_same.2 hout)
    · exact List.forall₂_map_right_iff.2
        (List.forall₂_same.2 fun arg hmem => App.logArgument_printed (hout arg hmem))

/-- **`log` returns, and has printed each property once at each visit, exactly when no object is on
a cycle and each property can be printed.** -/
theorem log_iff
    (hfin : ∀ obj, .object obj ∈ args → {n | ReflTransGen graph.Child obj n}.Finite) :
    Logs v8 graph args ↔ ∀ arg ∈ args, arg.Loggable graph := by
  have hone : ∀ arg ∈ args, (arg.Loggable graph ↔
      ∃ depth pieces, App.logArgument v8 graph depth arg = .ok pieces) := by
    intro arg hmem
    exact (App.logArgument_returns_iff fun obj hobj => hfin obj (hobj ▸ hmem)).symm
  rw [logs_iff_returns]
  constructor
  · rintro ⟨depth, hdepth⟩ arg hmem
    exact (hone arg hmem).2 ⟨depth, hdepth arg hmem⟩
  · intro hall
    have hmono : ∀ ⦃m n : ℕ⦄, m ≤ n → ∀ arg,
        (∃ pieces, App.logArgument v8 graph m arg = .ok pieces) →
          ∃ pieces, App.logArgument v8 graph n arg = .ok pieces :=
      fun m n hle arg h => h.imp fun _ => App.logArgument_mono hle
    exact App.exists_common hmono fun arg hmem => (hone arg hmem).1 (hall arg hmem)

end

/-- Two properties of an object refer to another one. -/
def sharedGraph : ObjectGraph Bool
  | false => [⟨.string (jsString "a"), .object true⟩, ⟨.string (jsString "b"), .object true⟩]
  | true => [⟨.string (jsString "x"), .other (some (jsString "1"))⟩]

theorem sharedGraph_child {a b : Bool} (h : sharedGraph.Child a b) : a = false ∧ b = true := by
  obtain ⟨property, hmem, hvalue⟩ := h
  cases a with
  | true =>
    obtain rfl : property = ⟨.string (jsString "x"), .other (some (jsString "1"))⟩ := by
      simpa [sharedGraph] using hmem
    cases hvalue
  | false =>
    refine ⟨rfl, ?_⟩
    rcases (by simpa [sharedGraph] using hmem : _ ∨ _) with rfl | rfl <;> cases hvalue <;> rfl

theorem sharedGraph_loggable : LogArgument.Loggable sharedGraph (.object false) := by
  rintro n -
  constructor
  · intro hcycle
    obtain ⟨m, hfirst, -⟩ := TransGen.head'_iff.1 hcycle
    obtain ⟨m', -, hlast⟩ := TransGen.tail'_iff.1 hcycle
    exact absurd ((sharedGraph_child hfirst).1.symm.trans (sharedGraph_child hlast).2) (by decide)
  · cases n <;> simp [sharedGraph, Property.Printable]

theorem log_shared : Logs V8.reference sharedGraph [.object false] := by
  have hfin (obj : Bool) (_ : LogArgument.object obj ∈ [LogArgument.object false]) :
      {n | ReflTransGen sharedGraph.Child obj n}.Finite := Set.toFinite _
  exact (log_iff hfin).2 (by simpa using sharedGraph_loggable)

/-- An object that refers to itself. -/
def selfGraph : ObjectGraph Unit := fun _ => [⟨.string (jsString "self"), .object ()⟩]

/-- An array of one number. -/
def arrayGraph : ObjectGraph Unit := fun _ => [⟨.index 0, .other (some (jsString "1"))⟩]

theorem selfGraph_tooDeep (v8 : V8) (depth : ℕ) (path : List ℕ) (indentLevel : ℕ) :
    App.logObject v8 selfGraph depth path indentLevel () = .error .tooDeep := by
  induction depth generalizing path indentLevel with
  | zero => rfl
  | succ depth ih =>
    rw [App.logObject, selfGraph, App.logProperties, App.logProperty]
    simp only [ih]
    rfl

/-- No depth is enough for the object that refers to itself, and the index of the array is taken for
a string. -/
theorem log_self :
    (∀ depth, App.log V8.reference selfGraph depth [.object ()] = .error .tooDeep) ∧
      ∀ depth, App.log V8.reference arrayGraph (depth + 1) [.object ()] = .error .badCast := by
  constructor
  · intro depth
    rw [App.log, App.logArgument, selfGraph_tooDeep]
    rfl
  · intro depth
    rfl

end NanoJS

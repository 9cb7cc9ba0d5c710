import NanoJS.Engine.TimerCalls
import Mathlib.Data.List.OfFn

/-!
# The arguments of a timer

`setTimeOut` and `setInterval` keep the arguments behind the delay in a vector of
`args.Length() - 2` handles, and `runJob` copies them out at each firing. The difference is an
`int` that becomes a `size_t`: a call without a delay asks for 2^64 - 1 handles, which
`std::vector` refuses with an exception. With a delay, each firing receives the arguments from the
third on (`arguments_delivered_iff`).
-/

namespace NanoJS

open Transition

/-! ## The call -/

/-- The arguments of a call whose first argument is a function. `Length()` is an `int`. -/
structure FunctionCallbackInfo where
  callback : Closure
  others : List Value
  length_lt : others.length + 1 < 2 ^ 31

namespace FunctionCallbackInfo

variable (info : FunctionCallbackInfo)

def Length : ℤ := info.others.length + 1

/-- `args[i]`, for an index behind the function. Past the end it is `undefined`. -/
def arg (i : ℕ) : Value := info.others.getD (i - 1) .undefined

end FunctionCallbackInfo

/-- The exceptions of the C++ library. -/
inductive StdException
  /-- `cannot create std::vector larger than max_size()` -/
  | lengthError
  deriving DecidableEq

/-- An `int` that is converted to `size_t`. -/
def toSizeT (i : ℤ) : ℕ := (i % 2 ^ 64).toNat

/-- `max_size()` of a vector of handles, of 8 bytes each. -/
def maxHandles : ℕ := 2 ^ 60 - 1

/-- `new std::vector<v8::Persistent<v8::Value>>(count)`: the handles are empty. -/
def newHandles (count : ℕ) : Except StdException (List (Option Value)) :=
  if count ≤ maxHandles then .ok (List.replicate count none) else .error .lengthError

/-- `for (int i = 2; i < args.Length(); ++i) (*tJob->args)[i - 2].Reset(isolate, args[i]);` -/
def copyArguments (info : FunctionCallbackInfo) (handles : List (Option Value)) :
    List (Option Value) :=
  (List.range' 2 (info.Length - 2).toNat).foldl
    (fun handles i => handles.set (i - 2) (some (info.arg i))) handles

/-- What `setTimeOut` and `setInterval` store in `tJob->args`. -/
def timerArguments (info : FunctionCallbackInfo) : Except StdException (List (Option Value)) :=
  (newHandles (toSizeT (info.Length - 2))).map (copyArguments info)

/-- The arguments with which `runJob` calls the function of a job. -/
def runJobArguments (job : TimedJob) : List Value :=
  List.ofFn fun i : Fin job.args.length => job.args.get i

theorem runJobArguments_eq (job : TimedJob) : runJobArguments job = job.args :=
  List.ofFn_get job.args

/-! ## The vector -/

/-- The loop has copied the first `n` arguments behind the delay. -/
theorem foldl_set_range' (f : ℕ → Value) (n count : ℕ) (h : n ≤ count) :
    (List.range' 2 n).foldl (fun handles i => handles.set (i - 2) (some (f i)))
        (List.replicate count none) =
      (List.range' 2 n).map (fun i => some (f i)) ++ List.replicate (count - n) none := by
  induction n with
  | zero => simp
  | succ n ih =>
    have hsplit : count - n = (count - (n + 1)) + 1 := by omega
    rw [List.range'_1_concat, List.foldl_append, ih (by omega), hsplit, List.replicate_succ]
    simp

theorem copyArguments_eq (info : FunctionCallbackInfo) :
    copyArguments info (List.replicate (info.Length - 2).toNat none) =
      (info.others.drop 1).map some := by
  have hlen : (info.Length - 2).toNat = info.others.length - 1 := by
    simp only [FunctionCallbackInfo.Length]
    omega
  rw [copyArguments, foldl_set_range' _ _ _ le_rfl, Nat.sub_self, List.replicate_zero,
    List.append_nil, hlen]
  apply List.ext_getElem
  · simp
  · intro i hi hi'
    simp only [List.length_map, List.length_drop] at hi'
    have hbound : i + 1 < info.others.length := by omega
    simp [FunctionCallbackInfo.arg, List.getD_eq_getElem?_getD, show 2 + i - 1 = i + 1 by omega,
      hbound]

theorem timerArguments_eq (info : FunctionCallbackInfo) :
    timerArguments info =
      if 2 ≤ info.Length then .ok ((info.others.drop 1).map some) else .error .lengthError := by
  have hlt := info.length_lt
  unfold timerArguments newHandles
  split_ifs with hfits hdelay hdelay
  · have hcount : toSizeT (info.Length - 2) = (info.Length - 2).toNat := by
      simp only [toSizeT, FunctionCallbackInfo.Length] at *
      omega
    rw [hcount]
    exact congrArg Except.ok (copyArguments_eq info)
  · simp only [toSizeT, maxHandles, FunctionCallbackInfo.Length] at *
    omega
  · simp only [toSizeT, maxHandles, FunctionCallbackInfo.Length] at *
    omega
  · rfl

/-! ## Every firing -/

/-- The call was made with the arguments `info`. -/
def TimerCall.MadeWith (call : TimerCall) (info : FunctionCallbackInfo) : Prop :=
  call.func = info.callback ∧ timerArguments info = .ok (call.args.map some)

/-- The arguments behind the delay are stored, without an underflow, and in every run each firing
of the timer receives exactly them. -/
structure DeliversArguments (info : FunctionCallbackInfo) : Prop where
  stored : ∃ handles, timerArguments info = .ok handles ∧
    (handles.length : ℤ) = max (info.Length - 2) 0
  size : (toSizeT (info.Length - 2) : ℤ) = max (info.Length - 2) 0
  fired : ∀ s h, TimerRun (s, h) → ∀ call ∈ h.calls, call.MadeWith info →
    ∀ job t c, Event.timerInvoked job t c ∈ s.log → job.id = call.id →
      runJobArguments job = info.others.drop 1

/-- A firing receives what the call stored. -/
theorem TimerRun.runJobArguments_eq {s : Sys} {h : TimerHistory} (hr : TimerRun (s, h))
    {call : TimerCall} (hcall : call ∈ h.calls) {job : TimedJob} {t : ℤ} {c : ℕ}
    (hj : Event.timerInvoked job t c ∈ s.log) (hid : job.id = call.id) :
    runJobArguments job = call.args := by
  have htraced := TimerRun.traced hr
  have hsame := htraced.call_unique (htraced.invoked job t c hj) hcall hid
  rw [NanoJS.runJobArguments_eq]
  exact congrArg TimerCall.args hsame

/-- **The arguments behind the delay are delivered exactly when the call has a delay.** For every
call of `setTimeOut` or `setInterval` with a function and any further arguments: the vector has
`max (n - 2) 0` elements, its size does not underflow, and every firing of the timer receives the
arguments from the third on, if and only if the call has at least two arguments. -/
theorem arguments_delivered_iff (info : FunctionCallbackInfo) :
    DeliversArguments info ↔ 2 ≤ info.Length := by
  constructor
  · rintro ⟨⟨handles, hstored, -⟩, -, -⟩
    rw [timerArguments_eq] at hstored
    by_contra hshort
    rw [if_neg hshort] at hstored
    cases hstored
  · intro hdelay
    have hstored : timerArguments info = .ok ((info.others.drop 1).map some) := by
      rw [timerArguments_eq, if_pos hdelay]
    refine ⟨⟨_, hstored, ?_⟩, ?_, fun s h hr call hcall hmade job t c hj hid => ?_⟩
    · simp only [FunctionCallbackInfo.Length, List.length_map, List.length_drop] at *
      omega
    · have hlt := info.length_lt
      simp only [toSizeT, FunctionCallbackInfo.Length] at *
      omega
    · rw [hr.runJobArguments_eq hcall hj hid]
      have hsome := Except.ok.inj (hmade.2.symm.trans hstored)
      exact List.map_injective_iff.2 (Option.some_injective _) hsome

/-- `setTimeOut(f)`: the constructor of the vector throws. -/
theorem arguments_not_delivered :
    timerArguments ⟨.user 0 0, [], by decide⟩ = .error .lengthError ∧
      ¬DeliversArguments ⟨.user 0 0, [], by decide⟩ := by
  have hthrows : timerArguments ⟨.user 0 0, [], by decide⟩ = .error .lengthError := rfl
  refine ⟨hthrows, fun h => ?_⟩
  obtain ⟨handles, hstored, -⟩ := h.stored
  rw [hthrows] at hstored
  cases hstored

end NanoJS

import NanoJS.Files.Stats
import NanoJS.Files.Watcher
import NanoJS.Foundations.Definedness

/-!
# What is used of failed calls

The functions of `engine/FileSystem.cpp` that open, `stat` and read files, run on whatever their
variables hold. `getStatsSync` and `statsAsync` use nothing of a failed `stat`. `readFileSync` has
no value for a file that it cannot open, and `watcher` looks at no return code at all: its run is
sound exactly when every `stat` succeeds with a size that is an `int`, and two polls of one size
have read the whole file, or a difference (`uses_defined_iff`).
-/

namespace NanoJS

open Tracked

/-! ## `FileSystem.cpp` -/

/-- `File::readFileSync`, for scripts: it uses the string that the other function of this name
returns, which is whatever was `left` where it should be if that returns nothing. -/
def readFileSyncRun (v8 : V8) (node : FileNode) (left : CString) : Tracked JSString := do
  let res ← use (.filled (readFileString node) left)
  return toLocalString v8 res

/-- `File::getStatsSync`. The buffer holds what was `left` in it if `stat` fails. -/
def getStatsSyncRun (v8 : V8) (answer : Option StatBuffer) (left : StatBuffer) : Tracked Value :=
  let buffer := Cell.filled answer left
  if answer.isNone then pure .undefined
  else do return buildStatsObject v8 (← use buffer)

/-- `statsAsync`: the objects of its message. -/
def statsAsyncRun (node : FileNode) (left : Stat) : Tracked (List ObjectProject) :=
  let buffer := Cell.filled node.stat left
  if node.stat.isNone then pure [⟨[], []⟩]
  else do return statsAsync { node with stat := some (← use buffer) }

/-- What one turn of `watcher` finds: the size that `stat` answers, if it succeeds, and what was
left in its buffer; the bytes that the stream can deliver, none if it is not open; and what the
memory held that `new char[sz]` returns. -/
structure Answers where
  stat : Option ℕ
  left : ℤ
  stream : List UInt8
  heap : ℕ → UInt8

namespace Answers

variable (o : Answers)

/-- What the turn finds, as the watcher takes it. -/
def poll : Poll := ⟨(o.stat.map (Nat.cast : ℕ → ℤ)).getD o.left, o.stream, o.heap⟩

/-- `stat` succeeds, and the size is an `int`. -/
def Sized : Prop := ∃ n, o.stat = some n ∧ n < 2 ^ 31

instance : Decidable o.Sized :=
  match h : o.stat with
  | none => .isFalse fun ⟨n, hn, _⟩ => by rw [h] at hn; cases hn
  | some n =>
    if hlt : n < 2 ^ 31 then .isTrue ⟨n, h, hlt⟩
    else .isFalse fun ⟨m, hm, hlt'⟩ => by
      rw [h] at hm
      cases hm
      exact hlt hlt'

/-- `int sz = buffer.st_size`, the size of a file that exists if it is defined. -/
def sz : Cell ℤ := ⟨o.poll.sz, decide o.Sized⟩

/-- `content`, after `read(content, sz)`: the bytes that the stream has delivered are defined. -/
def content (i : ℕ) : Cell UInt8 :=
  ⟨o.poll.content.getD i 0, decide (i < o.poll.sz.toNat ∧ i < o.stream.length)⟩

end Answers

/-- The variables of `watcher` between two turns. -/
structure WatcherLocals where
  prevSz : Cell ℤ
  prevContent : ℕ → Cell UInt8

/-- What the variables hold after the content of a turn has become the last one. -/
def Answers.locals (o : Answers) : WatcherLocals := ⟨o.sz, o.content⟩

/-- The part of `watcher` before the loop: the size is used in `new char[prevSz]`. -/
def watcherStart (o : Answers) : Tracked WatcherLocals := do
  let _ ← use o.sz
  return o.locals

/-- A turn of the loop of `watcher`, and what it says of a change. -/
def watcherTurn (l : WatcherLocals) (o : Answers) : Tracked (Bool × WatcherLocals) := do
  let sz ← use o.sz
  let prevSz ← use l.prevSz
  if sz = prevSz then
    if ← compare l.prevContent o.content 0 sz.toNat then return (false, l)
    else return (true, o.locals)
  else return (true, o.locals)

/-- The loop, for the turns that are left. -/
def watcherLoop (l : WatcherLocals) : List Answers → Tracked WatcherLocals
  | [] => return l
  | o :: rest => do
    let (_, l') ← watcherTurn l o
    watcherLoop l' rest

/-- `watcher` -/
def watcherRun (first : Answers) (rest : List Answers) : Tracked WatcherLocals := do
  let l ← watcherStart first
  watcherLoop l rest

/-! ## One turn -/

namespace Answers

/-- Two turns tell whether the file has changed: if they find one size, both have read so many
bytes, or a difference. -/
def Tells (p o : Answers) : Prop :=
  ∀ n, p.stat = some n → o.stat = some n →
    n ≤ p.stream.length ∧ n ≤ o.stream.length ∨
      ∃ j < n, j < p.stream.length ∧ j < o.stream.length ∧
        p.stream.getD j 0 ≠ o.stream.getD j 0

variable {p o : Answers} {n : ℕ}

theorem sz_of_sized (h : o.stat = some n) (hn : n < 2 ^ 31) : o.poll.sz = n := by
  have hsize : o.poll.st_size = n := by
    rw [poll, h]
    rfl
  rw [Poll.sz, hsize]
  exact toInt32_of_lt (Int.natCast_nonneg n) (by omega)

theorem content_value (h : o.stat = some n) (hn : n < 2 ^ 31) {i : ℕ} (hi : i < n)
    (hread : i < o.stream.length) : (o.content i).value = o.stream.getD i 0 := by
  have hlen : i < o.poll.content.length := by
    simpa [Poll.content, sz_of_sized h hn] using hi
  rw [content, List.getD_eq_getElem _ _ hlen]
  simp only [Poll.content, List.getElem_map, List.getElem_range, poll]
  rw [List.getD_eq_getElem _ _ hread, List.getD_eq_getElem _ _ hread]

theorem content_defined (h : o.stat = some n) (hn : n < 2 ^ 31) (i : ℕ) :
    (o.content i).defined = true ↔ i < n ∧ i < o.stream.length := by
  rw [content, decide_eq_true_eq, sz_of_sized h hn, Int.toNat_natCast]

theorem content_behind (h : o.stat = some n) (hn : n < 2 ^ 31) {i : ℕ} (hi : n ≤ i) :
    o.content i = ⟨0, false⟩ := by
  have hlen : o.poll.content.length ≤ i := by
    simpa [Poll.content, sz_of_sized h hn] using hi
  have hnot : ¬(i < n ∧ i < o.stream.length) := by omega
  rw [content, List.getD_eq_default _ _ hlen, sz_of_sized h hn, Int.toNat_natCast,
    decide_eq_false hnot]

/-- The comparison of two contents of one size. -/
theorem compare_sound_iff (hp : p.stat = some n) (ho : o.stat = some n) (hn : n < 2 ^ 31) :
    (compare p.content o.content 0 n).sound = true ↔ p.Tells o := by
  have hm : ∀ j, ((p.content j).defined && (o.content j).defined) = true ↔
      j < min n (min p.stream.length o.stream.length) := by
    intro j
    rw [Bool.and_eq_true, content_defined hp hn, content_defined ho hn]
    omega
  have hvalue : ∀ {j}, j < n → j < p.stream.length → j < o.stream.length →
      ((p.content j).value ≠ (o.content j).value ↔
        p.stream.getD j 0 ≠ o.stream.getD j 0) := by
    intro j hj hjp hjo
    rw [content_value hp hn hj hjp, content_value ho hn hj hjo]
  rw [sound_compare_iff _ _ hm]
  constructor
  · rintro h k hpk -
    obtain rfl : n = k := Option.some.inj (hp.symm.trans hpk)
    rcases h with rfl | hend | ⟨j, -, -, hj, hne⟩
    · exact .inl ⟨Nat.zero_le _, Nat.zero_le _⟩
    · exact .inl (by omega)
    · exact .inr ⟨j, by omega, by omega, by omega, (hvalue (by omega) (by omega) (by omega)).1 hne⟩
  · intro h
    rcases h n hp ho with ⟨hpn, hon⟩ | ⟨j, hj, hjp, hjo, hne⟩
    · exact .inr (.inl (by omega))
    · exact .inr (.inr ⟨j, Nat.zero_le j, by omega, by omega, (hvalue hj hjp hjo).2 hne⟩)

/-- Contents that are compared soundly, and are found equal, are the same. -/
theorem locals_eq (hp : p.stat = some n) (ho : o.stat = some n) (hn : n < 2 ^ 31)
    (hequal : (compare p.content o.content 0 n).value = true) (htells : p.Tells o) :
    p.locals = o.locals := by
  rw [value_compare] at hequal
  have hsz : p.sz = o.sz := by
    have hsized : p.Sized ↔ o.Sized := by rw [Sized, Sized, hp, ho]
    rw [sz, sz, sz_of_sized hp hn, sz_of_sized ho hn, decide_eq_decide.2 hsized]
  have hread : n ≤ p.stream.length ∧ n ≤ o.stream.length := by
    rcases htells n hp ho with hread | ⟨j, hj, hjp, hjo, hne⟩
    · exact hread
    · rw [← content_value hp hn hj hjp, ← content_value ho hn hj hjo] at hne
      exact absurd (hequal j (Nat.zero_le j) (by omega)) hne
  have hcontent : p.content = o.content := by
    funext i
    by_cases hi : i < n
    · have hdefined : (p.content i).defined = (o.content i).defined := by
        rw [Bool.eq_iff_iff, content_defined hp hn, content_defined ho hn]
        omega
      have hvalue := hequal i (Nat.zero_le i) (by omega)
      cases hpi : p.content i
      cases hoi : o.content i
      simp_all
    · rw [content_behind hp hn (Nat.not_lt.1 hi), content_behind ho hn (Nat.not_lt.1 hi)]
  rw [locals, locals, hsz, hcontent]

theorem turn_sound {l : WatcherLocals} (o : Answers) (h : (watcherTurn l o).sound = true) :
    o.Sized := by
  unfold watcherTurn at h
  simp only [sound_bind, sound_use, Bool.and_eq_true] at h
  exact of_decide_eq_true h.1

/-- **A turn is sound** exactly when it tells whether the file has changed. -/
theorem turn_sound_iff (hp : p.Sized) (ho : o.Sized) :
    (watcherTurn p.locals o).sound = true ↔ p.Tells o := by
  obtain ⟨m, hpm, hm⟩ := hp
  obtain ⟨n, hon, hn⟩ := ho
  have hpd : p.sz.defined = true := decide_eq_true ⟨m, hpm, hm⟩
  have hod : o.sz.defined = true := decide_eq_true ⟨n, hon, hn⟩
  have hpv : p.sz.value = m := sz_of_sized hpm hm
  have hov : o.sz.value = n := sz_of_sized hon hn
  unfold watcherTurn
  simp only [sound_bind, sound_use, value_use, locals, hpd, hod, hpv, hov, Bool.true_and,
    Int.natCast_inj]
  by_cases hnm : n = m
  · subst hnm
    rw [if_pos rfl, Int.toNat_natCast, ← compare_sound_iff hpm hon hn]
    simp only [sound_bind]
    split <;> simp
  · rw [if_neg hnm]
    refine iff_of_true rfl fun k hpk hok => ?_
    rw [hpm] at hpk
    rw [hon] at hok
    cases hpk
    cases hok
    exact absurd rfl hnm

/-- After a sound turn, the last content is that of the turn. -/
theorem turn_value (hp : p.Sized) (ho : o.Sized) (htells : p.Tells o) :
    (watcherTurn p.locals o).value.2 = o.locals := by
  obtain ⟨m, hpm, hm⟩ := hp
  obtain ⟨n, hon, hn⟩ := ho
  have hpv : p.sz.value = m := sz_of_sized hpm hm
  have hov : o.sz.value = n := sz_of_sized hon hn
  unfold watcherTurn
  simp only [value_bind, value_use, locals, hpv, hov, Int.natCast_inj]
  by_cases hnm : n = m
  · subst hnm
    rw [if_pos rfl, Int.toNat_natCast]
    simp only [value_bind]
    split
    · rename_i hequal
      exact locals_eq hpm hon hn hequal htells
    · rfl
  · rw [if_neg hnm]
    rfl

/-- The turn says of a change what the watcher says. -/
theorem turn_changed (hp : p.Sized) (ho : o.Sized) :
    (watcherTurn p.locals o).value.1 =
      contentChanged p.poll.content p.poll.sz o.poll.content o.poll.sz := by
  obtain ⟨m, hpm, hm⟩ := hp
  obtain ⟨n, hon, hn⟩ := ho
  have hpv : p.sz.value = m := sz_of_sized hpm hm
  have hov : o.sz.value = n := sz_of_sized hon hn
  have hequal : (compare p.content o.content 0 n).value =
      areEqual p.poll.content o.poll.content n := by
    rw [Bool.eq_iff_iff, value_compare, areEqual, Int.toNat_natCast, List.all_eq_true]
    simp only [List.mem_range, beq_iff_eq, content, Nat.zero_le, Nat.zero_add, forall_const]
  unfold watcherTurn contentChanged
  simp only [value_bind, value_use, locals, hpv, hov, Int.natCast_inj, sz_of_sized hpm hm,
    sz_of_sized hon hn]
  by_cases hnm : n = m
  · subst hnm
    rw [if_pos rfl, Int.toNat_natCast]
    simp only [value_bind, hequal]
    cases areEqual p.poll.content o.poll.content n <;> simp
  · simp [hnm]

end Answers

/-! ## Runs -/

open Answers

/-- The turns of a run, each with a size, and each telling with the one before it. -/
def Reported (first : Answers) (rest : List Answers) : Prop :=
  (∀ o ∈ first :: rest, o.Sized) ∧ (first :: rest).IsChain Answers.Tells

theorem reported_cons (p o : Answers) (rest : List Answers) :
    Reported p (o :: rest) ↔ p.Sized ∧ p.Tells o ∧ Reported o rest := by
  simp only [Reported, List.forall_mem_cons, List.isChain_cons_cons]
  tauto

theorem loop_sound_iff {p : Answers} (hp : p.Sized) (rest : List Answers) :
    (watcherLoop p.locals rest).sound = true ↔ Reported p rest := by
  induction rest generalizing p with
  | nil => simp [watcherLoop, Reported, hp]
  | cons o rest ih =>
    have hsound : (watcherLoop p.locals (o :: rest)).sound = true ↔
        (watcherTurn p.locals o).sound = true ∧
          (watcherLoop (watcherTurn p.locals o).value.2 rest).sound = true := by
      rw [watcherLoop, sound_bind, Bool.and_eq_true]
    rw [hsound, reported_cons]
    constructor
    · rintro ⟨hturn, hrest⟩
      have ho := turn_sound o hturn
      have htells := (turn_sound_iff hp ho).1 hturn
      rw [turn_value hp ho htells, ih ho] at hrest
      exact ⟨hp, htells, hrest⟩
    · rintro ⟨-, htells, hrest⟩
      have ho : o.Sized := hrest.1 o (.head _)
      rw [turn_sound_iff hp ho, turn_value hp ho htells, ih ho]
      exact ⟨htells, hrest⟩

theorem watcherRun_sound_iff (first : Answers) (rest : List Answers) :
    (watcherRun first rest).sound = true ↔ Reported first rest := by
  have hsound : (watcherRun first rest).sound =
      (decide first.Sized && (watcherLoop first.locals rest).sound) := by
    simp [watcherRun, watcherStart, Answers.sz]
  rw [hsound, Bool.and_eq_true, decide_eq_true_eq]
  constructor
  · rintro ⟨hfirst, hloop⟩
    exact (loop_sound_iff hfirst rest).1 hloop
  · intro h
    have hfirst : first.Sized := h.1 first (.head _)
    exact ⟨hfirst, (loop_sound_iff hfirst rest).2 h⟩

/-! ## The other functions -/

theorem readFileSyncRun_sound (v8 : V8) (node : FileNode) (left : CString) :
    (readFileSyncRun v8 node left).sound = node.openRead := by
  unfold readFileSyncRun readFileString
  split <;> simp_all [Cell.filled]

theorem getStatsSyncRun_eq (v8 : V8) (answer : Option StatBuffer) (left : StatBuffer) :
    getStatsSyncRun v8 answer left = ⟨getStatsSync v8 answer, true⟩ := by
  cases answer <;> rfl

theorem statsAsyncRun_eq (node : FileNode) (left : Stat) :
    statsAsyncRun node left = ⟨statsAsync node, true⟩ := by
  unfold statsAsyncRun
  cases h : node.stat with
  | none =>
    rw [statsAsync, h]
    rfl
  | some stat =>
    have hnode : { node with stat := some stat } = node := by rw [← h]
    have hvalue : (do return statsAsync { node with stat := some (← use ⟨stat, true⟩) } :
        Tracked (List ObjectProject)) = ⟨statsAsync { node with stat := some stat }, true⟩ := rfl
    rw [hnode] at hvalue
    exact hvalue

/-- **What is used of failed calls.** `readFileSync` has a value exactly for a file that it can
open. `getStatsSync` and `statsAsync` use only what a successful `stat` has filled in. A run of
`watcher` uses only sizes of files that exist, and bytes that it has read, exactly when each `stat`
succeeds with a size that is an `int`, and each two neighbouring turns that find one size have read
so many bytes, or a difference. -/
theorem uses_defined_iff (v8 : V8) (node : FileNode) (leftString : CString)
    (answer : Option StatBuffer) (leftBuffer : StatBuffer) (leftStat : Stat) (first : Answers)
    (rest : List Answers) :
    ((readFileSyncRun v8 node leftString).sound = true ↔ node.openRead = true) ∧
      (getStatsSyncRun v8 answer leftBuffer).sound = true ∧
      (statsAsyncRun node leftStat).sound = true ∧
      ((watcherRun first rest).sound = true ↔ Reported first rest) := by
  refine ⟨?_, ?_, ?_, watcherRun_sound_iff first rest⟩
  · rw [readFileSyncRun_sound]
  · rw [getStatsSyncRun_eq]
  · rw [statsAsyncRun_eq]

/-- `fs.readFileSync` of a file that is not there; and a watched file of one byte that is
deleted. -/
theorem uses_undefined :
    ¬(readFileSyncRun V8.reference .missing []).sound = true ∧
      ¬(watcherRun ⟨some 1, 0, [0x61], fun _ => 0⟩ [⟨none, 1, [], fun _ => 0⟩]).sound = true := by
  rw [readFileSyncRun_sound, watcherRun_sound_iff]
  refine ⟨by decide, fun h => ?_⟩
  obtain ⟨n, hn, -⟩ := h.1 ⟨none, 1, [], fun _ => 0⟩ (.tail _ (.head _))
  cases hn

end NanoJS

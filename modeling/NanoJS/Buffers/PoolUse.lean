import NanoJS.Buffers.PoolOffset
import NanoJS.Buffers.Isolation

/-!
# How much of the pools is used

A pool is left for a new one when it has no room for what is asked of it, which is less than half of
it. So all pools but the last are more than half used, and the number of pools is proportional to
the bytes of the strings (`pool_use`). Array-likes use nothing, since they do not advance the
offset, but a pool may be left for one.
-/

namespace NanoJS

variable (v8 : V8)

/-- The bytes by which a call advances the offset. -/
def FromCall.taken (call : FromCall) : ℕ :=
  if call.isArrayLike then 0 else alignOffset ((call.pooledSize v8).getD 0)

/-- The number of pools that a sequence of calls makes. -/
def poolsMade (r : Realm) : List FromCall → ℕ
  | [] => 0
  | call :: calls =>
    let r' := (fromStep v8 r call).2
    (if r'.allocPool = r.allocPool then 0 else 1) + poolsMade r' calls

variable {v8}

theorem alignOffset_add {offset : ℕ} (h : 8 ∣ offset) (n : ℕ) :
    alignOffset (offset + n) = offset + alignOffset n := by
  rw [alignOffset_eq, alignOffset_eq]
  omega

theorem FromCall.pooledSize_lt {call : FromCall} {n : ℕ} (h : call.pooledSize v8 = some n) :
    n < poolSize / 2 := by
  have hn := (Option.filter_eq_some_iff.1 h).2
  rw [Bool.and_eq_true, decide_eq_true_eq, decide_eq_true_eq] at hn
  exact hn.2

/-- What a call does to the pool: it advances the offset, maybe in a new pool, after one of which
more than half is used. -/
theorem fromStep_pool (hv : v8.Documented) {r : Realm} (hr : r.Aligned) (call : FromCall) :
    (fromStep v8 r call).2.Aligned ∧
      ((fromStep v8 r call).2.allocPool = r.allocPool ∧
          (fromStep v8 r call).2.poolOffset = r.poolOffset + call.taken v8 ∨
        (fromStep v8 r call).2.allocPool ≠ r.allocPool ∧ poolSize / 2 + 8 ≤ r.poolOffset ∧
          (fromStep v8 r call).2.poolOffset = call.taken v8) := by
  have heff := bufferFrom_effect hv call hr.toWellFormed
  have hwf := fromStep_wellFormed hv hr.toWellFormed call
  have hdvd := hr.dvd
  have hnothing : call.pooledSize v8 = none → call.taken v8 = 0 := by
    intro h
    rw [FromCall.taken, h]
    split <;> rfl
  rw [fromStep] at hwf ⊢
  generalize (bufferFrom v8 call).run r = res at heff hwf
  cases heff with
  | threw e hcall =>
    refine ⟨hr, .inl ⟨rfl, ?_⟩⟩
    rw [hnothing hcall]
    rfl
  | direct v r' hcall hstore hnext hpool hoff =>
    refine ⟨⟨hwf, ?_⟩, .inl ⟨hpool, ?_⟩⟩
    · rwa [hoff]
    · rw [hnothing hcall]
      exact hoff
  | carved n v r₀ r' hcall hpos hr₀ hstore hoffset hlen hfits hnext hpool hsize hoff =>
    have hr₀' : r₀.Aligned := hr₀ ▸ hr.room n
    have hadvance : r'.poolOffset = r₀.poolOffset + call.taken v8 := by
      rw [hoff, FromCall.taken, hcall, Option.getD_some]
      split
      · rfl
      · exact alignOffset_add hr₀'.dvd n
    have htaken : 8 ∣ call.taken v8 := by
      unfold FromCall.taken
      split
      · exact Nat.dvd_zero 8
      · exact (alignOffset_isLeast _).1.2
    refine ⟨⟨hwf, hadvance ▸ Nat.dvd_add hr₀'.dvd htaken⟩, ?_⟩
    unfold Realm.room at hr₀
    split at hr₀
    · have hhalf := FromCall.pooledSize_lt hcall
      have hp : poolSize = 8192 := rfl
      have hpl := hr.pool_lt
      subst hr₀
      refine .inr ⟨?_, by omega, ?_⟩
      · rw [hpool]
        exact Nat.ne_of_gt hpl
      · rw [hadvance]
        exact Nat.zero_add _
    · subst hr₀
      exact .inl ⟨hpool, hadvance⟩

/-- What a sequence of calls takes, against the pools that it makes. -/
theorem taken_bounds (hv : v8.Documented) {r : Realm} (hr : r.Aligned) (calls : List FromCall) :
    (poolSize / 2 + 8) * poolsMade v8 r calls + (fromRun v8 r calls).2.poolOffset ≤
        r.poolOffset + (calls.map (FromCall.taken v8)).sum ∧
      r.poolOffset + (calls.map (FromCall.taken v8)).sum ≤
        poolSize * poolsMade v8 r calls + (fromRun v8 r calls).2.poolOffset := by
  have hp : poolSize = 8192 := rfl
  induction calls generalizing r with
  | nil => simp [poolsMade, fromRun]
  | cons call calls ih =>
    obtain ⟨hr', hpool⟩ := fromStep_pool hv hr call
    obtain ⟨hlow, hhigh⟩ := ih hr'
    have hle := hr.offset_le
    have hrun : (fromRun v8 r (call :: calls)).2 =
        (fromRun v8 (fromStep v8 r call).2 calls).2 := rfl
    rw [hp] at hlow hhigh hle hpool ⊢
    rw [List.map_cons, List.sum_cons, poolsMade, hrun]
    rcases hpool with ⟨hsame, hoff⟩ | ⟨hnew, hused, hoff⟩
    · rw [if_pos hsame]
      omega
    · rw [if_neg hnew]
      omega

/-- **The pools are half used.** After any sequence of calls of `Buffer.from`, the strings have
taken more than half of each pool but the last, and of the last what the offset says. -/
theorem pool_use (hv : v8.Documented) (mem : ByteMemory.Mem) (calls : List FromCall) :
    (poolSize / 2 + 8) * poolsMade v8 (Realm.load mem) calls +
        (fromRun v8 (Realm.load mem) calls).2.poolOffset ≤
        (calls.map (FromCall.taken v8)).sum ∧
      (calls.map (FromCall.taken v8)).sum ≤ poolSize * poolsMade v8 (Realm.load mem) calls +
        (fromRun v8 (Realm.load mem) calls).2.poolOffset := by
  have hbounds := taken_bounds hv (Realm.freshPool_aligned ⟨mem, fun _ => 0, 0, 0, 0⟩) calls
  have hzero : (Realm.load mem).poolOffset = 0 := rfl
  rw [← Realm.load, hzero, Nat.zero_add] at hbounds
  exact hbounds

/-- Two strings of four bytes. -/
theorem pool_use_two :
    (FromCall.string (jsString "abcd") none).taken V8.reference = 8 ∧
    (poolSize / 2 + 8) * poolsMade V8.reference (Realm.load fun _ _ => 0)
        [.string (jsString "abcd") none, .string (jsString "abcd") none] +
      (fromRun V8.reference (Realm.load fun _ _ => 0)
        [.string (jsString "abcd") none, .string (jsString "abcd") none]).2.poolOffset ≤ 16 := by
  have htaken : (FromCall.string (jsString "abcd") none).taken V8.reference = 8 := by decide
  refine ⟨htaken, (pool_use V8.reference_documented _ _).1.trans ?_⟩
  simp [htaken]

end NanoJS

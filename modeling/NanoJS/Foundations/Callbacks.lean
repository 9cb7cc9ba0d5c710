import Mathlib.Data.List.Forall2
import NanoJS.Foundations.Transition

/-!
# Programs that call back

A `Program` performs operations on data that it shares with other programs, and asks questions.
What answers them is not a program: it may start other programs first, or the same one again, and
it may answer with an exception. A `Machine` runs such programs, with those that wait for an answer
on a stack.

A `Protocol` says which operations a program may perform, by a state that its operations move. When
every program of a machine follows it (`Program.Follows`), an invariant of the data and of the
states of all programs in progress has to be preserved by the allowed operations only
(`Machine.Reachable.follows`).
-/

namespace Callbacks

/-! ## Programs -/

/-- The operations and the questions, and what they are answered with. -/
structure Interface where
  Op : Type
  Reply : Op → Type
  Query : Type
  Answer : Query → Type

/-- A program that throws exceptions in `ε`. -/
inductive Program (I : Interface) (ε α : Type)
  | pure (a : α)
  | throw (e : ε)
  | perform (o : I.Op) (k : I.Reply o → Program I ε α)
  | ask (q : I.Query) (k : Except ε (I.Answer q) → Program I ε α)

variable {I : Interface} {ε α β : Type}

namespace Program

def bind (p : Program I ε α) (f : α → Program I ε β) : Program I ε β :=
  match p with
  | pure a => f a
  | throw e => throw e
  | perform o k => perform o fun r => (k r).bind f
  | ask q k => ask q fun a => (k a).bind f

/-- `f` after `p`, whether `p` returns or throws. -/
def andFinally (p : Program I ε α) (f : Option α → Program I ε β) : Program I ε (α × β) :=
  match p with
  | pure a => (f (some a)).bind fun b => pure (a, b)
  | throw e => (f none).bind fun _ => throw e
  | perform o k => perform o fun r => (k r).andFinally f
  | ask q k => ask q fun a => (k a).andFinally f

instance : Monad (Program I ε) where
  pure := pure
  bind := bind

instance : MonadFinally (Program I ε) where
  tryFinally' := andFinally

@[simp] theorem pure_bind (a : α) (f : α → Program I ε β) :
    (Pure.pure a : Program I ε α) >>= f = f a := rfl

theorem bind_assoc {γ : Type} (p : Program I ε α) (f : α → Program I ε β)
    (g : β → Program I ε γ) : p >>= f >>= g = p >>= fun a => f a >>= g := by
  show (p.bind f).bind g = p.bind fun a => (f a).bind g
  induction p with
  | pure a => rfl
  | throw e => rfl
  | perform o k ih => exact congrArg (perform o) (funext ih)
  | ask q k ih => exact congrArg (ask q) (funext ih)

/-- An operation. -/
def op (o : I.Op) : Program I ε (I.Reply o) := perform o pure

/-- A question. An exception that answers it is thrown on. -/
def query (q : I.Query) : Program I ε (I.Answer q) :=
  ask q fun
    | .ok a => pure a
    | .error e => throw e

end Program

/-! ## Protocols -/

/-- Where an operation leads from a state, if it is allowed there, and the states in which a program
may ask. -/
structure Protocol (I : Interface) (Q : Type) where
  next : Q → I.Op → Option Q
  Asks : Q → Prop

variable {Q : Type} {P : Protocol I Q} {q q' q'' : Q}

/-- From the state `q` the program keeps to the protocol, whatever it is answered, and ends in
`q'`. -/
inductive Program.Follows (P : Protocol I Q) : Program I ε α → Q → Q → Prop
  | pure {a q} : Follows P (.pure a) q q
  | throw {e q} : Follows P (.throw e) q q
  | perform {o k q q' q''} (hnext : P.next q o = some q') (h : ∀ r, Follows P (k r) q' q'') :
      Follows P (.perform o k) q q''
  | ask {query k q q'} (hasks : P.Asks q) (h : ∀ a, Follows P (k a) q q') :
      Follows P (.ask query k) q q'

namespace Program.Follows

theorem bind {p : Program I ε α} {f : α → Program I ε β} (hp : p.Follows P q q')
    (hf : ∀ a, (f a).Follows P q' q') : (p >>= f).Follows P q q' := by
  show (p.bind f).Follows P q q'
  induction hp with
  | pure => exact hf _
  | throw => exact .throw
  | perform hnext _ ih => exact .perform hnext fun r => ih r hf
  | ask hasks _ ih => exact .ask hasks fun a => ih a hf

theorem map {p : Program I ε α} {f : α → β} (hp : p.Follows P q q') :
    (f <$> p).Follows P q q' :=
  bind hp fun _ => .pure

/-- An operation, and what comes after it. -/
theorem op_bind {s : Q} {o : I.Op} {f : I.Reply o → Program I ε α} (ho : P.next q o = some s)
    (hf : ∀ r, (f r).Follows P s q') : (op o >>= f).Follows P q q' :=
  .perform ho hf

theorem op {o : I.Op} (ho : P.next q o = some q') : (op o : Program I ε _).Follows P q q' :=
  .perform ho fun _ => .pure

theorem query {o : I.Query} (ho : P.Asks q) : (query o : Program I ε _).Follows P q q := by
  refine .ask ho fun a => ?_
  cases a with
  | ok a => exact .pure
  | error e => exact .throw

/-- What comes finally is run from where the program ends. -/
theorem tryFinally {p : Program I ε α} {f : Program I ε β} (hp : p.Follows P q q')
    (hf : f.Follows P q' q'') : (tryFinally p f).Follows P q q'' := by
  apply map
  show (p.andFinally fun _ => f).Follows P q q''
  have hlast : ∀ {γ : Type} (g : β → Program I ε γ), (∀ b, (g b).Follows P q'' q'') →
      (f.bind g).Follows P q' q'' := fun g hg => bind hf hg
  induction hp with
  | pure => exact hlast _ fun _ => .pure
  | throw => exact hlast _ fun _ => .throw
  | perform hnext _ ih => exact .perform hnext fun r => ih r hf hlast
  | ask hasks _ ih => exact .ask hasks fun a => ih a hf hlast

end Program.Follows

/-- The program performs no operation. -/
def Program.OnlyAsks : Program I ε α → Prop
  | .pure _ | .throw _ => True
  | .perform .. => False
  | .ask _ k => ∀ a, (k a).OnlyAsks

namespace Program.OnlyAsks

theorem bind {p : Program I ε α} {f : α → Program I ε β} (hp : p.OnlyAsks)
    (hf : ∀ a, (f a).OnlyAsks) : (p >>= f).OnlyAsks := by
  show (p.bind f).OnlyAsks
  induction p with
  | pure a => exact hf a
  | throw e => trivial
  | perform o k => exact hp.elim
  | ask query k ih => exact fun a => ih a (hp a)

theorem query (o : I.Query) : (query o : Program I ε _).OnlyAsks := by
  intro a
  cases a <;> trivial

/-- Where it may ask, it keeps to any protocol. -/
theorem follows {p : Program I ε α} (hp : p.OnlyAsks) (hq : P.Asks q) : p.Follows P q q := by
  induction p with
  | pure a => exact .pure
  | throw e => exact .throw
  | perform o k => exact hp.elim
  | ask query k ih => exact .ask hq fun a => ih a (hp a)

end Program.OnlyAsks

/-! ## Machines -/

/-- Programs over data in `D` by their names in `C`, those that may be started, and what an
operation does. A program that returns a name is followed by the program of that name. -/
structure Machine (I : Interface) (ε D C : Type) where
  body : C → Program I ε (Option C)
  Entry : C → Prop
  Effect (o : I.Op) : D → I.Reply o → D → Prop

variable {D C : Type}

/-- A program that waits for an answer. -/
structure Suspended (I : Interface) (ε C : Type) where
  query : I.Query
  resume : Except ε (I.Answer query) → Program I ε (Option C)

/-- The data, the program that runs, if one does, and those that wait, the latest first. -/
structure Config (I : Interface) (ε D C : Type) where
  data : D
  running : Option (Program I ε (Option C))
  suspended : List (Suspended I ε C)

namespace Machine

variable (M : Machine I ε D C)

/-- While no program runs, one may be started, or the latest question be answered. -/
inductive Step : Config I ε D C → Unit → Config I ε D C → Prop
  | start {d c ks} (h : M.Entry c) : Step ⟨d, none, ks⟩ () ⟨d, some (M.body c), ks⟩
  | perform {d d' o k r ks} (h : M.Effect o d r d') :
      Step ⟨d, some (.perform o k), ks⟩ () ⟨d', some (k r), ks⟩
  | ask {d q k ks} : Step ⟨d, some (.ask q k), ks⟩ () ⟨d, none, ⟨q, k⟩ :: ks⟩
  | answer {d q k ks} (a : Except ε (I.Answer q)) :
      Step ⟨d, none, ⟨q, k⟩ :: ks⟩ () ⟨d, some (k a), ks⟩
  | tailCall {d c ks} : Step ⟨d, some (.pure (some c)), ks⟩ () ⟨d, some (M.body c), ks⟩
  | finish {d ks} : Step ⟨d, some (.pure none), ks⟩ () ⟨d, none, ks⟩
  | fail {d e ks} : Step ⟨d, some (.throw e), ks⟩ () ⟨d, none, ks⟩

/-- What is reached from the data that `init` allows, when the program `c` is run first. -/
abbrev Reachable (init : D → Prop) (c : C) : Config I ε D C → Prop :=
  Transition.Reachable (fun s => ∃ d, init d ∧ s = ⟨d, some (M.body c), []⟩) M.Step

end Machine

/-! ## The invariant of a protocol -/

/-- A program that waits is in a state in which it may ask, and will follow the protocol. -/
def Suspended.At (P : Protocol I Q) (home : Q) (k : Suspended I ε C) (q : Q) : Prop :=
  P.Asks q ∧ ∀ a, (k.resume a).Follows P q home

/-- The programs in progress are in the states `qs`, the latest first. -/
def Config.At (P : Protocol I Q) (home : Q) (c : Config I ε D C) (qs : List Q) : Prop :=
  match c.running with
  | none => List.Forall₂ (Suspended.At P home) c.suspended qs
  | some p => ∃ q rest, qs = q :: rest ∧ p.Follows P q home ∧
      List.Forall₂ (Suspended.At P home) c.suspended rest

theorem asks_of_at {home : Q} {ks : List (Suspended I ε C)} {qs : List Q}
    (h : List.Forall₂ (Suspended.At P home) ks qs) : ∀ q ∈ qs, P.Asks q := by
  induction h with
  | nil => simp
  | cons h _ ih => simpa [h.1] using ih

/-- **The rule for protocols.** Every program follows the protocol from `home` to `home`. What holds
at the beginning, does not depend on a program that is at `home`, and is preserved by the operations
that the protocol allows, holds in every reachable configuration. -/
theorem Machine.Reachable.follows {M : Machine I ε D C} {init : D → Prop} {c₀ : C} {home : Q}
    (hbody : ∀ c, (M.body c).Follows P home home) (R : D → List Q → Prop)
    (hinit : ∀ d, init d → R d [])
    (hhome : ∀ d qs, (∀ q ∈ qs, P.Asks q) → (R d (home :: qs) ↔ R d qs))
    (hperform : ∀ {d d' o r q q' qs}, (∀ q ∈ qs, P.Asks q) → P.next q o = some q' →
      M.Effect o d r d' → R d (q :: qs) → R d' (q' :: qs))
    {s : Config I ε D C} (h : M.Reachable init c₀ s) : ∃ qs, s.At P home qs ∧ R s.data qs := by
  refine Transition.Reachable.invariant (I := fun s => ∃ qs, s.At P home qs ∧ R s.data qs) ?_ ?_ h
  · rintro _ ⟨d, hd, rfl⟩
    exact ⟨[home], ⟨home, [], rfl, hbody c₀, .nil⟩, (hhome d [] (by simp)).2 (hinit d hd)⟩
  · rintro s _ s' - ⟨qs, hat, hR⟩ hs
    cases hs with
    | start =>
      exact ⟨home :: qs, ⟨home, qs, rfl, hbody _, hat⟩, (hhome _ _ (asks_of_at hat)).2 hR⟩
    | perform he =>
      obtain ⟨q, rest, rfl, hp, hrest⟩ := hat
      cases hp with
      | @perform _ _ _ q' _ hnext hk =>
        exact ⟨q' :: rest, ⟨q', rest, rfl, hk _, hrest⟩, hperform (asks_of_at hrest) hnext he hR⟩
    | ask =>
      obtain ⟨q, rest, rfl, hp, hrest⟩ := hat
      cases hp with
      | ask hasks hk => exact ⟨q :: rest, .cons ⟨hasks, hk⟩ hrest, hR⟩
    | answer a =>
      cases hat with
      | @cons _ q _ rest hask hrest => exact ⟨q :: rest, ⟨q, rest, rfl, hask.2 a, hrest⟩, hR⟩
    | tailCall =>
      obtain ⟨q, rest, rfl, hp, hrest⟩ := hat
      cases hp
      exact ⟨home :: rest, ⟨home, rest, rfl, hbody _, hrest⟩, hR⟩
    | finish | fail =>
      obtain ⟨q, rest, rfl, hp, hrest⟩ := hat
      cases hp
      exact ⟨rest, hrest, (hhome _ _ (asks_of_at hrest)).1 hR⟩

end Callbacks

import Mathlib.Data.List.Basic
import Mathlib.Data.List.Nodup

/-!
# Two queues in a row

Items reach a queue on two channels: posted to a first queue, from whose front they are moved on
one by one, or pushed directly. The front of the second queue is served, and leaves it only after
that, while others arrive behind it. `Ordered` says where each item of the history is; it is kept by
every step. So items are served in the order in which they entered the second queue, and those of
one channel in the order of that channel (`Ordered.served_prefix`).
-/

/-- The two queues, whether the front of the second is being served, and the history. `entered`
tells the posted items from the pushed ones. -/
structure Pipeline (K : Type*) where
  upstream : List K
  queue : List K
  serving : Bool
  posted : List K
  direct : List K
  entered : List (Bool × K)
  served : List K

namespace Pipeline

variable {K : Type*}

/-- What the operations do. -/
inductive Step (p p' : Pipeline K) : Prop
  | stay (h : p' = p)
  | post (k : K) (h : p' = { p with upstream := p.upstream ++ [k], posted := p.posted ++ [k] })
  | push (k : K)
      (h : p' = { p with
        queue := p.queue ++ [k], direct := p.direct ++ [k], entered := p.entered ++ [(false, k)] })
  | enter (k : K) (rest : List K) (hup : p.upstream = k :: rest)
      (h : p' = { p with
        upstream := rest, queue := p.queue ++ [k], entered := p.entered ++ [(true, k)] })
  | serve (k : K) (rest : List K) (hq : p.queue = k :: rest) (hs : p.serving = false)
      (h : p' = { p with serving := true, served := p.served ++ [k] })
  | leave (hs : p.serving = true) (h : p' = { p with queue := p.queue.tail, serving := false })

def empty : Pipeline K := ⟨[], [], false, [], [], [], []⟩

/-- The items of the second queue that have not been served. -/
def waiting (p : Pipeline K) : List K := if p.serving then p.queue.tail else p.queue

/-- The items that entered on a channel. -/
def channel (p : Pipeline K) (posted : Bool) : List K :=
  (p.entered.filter fun e => e.1 == posted).map Prod.snd

/-- Where the items of the history are. -/
structure Ordered (p : Pipeline K) : Prop where
  entered : p.entered.map Prod.snd = p.served ++ p.waiting
  posted : p.posted = p.channel true ++ p.upstream
  direct : p.direct = p.channel false
  serving : p.serving = true → p.queue ≠ []

theorem ordered_empty : (empty : Pipeline K).Ordered := ⟨rfl, rfl, rfl, by simp [empty]⟩

/-- What arrives waits behind the others. -/
theorem Ordered.waiting_append {p : Pipeline K} (h : p.Ordered) (k : K) :
    (if p.serving then (p.queue ++ [k]).tail else p.queue ++ [k]) = p.waiting ++ [k] := by
  unfold waiting
  cases hs : p.serving with
  | false => rfl
  | true => exact List.tail_append_of_ne_nil (h.serving hs)

theorem Ordered.step {p p' : Pipeline K} (h : p.Ordered) (hs : Step p p') : p'.Ordered := by
  cases hs with
  | stay he =>
    subst he
    exact h
  | post k he =>
    subst he
    refine ⟨h.entered, ?_, h.direct, h.serving⟩
    show p.posted ++ [k] = p.channel true ++ (p.upstream ++ [k])
    rw [h.posted, List.append_assoc]
  | push k he =>
    subst he
    refine ⟨?_, ?_, ?_, fun _ => by simp⟩
    · show (p.entered ++ [(false, k)]).map Prod.snd = p.served ++ ite _ _ _
      rw [h.waiting_append, List.map_append, h.entered, List.append_assoc]
      rfl
    · simpa [channel] using h.posted
    · simpa [channel] using h.direct
  | enter k rest hup he =>
    subst he
    refine ⟨?_, ?_, ?_, fun _ => by simp⟩
    · show (p.entered ++ [(true, k)]).map Prod.snd = p.served ++ ite _ _ _
      rw [h.waiting_append, List.map_append, h.entered, List.append_assoc]
      rfl
    · simpa [channel, hup] using h.posted
    · simpa [channel] using h.direct
  | serve k rest hq hserving he =>
    subst he
    refine ⟨?_, h.posted, h.direct, fun _ => by simp [hq]⟩
    simp only [h.entered, waiting, hserving, hq]
    simp
  | leave hserving he =>
    subst he
    refine ⟨?_, h.posted, h.direct, by simp⟩
    simp only [h.entered, waiting, hserving]
    simp

/-- An item that entered was given to a channel. -/
theorem Ordered.mem_of_entered {p : Pipeline K} (h : p.Ordered) {k : K}
    (hk : k ∈ p.served ++ p.waiting) : k ∈ p.posted ++ p.direct := by
  rw [← h.entered] at hk
  obtain ⟨⟨c, k'⟩, he, rfl⟩ := List.mem_map.1 hk
  have hchannel : k' ∈ p.channel c := List.mem_map.2 ⟨(c, k'), by simpa using he, rfl⟩
  cases c with
  | false => exact List.mem_append_right _ (h.direct ▸ hchannel)
  | true => exact List.mem_append_left _ (h.posted ▸ List.mem_append_left _ hchannel)

/-- An item that is served was given to a channel. -/
theorem Ordered.mem_of_served {p : Pipeline K} (h : p.Ordered) {k : K} (hk : k ∈ p.served) :
    k ∈ p.posted ++ p.direct :=
  h.mem_of_entered (List.mem_append_left _ hk)

variable [DecidableEq K]

/-- The items that entered on a channel are those that were given to it. -/
theorem Ordered.filter_entered {p : Pipeline K} (h : p.Ordered)
    (hnodup : (p.posted ++ p.direct).Nodup) :
    (p.entered.map Prod.snd).filter (· ∈ p.posted) = p.channel true ∧
      (p.entered.map Prod.snd).filter (· ∈ p.direct) = p.channel false := by
  have hdisjoint := List.disjoint_of_nodup_append hnodup
  have hmem : ∀ e ∈ p.entered, e.2 ∈ if e.1 then p.posted else p.direct := by
    rintro ⟨c, k⟩ he
    have hchannel : k ∈ p.channel c := List.mem_map.2 ⟨(c, k), by simpa using he, rfl⟩
    cases c with
    | false => exact h.direct ▸ hchannel
    | true => exact h.posted ▸ List.mem_append_left _ hchannel
  constructor
  · rw [List.filter_map, channel]
    refine congrArg _ (List.filter_congr ?_)
    rintro ⟨c, k⟩ he
    cases c with
    | false => simpa using fun hk => hdisjoint hk (hmem _ he)
    | true => simpa using hmem _ he
  · rw [List.filter_map, channel]
    refine congrArg _ (List.filter_congr ?_)
    rintro ⟨c, k⟩ he
    cases c with
    | false => simpa using hmem _ he
    | true => simpa using hdisjoint (hmem _ he)

/-- **First in, first out.** When no item is given twice, items are served in the order in which
they entered, and those of a channel in the order in which they were given to it. -/
theorem Ordered.served_prefix {p : Pipeline K} (h : p.Ordered)
    (hnodup : (p.posted ++ p.direct).Nodup) :
    p.served <+: p.entered.map Prod.snd ∧
      p.served.filter (· ∈ p.posted) <+: p.posted ∧
      p.served.filter (· ∈ p.direct) <+: p.direct := by
  have hserved : p.served <+: p.entered.map Prod.snd := ⟨p.waiting, h.entered.symm⟩
  obtain ⟨hposted, hdirect⟩ := h.filter_entered hnodup
  refine ⟨hserved, ?_, ?_⟩
  · apply (hserved.filter _).trans
    rw [hposted, h.posted]
    exact List.prefix_append _ _
  · have hprefix := hserved.filter (· ∈ p.direct)
    rwa [hdirect, ← h.direct] at hprefix

/-- **What was posted** has been served, or waits, or is upstream, in this order. -/
theorem Ordered.posted_split {p : Pipeline K} (h : p.Ordered)
    (hnodup : (p.posted ++ p.direct).Nodup) :
    p.posted = p.served.filter (· ∈ p.posted) ++ p.waiting.filter (· ∈ p.posted) ++ p.upstream := by
  have hposted := (h.filter_entered hnodup).1
  rw [h.entered, List.filter_append] at hposted
  rw [hposted]
  exact h.posted

end Pipeline

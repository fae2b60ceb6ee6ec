import Mathlib.Data.Finset.Basic
import Mathlib.Order.Defs.LinearOrder
import Mathlib.Algebra.Group.Defs
import TTSR.Foundation.Dict
import TTSR.Foundation.Machine

/-!
# Keyed batching with a size trigger and a wait timer

Items arrive one at a time under a key and wait in the list of that key. A
waiting list is flushed as one batch by a callback. Two events schedule one: an
arrival that brings the list to the size of the policy schedules a callback due
at once, and an arrival at a key whose timer flag is down raises the flag and
schedules a callback due a delay later. A flush lowers the flag and does not
cancel anything, so a callback may find its list already gone, or find a later
list of the same key.

Time is any linear order with an addition. A callback runs at any moment from
its due time on, in any order, so the runs of `machine` contain every schedule
of an event loop.

The machine carries two histories that no step reads: `arrivals` and `batches`.
-/

namespace TTSR.Foundation.Batching

/-- When a waiting list is flushed. -/
structure Policy (T : Type*) where
  size : ℕ
  delay : T
  size_pos : 0 < size

structure Callback (κ T : Type*) where
  key : κ
  due : T
deriving DecidableEq

instance {κ T : Type*} [DecidableEq κ] [DecidableEq T] :
    LawfulBEq (Callback κ T) := instLawfulBEq

structure Arrival (κ ι T : Type*) where
  key : κ
  item : ι
  time : T
deriving DecidableEq

structure Batch (κ ι : Type*) where
  key : κ
  items : List ι
deriving DecidableEq

structure State (κ ι T : Type*) where
  now : T
  waiting : Dict κ (List ι)
  armed : Finset κ
  pending : List (Callback κ T)
  arrivals : List (Arrival κ ι T)
  batches : List (Batch κ ι)

inductive Event (κ ι T : Type*) where
  | arrive (k : κ) (x : ι)
  | fire (c : Callback κ T)
  | wait (t : T)

variable {κ ι T : Type*} [DecidableEq κ]

namespace State

/-- The items waiting under `k`. -/
def items (s : State κ ι T) (k : κ) : List ι := s.waiting.getD k []

def schedule (s : State κ ι T) (k : κ) (due : T) : State κ ι T :=
  { s with pending := s.pending ++ [⟨k, due⟩] }

/-- One arrival: append, then schedule by size, or arm the timer. -/
def arrive [Add T] (p : Policy T) (k : κ) (x : ι) (s : State κ ι T) : State κ ι T :=
  let group := s.items k ++ [x]
  let s' := { s with
    waiting := s.waiting.set k group
    arrivals := s.arrivals ++ [⟨k, x, s.now⟩] }
  if p.size ≤ group.length then s'.schedule k s.now
  else if k ∈ s.armed then s'
  else { s' with armed := insert k s.armed }.schedule k (s.now + p.delay)

/-- Pop the list of `k`, lower its flag, and record the batch. -/
def flush (k : κ) (s : State κ ι T) : State κ ι T :=
  { s with
    waiting := s.waiting.pop k
    armed := s.armed.erase k
    batches := if (s.items k).isEmpty then s.batches
      else s.batches ++ [⟨k, s.items k⟩] }

/-- A callback runs: it leaves the queue and flushes its key. -/
def fire [DecidableEq T] (c : Callback κ T) (s : State κ ι T) :
    State κ ι T :=
  { s.flush c.key with pending := s.pending.erase c }

/-- The items that arrived under `k`, in order. -/
def arrivalsOf (s : State κ ι T) (k : κ) : List ι :=
  (s.arrivals.filter (·.key = k)).map (·.item)

/-- The batches flushed for `k`, in order. -/
def batchesOf (s : State κ ι T) (k : κ) : List (Batch κ ι) :=
  s.batches.filter (·.key = k)

end State

def initial (t₀ : T) : State κ ι T := ⟨t₀, .empty, ∅, [], [], []⟩

variable [LinearOrder T] [Add T]

def step (p : Policy T) (s : State κ ι T) :
    Event κ ι T → Option (State κ ι T)
  | .arrive k x => some (s.arrive p k x)
  | .fire c =>
      if c ∈ s.pending ∧ c.due ≤ s.now then some (s.fire c) else none
  | .wait t => if s.now ≤ t then some { s with now := t } else none

def machine (p : Policy T) (t₀ : T) :
    Machine (State κ ι T) (Event κ ι T) := ⟨initial t₀, step p⟩

/-! ## What one step does -/

/-- Everything a step can do, guards included. -/
theorem step_cases {p : Policy T} {s s' : State κ ι T} {e : Event κ ι T}
    (h : step p s e = some s') :
    (∃ k x, e = .arrive k x ∧ s' = s.arrive p k x) ∨
    (∃ c, e = .fire c ∧ c ∈ s.pending ∧ c.due ≤ s.now ∧
      s' = s.fire c) ∨
    (∃ t, e = .wait t ∧ s.now ≤ t ∧ s' = { s with now := t }) := by
  cases e with
  | arrive k x => exact Or.inl ⟨k, x, rfl, (Option.some.inj h).symm⟩
  | fire c =>
      by_cases hc : c ∈ s.pending ∧ c.due ≤ s.now
      · rw [step, if_pos hc] at h
        exact Or.inr (Or.inl ⟨c, rfl, hc.1, hc.2, (Option.some.inj h).symm⟩)
      · rw [step, if_neg hc] at h
        cases h
  | wait t =>
      by_cases ht : s.now ≤ t
      · rw [step, if_pos ht] at h
        exact Or.inr (Or.inr ⟨t, rfl, ht, (Option.some.inj h).symm⟩)
      · rw [step, if_neg ht] at h
        cases h

namespace State

section Arrive

omit [LinearOrder T]

variable {p : Policy T} {s : State κ ι T} {k j : κ} {x : ι}

@[simp] theorem arrive_now : (s.arrive p k x).now = s.now := by
  unfold arrive
  dsimp only
  split_ifs <;> rfl

@[simp] theorem arrive_waiting :
    (s.arrive p k x).waiting = s.waiting.set k (s.items k ++ [x]) := by
  unfold arrive
  dsimp only
  split_ifs <;> rfl

@[simp] theorem arrive_arrivals :
    (s.arrive p k x).arrivals = s.arrivals ++ [⟨k, x, s.now⟩] := by
  unfold arrive
  dsimp only
  split_ifs <;> rfl

@[simp] theorem arrive_batches : (s.arrive p k x).batches = s.batches := by
  unfold arrive
  dsimp only
  split_ifs <;> rfl

/-- The two triggers of an arrival, and the case in which neither acts: a
timer of the key is already armed. -/
theorem arrive_trigger (p : Policy T) (s : State κ ι T) (k : κ) (x : ι) :
    (p.size ≤ (s.items k).length + 1 ∧ (s.arrive p k x).armed = s.armed ∧
      (s.arrive p k x).pending = s.pending ++ [⟨k, s.now⟩]) ∨
    ((s.items k).length + 1 < p.size ∧ k ∈ s.armed ∧
      (s.arrive p k x).armed = s.armed ∧
      (s.arrive p k x).pending = s.pending) ∨
    ((s.items k).length + 1 < p.size ∧ k ∉ s.armed ∧
      (s.arrive p k x).armed = insert k s.armed ∧
      (s.arrive p k x).pending = s.pending ++ [⟨k, s.now + p.delay⟩]) := by
  unfold arrive
  simp only [List.length_append, List.length_singleton]
  split_ifs with hsize harmed
  · exact Or.inl ⟨hsize, rfl, rfl⟩
  · exact Or.inr (Or.inl ⟨Nat.lt_of_not_le hsize, harmed, rfl, rfl⟩)
  · exact Or.inr (Or.inr ⟨Nat.lt_of_not_le hsize, harmed, rfl, rfl⟩)

theorem pending_subset_arrive {c : Callback κ T} (hc : c ∈ s.pending) :
    c ∈ (s.arrive p k x).pending := by
  rcases arrive_trigger p s k x with ⟨-, -, h⟩ | ⟨-, -, -, h⟩ | ⟨-, -, -, h⟩
  · rw [h]; exact List.mem_append_left _ hc
  · rw [h]; exact hc
  · rw [h]; exact List.mem_append_left _ hc

/-- A callback an arrival schedules belongs to the arriving key. -/
theorem mem_pending_arrive {c : Callback κ T}
    (hc : c ∈ (s.arrive p k x).pending) (hk : c.key ≠ k) : c ∈ s.pending := by
  rcases arrive_trigger p s k x with ⟨-, -, h⟩ | ⟨-, -, -, h⟩ | ⟨-, -, -, h⟩
  · rw [h, List.mem_append, List.mem_singleton] at hc
    exact hc.resolve_right fun heq => hk (by rw [heq])
  · rwa [h] at hc
  · rw [h, List.mem_append, List.mem_singleton] at hc
    exact hc.resolve_right fun heq => hk (by rw [heq])

@[simp] theorem items_arrive_self :
    (s.arrive p k x).items k = s.items k ++ [x] := by
  simp [items]

@[simp] theorem items_arrive_ne (h : j ≠ k) :
    (s.arrive p k x).items j = s.items j := by
  simp [items, h]

@[simp] theorem arrivalsOf_arrive_self :
    (s.arrive p k x).arrivalsOf k = s.arrivalsOf k ++ [x] := by
  simp [arrivalsOf]

@[simp] theorem arrivalsOf_arrive_ne (h : j ≠ k) :
    (s.arrive p k x).arrivalsOf j = s.arrivalsOf j := by
  simp [arrivalsOf, Ne.symm h]

@[simp] theorem batchesOf_arrive :
    (s.arrive p k x).batchesOf j = s.batchesOf j := by
  simp [batchesOf]

end Arrive

section Flush

omit [LinearOrder T] [Add T]

variable {s : State κ ι T} {k j : κ}

@[simp] theorem items_flush_self : (s.flush k).items k = [] := by
  simp [items, flush]

@[simp] theorem items_flush_ne (h : j ≠ k) :
    (s.flush k).items j = s.items j := by
  simp [items, flush, h]

@[simp] theorem batchesOf_flush_ne (h : j ≠ k) :
    (s.flush k).batchesOf j = s.batchesOf j := by
  unfold batchesOf flush
  dsimp only
  split_ifs
  · rfl
  · simp [Ne.symm h]

/-- A flush adds at most one batch: the whole waiting list of its key. -/
theorem mem_batches_flush {b : Batch κ ι} :
    b ∈ (s.flush k).batches ↔
      b ∈ s.batches ∨ (s.items k ≠ [] ∧ b = ⟨k, s.items k⟩) := by
  unfold flush
  dsimp only
  split_ifs with h
  · simp [List.isEmpty_iff.mp h]
  · simp [List.isEmpty_iff.not.mp h]

theorem batchesOf_flush_of_nil (h : s.items k = []) :
    (s.flush k).batchesOf k = s.batchesOf k := by
  simp [batchesOf, flush, h]

theorem batchesOf_flush_of_ne_nil (h : s.items k ≠ []) :
    (s.flush k).batchesOf k = s.batchesOf k ++ [⟨k, s.items k⟩] := by
  simp [batchesOf, flush, h]

variable [DecidableEq T] {c : Callback κ T}

@[simp] theorem items_fire :
    (s.fire c).items j = (s.flush c.key).items j := rfl

@[simp] theorem batchesOf_fire :
    (s.fire c).batchesOf j = (s.flush c.key).batchesOf j := rfl

@[simp] theorem arrivalsOf_fire :
    (s.fire c).arrivalsOf j = s.arrivalsOf j := rfl

end Flush

end State

/-! ## The invariant of every run -/

/-- What links the waiting lists, the timer flags, the pending callbacks and
the two histories. `scheduled` is the liveness half: a nonempty list, or a
raised flag, is always backed by a callback that has not run. `conserved` is the
safety half: batches and waiting list of a key, in this order, are its arrivals. -/
structure Inv (s : State κ ι T) : Prop where
  scheduled : ∀ k, s.items k ≠ [] ∨ k ∈ s.armed → ∃ c ∈ s.pending, c.key = k
  conserved : ∀ k, s.arrivalsOf k =
    (s.batchesOf k).flatMap (·.items) ++ s.items k
  inhabited : ∀ k, s.waiting.get? k ≠ some []
  clock : ∀ a ∈ s.arrivals, a.time ≤ s.now

omit [Add T] in
theorem inv_initial (t₀ : T) : Inv (initial t₀ : State κ ι T) where
  scheduled := by simp [initial, State.items]
  conserved := fun _ => rfl
  inhabited := by simp [initial]
  clock := by simp [initial]

theorem inv_arrive {p : Policy T} {s : State κ ι T} (hi : Inv s) (k : κ)
    (x : ι) : Inv (s.arrive p k x) where
  scheduled := by
    intro j hj
    by_cases hjk : j = k
    · subst hjk
      rcases State.arrive_trigger p s j x with
        ⟨-, -, h⟩ | ⟨-, harmed, -, h⟩ | ⟨-, -, -, h⟩
      · rw [h]
        exact ⟨⟨j, s.now⟩, by simp, rfl⟩
      · rw [h]
        exact hi.scheduled j (Or.inr harmed)
      · rw [h]
        exact ⟨⟨j, s.now + p.delay⟩, by simp, rfl⟩
    · have hold : s.items j ≠ [] ∨ j ∈ s.armed := by
        rw [State.items_arrive_ne hjk] at hj
        refine hj.imp_right fun hmem => ?_
        rcases State.arrive_trigger p s k x with
          ⟨-, h, -⟩ | ⟨-, -, h, -⟩ | ⟨-, -, h, -⟩
        · rwa [h] at hmem
        · rwa [h] at hmem
        · rw [h, Finset.mem_insert] at hmem
          exact hmem.resolve_left hjk
      obtain ⟨c, hc, hkey⟩ := hi.scheduled j hold
      exact ⟨c, State.pending_subset_arrive hc, hkey⟩
  conserved := by
    intro j
    by_cases hjk : j = k
    · subst hjk
      rw [State.arrivalsOf_arrive_self, State.batchesOf_arrive,
        State.items_arrive_self, hi.conserved j, List.append_assoc]
    · rw [State.arrivalsOf_arrive_ne hjk, State.batchesOf_arrive,
        State.items_arrive_ne hjk, hi.conserved j]
  inhabited := by
    intro j
    rw [State.arrive_waiting]
    by_cases hjk : j = k
    · subst hjk
      simp
    · rw [Dict.get?_set_ne _ _ hjk]
      exact hi.inhabited j
  clock := by
    intro a ha
    rw [State.arrive_arrivals, List.mem_append, List.mem_singleton] at ha
    rw [State.arrive_now]
    rcases ha with ha | rfl
    · exact hi.clock a ha
    · exact le_refl _

omit [Add T] in
/-- A callback that leaves the queue takes the list and the flag of its key
with it, so no other key loses its callback. -/
theorem inv_fire {s : State κ ι T} (hi : Inv s) (c : Callback κ T) :
    Inv (s.fire c) where
  scheduled := by
    intro j hj
    by_cases hjk : j = c.key
    · subst hjk
      simp [State.fire, State.flush, State.items] at hj
    · have hold : s.items j ≠ [] ∨ j ∈ s.armed := by
        rw [State.items_fire, State.items_flush_ne hjk] at hj
        exact hj.imp_right Finset.mem_of_mem_erase
      obtain ⟨d, hd, hkey⟩ := hi.scheduled j hold
      have hdc : d ≠ c := fun heq => hjk (by rw [← hkey, heq])
      exact ⟨d, (List.mem_erase_of_ne hdc).mpr hd, hkey⟩
  conserved := by
    intro j
    rw [State.arrivalsOf_fire, State.batchesOf_fire, State.items_fire]
    by_cases hjk : j = c.key
    · subst hjk
      have hcons := hi.conserved c.key
      rw [State.items_flush_self, List.append_nil]
      by_cases hnil : s.items c.key = []
      · rw [State.batchesOf_flush_of_nil hnil]
        rw [hnil, List.append_nil] at hcons
        exact hcons
      · rw [State.batchesOf_flush_of_ne_nil hnil, List.flatMap_append]
        simpa using hcons
    · rw [State.items_flush_ne hjk, State.batchesOf_flush_ne hjk]
      exact hi.conserved j
  inhabited := by
    intro j
    by_cases hjk : j = c.key
    · subst hjk
      simp [State.fire, State.flush]
    · simpa [State.fire, State.flush, hjk] using hi.inhabited j
  clock := hi.clock

theorem inv_step {p : Policy T} {s s' : State κ ι T} {e : Event κ ι T}
    (hi : Inv s) (h : step p s e = some s') : Inv s' := by
  rcases step_cases h with ⟨k, x, -, rfl⟩ | ⟨c, -, -, -, rfl⟩ | ⟨t, -, ht, rfl⟩
  · exact inv_arrive hi k x
  · exact inv_fire hi c
  · exact { hi with clock := fun a ha => le_trans (hi.clock a ha) ht }

theorem reachable_inv {p : Policy T} {t₀ : T} {s : State κ ι T}
    (h : (machine p t₀).Reachable s) : Inv s :=
  Machine.ReachableIf.invariant (I := Inv) (inv_initial t₀)
    (fun _ _ _ _ hi _ hs => inv_step hi hs) h

omit [Add T] in
/-- When no callback is pending, no list waits and no flag is up. -/
theorem drained {s : State κ ι T} (hi : Inv s) (hp : s.pending = []) :
    s.waiting.entries = [] ∧ s.armed = ∅ := by
  have hnone : ∀ k, ¬ (s.items k ≠ [] ∨ k ∈ s.armed) := by
    intro k hk
    obtain ⟨c, hc, -⟩ := hi.scheduled k hk
    rw [hp] at hc
    cases hc
  constructor
  · apply Dict.entries_eq_nil_of_get?
    intro k
    cases hget : s.waiting.get? k with
    | none => rfl
    | some l =>
        have hl : s.items k = l := by simp [State.items, Dict.getD, hget]
        have hnil : l = [] := by
          by_contra hne
          exact hnone k (Or.inl (hl ▸ hne))
        exact absurd (hnil ▸ hget) (hi.inhabited k)
  · exact Finset.eq_empty_of_forall_notMem fun k hk => hnone k (Or.inr hk)

/-! ## Every item in exactly one place

The histories place items by key. When the items themselves are distinct, an
item that has arrived is either still waiting or in one batch, never both,
never twice, and only ever under its own key. -/

/-- Where an arrived item is: in the list of its key and in no batch, or in
one batch of its key and in no list and no other batch. -/
def PlacedOnce (s : State κ ι T) (a : Arrival κ ι T) : Prop :=
  (∀ k, k ≠ a.key → a.item ∉ s.items k) ∧
  ((a.item ∈ s.items a.key ∧ ∀ b ∈ s.batches, a.item ∉ b.items) ∨
   (a.item ∉ s.items a.key ∧ ∃ pre b post, s.batches = pre ++ b :: post ∧
      b.key = a.key ∧ a.item ∈ b.items ∧ ∀ b' ∈ pre ++ post, a.item ∉ b'.items))

omit [LinearOrder T] [Add T] in
theorem mem_arrivalsOf {s : State κ ι T} {k : κ} {x : ι} :
    x ∈ s.arrivalsOf k ↔ ∃ a ∈ s.arrivals, a.key = k ∧ a.item = x := by
  simp [State.arrivalsOf, and_assoc]

omit [LinearOrder T] [Add T] in
theorem mem_batchesOf {s : State κ ι T} {k : κ} {b : Batch κ ι} :
    b ∈ s.batchesOf k ↔ b ∈ s.batches ∧ b.key = k := by
  simp [State.batchesOf]

omit [Add T] in
theorem arrived_of_mem_batch {s : State κ ι T} (hi : Inv s) {b : Batch κ ι}
    (hb : b ∈ s.batches) {x : ι} (hx : x ∈ b.items) :
    ∃ a ∈ s.arrivals, a.key = b.key ∧ a.item = x := by
  rw [← mem_arrivalsOf, hi.conserved b.key, List.mem_append, List.mem_flatMap]
  exact Or.inl ⟨b, List.mem_filter.mpr ⟨hb, by simp⟩, hx⟩

omit [Add T] in
theorem length_batch_le {s : State κ ι T} (hi : Inv s) {b : Batch κ ι}
    (hb : b ∈ s.batches) : b.items.length ≤ (s.arrivalsOf b.key).length := by
  obtain ⟨pre, post, hsplit⟩ := List.append_of_mem (mem_batchesOf.mpr ⟨hb, rfl⟩)
  rw [hi.conserved, hsplit, List.flatMap_append, List.flatMap_cons,
    List.length_append, List.length_append, List.length_append]
  omega

omit [Add T] in
/-- Items told apart by a tag: a batch that holds an item with the tag of an
item of `k` is a batch of `k`, and holds that very item. -/
theorem batch_of_tag {ν : Type*} {tag : ι → ν} {s : State κ ι T} (hi : Inv s)
    (hnd : (s.arrivals.map fun a => tag a.item).Nodup) {k : κ} {x y : ι}
    {b : Batch κ ι} (hx : x ∈ s.arrivalsOf k) (hb : b ∈ s.batches)
    (hy : y ∈ b.items) (htag : tag y = tag x) : b.key = k ∧ y = x := by
  obtain ⟨a, ha, rfl, rfl⟩ := mem_arrivalsOf.mp hx
  obtain ⟨a', ha', hkey, rfl⟩ := arrived_of_mem_batch hi hb hy
  have heq : a' = a := List.inj_on_of_nodup_map hnd ha' ha htag
  subst heq
  exact ⟨hkey.symm, rfl⟩

omit [Add T] in
theorem arrived_of_mem_items {s : State κ ι T} (hi : Inv s) {k : κ} {x : ι}
    (hx : x ∈ s.items k) : ∃ a ∈ s.arrivals, a.key = k ∧ a.item = x := by
  rw [← mem_arrivalsOf, hi.conserved k]
  exact List.mem_append_right _ hx

omit [DecidableEq κ] [LinearOrder T] [Add T] in
/-- Distinct items: two arrivals of one item are one arrival. -/
theorem key_eq_of_item_eq {s : State κ ι T}
    (hnd : (s.arrivals.map (·.item)).Nodup) {a b : Arrival κ ι T}
    (ha : a ∈ s.arrivals) (hb : b ∈ s.arrivals) (h : a.item = b.item) :
    a = b :=
  List.inj_on_of_nodup_map hnd ha hb h

omit [LinearOrder T] [Add T] in
theorem arrivalsOf_nodup {s : State κ ι T}
    (hnd : (s.arrivals.map (·.item)).Nodup) (k : κ) :
    (s.arrivalsOf k).Nodup :=
  hnd.sublist (List.filter_sublist.map _)

omit [Add T] in
theorem placedOnce {s : State κ ι T} (hi : Inv s)
    (hnd : (s.arrivals.map (·.item)).Nodup) {a : Arrival κ ι T}
    (ha : a ∈ s.arrivals) : PlacedOnce s a := by
  have hown : ∀ k, a.item ∈ s.items k → k = a.key := by
    intro k hk
    obtain ⟨a', ha', hkey, hitem⟩ := arrived_of_mem_items hi hk
    rw [← hkey, key_eq_of_item_eq hnd ha' ha hitem]
  have hownBatch : ∀ b ∈ s.batches, a.item ∈ b.items → b.key = a.key := by
    intro b hb hmem
    obtain ⟨a', ha', hkey, hitem⟩ := arrived_of_mem_batch hi hb hmem
    rw [← hkey, key_eq_of_item_eq hnd ha' ha hitem]
  refine ⟨fun k hk hmem => hk (hown k hmem), ?_⟩
  have hcons := hi.conserved a.key
  have hnodup := hcons ▸ arrivalsOf_nodup hnd a.key
  obtain ⟨hflat, -, hdisj⟩ := List.nodup_append.mp hnodup
  have hmem : a.item ∈ (s.batchesOf a.key).flatMap (·.items) ++
      s.items a.key := by
    rw [← hcons]
    exact mem_arrivalsOf.mpr ⟨a, ha, rfl, rfl⟩
  rcases List.mem_append.mp hmem with hbatched | hwaiting
  · refine Or.inr ⟨fun hw => hdisj _ hbatched _ hw rfl, ?_⟩
    obtain ⟨b, hbk, hb⟩ := List.mem_flatMap.mp hbatched
    obtain ⟨hbmem, hkey⟩ := List.mem_filter.mp hbk
    obtain ⟨pre, post, hsplit⟩ := List.append_of_mem hbmem
    have hkey' : b.key = a.key := by simpa using hkey
    refine ⟨pre, b, post, hsplit, hkey', hb, fun b' hb' hmem' => ?_⟩
    -- a second batch with the item would repeat it in the arrivals of its key
    have hb'mem : b' ∈ s.batches := by
      rw [hsplit]
      rcases List.mem_append.mp hb' with h | h
      · exact List.mem_append_left _ h
      · exact List.mem_append_right _ (List.mem_cons_of_mem _ h)
    have hbk' := hownBatch b' hb'mem hmem'
    have hof : s.batchesOf a.key = pre.filter (·.key = a.key) ++
        b :: post.filter (·.key = a.key) := by
      rw [State.batchesOf, hsplit, List.filter_append,
        List.filter_cons_of_pos (by simpa using hkey')]
    rw [hof, List.flatMap_append, List.flatMap_cons] at hflat
    obtain ⟨-, hright, hcross⟩ := List.nodup_append.mp hflat
    obtain ⟨-, -, hcross'⟩ := List.nodup_append.mp hright
    rcases List.mem_append.mp hb' with h | h
    · have hin : a.item ∈ (pre.filter (·.key = a.key)).flatMap (·.items) :=
        List.mem_flatMap.mpr
          ⟨b', List.mem_filter.mpr ⟨h, by simpa using hbk'⟩, hmem'⟩
      exact hcross _ hin _ (List.mem_append_left _ hb) rfl
    · have hin : a.item ∈ (post.filter (·.key = a.key)).flatMap (·.items) :=
        List.mem_flatMap.mpr
          ⟨b', List.mem_filter.mpr ⟨h, by simpa using hbk'⟩, hmem'⟩
      exact hcross' _ hb _ hin rfl
  · refine Or.inl ⟨hwaiting, fun b hb hmem' => ?_⟩
    have hbk := hownBatch b hb hmem'
    have hin : a.item ∈ (s.batchesOf a.key).flatMap (·.items) :=
      List.mem_flatMap.mpr
        ⟨b, List.mem_filter.mpr ⟨hb, by simpa using hbk⟩, hmem'⟩
    exact hdisj _ hin _ hwaiting rfl

/-! ## A whole group in one batch

The size trigger is not enough to keep a group together: the timer armed at the
first arrival flushes whatever has arrived by its due time. A group that arrives
within one delay of its first member is safe from it, and from every timer that
an earlier flush of the same key left behind. -/

/-- All arrivals of `k` lie within less than one delay of each other. -/
def WithinDelay (p : Policy T) (s : State κ ι T) (k : κ) : Prop :=
  ∀ a ∈ s.arrivals, ∀ b ∈ s.arrivals, a.key = k → b.key = k →
    b.time < a.time + p.delay

instance (p : Policy T) (s : State κ ι T) (k : κ) :
    Decidable (WithinDelay p s k) :=
  inferInstanceAs (Decidable (∀ a ∈ s.arrivals, ∀ b ∈ s.arrivals,
    a.key = k → b.key = k → b.time < a.time + p.delay))

/-- Some arrival of `k` is at least one delay before `t`. -/
def Overdue (p : Policy T) (s : State κ ι T) (k : κ) (t : T) : Prop :=
  ∃ a ∈ s.arrivals, a.key = k ∧ a.time + p.delay ≤ t

/-- The three situations of a key whose group is timely and not too large:
nothing flushed yet, with every pending callback either backed by the full size
or not due within the window; the whole group flushed as one batch; or the
window over with the group still incomplete. -/
def GroupPhase (p : Policy T) (s : State κ ι T) (k : κ) : Prop :=
  (s.batchesOf k = [] ∧ ∀ c ∈ s.pending, c.key = k →
    (s.arrivalsOf k).length = p.size ∨ Overdue p s k c.due) ∨
  (s.batchesOf k = [⟨k, s.arrivalsOf k⟩] ∧
    (s.arrivalsOf k).length = p.size) ∨
  ((s.arrivalsOf k).length < p.size ∧ Overdue p s k s.now)

omit [DecidableEq κ] in
theorem overdue_mono {p : Policy T} {s s' : State κ ι T} {k : κ} {t t' : T}
    (hsub : ∀ a ∈ s.arrivals, a ∈ s'.arrivals) (ht : t ≤ t')
    (h : Overdue p s k t) : Overdue p s' k t' := by
  obtain ⟨a, ha, hk, hdue⟩ := h
  exact ⟨a, hsub a ha, hk, le_trans hdue ht⟩

omit [LinearOrder T] in
theorem mem_arrivals_arrive {p : Policy T} {s : State κ ι T} {k : κ} {x : ι}
    {a : Arrival κ ι T} (ha : a ∈ s.arrivals) :
    a ∈ (s.arrive p k x).arrivals := by
  rw [State.arrive_arrivals]
  exact List.mem_append_left _ ha

theorem withinDelay_of_arrive {p : Policy T} {s : State κ ι T} {j k : κ}
    {x : ι} (h : WithinDelay p (s.arrive p j x) k) : WithinDelay p s k :=
  fun a ha b hb => h a (mem_arrivals_arrive ha) b (mem_arrivals_arrive hb)

/-- An arrival at another key leaves the phase of `k` alone. -/
theorem groupPhase_arrive_ne {p : Policy T} {s : State κ ι T} {j k : κ}
    {x : ι} (hjk : j ≠ k) (h : GroupPhase p s k) :
    GroupPhase p (s.arrive p j x) k := by
  have hsub : ∀ a ∈ s.arrivals, a ∈ (s.arrive p j x).arrivals :=
    fun a ha => mem_arrivals_arrive ha
  unfold GroupPhase
  rw [State.batchesOf_arrive, State.arrivalsOf_arrive_ne (Ne.symm hjk)]
  rcases h with ⟨hnone, hpend⟩ | hwhole | ⟨hlt, hover⟩
  · refine Or.inl ⟨hnone, fun c hc hck => ?_⟩
    have hold : c ∈ s.pending :=
      State.mem_pending_arrive hc (by rw [hck]; exact Ne.symm hjk)
    exact (hpend c hold hck).imp_right (overdue_mono hsub (le_refl _))
  · exact Or.inr (Or.inl hwhole)
  · refine Or.inr (Or.inr ⟨hlt, ?_⟩)
    rw [State.arrive_now]
    exact overdue_mono hsub (le_refl _) hover

/-- An arrival at `k` itself. A window that is over contradicts the timeliness
of the newcomer, and a flushed group its size. -/
theorem groupPhase_arrive_self {p : Policy T} {s : State κ ι T} {k : κ}
    {x : ι} (hi : Inv s) (hin : WithinDelay p (s.arrive p k x) k)
    (hle : ((s.arrive p k x).arrivalsOf k).length ≤ p.size)
    (h : GroupPhase p s k) : GroupPhase p (s.arrive p k x) k := by
  have hsub : ∀ a ∈ s.arrivals, a ∈ (s.arrive p k x).arrivals :=
    fun a ha => mem_arrivals_arrive ha
  have hnew : (⟨k, x, s.now⟩ : Arrival κ ι T) ∈ (s.arrive p k x).arrivals := by
    rw [State.arrive_arrivals]
    simp
  have hlen : (s.arrivalsOf k).length + 1 ≤ p.size := by
    simpa using hle
  rcases h with ⟨hnone, hpend⟩ | ⟨-, hsize⟩ | ⟨-, a, ha, hak, hover⟩
  · have hitems : s.arrivalsOf k = s.items k := by
      simpa [hnone] using hi.conserved k
    have hold : ∀ c ∈ s.pending, c.key = k →
        Overdue p (s.arrive p k x) k c.due := by
      intro c hc hck
      rcases hpend c hc hck with hfull | hover
      · omega
      · exact overdue_mono hsub (le_refl _) hover
    refine Or.inl ⟨by rw [State.batchesOf_arrive, hnone], fun c hc hck => ?_⟩
    rcases State.arrive_trigger p s k x with
      ⟨hfull, -, hp⟩ | ⟨-, -, -, hp⟩ | ⟨-, -, -, hp⟩
    · apply Or.inl
      rw [State.arrivalsOf_arrive_self, List.length_append,
        List.length_singleton, hitems]
      rw [hitems] at hlen
      omega
    · rw [hp] at hc
      exact Or.inr (hold c hc hck)
    · rw [hp, List.mem_append, List.mem_singleton] at hc
      rcases hc with hc | rfl
      · exact Or.inr (hold c hc hck)
      · exact Or.inr ⟨_, hnew, rfl, le_refl _⟩
  · omega
  · exact absurd (hin a (hsub a ha) _ hnew hak rfl) (not_lt_of_ge hover)

/-- A due callback of `k` finds the whole group, or the window is over. -/
theorem groupPhase_fire {p : Policy T} {s : State κ ι T} {k : κ}
    {c : Callback κ T} (hi : Inv s) (hc : c ∈ s.pending) (hdue : c.due ≤ s.now)
    (hle : (s.arrivalsOf k).length ≤ p.size) (h : GroupPhase p s k) :
    GroupPhase p (s.fire c) k := by
  unfold GroupPhase
  rw [State.batchesOf_fire, State.arrivalsOf_fire]
  by_cases hck : c.key = k
  · subst hck
    rcases h with ⟨hnone, hpend⟩ | ⟨hone, hsize⟩ | hlate
    · have hitems : s.arrivalsOf c.key = s.items c.key := by
        simpa [hnone] using hi.conserved c.key
      by_cases hfull : (s.arrivalsOf c.key).length = p.size
      · have hne : s.items c.key ≠ [] := by
          intro hnil
          have hpos := p.size_pos
          rw [← hfull, hitems, hnil] at hpos
          exact Nat.lt_irrefl 0 hpos
        refine Or.inr (Or.inl ⟨?_, hfull⟩)
        rw [State.batchesOf_flush_of_ne_nil hne, hnone, hitems]
        rfl
      · have hover := (hpend c hc rfl).resolve_left hfull
        exact Or.inr (Or.inr ⟨lt_of_le_of_ne hle hfull,
          overdue_mono (fun a ha => ha) hdue hover⟩)
    · have hnil : s.items c.key = [] := by
        have hcons := hi.conserved c.key
        rw [hone] at hcons
        simpa using hcons
      rw [State.batchesOf_flush_of_nil hnil]
      exact Or.inr (Or.inl ⟨hone, hsize⟩)
    · exact Or.inr (Or.inr hlate)
  · rw [State.batchesOf_flush_ne (Ne.symm hck)]
    rcases h with ⟨hnone, hpend⟩ | hwhole | hlate
    · exact Or.inl ⟨hnone, fun d hd hdk =>
        hpend d (List.mem_of_mem_erase hd) hdk⟩
    · exact Or.inr (Or.inl hwhole)
    · exact Or.inr (Or.inr hlate)

theorem groupPhase_step {p : Policy T} {s s' : State κ ι T}
    {e : Event κ ι T} {k : κ} (hi : Inv s) (h : step p s e = some s')
    (hin : WithinDelay p s' k) (hle : (s'.arrivalsOf k).length ≤ p.size)
    (hphase : WithinDelay p s k → (s.arrivalsOf k).length ≤ p.size →
      GroupPhase p s k) : GroupPhase p s' k := by
  rcases step_cases h with
    ⟨j, x, -, rfl⟩ | ⟨c, -, hc, hdue, rfl⟩ | ⟨t, -, ht, rfl⟩
  · have hold := withinDelay_of_arrive hin
    by_cases hjk : j = k
    · subst hjk
      have hle' : (s.arrivalsOf j).length ≤ p.size := by
        rw [State.arrivalsOf_arrive_self, List.length_append] at hle
        omega
      exact groupPhase_arrive_self hi hin hle (hphase hold hle')
    · rw [State.arrivalsOf_arrive_ne (Ne.symm hjk)] at hle
      exact groupPhase_arrive_ne hjk (hphase hold hle)
  · exact groupPhase_fire hi hc hdue hle (hphase hin hle)
  · rcases hphase hin hle with hnone | hwhole | ⟨hlt, hover⟩
    · exact Or.inl hnone
    · exact Or.inr (Or.inl hwhole)
    · exact Or.inr (Or.inr ⟨hlt, overdue_mono (fun a ha => ha) ht hover⟩)

theorem reachable_groupPhase {p : Policy T} {t₀ : T} {s : State κ ι T} {k : κ}
    (h : (machine p t₀).Reachable s) (hin : WithinDelay p s k)
    (hle : (s.arrivalsOf k).length ≤ p.size) : GroupPhase p s k := by
  have gen : WithinDelay p s k → (s.arrivalsOf k).length ≤ p.size →
      GroupPhase p s k :=
    Machine.ReachableIf.invariant
      (I := fun s => WithinDelay p s k → (s.arrivalsOf k).length ≤ p.size →
        GroupPhase p s k)
      (fun _ _ => Or.inl ⟨rfl, by simp [machine, initial]⟩)
      (fun _ _ _ hr hphase _ hs hin hle =>
        groupPhase_step (reachable_inv hr) hs hin hle hphase) h
  exact gen hin hle

/-- **Group integrity.** A group of exactly the policy's size that arrives
within one delay is flushed whole or not at all. -/
theorem whole_group {p : Policy T} {t₀ : T} {s : State κ ι T} {k : κ}
    (h : (machine p t₀).Reachable s) (hin : WithinDelay p s k)
    (hsize : (s.arrivalsOf k).length = p.size) :
    s.batchesOf k = [] ∨ s.batchesOf k = [⟨k, s.arrivalsOf k⟩] := by
  rcases reachable_groupPhase h hin (le_of_eq hsize) with
    ⟨hnone, -⟩ | ⟨hone, -⟩ | ⟨hlt, -⟩
  · exact Or.inl hnone
  · exact Or.inr hone
  · omega

/-- Once no callback of the key is pending, it has been flushed. -/
theorem whole_group_flushed {p : Policy T} {t₀ : T} {s : State κ ι T} {k : κ}
    (h : (machine p t₀).Reachable s) (hin : WithinDelay p s k)
    (hsize : (s.arrivalsOf k).length = p.size)
    (hdone : ∀ c ∈ s.pending, c.key ≠ k) :
    s.batchesOf k = [⟨k, s.arrivalsOf k⟩] := by
  refine (whole_group h hin hsize).resolve_left fun hnone => ?_
  have hi := reachable_inv h
  have hitems : s.arrivalsOf k = s.items k := by
    simpa [hnone] using hi.conserved k
  have hne : s.items k ≠ [] := by
    intro hnil
    have hpos := p.size_pos
    rw [← hsize, hitems, hnil] at hpos
    exact Nat.lt_irrefl 0 hpos
  obtain ⟨c, hc, hck⟩ := hi.scheduled k (Or.inl hne)
  exact hdone c hc hck

omit [LinearOrder T] [Add T] in
/-- A batch of a key that is flushed whole or not at all is the whole group. -/
theorem items_eq_of_whole {s : State κ ι T} {k : κ}
    (h : s.batchesOf k = [] ∨ s.batchesOf k = [⟨k, s.arrivalsOf k⟩])
    {b : Batch κ ι} (hb : b ∈ s.batches) (hk : b.key = k) :
    b.items = s.arrivalsOf k := by
  have hof := mem_batchesOf.mpr ⟨hb, hk⟩
  rcases h with hnone | hone
  · rw [hnone] at hof
    cases hof
  · rw [hone, List.mem_singleton] at hof
    rw [hof]

end TTSR.Foundation.Batching

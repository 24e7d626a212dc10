import Mathlib.Data.List.Basic

/-!
# Requests that wait for each other

Two disciplines for requests that are met in the order in which they were made.

In a `Rendezvous` a request of one side is met by one of the other side; whichever comes first
waits. Over any history the `k`-th request of one side is met by the `k`-th of the other side
(`Rendezvous.run_eq`).

In `Signals` a value is handed to the longest-waiting taker, or kept until the next taker comes, who
gets everything that was kept. Over any history the values that were handed out, in order, are those
that were put in, each once, and the takers are served in their order (`Signals.run_puts`,
`Signals.run_takes`).
-/

namespace Zoeax.Lib

variable {α β : Type}

/-! ## Histories -/

/-- The requests of one side, in their order. -/
def lefts (rs : List (α ⊕ β)) : List α := rs.filterMap Sum.getLeft?

/-- The requests of the other side. -/
def rights (rs : List (α ⊕ β)) : List β := rs.filterMap Sum.getRight?

@[simp] theorem lefts_nil : lefts ([] : List (α ⊕ β)) = [] := rfl

@[simp] theorem rights_nil : rights ([] : List (α ⊕ β)) = [] := rfl

@[simp] theorem lefts_cons_inl (a : α) (rs : List (α ⊕ β)) :
    lefts (.inl a :: rs) = a :: lefts rs := rfl

@[simp] theorem lefts_cons_inr (b : β) (rs : List (α ⊕ β)) : lefts (.inr b :: rs) = lefts rs := rfl

@[simp] theorem rights_cons_inl (a : α) (rs : List (α ⊕ β)) : rights (.inl a :: rs) = rights rs :=
  rfl

@[simp] theorem rights_cons_inr (b : β) (rs : List (α ⊕ β)) :
    rights (.inr b :: rs) = b :: rights rs := rfl

/-! ## Rendezvous -/

/-- The requests of two sides that wait; they never wait for each other. -/
structure Rendezvous (α β : Type) where
  senders : List α
  receivers : List β
  oneSided : senders = [] ∨ receivers = []

namespace Rendezvous

def empty : Rendezvous α β := ⟨[], [], .inl rfl⟩

/-- A request: who waits after it, and the pair that was met. -/
def step (w : Rendezvous α β) : α ⊕ β → Rendezvous α β × Option (α × β)
  | .inl a =>
    match w.receivers with
    | [] => (⟨w.senders ++ [a], [], .inr rfl⟩, none)
    | b :: bs => (⟨[], bs, .inl rfl⟩, some (a, b))
  | .inr b =>
    match w.senders with
    | [] => (⟨[], w.receivers ++ [b], .inl rfl⟩, none)
    | a :: as => (⟨as, [], .inr rfl⟩, some (a, b))

/-- A history of requests: who waits after it, and the pairs in the order in which they were met. -/
def run (w : Rendezvous α β) : List (α ⊕ β) → Rendezvous α β × List (α × β)
  | [] => (w, [])
  | r :: rs => ((w.step r).1.run rs).map id ((w.step r).2.toList ++ ·)

/-- **First come, first served.** The pairs are those of the two sequences of requests, and what
waits is what is left of the longer one. -/
theorem run_eq (w : Rendezvous α β) (rs : List (α ⊕ β)) :
    (w.run rs).2 = (w.senders ++ lefts rs).zip (w.receivers ++ rights rs) ∧
    (w.run rs).1.senders = (w.senders ++ lefts rs).drop (w.receivers ++ rights rs).length ∧
    (w.run rs).1.receivers = (w.receivers ++ rights rs).drop (w.senders ++ lefts rs).length := by
  induction rs generalizing w with
  | nil =>
    obtain ⟨senders, receivers, rfl | rfl⟩ := w <;> simp [run]
  | cons r rs ih =>
    obtain ⟨hpairs, hsenders, hreceivers⟩ := ih (w.step r).1
    rw [run, Prod.map_fst, Prod.map_snd, id, hpairs, hsenders, hreceivers]
    obtain ⟨senders, receivers, hone⟩ := w
    rcases r with a | b
    · cases receivers with
      | nil => simp [step]
      | cons b bs =>
        obtain rfl : senders = [] := hone.resolve_right nofun
        simp [step]
    · cases senders with
      | nil => simp [step]
      | cons a as =>
        obtain rfl : receivers = [] := hone.resolve_left nofun
        simp [step]

end Rendezvous

/-! ## Signals -/

/-- The values that are kept, and the takers that wait; never both. -/
structure Signals (α β : Type) where
  kept : List α
  takers : List β
  oneSided : kept = [] ∨ takers = []

namespace Signals

def empty : Signals α β := ⟨[], [], .inl rfl⟩

/-- A value is put in, or a taker comes: what is left, and the taker that was served with what it
got. -/
def step (w : Signals α β) : α ⊕ β → Signals α β × Option (β × List α)
  | .inl a =>
    match w.takers with
    | [] => (⟨w.kept ++ [a], [], .inr rfl⟩, none)
    | b :: bs => (⟨[], bs, .inl rfl⟩, some (b, [a]))
  | .inr b =>
    match w.kept with
    | [] => (⟨[], w.takers ++ [b], .inl rfl⟩, none)
    | a :: as => (⟨[], [], .inl rfl⟩, some (b, a :: as))

/-- Whoever is served leaves nothing. -/
theorem kept_of_served {w : Signals α β} {r : α ⊕ β} (h : (w.step r).2 ≠ none) :
    (w.step r).1.kept = [] := by
  obtain ⟨kept, takers, hone⟩ := w
  rcases r with a | b
  · cases takers with
    | nil => exact absurd rfl h
    | cons b bs => rfl
  · cases kept <;> rfl

/-- A history: what is left after it, and the takers in the order in which they were served. -/
def run (w : Signals α β) : List (α ⊕ β) → Signals α β × List (β × List α)
  | [] => (w, [])
  | r :: rs => ((w.step r).1.run rs).map id ((w.step r).2.toList ++ ·)

/-- **Every value is handed out once**, in order, or still kept. -/
theorem run_puts (w : Signals α β) (rs : List (α ⊕ β)) :
    (w.run rs).2.flatMap Prod.snd ++ (w.run rs).1.kept =
      w.kept ++ lefts rs := by
  induction rs generalizing w with
  | nil => simp [run]
  | cons r rs ih =>
    have := ih (w.step r).1
    rw [run, Prod.map_fst, Prod.map_snd, id, List.flatMap_append, List.append_assoc, this]
    obtain ⟨kept, takers, hone⟩ := w
    rcases r with a | b
    · cases takers with
      | nil => simp [step]
      | cons b bs =>
        obtain rfl : kept = [] := hone.resolve_right nofun
        simp [step]
    · cases kept with
      | nil => simp [step]
      | cons a as => simp [step]

/-- **Takers are served in their order.** -/
theorem run_takes (w : Signals α β) (rs : List (α ⊕ β)) :
    (w.run rs).2.map Prod.fst ++ (w.run rs).1.takers =
      w.takers ++ rights rs := by
  induction rs generalizing w with
  | nil => simp [run]
  | cons r rs ih =>
    have := ih (w.step r).1
    rw [run, Prod.map_fst, Prod.map_snd, id, List.map_append, List.append_assoc, this]
    obtain ⟨kept, takers, hone⟩ := w
    rcases r with a | b
    · cases takers with
      | nil => simp [step]
      | cons b bs => simp [step]
    · cases kept with
      | nil => simp [step]
      | cons a as =>
        obtain rfl : takers = [] := hone.resolve_left nofun
        simp [step]

end Signals

end Zoeax.Lib

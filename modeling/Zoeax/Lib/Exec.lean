import Mathlib.Logic.Relation

/-!
# Computations that read and write a state and may stop

`Exec ε σ` is a state-passing computation that can stop with a reason `ε`; the state in which it
stopped is kept. `Query ε σ` only reads. Proofs take a finished computation apart with the `_ok`
lemmas: each says what must have happened for a program of that form to return.
-/

namespace Zoeax.Lib

/-- A computation over states `σ` that may stop with `ε`. -/
abbrev Exec (ε σ : Type) := EStateM ε σ

/-- A computation that reads a state `σ` and may stop with `ε`. -/
abbrev Query (ε σ : Type) := ReaderT σ (Except ε)

variable {ε σ α β : Type}

/-- The outcome of a query, as that of a computation that leaves the state as it is. -/
def Query.toExec (q : Query ε σ α) : Exec ε σ α := fun s =>
  match q s with
  | .ok a => .ok a s
  | .error e => .error e s

instance : MonadLift (Query ε σ) (Exec ε σ) := ⟨Query.toExec⟩

theorem except_bind_ok {x : Except ε α} {f : α → Except ε β} {b : β} :
    (x >>= f) = .ok b ↔ ∃ a, x = .ok a ∧ f a = .ok b := by
  cases x with
  | ok a => exact ⟨fun h => ⟨a, rfl, h⟩, fun ⟨a', ha, h⟩ => (Except.ok.inj ha) ▸ h⟩
  | error e => exact ⟨fun h => (nomatch h), fun ⟨_, ha, _⟩ => (nomatch ha)⟩

theorem except_ok_bind (a : α) (f : α → Except ε β) : ((.ok a : Except ε α) >>= f) = f a := rfl

theorem except_pure_ok {a b : α} : (pure a : Except ε α) = .ok b ↔ a = b :=
  ⟨Except.ok.inj, congrArg _⟩

/-- The computation returns, and its result passes a test. -/
def okAnd (x : Except ε α) (test : α → Bool) : Bool :=
  match x with
  | .ok a => test a
  | .error _ => false

theorem exists_of_okAnd {x : Except ε α} {test : α → Bool} (h : okAnd x test = true) :
    ∃ a, x = .ok a ∧ test a = true := by
  cases x with
  | ok a => exact ⟨a, rfl, h⟩
  | error e => cases h

/-- The computation fails, and its error passes a test. -/
def errAnd (x : Except ε α) (test : ε → Bool) : Bool :=
  match x with
  | .ok _ => false
  | .error e => test e

theorem exists_of_errAnd {x : Except ε α} {test : ε → Bool} (h : errAnd x test = true) :
    ∃ e, x = .error e ∧ test e = true := by
  cases x with
  | ok a => cases h
  | error e => exact ⟨e, rfl, h⟩

instance decidableForallOk (x : Except ε α) (Q : α → Prop) [∀ a, Decidable (Q a)] :
    Decidable (∀ a, x = .ok a → Q a) :=
  match x with
  | .ok a => decidable_of_iff (Q a) ⟨fun h _ heq => Except.ok.inj heq ▸ h, fun h => h a rfl⟩
  | .error _ => isTrue fun _ heq => nomatch heq

namespace Query

theorem pure_ok {a b : α} {s : σ} : (pure a : Query ε σ α) s = .ok b ↔ a = b :=
  ⟨Except.ok.inj, congrArg _⟩

theorem bind_ok {q : Query ε σ α} {f : α → Query ε σ β} {s : σ} {b : β} :
    (q >>= f) s = .ok b ↔ ∃ a, q s = .ok a ∧ f a s = .ok b :=
  except_bind_ok (x := q s) (f := fun a => f a s)

theorem bind_of_ok {q : Query ε σ α} {f : α → Query ε σ β} {s : σ} {a : α} (h : q s = .ok a) :
    (q >>= f) s = f a s := by
  change (q s >>= fun a => f a s) = _
  rw [h]
  rfl

theorem bind_of_error {q : Query ε σ α} {f : α → Query ε σ β} {s : σ} {e : ε}
    (h : q s = .error e) : (q >>= f) s = .error e := by
  change (q s >>= fun a => f a s) = _
  rw [h]
  rfl

theorem bind_error {q : Query ε σ α} {f : α → Query ε σ β} {s : σ} {e : ε} :
    (q >>= f) s = .error e ↔ q s = .error e ∨ ∃ a, q s = .ok a ∧ f a s = .error e := by
  cases h : q s with
  | ok a => simp [bind_of_ok h]
  | error e' => simp [bind_of_error h]

theorem throw_ok {e : ε} {s : σ} {a : α} : (throw e : Query ε σ α) s = .ok a ↔ False :=
  ⟨fun h => (nomatch h), False.elim⟩

theorem read_ok {s t : σ} : (read : Query ε σ σ) s = .ok t ↔ s = t :=
  ⟨Except.ok.inj, congrArg _⟩

theorem lift_ok {x : Except ε α} {s : σ} {a : α} :
    (liftM x : Query ε σ α) s = .ok a ↔ x = .ok a := Iff.rfl

end Query

namespace Exec

theorem pure_ok {a b : α} {s t : σ} :
    (pure a : Exec ε σ α) s = .ok b t ↔ a = b ∧ s = t :=
  ⟨fun h => EStateM.Result.ok.inj h, fun ⟨ha, hs⟩ => ha ▸ hs ▸ rfl⟩

theorem bind_ok {x : Exec ε σ α} {f : α → Exec ε σ β} {s t : σ} {b : β} :
    (x >>= f) s = .ok b t ↔ ∃ a u, x s = .ok a u ∧ f a u = .ok b t := by
  change EStateM.bind x f s = .ok b t ↔ _
  unfold EStateM.bind
  cases x s with
  | ok a u =>
    refine ⟨fun h => ⟨a, u, rfl, h⟩, fun ⟨a', u', ha, h⟩ => ?_⟩
    obtain ⟨rfl, rfl⟩ := EStateM.Result.ok.inj ha
    exact h
  | error e u => exact ⟨fun h => (nomatch h), fun ⟨_, _, ha, _⟩ => (nomatch ha)⟩

theorem bind_of_ok {x : Exec ε σ α} {f : α → Exec ε σ β} {s t : σ} {a : α} (h : x s = .ok a t) :
    (x >>= f) s = f a t := by
  change EStateM.bind x f s = _
  rw [EStateM.bind, h]

theorem throw_ok {e : ε} {s t : σ} {a : α} :
    (throw e : Exec ε σ α) s = .ok a t ↔ False :=
  ⟨fun h => (nomatch h), False.elim⟩

theorem get_ok {s t u : σ} : (get : Exec ε σ σ) s = .ok t u ↔ s = t ∧ s = u :=
  ⟨fun h => EStateM.Result.ok.inj h, fun ⟨ht, hu⟩ => ht ▸ hu ▸ rfl⟩

theorem modify_ok {f : σ → σ} {s t : σ} {a : PUnit} :
    (modify f : Exec ε σ PUnit) s = .ok a t ↔ f s = t :=
  ⟨fun h => (EStateM.Result.ok.inj h).2, fun h => h ▸ rfl⟩

theorem lift_ok {q : Query ε σ α} {s t : σ} {a : α} :
    (liftM q : Exec ε σ α) s = .ok a t ↔ q s = .ok a ∧ s = t := by
  change Query.toExec q s = .ok a t ↔ _
  unfold Query.toExec
  cases q s with
  | ok b =>
    refine ⟨fun h => ?_, fun ⟨hb, hs⟩ => ?_⟩
    · obtain ⟨rfl, rfl⟩ := EStateM.Result.ok.inj h
      exact ⟨rfl, rfl⟩
    · rw [Except.ok.inj hb, hs]
  | error e => exact ⟨fun h => (nomatch h), fun ⟨hb, _⟩ => (nomatch hb)⟩

theorem lift_bind_of_ok {q : Query ε σ α} {f : α → Exec ε σ β} {s : σ} {a : α} (h : q s = .ok a) :
    ((liftM q : Exec ε σ α) >>= f) s = f a s :=
  bind_of_ok (lift_ok.2 ⟨h, rfl⟩)

theorem liftExcept_ok {x : Except ε α} {s t : σ} {a : α} :
    (liftM x : Exec ε σ α) s = .ok a t ↔ x = .ok a ∧ s = t :=
  lift_ok (q := liftM x)

end Exec

/-- A computation that may also return an error of its own, `δ`. -/
abbrev Fallible (δ ε σ : Type) := ExceptT δ (Exec ε σ)

namespace Fallible

variable {δ : Type}

theorem pure_ok {a b : α} {s t : σ} :
    (pure a : Fallible δ ε σ α) s = .ok (.ok b) t ↔ a = b ∧ s = t := by
  refine Exec.pure_ok.trans (and_congr_left fun _ => ?_)
  exact ⟨Except.ok.inj, congrArg _⟩

theorem throw_ok {d : δ} {s t : σ} {a : α} :
    (throw d : Fallible δ ε σ α) s = .ok (.ok a) t ↔ False := by
  refine Exec.pure_ok.trans ⟨fun h => ?_, False.elim⟩
  cases h.1

/-- It went on after the first part because that returned no error. -/
theorem bind_ok {x : Fallible δ ε σ α} {f : α → Fallible δ ε σ β} {s t : σ} {b : β} :
    (x >>= f) s = .ok (.ok b) t ↔ ∃ a u, x s = .ok (.ok a) u ∧ f a u = .ok (.ok b) t := by
  refine Exec.bind_ok.trans ⟨?_, ?_⟩
  · rintro ⟨r, u, hx, hf⟩
    cases r with
    | ok a => exact ⟨a, u, hx, hf⟩
    | error d =>
      obtain ⟨h, -⟩ := Exec.pure_ok.1 hf
      cases h
  · rintro ⟨a, u, hx, hf⟩
    exact ⟨.ok a, u, hx, hf⟩

theorem pure_error {a : α} {d : δ} {s t : σ} :
    (pure a : Fallible δ ε σ α) s = .ok (.error d) t ↔ False := by
  refine Exec.pure_ok.trans ⟨fun h => ?_, False.elim⟩
  cases h.1

/-- It returned the error of the first part, or that of the second one. -/
theorem bind_error {x : Fallible δ ε σ α} {f : α → Fallible δ ε σ β} {s t : σ} {d : δ} :
    (x >>= f) s = .ok (.error d) t ↔
      x s = .ok (.error d) t ∨ ∃ a u, x s = .ok (.ok a) u ∧ f a u = .ok (.error d) t := by
  refine Exec.bind_ok.trans ⟨?_, ?_⟩
  · rintro ⟨r, u, hx, hf⟩
    cases r with
    | ok a => exact .inr ⟨a, u, hx, hf⟩
    | error e =>
      obtain ⟨h, rfl⟩ := Exec.pure_ok.1 hf
      obtain rfl := Except.error.inj h
      exact .inl hx
  · rintro (hx | ⟨a, u, hx, hf⟩)
    · exact ⟨.error d, t, hx, rfl⟩
    · exact ⟨.ok a, u, hx, hf⟩

theorem lift_ok {x : Exec ε σ α} {s t : σ} {a : α} :
    (liftM x : Fallible δ ε σ α) s = .ok (.ok a) t ↔ x s = .ok a t := by
  refine Exec.bind_ok.trans ⟨?_, fun h => ⟨a, t, h, rfl⟩⟩
  rintro ⟨a', u, hx, hret⟩
  obtain ⟨ha, rfl⟩ := Exec.pure_ok.1 hret
  obtain rfl := Except.ok.inj ha
  exact hx

end Fallible

/-! ## What a computation keeps -/

namespace Exec

/-- The state after a computation, whether it returned or stopped. -/
def finalState : EStateM.Result ε σ α → σ
  | .ok _ s => s
  | .error _ s => s

/-- The computation keeps `I`: also in the state in which it stops. -/
def Keeps (I : σ → Prop) (x : Exec ε σ α) : Prop := ∀ ⦃s⦄, I s → I (finalState (x s))

namespace Keeps

variable {I : σ → Prop}

theorem ok {x : Exec ε σ α} {s t : σ} {a : α} (hx : Keeps I x) (hs : I s) (h : x s = .ok a t) :
    I t := by
  have := hx hs
  rwa [h] at this

theorem and {J : σ → Prop} {x : Exec ε σ α} (hI : Keeps I x) (hJ : Keeps J x) :
    Keeps (fun s => I s ∧ J s) x := fun _ hs => ⟨hI hs.1, hJ hs.2⟩

theorem pure (a : α) : Keeps I (Pure.pure a : Exec ε σ α) := fun _ hs => hs

theorem throw (e : ε) : Keeps I (MonadExcept.throw e : Exec ε σ α) := fun _ hs => hs

theorem get : Keeps I (MonadState.get : Exec ε σ σ) := fun _ hs => hs

/-- What was read is the state that the rest starts from. -/
theorem get_bind {f : σ → Exec ε σ β} (h : ∀ s, I s → I (finalState (f s s))) :
    Keeps I ((MonadState.get : Exec ε σ σ) >>= f) := fun s hs => h s hs

theorem modify {f : σ → σ} (h : ∀ s, I s → I (f s)) : Keeps I (modify f : Exec ε σ PUnit) :=
  fun s hs => h s hs

theorem toExec (q : Query ε σ α) : Keeps I q.toExec := fun s hs => by
  unfold Query.toExec
  cases q s <;> exact hs

theorem lift (q : Query ε σ α) : Keeps I (liftM q : Exec ε σ α) := toExec q

/-- What a query returned is known in the state that the rest starts from. -/
theorem lift_bind (q : Query ε σ α) {f : α → Exec ε σ β}
    (h : ∀ s a, I s → q s = .ok a → I (finalState (f a s))) :
    Keeps I ((liftM q : Exec ε σ α) >>= f) := fun s hs => by
  change I (finalState (EStateM.bind q.toExec f s))
  unfold EStateM.bind Query.toExec
  cases hq : q s with
  | ok a => exact h s a hs hq
  | error e => exact hs

theorem liftExcept (x : Except ε α) : Keeps I (liftM x : Exec ε σ α) := toExec (liftM x)

theorem bind {x : Exec ε σ α} {f : α → Exec ε σ β} (hx : Keeps I x) (hf : ∀ a, Keeps I (f a)) :
    Keeps I (x >>= f) := fun s hs => by
  have h := hx hs
  change I (finalState (EStateM.bind x f s))
  unfold EStateM.bind
  cases hxs : x s with
  | ok a t =>
    rw [hxs] at h
    exact hf a h
  | error e t =>
    rw [hxs] at h
    exact h

theorem ite {c : Prop} [Decidable c] {x y : Exec ε σ α} (hx : Keeps I x) (hy : Keeps I y) :
    Keeps I (if c then x else y) := by
  split
  · exact hx
  · exact hy

end Keeps

end Exec

/-! ## Stopping early -/

theorem except_bind_avoids {E : ε → Prop} {x : Except ε α} {f : α → Except ε β}
    (hx : ∀ e, x = .error e → ¬E e) (hf : ∀ a e, f a = .error e → ¬E e) (e : ε)
    (h : (x >>= f) = .error e) : ¬E e := by
  cases x with
  | ok a => exact hf a e h
  | error e' => exact hx e (congrArg _ (Except.error.inj h))

theorem except_bind_ne {x : Except ε α} {f : α → Except ε β} {e : ε} (hx : x ≠ .error e)
    (hf : ∀ a, f a ≠ .error e) : (x >>= f) ≠ .error e := fun h =>
  except_bind_avoids (E := (· = e)) (fun _ h he => hx (he ▸ h)) (fun a _ h he => hf a (he ▸ h))
    e h rfl

namespace Query

/-- The query does not stop for a reason in `E`. -/
def Avoids (E : ε → Prop) (q : Query ε σ α) : Prop := ∀ ⦃s e⦄, q s = .error e → ¬E e

namespace Avoids

variable {E : ε → Prop}

theorem pure (a : α) : Avoids E (Pure.pure a : Query ε σ α) := fun _ _ h => nomatch h

theorem read : Avoids E (MonadReader.read : Query ε σ σ) := fun _ _ h => nomatch h

theorem throw {e : ε} (he : ¬E e) : Avoids E (MonadExcept.throw e : Query ε σ α) :=
  fun _ _ h => Except.error.inj h ▸ he

theorem liftExcept {x : Except ε α} (hx : ∀ e, x = .error e → ¬E e) :
    Avoids E (liftM x : Query ε σ α) := fun _ e h => hx e h

theorem mono {F : ε → Prop} {q : Query ε σ α} (hq : Avoids F q) (hE : ∀ e, E e → F e) :
    Avoids E q := fun _ e h he => hq h (hE e he)

theorem ite {c : Prop} [Decidable c] {q r : Query ε σ α} (hq : Avoids E q) (hr : Avoids E r) :
    Avoids E (if c then q else r) := by
  split
  · exact hq
  · exact hr

theorem bind {q : Query ε σ α} {f : α → Query ε σ β} (hq : Avoids E q) (hf : ∀ a, Avoids E (f a)) :
    Avoids E (q >>= f) := fun s e h =>
  except_bind_avoids (x := q s) (f := fun a => f a s) (fun _ h => hq h) (fun a _ h => hf a h) e h

end Avoids

end Query

namespace Exec

/-- From `s`, a stop for a reason in `E` leaves the state as it was. -/
def AtomicAt (E : ε → Prop) (x : Exec ε σ α) (s : σ) : Prop :=
  ∀ ⦃e t⦄, x s = .error e t → E e → t = s

/-- A stop for a reason in `E` leaves the state as it was. -/
def Atomic (E : ε → Prop) (x : Exec ε σ α) : Prop := ∀ ⦃s⦄, AtomicAt E x s

/-- The computation does not stop for a reason in `E`. -/
def Avoids (E : ε → Prop) (x : Exec ε σ α) : Prop := ∀ ⦃s e t⦄, x s = .error e t → ¬E e

theorem bind_error {x : Exec ε σ α} {f : α → Exec ε σ β} {s t : σ} {e : ε} :
    (x >>= f) s = .error e t ↔
      x s = .error e t ∨ ∃ a u, x s = .ok a u ∧ f a u = .error e t := by
  change EStateM.bind x f s = .error e t ↔ _
  unfold EStateM.bind
  cases hx : x s with
  | ok a u =>
    refine ⟨fun h => .inr ⟨a, u, rfl, h⟩, ?_⟩
    rintro (h | ⟨a', u', h, hf⟩)
    · cases h
    · obtain ⟨rfl, rfl⟩ := EStateM.Result.ok.inj h
      exact hf
  | error e' u => simp

theorem lift_error {q : Query ε σ α} {s t : σ} {e : ε} :
    (liftM q : Exec ε σ α) s = .error e t ↔ q s = .error e ∧ s = t := by
  change Query.toExec q s = .error e t ↔ _
  unfold Query.toExec
  cases q s <;> simp

theorem lift_bind (q : Query ε σ α) (f : α → Query ε σ β) :
    (liftM (q >>= f) : Exec ε σ β) = liftM q >>= fun a => liftM (f a) := by
  funext s
  cases h : q s with
  | ok a =>
    rw [lift_bind_of_ok h]
    change Query.toExec (q >>= f) s = Query.toExec (f a) s
    rw [Query.toExec, Query.toExec, Query.bind_of_ok h]
  | error e =>
    refine (lift_error.2 ⟨Query.bind_of_error h, rfl⟩).trans (bind_error.2 (.inl ?_)).symm
    exact lift_error.2 ⟨h, rfl⟩

namespace Avoids

variable {E : ε → Prop}

theorem pure (a : α) : Avoids E (Pure.pure a : Exec ε σ α) := fun _ _ _ h => nomatch h

theorem get : Avoids E (MonadState.get : Exec ε σ σ) := fun _ _ _ h => nomatch h

theorem modify (f : σ → σ) : Avoids E (modify f : Exec ε σ PUnit) := fun _ _ _ h => nomatch h

theorem throw {e : ε} (he : ¬E e) : Avoids E (MonadExcept.throw e : Exec ε σ α) :=
  fun _ _ _ h => (EStateM.Result.error.inj h).1 ▸ he

theorem lift {q : Query ε σ α} (hq : q.Avoids E) : Avoids E (liftM q : Exec ε σ α) :=
  fun _ _ _ h => hq (lift_error.1 h).1

theorem liftExcept {x : Except ε α} (hx : ∀ e, x = .error e → ¬E e) :
    Avoids E (liftM x : Exec ε σ α) := lift (Query.Avoids.liftExcept hx)

theorem mono {F : ε → Prop} {x : Exec ε σ α} (hx : Avoids F x) (hE : ∀ e, E e → F e) :
    Avoids E x := fun _ e _ h he => hx h (hE e he)

/-- What a query returned is known in the rest. -/
theorem lift_bind {q : Query ε σ α} {f : α → Exec ε σ β} (hq : q.Avoids E)
    (hf : ∀ s a, q s = .ok a → Avoids E (f a)) : Avoids E ((liftM q : Exec ε σ α) >>= f) :=
  fun s e t h => by
  rcases bind_error.1 h with h | ⟨a, u, ha, h⟩
  · exact lift hq h
  · exact hf s a (lift_ok.1 ha).1 h

theorem bind {x : Exec ε σ α} {f : α → Exec ε σ β} (hx : Avoids E x) (hf : ∀ a, Avoids E (f a)) :
    Avoids E (x >>= f) := fun _ _ _ h => by
  rcases bind_error.1 h with h | ⟨a, u, -, h⟩
  · exact hx h
  · exact hf a h

theorem ite {c : Prop} [Decidable c] {x y : Exec ε σ α} (hx : Avoids E x) (hy : Avoids E y) :
    Avoids E (if c then x else y) := by
  split
  · exact hx
  · exact hy

theorem atomic {x : Exec ε σ α} (hx : Avoids E x) : Atomic E x := fun _ _ _ h he =>
  absurd he (hx h)

end Avoids

namespace AtomicAt

variable {E : ε → Prop} {s : σ}

/-- First read, then go on. -/
theorem lift_bind (q : Query ε σ α) {f : α → Exec ε σ β}
    (hf : ∀ a, q s = .ok a → AtomicAt E (f a) s) :
    AtomicAt E ((liftM q : Exec ε σ α) >>= f) s := fun e t h he => by
  rcases bind_error.1 h with h | ⟨a, u, hq, h⟩
  · exact (lift_error.1 h).2.symm
  · obtain ⟨ha, rfl⟩ := lift_ok.1 hq
    exact hf a ha h he

theorem liftExcept_bind (x : Except ε α) {f : α → Exec ε σ β}
    (hf : ∀ a, x = .ok a → AtomicAt E (f a) s) :
    AtomicAt E ((liftM x : Exec ε σ α) >>= f) s := lift_bind (liftM x) hf

end AtomicAt

namespace Atomic

variable {E : ε → Prop}

theorem pure (a : α) : Atomic E (Pure.pure a : Exec ε σ α) := fun _ _ _ h => nomatch h

theorem throw (e : ε) : Atomic E (MonadExcept.throw e : Exec ε σ α) :=
  fun _ _ _ h _ => (EStateM.Result.error.inj h).2.symm

theorem lift_bind (q : Query ε σ α) {f : α → Exec ε σ β} (hf : ∀ a, Atomic E (f a)) :
    Atomic E ((liftM q : Exec ε σ α) >>= f) := fun _ => .lift_bind q fun a _ => @hf a _

theorem liftExcept_bind (x : Except ε α) {f : α → Exec ε σ β} (hf : ∀ a, Atomic E (f a)) :
    Atomic E ((liftM x : Exec ε σ α) >>= f) := lift_bind (liftM x) hf

theorem get_bind {f : σ → Exec ε σ β} (hf : ∀ s, Atomic E (f s)) :
    Atomic E ((MonadState.get : Exec ε σ σ) >>= f) := fun _ _ _ h he => by
  rcases bind_error.1 h with h | ⟨a, u, hg, h⟩
  · cases h
  · obtain ⟨-, rfl⟩ := get_ok.1 hg
    exact hf a h he

/-- After the last point that can stop for such a reason. -/
theorem bind_avoids {x : Exec ε σ α} {f : α → Exec ε σ β} (hx : Atomic E x)
    (hf : ∀ a, Avoids E (f a)) : Atomic E (x >>= f) := fun _ _ _ h he => by
  rcases bind_error.1 h with h | ⟨a, u, -, h⟩
  · exact hx h he
  · exact absurd he (hf a h)

theorem ite {c : Prop} [Decidable c] {x y : Exec ε σ α} (hx : Atomic E x) (hy : Atomic E y) :
    Atomic E (if c then x else y) := by
  split
  · exact hx
  · exact hy

end Atomic

end Exec

/-! ## Invariants of runs -/

/-- What holds at the start and survives every step holds in every state of a run. -/
theorem run_invariant {step : σ → σ → Prop} {P : σ → Prop} {s t : σ}
    (run : Relation.ReflTransGen step s t) (init : P s)
    (keep : ∀ ⦃u v⦄, P u → step u v → P v) : P t := by
  induction run with
  | refl => exact init
  | tail _ hstep ih => exact keep ih hstep

end Zoeax.Lib

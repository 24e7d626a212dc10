import Zoeax.Verify.Boot

/-!
# Evaluating runs

The model is executable. `runTrace` plays a list of events and checks that the machine allows each
one and that each invocation meets a condition; a list that it accepts is a run
(`exists_run_of_trace`).
-/

namespace Zoeax

open Lib Exec

instance (s : KState) (ev : Event) : Decidable (ev.Enabled s) :=
  match ev with
  | .trap regs =>
    have : Decidable (∀ t, s.tcbs s.current = some t → regs.spp = t.registers.spp) :=
      match s.tcbs s.current with
      | some t => decidable_of_iff (regs.spp = t.registers.spp)
          ⟨fun ht _ heq => Option.some.inj heq ▸ ht, fun ht => ht t rfl⟩
      | none => isTrue fun _ heq => nomatch heq
    inferInstanceAs (Decidable (_ ∧ _))
  | .store a _ =>
    inferInstanceAs (Decidable (a % 8 = 0 ∧
      ∃ o ∈ s.objects, o.kind = .page ∧ o.addr ≤ a ∧ a < o.addr + o.size))

/-- The invocation of an event, if it is one. -/
def Event.invocation? (cfg : Config) (s : KState) :
    Event → Option (InvLabel × Registers × KState × Invocation)
  | .store _ _ => none
  | .trap reg =>
    if reg.scause.toNat = ecallUser ∧ reg.a7.toNat ≠ sysCallNoPrint then
      match InvLabel.ofUsize? reg.a2.toNat, trapEntry reg s with
      | some invLabel, .ok () u =>
        match findInvocation cfg reg.a0.toNat reg.a1.toNat u with
        | .ok inv => some (invLabel, reg, u, inv)
        | .error _ => none
      | _, _ => none
    else none

theorem Invokes.invocation? {cfg : Config} {s u : KState} {ev : Event} {invLabel : InvLabel}
    {reg : Registers} {inv : Invocation} (h : Invokes cfg s ev invLabel reg u inv) :
    ev.invocation? cfg s = some (invLabel, reg, u, inv) := by
  obtain ⟨rfl, hcause, hcall, hlabel, hentry, hfound⟩ := h
  simp only [Event.invocation?, hlabel, hentry, hfound, hcause, hcall, ne_eq, not_false_eq_true,
    and_self, if_true]

theorem Event.invokes_of_eval {cfg : Config} {s u : KState} {ev : Event} {invLabel : InvLabel}
    {reg : Registers} {inv : Invocation}
    (h : ev.invocation? cfg s = some (invLabel, reg, u, inv)) :
    Invokes cfg s ev invLabel reg u inv := by
  cases ev with
  | store a w => cases h
  | trap regs =>
    rw [Event.invocation?] at h
    split_ifs at h with hcall
    split at h
    · next hlabel hentry =>
      split at h
      · next hfound =>
        obtain ⟨rfl, rfl, rfl, rfl⟩ := Option.some.inj h
        exact ⟨rfl, hcall.1, hcall.2, hlabel, hentry, hfound⟩
      · cases h
    · cases h

section

variable (cfg : Config) (C : InvokeCond)
  [∀ invLabel reg u inv, Decidable (C invLabel reg u inv)]

/-- The condition on the invocation of an event, evaluated. -/
def Event.meets (s : KState) (ev : Event) : Bool :=
  match ev.invocation? cfg s with
  | some (invLabel, reg, u, inv) => C invLabel reg u inv
  | none => true

/-- Plays the events; stops at one that the machine does not allow or that breaks the condition. -/
def runTrace : List Event → KM Unit
  | [] => pure ()
  | ev :: evs => do
    let s ← get
    if ev.Enabled s ∧ ev.meets cfg C s = true then do
      ev.exec cfg
      runTrace evs
    else throw panicked

variable {cfg C}

theorem Event.meets_of_eval {s : KState} {ev : Event} (h : ev.meets cfg C s = true) :
    ev.Meets cfg C s := by
  intro invLabel reg u inv hinv
  simpa only [meets, hinv.invocation?, decide_eq_true_eq] using h

theorem run_of_runTrace {evs : List Event} {s s' : KState} {u : Unit}
    (h : runTrace cfg C evs s = .ok u s') : Run cfg C s s' := by
  induction evs generalizing s with
  | nil =>
    obtain ⟨-, rfl⟩ := pure_ok.1 h
    exact .refl
  | cons ev evs ih =>
    simp only [runTrace, bind_ok, get_ok] at h
    obtain ⟨_, _, ⟨rfl, rfl⟩, h⟩ := h
    split at h
    · next hev =>
      obtain ⟨_, s₁, hexec, h⟩ := bind_ok.1 h
      exact .head ⟨ev, Event.meets_of_eval hev.2, hev.1, hexec⟩ (ih h)
    · exact (throw_ok.1 h).elim

end

/-- Boot, then the events. -/
def bootTrace (cfg : Config) (C : InvokeCond) [∀ l r u i, Decidable (C l r u i)] (image : Image)
    (evs : List Event) : KM Unit := do
  let _ ← initKernel cfg image
  runTrace cfg C evs

/-- The run returns, and the state it ends in passes the test. -/
def endsIn {α : Type} (x : EStateM.Result Stop KState α) (test : KState → Bool) : Bool :=
  match x with
  | .ok _ s => test s
  | .error _ _ => false

theorem exists_of_endsIn {α : Type} {x : EStateM.Result Stop KState α} {test : KState → Bool}
    (h : endsIn x test = true) : ∃ a s, x = .ok a s ∧ test s = true := by
  cases x with
  | ok a s => exact ⟨a, s, rfl, h⟩
  | error e s => cases h

/-- The run returns, and its result passes the test, together with the state it ends in. -/
def returnsWith {α : Type} (x : EStateM.Result Stop KState α) (test : α → KState → Bool) : Bool :=
  match x with
  | .ok a s => test a s
  | .error _ _ => false

theorem exists_of_returnsWith {α : Type} {x : EStateM.Result Stop KState α}
    {test : α → KState → Bool} (h : returnsWith x test = true) :
    ∃ a s, x = .ok a s ∧ test a s = true := by
  cases x with
  | ok a s => exact ⟨a, s, rfl, h⟩
  | error e s => cases h

/-- The run stops in this way. -/
def stopsWith {α : Type} (x : EStateM.Result Stop KState α) (stop : Stop) : Bool :=
  match x with
  | .ok _ _ => false
  | .error e _ => e = stop

theorem exists_of_stopsWith {α : Type} {x : EStateM.Result Stop KState α} {stop : Stop}
    (h : stopsWith x stop = true) : ∃ s, x = .error stop s := by
  cases x with
  | ok a s => cases h
  | error e s => exact ⟨s, of_decide_eq_true h ▸ rfl⟩

theorem exists_boot (cfg : Config) (image : Image) (test : KState → Bool)
    (h : endsIn (initKernel cfg image (.initial cfg)) test = true) :
    ∃ s, Boot cfg image s ∧ test s = true := by
  obtain ⟨info, s, hs, htest⟩ := exists_of_endsIn h
  exact ⟨s, ⟨info, hs⟩, htest⟩

/-- **An accepted list of events is a run from boot.** -/
theorem exists_run_of_trace (cfg : Config) (C : InvokeCond) [∀ l r u i, Decidable (C l r u i)]
    (image : Image) (evs : List Event) (test : KState → Bool)
    (h : endsIn (bootTrace cfg C image evs (.initial cfg)) test = true) :
    ∃ s₀ s, Boot cfg image s₀ ∧ Run cfg C s₀ s ∧ test s = true := by
  obtain ⟨_, s, hs, htest⟩ := exists_of_endsIn h
  obtain ⟨info, s₀, hboot, hrun⟩ := bind_ok.1 hs
  exact ⟨s₀, s, ⟨info, hboot⟩, run_of_runTrace hrun, htest⟩

/-- A root server without segments, with its entry point at `0x10000`. -/
def demoImage : Image := ⟨0x10000, []⟩

/-- The registers of an invocation of the root server, after the arguments. -/
def ecallRegs (a0 a1 a2 : UInt64) : Registers :=
  { a0, a1, a2, a7 := 1, scause := 8, sepc := 0x10000, sstatus := 0x20 }

end Zoeax

import Zoeax.Verify.CNodeOps

/-!
# Labels and types

Every label of an invocation belongs to one type of capability. `handle_invocation` looks at the
type first; the branches of the untyped capabilities and of the CNodes do not look at the label.

- `InvLabel.target?`: the type that a label is for;
- `labelChecked_iff`: with a label of another type, an invocation is refused if and only if it is
  made on a capability of the five other types, or its arguments are refused as those of a retype or
  a copy.
-/

namespace Zoeax

open Lib Exec

variable {cfg : Config} {s : KState}

/-- The type of capability that a label is for. `PutChar` and `CNodeTraverse` are labels of the
`Print` system call. -/
def InvLabel.target? : InvLabel → Option CapabilityType
  | putChar => none
  | cNodeTraverse => none
  | untypedRetype => some .untyped
  | tcbConfigure => some .tcb
  | tcbWriteReg => some .tcb
  | tcbResume => some .tcb
  | tcbSetIpcBuffer => some .tcb
  | notifyWait => some .notification
  | notifySend => some .notification
  | cNodeCopy => some .cNode
  | cNodeMint => some .cNode
  | cNodeMove => some .cNode
  | pageMap => some .page
  | pageUnMap => some .page
  | pageTableMap => some .pageTable
  | pageTableUnMap => some .pageTable
  | pageTableMakeRoot => some .pageTable
  | epSend => some .endPoint
  | epRecv => some .endPoint

/-- The label is one for the type of the capability. -/
def InvLabel.DefinedFor (invLabel : InvLabel) (c : CapabilityData) : Prop :=
  ∃ k, c.getCapType = .ok k ∧ invLabel.target? = some k

/-- An invocation of the capability with a label of another type is answered with an error and
changes nothing. -/
def LabelChecked (cfg : Config) (s : KState) (invLabel : InvLabel) (reg : Registers)
    (c : CapabilityData) : Prop :=
  ¬invLabel.DefinedFor c → ∃ e, handleInvocation cfg invLabel reg s = .error (.err e) s

/-! ## The arguments of a retype -/

/-- The part of `UntypedRetype` that reads: the window, the new capability and the generator. -/
def checkRetype (cfg : Config) (reg : Registers) (rootCnode : CapabilityData) (slot : Nat) :
    KR (Nat × CapabilityData × CapGenerator) := do
  let newType ← capTryFromU8 reg.a6.toUInt8
  let (_, destCnodeCap) ← lookupCap cfg rootCnode reg.a3.toNat (reg.a4.toNat % 2 ^ 32) .cNode
  let window ← destCnodeCap.getWritable cfg (reg.a5.toNat % 2 ^ 32) (reg.a4.toNat >>> 32)
  let src ← deref (·.slots slot)
  src.cap.tryRefAs .untyped
  let (c, gen) ← src.cap.invokeRetype cfg (reg.a5.toNat >>> 32) (reg.a5.toNat % 2 ^ 32) newType
  return (window, c, gen)

theorem invokeUntyped_eq (reg : Registers) (rootCnode : CapabilityData) (slot : Nat) :
    invokeUntyped cfg reg rootCnode slot =
      liftM (checkRetype cfg reg rootCnode slot) >>= fun r => do
        writeCap slot r.2.1
        insertCaps cfg r.1 slot r.2.2.num r.2.2 0
        return none := by
  simp only [invokeUntyped, retypeAndInsert, checkRetype, lift_bind, bind_assoc]
  rfl

/-- The arguments of a retype of `c` are answered with an error: there is no such type, no CNode for
the new capabilities, no window in it, or the untyped capability refuses the objects. -/
def RetypeRefused (cfg : Config) (s : KState) (reg : Registers) (rootCnode c : CapabilityData) :
    Prop :=
  (∃ e, capTryFromU8 reg.a6.toUInt8 = .error (.err e)) ∨
  ∃ newType, capTryFromU8 reg.a6.toUInt8 = .ok newType ∧
    ((∃ e, lookupCap cfg rootCnode reg.a3.toNat (reg.a4.toNat % 2 ^ 32) .cNode s =
      .error (.err e)) ∨
    ∃ slot dest, lookupCap cfg rootCnode reg.a3.toNat (reg.a4.toNat % 2 ^ 32) .cNode s =
      .ok (slot, dest) ∧
      ((∃ e, dest.getWritable cfg (reg.a5.toNat % 2 ^ 32) (reg.a4.toNat >>> 32) s =
        .error (.err e)) ∨
      ∃ window, dest.getWritable cfg (reg.a5.toNat % 2 ^ 32) (reg.a4.toNat >>> 32) s =
        .ok window ∧
        ∃ e, c.invokeRetype cfg (reg.a5.toNat >>> 32) (reg.a5.toNat % 2 ^ 32) newType =
          .error (.err e)))

theorem err_bind {α β : Type} {q : KR α} {f : α → KR β} :
    (∃ e, (q >>= f) s = .error (.err e)) ↔
      (∃ e, q s = .error (.err e)) ∨ ∃ a, q s = .ok a ∧ ∃ e, f a s = .error (.err e) := by
  simp only [Query.bind_error, exists_or]
  refine or_congr Iff.rfl ?_
  constructor
  · rintro ⟨e, a, ha, h⟩
    exact ⟨a, ha, e, h⟩
  · rintro ⟨a, ha, e, h⟩
    exact ⟨e, a, ha, h⟩

theorem checkRetype_err_iff {reg : Registers} {rootCnode c : CapabilityData} {slot : Nat}
    (hc : s.capAt slot = some c) (hk : c.getCapType = .ok .untyped) :
    (∃ e, checkRetype cfg reg rootCnode slot s = .error (.err e)) ↔
      RetypeRefused cfg s reg rootCnode c := by
  obtain ⟨e, he, rfl⟩ := Option.map_eq_some_iff.1 hc
  refine err_bind.trans (or_congr Iff.rfl (exists_congr fun newType => and_congr_right fun _ => ?_))
  refine err_bind.trans (or_congr Iff.rfl (Prod.exists.trans (exists₂_congr fun p dest =>
    and_congr_right fun _ => ?_)))
  refine err_bind.trans (or_congr Iff.rfl (exists_congr fun window => and_congr_right fun _ => ?_))
  rw [Query.bind_of_ok (deref_ok.2 he),
    Query.bind_of_ok (Query.lift_ok.2 ((CapabilityData.tryRefAs_ok (u := ())).2 hk)), err_bind]
  refine or_iff_left ?_
  rintro ⟨r, -, e, h⟩
  cases h

theorem invokeUntyped_err_iff {reg : Registers} {rootCnode c : CapabilityData} {slot : Nat}
    (hc : s.capAt slot = some c) (hk : c.getCapType = .ok .untyped) :
    (∃ e, invokeUntyped cfg reg rootCnode slot s = .error (.err e) s) ↔
      RetypeRefused cfg s reg rootCnode c := by
  rw [invokeUntyped_eq, ← checkRetype_err_iff hc hk]
  exact err_iff_of_check fun r => .bind (.modify _) fun _ => .bind (noErr_insertCaps ..) fun _ =>
    .pure _

/-! ## The arguments of a copy -/

/-- The arguments of a copy are answered with an error: there is no source or no empty slot for the
copy, or the source cannot be derived. -/
def CopyRefused (cfg : Config) (s : KState) (reg : Registers)
    (rootCnode destRoot : CapabilityData) : Prop :=
  (∃ e, rootCnode.lookupEntryMut cfg reg.a3.toNat (reg.a4.toNat >>> 32) s = .error (.err e)) ∨
  ∃ src, rootCnode.lookupEntryMut cfg reg.a3.toNat (reg.a4.toNat >>> 32) s = .ok src ∧
    (s.capAt src = none ∨ ∃ c, s.capAt src = some c ∧
      ((∃ e, destRoot.lookupEntryMut cfg reg.a5.toNat (reg.a4.toNat % 2 ^ 32) s =
        .error (.err e)) ∨
      ∃ dest, destRoot.lookupEntryMut cfg reg.a5.toNat (reg.a4.toNat % 2 ^ 32) s = .ok dest ∧
        (s.capAt dest ≠ none ∨ ∃ e, c.derive = .error (.err e))))

theorem checkCNode_err_iff {reg : Registers} {rootCnode destRoot : CapabilityData} :
    (∃ e, checkCNode cfg reg rootCnode destRoot s = .error (.err e)) ↔
      CopyRefused cfg s reg rootCnode destRoot := by
  refine err_bind.trans (or_congr Iff.rfl (exists_congr fun src => and_congr_right fun hsrc => ?_))
  have hslot := CapabilityData.isSlot_of_lookupEntryMut hsrc
  rw [KState.capAt]
  cases he : s.slots src with
  | none =>
    rw [Query.bind_of_error (occupied_of_none hslot he)]
    exact ⟨fun _ => .inl rfl, fun _ => ⟨_, rfl⟩⟩
  | some e =>
    rw [Query.bind_of_ok (occupied_ok.2 ⟨hslot, he⟩)]
    simp only [Option.map_some, reduceCtorEq, false_or, Option.some.injEq, exists_eq_left']
    refine err_bind.trans (or_congr Iff.rfl (exists_congr fun dest =>
      and_congr_right fun hdest => ?_))
    have hslot' := CapabilityData.isSlot_of_lookupEntryMut hdest
    rw [Query.bind_of_ok (readSlot_ok.2 ⟨hslot', rfl⟩), require_bind, KState.capAt]
    cases hd : s.slots dest with
    | some d => exact ⟨fun _ => .inl (Option.some_ne_none _), fun _ => ⟨_, rfl⟩⟩
    | none =>
      refine Iff.trans ?_ (or_iff_right fun h => h rfl).symm
      refine err_bind.trans (or_iff_left ?_)
      rintro ⟨r, -, x, h⟩
      cases h

/-! ## Labels -/

/-- The branches of the other five types look at the label first. -/
theorem invoke_of_not_defined {invLabel : InvLabel} {k : CapabilityType}
    (hlabel : invLabel.target? ≠ some k) (huntyped : k ≠ .untyped) (hcnode : k ≠ .cNode)
    (reg : Registers) (inv : Invocation) :
    invoke cfg invLabel reg inv k s = .error (kerr .unknownInvocation 0) s := by
  cases k with
  | untyped => exact absurd rfl huntyped
  | cNode => exact absurd rfl hcnode
  | tcb => cases invLabel <;> first | rfl | exact absurd rfl hlabel
  | notification => cases invLabel <;> first | rfl | exact absurd rfl hlabel
  | endPoint => cases invLabel <;> first | rfl | exact absurd rfl hlabel
  | page => cases invLabel <;> first | rfl | exact absurd rfl hlabel
  | pageTable => cases invLabel <;> first | rfl | exact absurd rfl hlabel

/-- **Labels** are checked if and only if the label is one for the type of the capability, or the
arguments are refused: those of a retype on an untyped capability, those of a copy on a CNode. -/
theorem labelChecked_iff {invLabel : InvLabel} {reg : Registers} {inv : Invocation}
    (hinv : findInvocation cfg reg.a0.toNat reg.a1.toNat s = .ok inv) :
    LabelChecked cfg s invLabel reg inv.cap ↔ (¬invLabel.DefinedFor inv.cap →
      (inv.cap.getCapType = .ok .untyped → RetypeRefused cfg s reg inv.rootCnode inv.cap) ∧
      (inv.cap.getCapType = .ok .cNode → CopyRefused cfg s reg inv.rootCnode inv.cap)) := by
  refine imp_congr_right fun hnot => ?_
  cases hk : inv.cap.getCapType with
  | error x =>
    obtain ⟨e, rfl⟩ := CapabilityData.getCapType_error hk
    refine ⟨fun _ => ⟨fun h => ?_, fun h => ?_⟩, fun _ => ⟨e, ?_⟩⟩
    · cases h
    · cases h
    · rw [handleInvocation, lift_bind_of_ok hinv, hk]
      rfl
  | ok k =>
    have hlabel : invLabel.target? ≠ some k := fun h => hnot ⟨k, hk, h⟩
    rw [handleInvocation_of_find hinv hk]
    by_cases huntyped : k = .untyped
    · subst huntyped
      have hslot := (findInvocation_ok hinv).2.2.2.2.2
      refine (invokeUntyped_err_iff hslot hk).trans ?_
      refine ⟨fun h => ⟨fun _ => h, fun hc => ?_⟩, fun h => h.1 rfl⟩
      cases hc
    by_cases hcnode : k = .cNode
    · subst hcnode
      refine (invokeCNode_err_iff ..).trans (checkCNode_err_iff.trans ?_)
      refine ⟨fun h => ⟨fun hu => ?_, fun _ => h⟩, fun h => h.2 rfl⟩
      cases hu
    · rw [invoke_of_not_defined hlabel huntyped hcnode]
      exact ⟨fun _ => ⟨fun h => absurd (Except.ok.inj h) huntyped,
        fun h => absurd (Except.ok.inj h) hcnode⟩, fun _ => ⟨_, rfl⟩⟩

/-- `EpSend` on a page table is refused. -/
theorem labelChecked_epSend : ∃ inv, findInvocation .virt 3 3 Small.state = .ok inv ∧
    ¬InvLabel.epSend.DefinedFor inv.cap ∧
    LabelChecked .virt Small.state .epSend (ecallRegs 3 3 17) inv.cap := by
  have hinv : findInvocation .virt 3 3 Small.state =
      .ok ⟨Small.thread, Small.threadInfo, Small.cnodeCap, Small.slot 3, Small.tableCap⟩ := rfl
  refine ⟨_, hinv, ?_, (labelChecked_iff hinv).2 fun _ => ⟨fun h => ?_, fun h => ?_⟩⟩
  · rintro ⟨k, hk, hlabel⟩
    obtain rfl := Option.some.inj hlabel
    exact absurd hk (by decide)
  · exact absurd h (by decide)
  · exact absurd h (by decide)

/-- `PageMap` with the arguments of a copy into slot 4. -/
def Small.pageMapRegs : Registers :=
  { ecallRegs 1 3 12 with a3 := 3, a4 := 3 * 2 ^ 32 + 3, a5 := 4 }

/-- `PageMap` on a CNode is a copy. -/
theorem not_labelChecked_pageMap : findInvocation .virt 1 3 Small.state =
      .ok Small.cnodeInvocation ∧ ¬InvLabel.pageMap.DefinedFor Small.cnodeCap ∧
    (∃ v s', handleInvocation .virt .pageMap Small.pageMapRegs Small.state = .ok v s' ∧
      s'.capAt (Small.slot 4) = some Small.tableCap) ∧
    ¬LabelChecked .virt Small.state .pageMap Small.pageMapRegs Small.cnodeCap := by
  obtain ⟨v, s', hok, hcap⟩ := exists_of_endsIn
    (by decide +kernel : endsIn (handleInvocation .virt .pageMap Small.pageMapRegs Small.state)
      (fun s' => s'.capAt (Small.slot 4) = some Small.tableCap) = true)
  have hnot : ¬InvLabel.pageMap.DefinedFor Small.cnodeCap := by
    rintro ⟨k, hk, hlabel⟩
    obtain rfl := Option.some.inj hlabel
    exact absurd hk (by decide)
  refine ⟨rfl, hnot, ⟨v, s', hok, of_decide_eq_true hcap⟩, fun h => ?_⟩
  obtain ⟨e, herr⟩ := h hnot
  cases hok.symm.trans herr

end Zoeax

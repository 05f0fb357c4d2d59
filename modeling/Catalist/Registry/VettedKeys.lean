import Catalist.Registry.DepositOnce
import Catalist.Registry.KeyLists
import Catalist.Registry.Nonce

/-!
# Vetted keys stay the vetted ones

Removing a key moves the last key of the operator, which may not be vetted, to its place. The vetted
count is lowered to the removed index then, so that no key below it was ever moved: every vetted key
is the one that was stored when `setNodeOperatorStakingLimit` vetted it, and so is every key that is
returned for a deposit.
-/

namespace Catalist

open Solidity ByteBuffer SigningKeys IndexTable Transition

/-- The call vets the key of the operator at this index. -/
def Vets (id index : Nat) (m : NodeOperatorsRegistry.RegistryCall) : Prop :=
  (∃ count, m.action.2 = .setNodeOperatorStakingLimit id count) ∧
    (m.before.operators id).vetted ≤ index ∧ index < (m.after.operators id).vetted

namespace NodeOperatorsRegistry

variable {s s' : NodeOperatorsRegistry} {env : RegistryEnv} {id n : Nat}
  {getKeyOffset : Nat → Nat → BitVec 256} {w : RegistryLog}

/-! ## The vetted counts -/

/-- Only the operator's own vetted count can be raised. -/
theorem vetted_le_setNodeOperatorStakingLimit :
    Ensures (fun _ => True) (s.setNodeOperatorStakingLimit env id n)
      fun s' => ∀ i, i ≠ id → (s'.operators i).vetted ≤ (s.operators i).vetted := by
  refine ensures_check.bind fun _ _ => ?_
  refine ensures_check.bind fun _ _ => ?_
  refine ensures_check.bind fun _ _ => ?_
  simp only
  split
  · exact ensures_pure fun _ _ => Nat.le_refl _
  · refine (ensures_any _).bind fun stats _ => ?_
    refine onlyTargets_updateSummaryMaxValidatorsCount.bind fun s₁ hs => ?_
    refine ensures_pure fun i hi => (hs.vetted i).le.trans ?_
    show NodeOperator.vetted (Function.update s.operators id _ i) ≤ _
    rw [Function.update_of_ne hi]

/-- A removal leaves no vetted key at the removed indexes or behind. -/
theorem vetted_le_removeUnusedSigningKeys {fromIndex : Nat} (hn : n ≠ 0) :
    Ensures (fun _ => True) (s.removeUnusedSigningKeys getKeyOffset env id fromIndex n)
      fun s' => (s'.operators id).vetted ≤ fromIndex := by
  refine ensures_check.bind fun _ _ => ?_
  refine ensures_check.bind fun _ _ => ?_
  rw [if_neg hn]
  refine ensures_check.bind fun _ _ => ?_
  refine (ensures_any _).bind fun endIndex _ => ?_
  refine ensures_check.bind fun _ _ => ?_
  refine (ensures_any _).bind ?_
  rintro ⟨signingKeys, total⟩ -
  refine (ensures_any _).bind fun stats₁ _ => ?_
  refine ensures_lower.bind fun stats hstats => ?_
  refine (ensures_any _).bind fun summary _ => ?_
  refine onlyTargets_updateSummaryMaxValidatorsCount.bind fun s₁ hs => ensures_pure ?_
  refine (hs.vetted id).le.trans ?_
  show NodeOperator.vetted (Function.update s.operators id _ id) ≤ _
  rw [Function.update_self]
  exact hstats.get.le.trans (Nat.min_le_right _ _)

/-- **Which calls vet keys**: the one of the manager, for its operator. -/
theorem vetted_le_of_run (h : Invariant s) {action : RegistryAction}
    (hrun : action.run getKeyOffset env s = .ok s') (i : Nat) :
    (s'.operators i).vetted ≤ (s.operators i).vetted ∨
      ∃ count, action = .setNodeOperatorStakingLimit i count := by
  have hgrown := (ensures_run h).of_ok hrun
  cases action with
  | setNodeOperatorStakingLimit id count =>
    by_cases hi : i = id
    · subst hi
      exact .inr ⟨count, rfl⟩
    · exact .inl (vetted_le_setNodeOperatorStakingLimit.of_ok hrun i hi)
  | _ => exact .inl (hgrown.vetted_le (by simp [RegistryAction.parts]) i)

/-! ## The vetted keys -/

/-- **The keys that were vetted before a call and are vetted after it stay.** -/
theorem take_vetted_of_run (hsep : Separate getKeyOffset) (h : Invariant s)
    {action : RegistryAction} (hrun : action.run getKeyOffset env s = .ok s') {i k : Nat}
    (hbefore : k ≤ (s.operators i).vetted) (hafter : k ≤ (s'.operators i).vetted) :
    (s'.signingKeysOf getKeyOffset i).take k = (s.signingKeysOf getKeyOffset i).take k := by
  have hs' : Invariant s' := ((ensures_run h).of_ok hrun).invariant
  have hlength : k ≤ (s.signingKeysOf getKeyOffset i).length := by
    rw [signingKeysOf, length_keyList]
    exact hbefore.trans (h.wellFormed i).vetted_le_total
  have hlength' : k ≤ (s'.signingKeysOf getKeyOffset i).length := by
    rw [signingKeysOf, length_keyList]
    exact hafter.trans (hs'.wellFormed i).vetted_le_total
  have hlist := signingKeysOf_of_run hsep h hrun i
  have hremove : ∀ {id fromIndex count : Nat},
      s.removeSigningKeys getKeyOffset env id fromIndex count = .ok s' →
      (s'.signingKeysOf getKeyOffset i).take k = (s.signingKeysOf getKeyOffset i).take k := by
    intro id fromIndex count hx
    simp only [removeSigningKeys, bind_eq_ok] at hx
    obtain ⟨_, -, hx⟩ := hx
    obtain ⟨hunused, hremoved⟩ := signingKeysOf_of_removeUnused hsep h hx
    rw [hremoved i]
    by_cases hi : i = id
    · subst hi
      rw [if_pos rfl]
      rcases hunused with rfl | ⟨-, hend⟩
      · rfl
      · by_cases hcount : count = 0
        · subst hcount
          rfl
        · have hvetted := (vetted_le_removeUnusedSigningKeys hcount).of_ok hx
          exact take_removeRange hend (hafter.trans hvetted)
    · rw [if_neg hi]
  -- a list that is cut off is still as long as the vetted count
  have hcut : s'.signingKeysOf getKeyOffset i
        = (s.signingKeysOf getKeyOffset i).take (s.operators i).deposited →
      (s'.signingKeysOf getKeyOffset i).take k = (s.signingKeysOf getKeyOffset i).take k := by
    intro hcut
    rw [hcut, List.length_take] at hlength'
    rw [hcut, List.take_take, Nat.min_eq_left (hlength'.trans (Nat.min_le_left _ _))]
  cases action with
  | addSigningKeys id keysCount publicKeys signatures =>
    rw [hlist, RegistryAction.editKeys]
    split
    · rw [List.take_append_of_le_length hlength]
    · rfl
  | addSigningKeysOperatorBH id keysCount publicKeys signatures =>
    rw [hlist, RegistryAction.editKeys]
    split
    · rw [List.take_append_of_le_length hlength]
    · rfl
  | removeSigningKey id index => exact hremove hrun
  | removeSigningKeys id fromIndex keysCount => exact hremove hrun
  | removeSigningKeyOperatorBH id index => exact hremove hrun
  | removeSigningKeysOperatorBH id fromIndex keysCount => exact hremove hrun
  | invalidateReadyToDepositKeysRange indexFrom indexTo =>
    rw [RegistryAction.editKeys] at hlist
    by_cases hi : indexFrom ≤ i ∧ i ≤ indexTo
    · rw [if_pos hi] at hlist
      exact hcut hlist
    · rw [if_neg hi] at hlist
      rw [hlist]
  | onWithdrawalCredentialsChanged => exact hcut hlist
  | _ => exact congrArg (List.take _) hlist

/-- A listed key is what is stored. -/
theorem storedSigningKey_of_take {i index k : Nat} (hindex : index < k)
    (hlt : index < (s.operators i).total) (hlt' : index < (s'.operators i).total)
    (h : (s'.signingKeysOf getKeyOffset i).take k = (s.signingKeysOf getKeyOffset i).take k) :
    storedSigningKey s'.signingKeys getKeyOffset i index
      = storedSigningKey s.signingKeys getKeyOffset i index := by
  have hget := congrArg (fun keys => keys[index]?) h
  simp only [List.getElem?_take_of_lt hindex, signingKeysOf, getElem?_keyList, if_pos hlt,
    if_pos hlt'] at hget
  exact Option.some.inj hget

theorem storedSigningKey_of_run (hsep : Separate getKeyOffset) (h : Invariant s)
    {action : RegistryAction} (hrun : action.run getKeyOffset env s = .ok s') {i index : Nat}
    (hbefore : index < (s.operators i).vetted) (hafter : index < (s'.operators i).vetted) :
    storedSigningKey s'.signingKeys getKeyOffset i index
      = storedSigningKey s.signingKeys getKeyOffset i index := by
  have hs' : Invariant s' := ((ensures_run h).of_ok hrun).invariant
  exact storedSigningKey_of_take (Nat.lt_succ_self index)
    (Nat.lt_of_lt_of_le hbefore (h.wellFormed i).vetted_le_total)
    (Nat.lt_of_lt_of_le hafter (hs'.wellFormed i).vetted_le_total)
    (take_vetted_of_run hsep h hrun hbefore hafter)

/-! ## Runs -/

/-- What is stored at the index is what was stored there when it was last vetted. -/
def StaysVetted (getKeyOffset : Nat → Nat → BitVec 256) (w : RegistryLog) (id index : Nat) : Prop :=
  ∃ past m later, w.history = past ++ m :: later ∧ Vets id index m ∧
    (∀ m' ∈ later, ¬ Vets id index m') ∧
    storedSigningKey w.state.signingKeys getKeyOffset id index
      = storedSigningKey m.after.signingKeys getKeyOffset id index

theorem vetted_of_initial (h : Initial s) (id : Nat) : (s.operators id).vetted = 0 := by
  have hcount := totalOperatorsCount_of_initial h
  exact ((invariant_of_initial h).blank id (by omega)).vetted

/-- A call that vets the key is the last one that did; any other call leaves the key in place. -/
theorem StaysVetted.step (hsep : Separate getKeyOffset) {call : RegistryEnv × RegistryAction}
    {index : Nat} (hinvariant : Invariant w.state) (hcall : Calls getKeyOffset w.state call s')
    (h : index < (w.state.operators id).vetted → StaysVetted getKeyOffset w id index)
    (hindex : index < (s'.operators id).vetted) :
    StaysVetted getKeyOffset (w.record call s') id index := by
  by_cases hbefore : index < (w.state.operators id).vetted
  · obtain ⟨past, m, later, hhistory, hvets, hnone, hkey⟩ := h hbefore
    refine ⟨past, m, later ++ [⟨w.state, call, s'⟩], ?_, hvets, fun m' hm' => ?_, ?_⟩
    · show w.history ++ [_] = _
      rw [hhistory, List.append_assoc, List.cons_append]
    · rw [List.mem_append, List.mem_singleton] at hm'
      rcases hm' with hm' | rfl
      · exact hnone m' hm'
      · exact fun hv => absurd hbefore (Nat.not_lt_of_le hv.2.1)
    · exact (storedSigningKey_of_run hsep hinvariant hcall hbefore hindex).trans hkey
  · have hraised : ∃ count, call.2 = .setNodeOperatorStakingLimit id count :=
      (vetted_le_of_run hinvariant hcall id).resolve_left fun hle =>
        hbefore (Nat.lt_of_lt_of_le hindex hle)
    refine ⟨w.history, ⟨w.state, call, s'⟩, [], rfl,
      ⟨hraised, Nat.le_of_not_lt hbefore, hindex⟩, fun m' hm' => ?_, rfl⟩
    cases hm'

/-- The induction is over the run. -/
theorem staysVetted_of_log (hsep : Separate getKeyOffset) (h : LogRun getKeyOffset w) {index : Nat}
    (hindex : index < (w.state.operators id).vetted) : StaysVetted getKeyOffset w id index := by
  induction h with
  | @init w₀ h0 =>
    rw [vetted_of_initial h0.1] at hindex
    exact absurd hindex (Nat.not_lt_zero _)
  | step hw hs ih =>
    obtain ⟨hcall⟩ := hs
    exact StaysVetted.step hsep (invariant_of_reachable (reachable_of_log hw)) hcall ih hindex

/--
**Vetted keys stay the vetted ones.** In every run, the key that is stored at an index below the
vetted count of an operator is the one that was stored there when the vetted count was last raised
above that index, and every key that is returned for a deposit is such a key.
-/
theorem vetted_keys_stay (hsep : Separate getKeyOffset) (h : LogRun getKeyOffset w) :
    (∀ id index, index < (w.state.operators id).vetted →
      StaysVetted getKeyOffset w id index) ∧
    ∀ env n s' publicKeys signatures,
      w.state.obtainDepositData getKeyOffset env n = .ok (s', publicKeys, signatures) →
      ∃ returned : List (Nat × Nat), publicKeys = w.state.keysOf getKeyOffset returned ∧
        signatures = w.state.signaturesOf getKeyOffset returned ∧
        ∀ key ∈ returned, StaysVetted getKeyOffset w key.1 key.2 := by
  refine ⟨fun id index hindex => staysVetted_of_log hsep h hindex, ?_⟩
  intro env n s' publicKeys signatures hobtain
  have hinvariant := invariant_of_reachable (reachable_of_log h)
  have hensures : Ensures (fun _ => True) (w.state.obtainDepositData getKeyOffset env n) _ :=
    ensures_obtainDepositData hinvariant (.inr trivial) (.inr trivial)
  have hout := (hensures.of_ok hobtain).1
  have hexact := hout.exact hinvariant
  refine ⟨_, hout.publicKeys, hout.signatures, fun key hkey => ?_⟩
  obtain ⟨-, -, hlt⟩ := mem_returnedBy.mp hkey
  have hmax := (hexact.deposited_le_max key.1).1
  have hvetted := (hexact.max_le_vetted key.1).1
  exact staysVetted_of_log hsep h (by omega)

/-- The second key of the second operator was vetted together with its first one. -/
theorem vetted_keys_stay_second_key :
    ∃ history, LogRun exampleKeyOffset ⟨exampleRegistry, history⟩ ∧
      StaysVetted exampleKeyOffset ⟨exampleRegistry, history⟩ 1 1 := by
  have hreach : Reachable Initial (Step exampleKeyOffset) exampleRegistry :=
    reachable_runAll (.init initial_exampleInitialRegistry) runAll_exampleRegistry
  have hvetted : 1 < (exampleRegistry.operators 1).vetted := by decide +kernel
  generalize exampleRegistry = s at hreach hvetted ⊢
  obtain ⟨history, hw⟩ := exists_log hreach
  exact ⟨history, hw, (vetted_keys_stay separate_exampleKeyOffset hw).1 1 1 hvetted⟩

end NodeOperatorsRegistry

end Catalist

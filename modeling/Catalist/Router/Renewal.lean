import Catalist.Lib.History
import Catalist.Registry.UnusedKeys
import Catalist.Router.ExitedRuns

/-!
# Deposits after a change of the withdrawal credentials

In every run of the router and its registries, the keys that are deposited after a change were added
since; unless the module's registry failed to discard its keys at the change, and the module, paused
by the change, was activated again.
-/

namespace Catalist

open Solidity Transition SigningKeys ByteBuffer

namespace RouterSystem

open StakingRouter ModuleWorld

variable {ε δ : Type} {getKeyOffset : Nat → Nat → BitVec 256}
  {depositInto : δ → Bytes → Bytes → Bytes → Call ε δ} {x x' : RouterSystem δ}

/-- The keys that a registry may still hand out. -/
def unusedAt (x : RouterSystem δ) (getKeyOffset : Nat → Nat → BitVec 256) (addr : Address)
    (id : Nat) : List SigningKey :=
  (x.world.registries addr).unusedKeys getKeyOffset id

/-- What holds in every run. -/
structure Sound (getKeyOffset : Nat → Nat → BitVec 256) (x : RouterSystem δ) : Prop where
  distinct : x.router.Distinct
  reached : x.world.Reached getKeyOffset

/-- What a call can do to modules, credentials and unused keys. -/
structure Permits (getKeyOffset : Nat → Nat → BitVec 256) (x : RouterSystem δ)
    (action : RouterAction) (x' : RouterSystem δ) : Prop where
  sound : Sound getKeyOffset x'
  count_le : x.router.stakingModulesCount ≤ x'.router.stakingModulesCount
  address : ∀ i < x.router.stakingModulesCount, x'.router.addressOf i = x.router.addressOf i
  credentials : (∀ env c, action ≠ .setWithdrawalCredentials env c) →
    x'.router.withdrawalCredentials = x.router.withdrawalCredentials
  active : ∀ i, (x'.router.stakingModules i).status = .active →
    (x.router.stakingModules i).status = .active ∨ action = .manage
  unused : ∀ addr id, ∀ key ∈ x'.unusedAt getKeyOffset addr id,
    key ∈ x.unusedAt getKeyOffset addr id ∨
      ∃ called, action = .registry addr called ∧ key ∈ called.added id

theorem Initial.sound (h : Initial getKeyOffset x) : Sound getKeyOffset x where
  distinct i hi := by
    rw [h.fresh.stakingModulesCount] at hi
    exact absurd hi (Nat.not_lt_zero i)
  reached := h.reached

/-- A registry adds unused keys only by the calls that say so. -/
theorem Sound.unused_of_run (h : Sound getKeyOffset x) (hsep : Separate getKeyOffset)
    {addr : Address} {env : RegistryEnv} {action : RegistryAction} {registry : NodeOperatorsRegistry}
    {registries : Address → NodeOperatorsRegistry}
    (hrun : action.run getKeyOffset env (x.world.registries addr) = .ok registry)
    (hregistries : registries = Function.update x.world.registries addr registry)
    (addr' : Address) (id : Nat) {key : SigningKey}
    (hkey : key ∈ (registries addr').unusedKeys getKeyOffset id) :
    key ∈ x.unusedAt getKeyOffset addr' id ∨ (addr' = addr ∧ key ∈ action.added id) := by
  rw [hregistries] at hkey
  by_cases haddr : addr' = addr
  · subst haddr
    rw [Function.update_self] at hkey
    have hinvariant := NodeOperatorsRegistry.invariant_of_reachable (h.reached addr')
    exact (NodeOperatorsRegistry.mem_unusedKeys_of_run hsep hinvariant hrun hkey).imp_right
      fun hadded => ⟨rfl, hadded⟩
  · rw [Function.update_of_ne haddr] at hkey
    exact .inl hkey

/-- Any other call of a registry leaves it with unused keys that it had. -/
theorem Sound.unused_of_run_nil (h : Sound getKeyOffset x) (hsep : Separate getKeyOffset)
    {addr : Address} {env : RegistryEnv} {action : RegistryAction} {registry : NodeOperatorsRegistry}
    {registries : Address → NodeOperatorsRegistry}
    (hrun : action.run getKeyOffset env (x.world.registries addr) = .ok registry)
    (hregistries : registries = Function.update x.world.registries addr registry)
    (hadded : ∀ id, action.added id = []) (addr' : Address) (id : Nat) {key : SigningKey}
    (hkey : key ∈ (registries addr').unusedKeys getKeyOffset id) :
    key ∈ x.unusedAt getKeyOffset addr' id := by
  refine (h.unused_of_run hsep hrun hregistries addr' id hkey).resolve_right ?_
  rintro ⟨-, hmem⟩
  rw [hadded] at hmem
  cases hmem

/-- A registry that answers has discarded its unused keys. -/
theorem unusedKeys_of_answer {env : AnswerEnv} {addr : Address}
    {registry registry' : NodeOperatorsRegistry}
    (hinvariant : NodeOperatorsRegistry.Invariant registry)
    (h : answer env addr registry = .ok registry') (id : Nat) :
    registry'.unusedKeys getKeyOffset id = [] :=
  NodeOperatorsRegistry.unusedKeys_of_onWithdrawalCredentialsChanged hinvariant (answer_eq_ok h) id

/-- Being asked makes no keys unused. -/
theorem unusedKeys_answered {env : AnswerEnv} {addr : Address} {registry : NodeOperatorsRegistry}
    (hinvariant : NodeOperatorsRegistry.Invariant registry) (id : Nat) {key : SigningKey}
    (hkey : key ∈ (answered env addr registry).unusedKeys getKeyOffset id) :
    key ∈ registry.unusedKeys getKeyOffset id := by
  unfold answered at hkey
  split at hkey
  · next registry' hanswer =>
    rw [unusedKeys_of_answer hinvariant hanswer] at hkey
    cases hkey
  · exact hkey

/-- The registry of a module that answers has discarded its unused keys. -/
theorem Sound.discarded {env : AnswerEnv} {c : BitVec 256} {router : StakingRouter}
    {world : ModuleWorld δ} (h : Sound getKeyOffset x)
    (hinformed : Informed env (List.range x.router.stakingModulesCount)
      { x.router with withdrawalCredentials := c } router x.world world)
    {i : Nat} (hi : i < x.router.stakingModulesCount)
    {registry : NodeOperatorsRegistry}
    (hanswer : answer env (x.router.addressOf i) (x.world.registries (x.router.addressOf i))
      = .ok registry) (id : Nat) :
    (world.registries (x.router.addressOf i)).unusedKeys getKeyOffset id = [] := by
  rw [hinformed.registry_of_ok (List.mem_range.mpr hi) hanswer]
  exact unusedKeys_of_answer (NodeOperatorsRegistry.invariant_of_reachable (h.reached _)) hanswer id

/-- A deposit is a call of one registry, unless it is of no validators. -/
theorem Sound.unused_of_deposit (h : Sound getKeyOffset x) (hsep : Separate getKeyOffset)
    {registryEnv : RegistryEnv} {env : RouterEnv} {n id : Nat} {depositCalldata : Bytes}
    {router : StakingRouter} {world : ModuleWorld δ}
    (hcall : x.router.deposit (registryCallees getKeyOffset registryEnv depositInto) env n id
      depositCalldata x.world = .ok (router, world)) (addr : Address) (operator : Nat)
    {key : SigningKey}
    (hkey : key ∈ (world.registries addr).unusedKeys getKeyOffset operator) :
    key ∈ x.unusedAt getKeyOffset addr operator := by
  obtain ⟨index, -, -, hnone, hsome⟩ := ModuleWorld.deposit_ok_cases hcall
  rcases Nat.eq_zero_or_pos n with hn | hn
  · rwa [hnone hn] at hkey
  · obtain ⟨registry, keys, signatures, hobtain, hregistries⟩ := hsome hn
    have hrun : RegistryAction.run (.obtainDepositData n) getKeyOffset registryEnv
        (x.world.registries (x.router.addressOf index)) = .ok registry := by
      rw [RegistryAction.run, hobtain]
      rfl
    exact h.unused_of_run_nil hsep hrun hregistries (fun _ => rfl) addr operator hkey

/-- **What becomes unused**, one case for each call. -/
theorem Sound.unused (h : Sound getKeyOffset x) (hsep : Separate getKeyOffset)
    {action : RouterAction} (hperforms : Performs getKeyOffset depositInto x action x')
    (addr : Address) (id : Nat) (key : SigningKey) (hkey : key ∈ x'.unusedAt getKeyOffset addr id) :
    key ∈ x.unusedAt getKeyOffset addr id ∨
      ∃ called, action = .registry addr called ∧ key ∈ called.added id := by
  cases hperforms with
  | manage => exact .inl hkey
  | setWithdrawalCredentials hcall =>
    obtain ⟨-, -, hinformed⟩ := setWithdrawalCredentials_ok_cases h.distinct hcall
    refine .inl ?_
    rw [unusedAt] at hkey
    rcases hinformed.registry_cases addr with hsame | hanswered
    · rwa [hsame] at hkey
    · rw [hanswered] at hkey
      exact unusedKeys_answered (NodeOperatorsRegistry.invariant_of_reachable (h.reached addr)) id
        hkey
  | deposit hcall => exact .inl (h.unused_of_deposit hsep hcall addr id hkey)
  | updateExitedValidatorsCountByStakingModule => exact .inl hkey
  | reportExitedByNodeOperator hcall =>
    obtain ⟨_, registry, hrun, rfl⟩ := reportExited_ok_cases hcall
    exact .inl (h.unused_of_run_nil hsep hrun rfl (fun _ => rfl) addr id hkey)
  | reportStuckByNodeOperator hcall =>
    obtain ⟨_, registry, hrun, rfl⟩ := reportStuck_ok_cases hcall
    exact .inl (h.unused_of_run_nil hsep hrun rfl (fun _ => rfl) addr id hkey)
  | correct => exact .inl hkey
  | @registry _ _ called _ hrun =>
    refine (h.unused_of_run hsep hrun rfl addr id hkey).imp_right ?_
    rintro ⟨rfl, hadded⟩
    exact ⟨called, rfl, hadded⟩
  | other => exact .inl hkey

theorem Performs.distinct {action : RouterAction}
    (h : Performs getKeyOffset depositInto x action x') (hdistinct : x.router.Distinct) :
    x'.router.Distinct := by
  by_cases hmanage : action = .manage
  · subst hmanage
    cases h with
    | manage call hrun => exact hdistinct.run hrun
  · have hsame := h.sameModules hmanage
    exact hdistinct.of_same hsame.count hsame.address

/-- The modules that there were are still there, under their addresses. -/
theorem Performs.addressOf {action : RouterAction}
    (h : Performs getKeyOffset depositInto x action x') :
    x.router.stakingModulesCount ≤ x'.router.stakingModulesCount ∧
      ∀ i < x.router.stakingModulesCount, x'.router.addressOf i = x.router.addressOf i := by
  by_cases hmanage : action = .manage
  · subst hmanage
    cases h with
    | manage call hrun =>
      obtain ⟨hlater, -⟩ := sameExited_of_run hrun
      exact ⟨hlater.count_le, hlater.address⟩
  · have hsame := h.sameModules hmanage
    exact ⟨hsame.count.ge, fun i _ => hsame.address i⟩

theorem Performs.credentials {action : RouterAction}
    (h : Performs getKeyOffset depositInto x action x')
    (hother : ∀ env c, action ≠ .setWithdrawalCredentials env c) :
    x'.router.withdrawalCredentials = x.router.withdrawalCredentials := by
  cases h with
  | manage call hrun => exact withdrawalCredentials_of_run hrun
  | setWithdrawalCredentials => exact absurd rfl (hother _ _)
  | deposit hcall =>
    obtain ⟨index, -, rfl, -, -⟩ := ModuleWorld.deposit_ok_cases hcall
    rfl
  | updateExitedValidatorsCountByStakingModule hcall =>
    exact (sameModules_updateExitedValidatorsCount hcall).2
  | reportExitedByNodeOperator => rfl
  | reportStuckByNodeOperator => rfl
  | correct => rfl
  | registry => rfl
  | other => rfl

/-- **What a call can do.** -/
theorem Sound.permits (h : Sound getKeyOffset x) (hsep : Separate getKeyOffset)
    {action : RouterAction} (hperforms : Performs getKeyOffset depositInto x action x') :
    Permits getKeyOffset x action x' where
  sound := ⟨hperforms.distinct h.distinct, h.reached.called hperforms.called⟩
  count_le := hperforms.addressOf.1
  address := hperforms.addressOf.2
  credentials := hperforms.credentials
  active i hactive := by
    by_cases hmanage : action = .manage
    · exact .inr hmanage
    · exact .inl ((hperforms.sameModules hmanage).status i hactive)
  unused := h.unused hsep hperforms

/-- The recorded runs from a new router. -/
def Runs (getKeyOffset : Nat → Nat → BitVec 256)
    (depositInto : δ → Bytes → Bytes → Bytes → Call ε δ)
    (w : Recorded (RouterSystem δ) RouterAction) : Prop :=
  Reachable (Recorded.Starts (Initial getKeyOffset))
    (Recorded.Acts (Performs getKeyOffset depositInto)) w

theorem sound_of_runs (hsep : Separate getKeyOffset)
    {w : Recorded (RouterSystem δ) RouterAction} (h : Runs getKeyOffset depositInto w) :
    Sound getKeyOffset w.state := by
  induction h with
  | init h0 => exact h0.1.sound
  | step _ hs ih =>
    obtain ⟨hperforms⟩ := hs
    exact (ih.permits hsep hperforms).sound

/-! ## What is handed out after a change -/

/-- The status of the module at an index is set back to active. -/
def Reactivates (index : Nat) (m : Moment (RouterSystem δ) RouterAction) : Prop :=
  m.action = .manage ∧ (m.before.router.stakingModules index).status ≠ .active ∧
    (m.after.router.stakingModules index).status = .active

/-- The registry of the module at an index fails to discard its unused keys. -/
def Fails (env : AnswerEnv) (index : Nat) (x : RouterSystem δ) : Prop :=
  ∃ lowLevelRevertData, answer env (x.router.addressOf index)
    (x.world.registries (x.router.addressOf index)) = .error lowLevelRevertData

/-- A key was added to a registry. -/
def Adds (addr : Address) (key : SigningKey) (m : Moment (RouterSystem δ) RouterAction) :
    Prop :=
  ∃ called id, m.action = .registry addr called ∧ key ∈ called.added id

/-- What is known about a module some calls after a change of the credentials. -/
structure Renewed (getKeyOffset : Nat → Nat → BitVec 256) (index : Nat) (addr : Address)
    (failed : Prop) (later : List (Moment (RouterSystem δ) RouterAction))
    (x : RouterSystem δ) : Prop where
  sound : Sound getKeyOffset x
  index_lt : index < x.router.stakingModulesCount
  address : x.router.addressOf index = addr
  renewed : (∀ id, ∀ key ∈ x.unusedAt getKeyOffset addr id, ∃ m ∈ later, Adds addr key m) ∨
    (failed ∧ ((x.router.stakingModules index).status ≠ .active ∨ ∃ m ∈ later, Reactivates index m))

theorem Renewed.performs {index : Nat} {addr : Address} {failed : Prop}
    {later : List (Moment (RouterSystem δ) RouterAction)} {action : RouterAction}
    (h : Renewed getKeyOffset index addr failed later x) (hsep : Separate getKeyOffset)
    (hperforms : Performs getKeyOffset depositInto x action x') :
    Renewed getKeyOffset index addr failed (later ++ [⟨x, action, x'⟩]) x' := by
  have hpermits := h.sound.permits hsep hperforms
  refine ⟨hpermits.sound, h.index_lt.trans_le hpermits.count_le,
    (hpermits.address index h.index_lt).trans h.address, ?_⟩
  rcases h.renewed with hadded | ⟨hfailed, hstatus⟩
  · refine .inl fun id key hkey => ?_
    rcases hpermits.unused addr id key hkey with hold | ⟨called, rfl, hnew⟩
    · obtain ⟨m, hm, hadds⟩ := hadded id key hold
      exact ⟨m, List.mem_append_left _ hm, hadds⟩
    · exact ⟨_, List.mem_append_right _ (List.mem_singleton_self _), called, id, rfl, hnew⟩
  · refine .inr ⟨hfailed, ?_⟩
    rcases hstatus with hinactive | ⟨m, hm, hreactivates⟩
    · by_cases hactive : (x'.router.stakingModules index).status = .active
      · have hmanage := (hpermits.active index hactive).resolve_left hinactive
        exact .inr ⟨_, List.mem_append_right _ (List.mem_singleton_self _), hmanage, hinactive,
          hactive⟩
      · exact .inl hactive
    · exact .inr ⟨m, List.mem_append_left _ hm, hreactivates⟩

/-! ## What is deposited -/

/-- The loop deposits the keys that are in the buffers, in their order. -/
theorem foldlM_of_depositLoop {registryEnv : RegistryEnv}
    {withdrawalCredentials publicKeys signatures : Bytes} {keys : List SigningKey}
    {i balance balance' : Nat} {world world' : ModuleWorld δ}
    (hpublicKeys : publicKeys.drop (i * PUBLIC_KEY_LENGTH) = keys.flatMap SigningKey.pubkey)
    (hsignatures : signatures.drop (i * StakingRouter.SIGNATURE_LENGTH)
      = keys.flatMap SigningKey.signature)
    (h : depositLoop (registryCallees getKeyOffset registryEnv depositInto) withdrawalCredentials
      publicKeys signatures (List.range' i keys.length) balance world = .ok (balance', world')) :
    keys.foldlM (fun d key => depositInto d key.pubkey withdrawalCredentials key.signature)
      world.depositContract = .ok world'.depositContract := by
  induction keys generalizing i balance world with
  | nil =>
    simp only [List.length_nil, List.range'_zero, depositLoop, pure_eq_ok, Prod.mk.injEq] at h
    obtain ⟨-, rfl⟩ := h
    rfl
  | cons key keys ih =>
    rw [List.flatMap_cons] at hpublicKeys hsignatures
    have hpubkey := take_of_append hpublicKeys key.length_pubkey
    have hsignature := take_of_append hsignatures key.length_signature
    have hpublicKeys' := drop_of_append hpublicKeys key.length_pubkey
    have hsignatures' := drop_of_append hsignatures key.length_signature
    rw [List.length_cons, List.range'_succ] at h
    simp only [depositLoop, bind_eq_ok, within_eq_ok] at h
    obtain ⟨_, -, world₁, hdeposit, hrest⟩ := h
    obtain ⟨d, hinto, rfl⟩ := ModuleWorld.deposit_eq_ok.mp hdeposit
    have hfirst : depositInto world.depositContract key.pubkey withdrawalCredentials key.signature
        = .ok d := by
      rw [← hpubkey, ← hsignature]
      exact hinto
    rw [List.foldlM_cons, hfirst, ok_bind]
    refine ih ?_ ?_ hrest
    · rw [Nat.succ_mul]
      exact hpublicKeys'
    · rw [Nat.succ_mul]
      exact hsignatures'

/-- A deposit is of unused keys of an active module, with the credentials of the router. -/
theorem Sound.keys_of_deposit (h : Sound getKeyOffset x) {registryEnv : RegistryEnv}
    {env : RouterEnv} {n id : Nat} {depositCalldata : Bytes} {router : StakingRouter}
    {world : ModuleWorld δ}
    (hcall : x.router.deposit (registryCallees getKeyOffset registryEnv depositInto) env n id
      depositCalldata x.world = .ok (router, world)) :
    ∃ index, x.router.stakingModuleIndicesOneBased id = index + 1 ∧
      (x.router.stakingModules index).status = .active ∧
      ∃ keys : List SigningKey, keys.length = n ∧
        keys.foldlM (fun d key => depositInto d key.pubkey
          (bytesOfWord x.router.withdrawalCredentials) key.signature) x.world.depositContract
          = .ok world.depositContract ∧
        ∀ key ∈ keys, ∃ operator,
          key ∈ x.unusedAt getKeyOffset (x.router.addressOf index) operator := by
  obtain ⟨index, hindex, hactive, -, -, hnone, hsome⟩ := StakingRouter.deposit_ok_cases hcall
  refine ⟨index, hindex, hactive, ?_⟩
  rcases Nat.eq_zero_or_pos n with hn | hn
  · rw [hnone hn]
    exact ⟨[], hn.symm, rfl, fun _ hkey => absurd hkey List.not_mem_nil⟩
  · obtain ⟨world₁, publicKeys, signatures, hobtain, balance, hloop⟩ := hsome hn
    obtain ⟨registry, hregistry, rfl⟩ := obtainDepositData_eq_ok.mp hobtain
    obtain ⟨keys, hlength, hpublicKeys, hsignatures, hunused⟩ :=
      NodeOperatorsRegistry.unused_of_obtainDepositData
        (NodeOperatorsRegistry.invariant_of_reachable (h.reached _)) hregistry
    rw [List.range_eq_range', ← hlength] at hloop
    have hdeposits := foldlM_of_depositLoop
      (by
        rw [Nat.zero_mul]
        exact hpublicKeys)
      (by
        rw [Nat.zero_mul]
        exact hsignatures) hloop
    exact ⟨keys, hlength, hdeposits, hunused⟩

/-- What a change makes of a module: its registry has no unused keys, or failed. -/
theorem Renewed.of_change (h : Sound getKeyOffset x) (hsep : Separate getKeyOffset)
    {env : AnswerEnv} {c : BitVec 256}
    (hperforms : Performs getKeyOffset depositInto x (.setWithdrawalCredentials env c) x') {i : Nat}
    (hi : i < x.router.stakingModulesCount) :
    Renewed getKeyOffset i (x.router.addressOf i)
      (Fails env i x ∧ (x'.router.stakingModules i).status = .depositsPaused) [] x' := by
  have hpermits := h.permits hsep hperforms
  refine ⟨hpermits.sound, hi.trans_le hpermits.count_le, hpermits.address i hi, ?_⟩
  cases hperforms with
  | setWithdrawalCredentials hcall =>
    obtain ⟨-, -, hinformed⟩ := setWithdrawalCredentials_ok_cases h.distinct hcall
    cases hanswer : answer env (x.router.addressOf i)
        (x.world.registries (x.router.addressOf i)) with
    | ok registry =>
      refine .inl fun id key hkey => ?_
      rw [unusedAt, h.discarded hinformed hi hanswer id] at hkey
      cases hkey
    | error lowLevelRevertData =>
      have hpaused := (hinformed.paused (List.mem_range.mpr hi) hanswer).1
      refine .inr ⟨⟨⟨_, hanswer⟩, hpaused⟩, .inl ?_⟩
      rw [hpaused]
      decide

theorem Performs.withdrawalCredentials {env : AnswerEnv} {c : BitVec 256}
    (h : Performs getKeyOffset depositInto x (.setWithdrawalCredentials env c) x')
    (hsound : Sound getKeyOffset x) : x'.router.withdrawalCredentials = c := by
  cases h with
  | setWithdrawalCredentials hcall =>
    rw [(setWithdrawalCredentials_ok_cases hsound.distinct hcall).2.2.router]

/-- The deposits of a moment. -/
theorem Performs.keys_of_deposit {n id : Nat}
    (h : Performs getKeyOffset depositInto x (.deposit n id) x') (hsound : Sound getKeyOffset x) :
    ∃ index, x.router.stakingModuleIndicesOneBased id = index + 1 ∧
      (x.router.stakingModules index).status = .active ∧
      ∃ keys : List SigningKey, keys.length = n ∧
        keys.foldlM (fun d key => depositInto d key.pubkey
          (bytesOfWord x.router.withdrawalCredentials) key.signature) x.world.depositContract
          = .ok x'.world.depositContract ∧
        ∀ key ∈ keys, ∃ operator,
          key ∈ x.unusedAt getKeyOffset (x.router.addressOf index) operator := by
  cases h with
  | deposit hcall => exact hsound.keys_of_deposit hcall

section

variable {w : Recorded (RouterSystem δ) RouterAction}
  {past later rest : List (Moment (RouterSystem δ) RouterAction)}
  {change m : Moment (RouterSystem δ) RouterAction} {env : AnswerEnv} {c : BitVec 256}

/-- A moment of a run starts from a sound state. -/
theorem sound_of_moment (hsep : Separate getKeyOffset) (h : Runs getKeyOffset depositInto w)
    (hhistory : w.history = past ++ m :: rest) :
    Sound getKeyOffset m.before ∧ Performs getKeyOffset depositInto m.before m.action m.after := by
  obtain ⟨hpast, hperforms, -⟩ := h.cut (fun w₀ h₀ => by
    rw [h₀.2]
    exact Nat.zero_le _) hhistory
  exact ⟨sound_of_runs hsep hpast, hperforms⟩

/-- The router keeps the credentials of a change until the next one. -/
theorem withdrawalCredentials_since (hsep : Separate getKeyOffset)
    (h : Runs getKeyOffset depositInto w)
    (hhistory : w.history = past ++ change :: (later ++ m :: rest))
    (hchange : change.action = .setWithdrawalCredentials env c)
    (hnone : ∀ m' ∈ later, ∀ env' c', m'.action ≠ .setWithdrawalCredentials env' c') :
    m.before.router.withdrawalCredentials = c := by
  obtain ⟨hsound, hperforms⟩ := sound_of_moment hsep h hhistory
  rw [hchange] at hperforms
  obtain ⟨⟨hkept, -⟩, -⟩ := h.since
    (P := fun between x =>
      ((∀ m' ∈ between, ∀ env' c', m'.action ≠ .setWithdrawalCredentials env' c') →
        x.router.withdrawalCredentials = c) ∧ Sound getKeyOffset x)
    (fun _ h₀ => h₀.2) hhistory
    ⟨fun _ => hperforms.withdrawalCredentials hsound, (hsound.permits hsep hperforms).sound⟩ (by
      intro between s action s' hP hs
      have hpermits := hP.2.permits hsep hs
      refine ⟨fun hnone => ?_, hpermits.sound⟩
      rw [hpermits.credentials (hnone ⟨s, action, s'⟩
        (List.mem_append_right _ (List.mem_singleton_self _)))]
      exact hP.1 fun m' hm' => hnone m' (List.mem_append_left _ hm'))
  exact hkept hnone

/--
**After a change of the credentials, only new keys are deposited.** In every run of the router and its
registries, a deposit after a change is made with the router's credentials, which are those of the
change until the next one. If the module was there at the change, then every key that is deposited
was added to its registry since; unless the registry failed to discard its keys at the change, so
that the module was paused, and was set back to active since.
-/
theorem deposited_keys_are_renewed (hsep : Separate getKeyOffset)
    (h : Runs getKeyOffset depositInto w) {n id : Nat}
    (hhistory : w.history = past ++ change :: (later ++ m :: rest))
    (hchange : change.action = .setWithdrawalCredentials env c) (hdeposit : m.action = .deposit n id) :
    ∃ index, m.before.router.stakingModuleIndicesOneBased id = index + 1 ∧
      ∃ keys : List SigningKey, keys.length = n ∧
        keys.foldlM (fun d key => depositInto d key.pubkey
          (bytesOfWord m.before.router.withdrawalCredentials) key.signature)
          m.before.world.depositContract = .ok m.after.world.depositContract ∧
        ((∀ m' ∈ later, ∀ env' c', m'.action ≠ .setWithdrawalCredentials env' c') →
          m.before.router.withdrawalCredentials = c) ∧
        (index < change.before.router.stakingModulesCount →
          (∀ key ∈ keys, ∃ m' ∈ later, Adds (m.before.router.addressOf index) key m') ∨
          (Fails env index change.before ∧
            (change.after.router.stakingModules index).status = .depositsPaused ∧
            ∃ m' ∈ later, Reactivates index m')) := by
  obtain ⟨hsound, hperforms⟩ := sound_of_moment hsep h hhistory
  rw [hchange] at hperforms
  have hsplit : w.history = (past ++ change :: later) ++ m :: rest := by
    rw [hhistory, List.append_assoc, List.cons_append]
  obtain ⟨hmsound, hmperforms⟩ := sound_of_moment hsep h hsplit
  rw [hdeposit] at hmperforms
  obtain ⟨index, hindex, hactive, keys, hlength, hkeys, hunused⟩ :=
    hmperforms.keys_of_deposit hmsound
  refine ⟨index, hindex, keys, hlength, hkeys,
    withdrawalCredentials_since hsep h hhistory hchange, fun hi => ?_⟩
  obtain ⟨hlater, -⟩ := h.since (fun _ h₀ => h₀.2) hhistory
    (Renewed.of_change hsound hsep hperforms hi) fun between s action s' hP hs =>
      hP.performs hsep hs
  rw [hlater.address]
  rw [hlater.address] at hunused
  rcases hlater.renewed with hadded | ⟨⟨hfails, hpaused⟩, hstatus⟩
  · refine .inl fun key hkey => ?_
    obtain ⟨operator, hmem⟩ := hunused key hkey
    exact hadded operator key hmem
  · exact .inr ⟨hfails, hpaused, hstatus.resolve_left fun hinactive => hinactive hactive⟩

end

/--
**A module that fails does not hold up the others.** In every run a change of the credentials goes
through exactly if the sender has the role and no module reverts without data, as it would for a lack
of gas. Each module then is as its own answer says, as if it were the only one: a registry that
answers has discarded its unused keys, and its module is as it was; one that fails is as it was, and
its module is paused. Nothing else changes.
-/
theorem setWithdrawalCredentials_exact (hsep : Separate getKeyOffset)
    {w : Recorded (RouterSystem δ) RouterAction} (h : Runs getKeyOffset depositInto w)
    (env : AnswerEnv) (hasManageRole : Address → Bool) (routerEnv : RouterEnv) (c : BitVec 256) :
    ((∃ r, w.state.router.setWithdrawalCredentials (onWithdrawalCredentialsChanged env)
        hasManageRole routerEnv c w.state.world = .ok r) ↔
      hasManageRole routerEnv.sender = true ∧ ∀ i < w.state.router.stakingModulesCount,
        answer env (w.state.router.addressOf i)
          (w.state.world.registries (w.state.router.addressOf i)) ≠ .error []) ∧
    ∀ router world, w.state.router.setWithdrawalCredentials (onWithdrawalCredentialsChanged env)
        hasManageRole routerEnv c w.state.world = .ok (router, world) →
      Informed env (List.range w.state.router.stakingModulesCount)
        { w.state.router with withdrawalCredentials := c } router w.state.world world ∧
      ∀ i < w.state.router.stakingModulesCount,
        (∀ registry, answer env (w.state.router.addressOf i)
            (w.state.world.registries (w.state.router.addressOf i)) = .ok registry →
          router.stakingModules i = w.state.router.stakingModules i ∧
            ∀ id, (world.registries (w.state.router.addressOf i)).unusedKeys getKeyOffset id = []) ∧
        (∀ lowLevelRevertData, answer env (w.state.router.addressOf i)
            (w.state.world.registries (w.state.router.addressOf i)) = .error lowLevelRevertData →
          (router.stakingModules i).status = .depositsPaused ∧
            world.registries (w.state.router.addressOf i)
              = w.state.world.registries (w.state.router.addressOf i)) := by
  have hsound := sound_of_runs hsep h
  refine ⟨⟨?_, ?_⟩, fun router world hcall => ?_⟩
  · rintro ⟨⟨router, world⟩, hcall⟩
    obtain ⟨hrole, hdata, -⟩ := setWithdrawalCredentials_ok_cases hsound.distinct hcall
    exact ⟨hrole, hdata⟩
  · rintro ⟨hrole, hdata⟩
    obtain ⟨router, world, hloop, -⟩ := informed_credentialsLoop
      (s := { w.state.router with withdrawalCredentials := c }) List.nodup_range
      (fun i hi j hj => hsound.distinct i (List.mem_range.mp hi) j (List.mem_range.mp hj))
      fun i hi => hdata i (List.mem_range.mp hi)
    refine ⟨⟨router, world⟩, ?_⟩
    rw [setWithdrawalCredentials, require_of hrole]
    exact hloop
  · obtain ⟨-, -, hinformed⟩ := setWithdrawalCredentials_ok_cases hsound.distinct hcall
    refine ⟨hinformed, fun i hi => ⟨fun registry hanswer => ⟨?_, fun id => ?_⟩,
      fun lowLevelRevertData hanswer => hinformed.paused (List.mem_range.mpr hi) hanswer⟩⟩
    · have hmodule := hinformed.module i (List.mem_range.mpr hi)
      change _ = informed _ (answer env (w.state.router.addressOf i)
        (w.state.world.registries (w.state.router.addressOf i))) at hmodule
      rwa [hanswer] at hmodule
    · exact hsound.discarded hinformed hi hanswer id

/-! Two keys are discarded; one is added after the change, and deposited. -/

def exampleAnswerEnv : AnswerEnv where
  toRegistryEnv := NodeOperatorsRegistry.exampleRegistryEnv
  revertData _ := [1]
  outOfGas _ := false

def exampleKeyed : RouterSystem Nat :=
  ⟨exampleOneModule, (exampleNewSystem NodeOperatorsRegistry.exampleRegistry).world⟩

def exampleChanged : StakingRouter × ModuleWorld Nat :=
  result (exampleKeyed.router.setWithdrawalCredentials
    (onWithdrawalCredentialsChanged exampleAnswerEnv) (fun _ => true) (exampleRouterEnv 0) 6
    exampleKeyed.world) (by decide +kernel)

def exampleAddKey : RegistryAction :=
  .addSigningKeys 0 1 (List.replicate 48 7) (List.replicate 96 8)

def exampleAdded : NodeOperatorsRegistry :=
  result (exampleAddKey.run NodeOperatorsRegistry.exampleKeyOffset
    NodeOperatorsRegistry.exampleRegistryEnv (exampleChanged.2.registries 21)) (by decide +kernel)

def exampleVetted : NodeOperatorsRegistry :=
  result (RegistryAction.run (.setNodeOperatorStakingLimit 0 1)
    NodeOperatorsRegistry.exampleKeyOffset NodeOperatorsRegistry.exampleRegistryEnv exampleAdded)
    (by decide +kernel)

def exampleNewKeyDeposited : StakingRouter × ModuleWorld Nat :=
  result (exampleChanged.1.deposit exampleModuleCallees (exampleRouterEnv (32 * 10 ^ 18)) 1 1 []
    ((exampleChanged.2.set 21 exampleAdded).set 21 exampleVetted)) (by decide +kernel)

/-- A change, a new key, its approval and a deposit, for a run that has come to `w`. -/
def exampleHistory (w : Recorded (RouterSystem Nat) RouterAction)
    (changed : StakingRouter × ModuleWorld Nat) (added vetted : NodeOperatorsRegistry)
    (deposited : StakingRouter × ModuleWorld Nat) : Recorded (RouterSystem Nat) RouterAction :=
  (((w.record (.setWithdrawalCredentials exampleAnswerEnv 6) ⟨changed.1, changed.2⟩).record
    (.registry 21 exampleAddKey) ⟨changed.1, changed.2.set 21 added⟩).record
    (.registry 21 (.setNodeOperatorStakingLimit 0 1))
      ⟨changed.1, (changed.2.set 21 added).set 21 vetted⟩).record
    (.deposit 1 1) ⟨deposited.1, deposited.2⟩

abbrev ExampleRuns : Recorded (RouterSystem Nat) RouterAction → Prop :=
  Runs (ε := Unit) NodeOperatorsRegistry.exampleKeyOffset fun d _ _ _ => .ok (d + 1)

theorem runs_exampleHistory {w : Recorded (RouterSystem Nat) RouterAction}
    {x : RouterSystem Nat} {changed deposited : StakingRouter × ModuleWorld Nat} {added vetted : NodeOperatorsRegistry}
    (h : ExampleRuns w) (hstate : w.state = x)
    (hchange : x.router.setWithdrawalCredentials
      (onWithdrawalCredentialsChanged exampleAnswerEnv) (fun _ => true) (exampleRouterEnv 0) 6
      x.world = .ok changed)
    (hadd : exampleAddKey.run NodeOperatorsRegistry.exampleKeyOffset
      NodeOperatorsRegistry.exampleRegistryEnv (changed.2.registries 21) = .ok added)
    (hvet : RegistryAction.run (.setNodeOperatorStakingLimit 0 1)
      NodeOperatorsRegistry.exampleKeyOffset NodeOperatorsRegistry.exampleRegistryEnv added
      = .ok vetted)
    (hdeposit : changed.1.deposit exampleModuleCallees (exampleRouterEnv (32 * 10 ^ 18)) 1 1 []
      ((changed.2.set 21 added).set 21 vetted) = .ok deposited) :
    ExampleRuns (exampleHistory w changed added vetted deposited) := by
  subst hstate
  have hchanged := h.step ⟨.setWithdrawalCredentials hchange⟩
  have hadded := hchanged.step ⟨.registry hadd⟩
  have hvet' : RegistryAction.run (.setNodeOperatorStakingLimit 0 1)
      NodeOperatorsRegistry.exampleKeyOffset NodeOperatorsRegistry.exampleRegistryEnv
      ((changed.2.set 21 added).registries 21) = .ok vetted := by
    rw [registries_set]
    exact hvet
  have hvetted := hadded.step ⟨.registry hvet'⟩
  exact hvetted.step ⟨.deposit hdeposit⟩

def exampleStart (system : RouterSystem Nat) (router : StakingRouter) :
    Recorded (RouterSystem Nat) RouterAction :=
  Recorded.record ⟨system, []⟩ .manage { system with router := router }

theorem runs_exampleStart {registry : NodeOperatorsRegistry} {router : StakingRouter}
    (hregistry : Reachable NodeOperatorsRegistry.Initial
      (NodeOperatorsRegistry.Step NodeOperatorsRegistry.exampleKeyOffset) registry)
    (hadd : (exampleNewRouter.addStakingModule (exampleRouterEnv 0) [65] 21 10000 500 500 :
      Call (RouterError Unit) StakingRouter) = .ok router) :
    ExampleRuns (exampleStart (exampleNewSystem registry) router) := by
  have hinit : Initial NodeOperatorsRegistry.exampleKeyOffset (exampleNewSystem registry) :=
    ⟨⟨rfl, rfl, fun _ => rfl⟩, fun _ => rfl, fun _ => hregistry⟩
  exact (Reachable.init ⟨hinit, rfl⟩).step ⟨.manage (.addStakingModule _ _ _ _ _) hadd⟩

abbrev exampleKeyedRun : Recorded (RouterSystem Nat) RouterAction :=
  exampleStart (exampleNewSystem NodeOperatorsRegistry.exampleRegistry) exampleOneModule

theorem runs_exampleKeyedRun : ExampleRuns exampleKeyedRun :=
  runs_exampleStart
    (NodeOperatorsRegistry.reachable_runAll
      (.init NodeOperatorsRegistry.initial_exampleInitialRegistry)
      NodeOperatorsRegistry.runAll_exampleRegistry)
    (eq_ok_result _ (by decide +kernel))

theorem exampleChanged_eq : exampleKeyed.router.setWithdrawalCredentials
    (onWithdrawalCredentialsChanged exampleAnswerEnv) (fun _ => true) (exampleRouterEnv 0) 6
    exampleKeyed.world = .ok exampleChanged :=
  eq_ok_result _ (by decide +kernel)

theorem exampleAdded_eq : exampleAddKey.run NodeOperatorsRegistry.exampleKeyOffset
    NodeOperatorsRegistry.exampleRegistryEnv (exampleChanged.2.registries 21) = .ok exampleAdded :=
  eq_ok_result _ (by decide +kernel)

theorem exampleVetted_eq : RegistryAction.run (.setNodeOperatorStakingLimit 0 1)
    NodeOperatorsRegistry.exampleKeyOffset NodeOperatorsRegistry.exampleRegistryEnv exampleAdded
    = .ok exampleVetted :=
  eq_ok_result _ (by decide +kernel)

theorem exampleNewKeyDeposited_eq :
    exampleChanged.1.deposit exampleModuleCallees (exampleRouterEnv (32 * 10 ^ 18)) 1 1 []
      ((exampleChanged.2.set 21 exampleAdded).set 21 exampleVetted) = .ok exampleNewKeyDeposited :=
  eq_ok_result _ (by decide +kernel)

theorem runs_exampleRenewed :
    ExampleRuns (exampleHistory exampleKeyedRun exampleChanged exampleAdded exampleVetted
      exampleNewKeyDeposited) :=
  runs_exampleHistory runs_exampleKeyedRun rfl exampleChanged_eq exampleAdded_eq exampleVetted_eq
    exampleNewKeyDeposited_eq

/-- The key that is deposited is the one that was added after the change. -/
theorem deposited_keys_are_renewed_once :
    ∃ keys : List SigningKey, keys.length = 1 ∧
      keys.foldlM (fun d _ => .ok (d + 1) : Nat → SigningKey → Call Unit Nat)
        exampleChanged.2.depositContract = .ok exampleNewKeyDeposited.2.depositContract ∧
      exampleChanged.1.withdrawalCredentials = 6 ∧
      ∀ key ∈ keys, key ∈ readSigningKeys (List.replicate 48 7) (List.replicate 96 8) 1 := by
  have hindex : exampleChanged.1.stakingModuleIndicesOneBased 1 = 0 + 1 := by decide +kernel
  have hcount : 0 < exampleKeyed.router.stakingModulesCount := by decide +kernel
  have hactive : (exampleChanged.1.stakingModules 0).status ≠ .depositsPaused := by decide +kernel
  have hrun := runs_exampleRenewed
  generalize exampleChanged = changed at *
  generalize exampleAdded = added at *
  generalize exampleVetted = vetted at *
  generalize exampleNewKeyDeposited = deposited at *
  have hhistory : (exampleHistory exampleKeyedRun changed added vetted deposited).history
      = exampleKeyedRun.history ++
        ⟨exampleKeyed, .setWithdrawalCredentials exampleAnswerEnv 6, ⟨changed.1, changed.2⟩⟩ ::
        ([⟨⟨changed.1, changed.2⟩, .registry 21 exampleAddKey,
            ⟨changed.1, changed.2.set 21 added⟩⟩,
          ⟨⟨changed.1, changed.2.set 21 added⟩, .registry 21 (.setNodeOperatorStakingLimit 0 1),
            ⟨changed.1, (changed.2.set 21 added).set 21 vetted⟩⟩] ++
        ⟨⟨changed.1, (changed.2.set 21 added).set 21 vetted⟩, .deposit 1 1,
            ⟨deposited.1, deposited.2⟩⟩ :: []) := rfl
  obtain ⟨index, hmodule, keys, hlength, hdeposits, hcredentials, hkeys⟩ :=
    deposited_keys_are_renewed NodeOperatorsRegistry.separate_exampleKeyOffset hrun hhistory rfl rfl
  have hzero : index = 0 := by
    change changed.1.stakingModuleIndicesOneBased 1 = index + 1 at hmodule
    omega
  subst hzero
  refine ⟨keys, hlength, hdeposits, hcredentials (by simp), ?_⟩
  intro key hkey
  obtain ⟨m, hm, called, id, haction, hadded⟩ :=
    (hkeys hcount).resolve_right (fun hfailed => hactive hfailed.2.1) key hkey
  rcases List.mem_pair.mp hm with rfl | rfl
  · obtain ⟨-, rfl⟩ := RouterAction.registry.inj haction
    rw [exampleAddKey, RegistryAction.added] at hadded
    split at hadded
    · exact hadded
    · cases hadded
  · obtain ⟨-, rfl⟩ := RouterAction.registry.inj haction
    cases hadded

/-- The registry does not let the router in, and its module is paused. -/
theorem setWithdrawalCredentials_exact_paused :
    ∃ router world, exampleKeyed.router.setWithdrawalCredentials
        (onWithdrawalCredentialsChanged { exampleAnswerEnv with canPerform := fun _ _ => false })
        (fun _ => true) (exampleRouterEnv 0) 6 exampleKeyed.world = .ok (router, world) ∧
      (router.stakingModules 0).status = .depositsPaused := by
  have hcount : exampleKeyed.router.stakingModulesCount = 1 := by decide +kernel
  have hanswer : answer { exampleAnswerEnv with canPerform := fun _ _ => false }
      (exampleKeyed.router.addressOf 0)
      (exampleKeyed.world.registries (exampleKeyed.router.addressOf 0)) = .error [1] := rfl
  obtain ⟨hiff, hexact⟩ := setWithdrawalCredentials_exact
    NodeOperatorsRegistry.separate_exampleKeyOffset runs_exampleKeyedRun
    { exampleAnswerEnv with canPerform := fun _ _ => false } (fun _ => true) (exampleRouterEnv 0) 6
  obtain ⟨⟨router, world⟩, hcall⟩ := hiff.mpr ⟨rfl, fun i hi => by
    have hzero : i = 0 := Nat.lt_one_iff.mp (hcount ▸ hi)
    subst hzero
    exact fun hnone => absurd (hanswer.symm.trans hnone) (by simp)⟩
  obtain ⟨hinformed, -⟩ := hexact router world hcall
  refine ⟨router, world, hcall, ?_⟩
  have hmodule := hinformed.module 0 (List.mem_range.mpr (hcount ▸ Nat.one_pos))
  change router.stakingModules 0 = informed (exampleKeyed.router.stakingModules 0)
    (answer { exampleAnswerEnv with canPerform := fun _ _ => false }
      (exampleKeyed.router.addressOf 0)
      (exampleKeyed.world.registries (exampleKeyed.router.addressOf 0))) at hmodule
  rw [hmodule, hanswer]
  rfl

end RouterSystem

end Catalist

import Catalist.Guardians.GuardedRuns

/-!
# Whether a deposit can be made

`canDeposit` says whether the pool would be reached, given attestations for the state of the
contracts. It asks for less than `depositBufferedAce` does: the quorum is not compared with zero,
which its code has in a comment only. So the two agree where the quorum is positive, or where
nothing can be deposited anyway (`agrees_iff`).
-/

namespace Catalist

open Solidity Transition Certificate

/-- `hasStakingModule` -/
def StakingRouter.hasStakingModule (s : StakingRouter) (stakingModuleId : Nat) : Bool :=
  decide (s.stakingModuleIndicesOneBased stakingModuleId ≠ 0)

/-- The quorum that a call sets, if it sets one. -/
def GuardianCall.newQuorum : GuardianCall → Option Nat
  | .setGuardianQuorum newValue => some newValue
  | .addGuardian _ newQuorum => some newQuorum
  | .addGuardians _ newQuorum => some newQuorum
  | .removeGuardian _ newQuorum => some newQuorum
  | .setOwner _ | .removeOwner _ | .setMaxDeposits _ | .setMinDepositBlockDistance _ => none

namespace DepositSecurityModule

/-- `canDeposit`; what comes after an operand of `&&` that is false is not evaluated. -/
def canDeposit (s : DepositSecurityModule) (env : SecurityEnv) (router : StakingRouter)
    (pool : Pool) (stakingModuleId : Nat) : Call SecurityError Bool := do
  if router.hasStakingModule stakingModuleId = false then return false
  else
    let isModuleActive ← within .router (router.getStakingModuleIsActive stakingModuleId)
    let lastDepositBlock ← within .router
      (router.getStakingModuleLastDepositBlock stakingModuleId)
    let isCatalistCanDeposit := pool.canDeposit
    if isModuleActive = false then return false
    else
      let distance ← checkedSub env.blockNumber lastDepositBlock
      return decide (s.minDepositBlockDistance ≤ distance) && isCatalistCanDeposit

variable {s s' : DepositSecurityModule} {crypto : Crypto} {env : SecurityEnv}
  {router : StakingRouter} {pool : Pool} {world : ModuleWorld DepositContract} {args : DepositArgs}
  {x : DepositSystem (ModuleWorld DepositContract)} {id index : Nat}

/-! ## The view -/

/-- Everything that `canDeposit` asks for, of the module at an index. -/
structure Available (s : DepositSecurityModule) (env : SecurityEnv) (router : StakingRouter)
    (pool : Pool) (index : Nat) : Prop where
  active : (router.stakingModules index).status = .active
  distant :
    (router.stakingModules index).lastDepositBlock + s.minDepositBlockDistance ≤ env.blockNumber
  canDeposit : pool.canDeposit = true

theorem hasStakingModule_of (hindex : router.stakingModuleIndicesOneBased id = index + 1) :
    router.hasStakingModule id = true := by
  unfold StakingRouter.hasStakingModule
  rw [hindex]
  exact decide_eq_true (Nat.succ_ne_zero index)

/-- For a registered module the view returns true exactly if it is available. -/
theorem canDeposit_eq_true_iff (hindex : router.stakingModuleIndicesOneBased id = index + 1) :
    s.canDeposit env router pool id = .ok true ↔ s.Available env router pool index := by
  unfold canDeposit
  rw [hasStakingModule_of hindex, StakingRouter.getStakingModuleIsActive_of hindex,
    StakingRouter.getStakingModuleLastDepositBlock_of hindex, if_neg (by decide)]
  simp only [within_ok, ok_bind, decide_eq_false_iff_not]
  by_cases hactive : (router.stakingModules index).status = .active
  · rw [if_neg (not_not.mpr hactive)]
    simp only [bind_eq_ok, checkedSub_eq_ok, pure_eq_ok, Bool.and_eq_true, decide_eq_true_eq]
    constructor
    · rintro ⟨_, ⟨hlast, rfl⟩, hdistance, hpool⟩
      exact ⟨hactive, by omega, hpool⟩
    · rintro ⟨-, hdistant, hpool⟩
      exact ⟨_, ⟨by omega, rfl⟩, by omega, hpool⟩
  · rw [if_pos hactive, pure_eq_ok]
    exact ⟨fun hfalse => absurd hfalse (by decide), fun h => absurd h.active hactive⟩

/-- The view never says yes for a module that is not registered. -/
theorem exists_available (h : s.canDeposit env router pool id = .ok true) :
    ∃ index, router.stakingModuleIndicesOneBased id = index + 1 ∧
      s.Available env router pool index := by
  cases hindex : router.stakingModuleIndicesOneBased id with
  | zero =>
    unfold canDeposit StakingRouter.hasStakingModule at h
    rw [hindex] at h
    cases h
  | succ index => exact ⟨index, rfl, (canDeposit_eq_true_iff hindex).mp h⟩

/-! ## The action -/

/-- The checks that are about the module, the deposit contract, the block and the signatures. -/
theorem checkDeposit_eq_ok_iff (hindex : router.stakingModuleIndicesOneBased
      args.stakingModuleId = index + 1) :
    s.checkDeposit crypto env router world args = .ok () ↔
      (s.quorum ≠ 0 ∧ s.quorum ≤ args.sortedGuardianSignatures.length) ∧
      args.depositRoot = world.depositContract.getDepositRoot crypto.sha256 ∧
      (router.stakingModules index).status = .active ∧
      (router.stakingModules index).lastDepositBlock + s.minDepositBlockDistance
        ≤ env.blockNumber ∧
      (args.blockHash ≠ 0 ∧ env.blockhash args.blockNumber = args.blockHash) ∧
      args.nonce = world.getNonce (router.stakingModules index).stakingModuleAddress ∧
      s.verifySignatures crypto args.depositRoot args.blockNumber args.blockHash
        args.stakingModuleId args.nonce args.sortedGuardianSignatures = .ok () := by
  unfold checkDeposit
  rw [StakingRouter.getStakingModuleIsActive_of hindex,
    StakingRouter.getStakingModuleLastDepositBlock_of hindex,
    StakingRouter.getStakingModuleNonce_of hindex]
  simp only [within_ok, ok_bind, bind_eq_ok, require_eq_ok, checkedSub_eq_ok, not_or, Nat.not_lt,
    decide_eq_true_eq]
  constructor
  · rintro ⟨_, hquorum, _, hroot, _, hactive, _, ⟨hlast, rfl⟩, _, hdistance, _, hblock, _, hnonce,
      hverify⟩
    exact ⟨hquorum, hroot, hactive, by omega, hblock, hnonce, hverify⟩
  · rintro ⟨hquorum, hroot, hactive, hdistant, hblock, hnonce, hverify⟩
    exact ⟨(), hquorum, (), hroot, (), hactive, _, ⟨by omega, rfl⟩, (), by omega, (), hblock, (),
      hnonce, hverify⟩

/-- A signature never recovers to the address zero. -/
theorem ne_zero_of_recovers {msgHash : BitVec 256} {sig : Signature} {addr : Address}
    (h : Recovers crypto msgHash sig addr) : addr ≠ 0 := by
  simp only [Recovers, ECDSA.recover, ECDSA.recoverFields, bind_eq_ok, require_eq_ok,
    pure_eq_ok] at h
  obtain ⟨_, -, _, hne, rfl⟩ := h
  exact hne

/-- Signatures of ascending guardians pass, after signers that come before all of them. -/
theorem verifySignaturesLoop_of (h : s.Listed) {msgHash : BitVec 256} {sigs : List Signature}
    {signers : List Address} {prevSignerAddr : Address}
    (hcertifies : Certifies (Recovers crypto msgHash) sigs signers)
    (hsigners : ∀ a ∈ signers, a ∈ s.guardians) (hprev : ∀ a ∈ signers, prevSignerAddr < a) :
    s.verifySignaturesLoop crypto msgHash sigs prevSignerAddr = .ok () := by
  obtain ⟨hrecovered, hascending⟩ := hcertifies
  induction hrecovered generalizing prevSignerAddr with
  | nil => rfl
  | @cons sig signerAddr sigs signers hrecovers _ ih =>
    obtain ⟨hbefore, hascending⟩ := List.pairwise_cons.mp hascending
    have hguardian := (isGuardian_iff h).mpr (hsigners signerAddr List.mem_cons_self)
    have hsorted := hprev signerAddr List.mem_cons_self
    have hrecover : ECDSA.recover crypto msgHash sig.r sig.vs = .ok signerAddr := hrecovers
    unfold verifySignaturesLoop
    rw [hrecover, within_ok, ok_bind, require_of hguardian, ok_bind, require_of hsorted, ok_bind]
    exact ih (fun a ha => hsigners a (List.mem_cons_of_mem _ ha)) hbefore hascending

/-- What `canDeposit` is asked about: attestations of enough guardians for the current state. -/
structure Attested (s : DepositSecurityModule) (crypto : Crypto) (env : SecurityEnv)
    (x : DepositSystem (ModuleWorld DepositContract)) (args : DepositArgs) : Prop where
  depositRoot : args.depositRoot = x.world.depositContract.getDepositRoot crypto.sha256
  nonce : (x.router.getStakingModuleNonce x.world.getNonce args.stakingModuleId :
    Call (RouterError (CalleeError DepositContractError)) Nat) = .ok args.nonce
  blockHash_ne_zero : args.blockHash ≠ 0
  blockhash : env.blockhash args.blockNumber = args.blockHash
  quorum_le : s.quorum ≤ args.sortedGuardianSignatures.length
  signed : ∃ signers, Certifies (Recovers crypto (crypto.keccak256 (s.attestMessage
      args.blockNumber args.blockHash args.depositRoot args.stakingModuleId args.nonce)))
    args.sortedGuardianSignatures signers ∧ ∀ a ∈ signers, a ∈ s.guardians

theorem Attested.verifySignatures (h : s.Attested crypto env x args) (hlisted : s.Listed) :
    s.verifySignatures crypto args.depositRoot args.blockNumber args.blockHash
      args.stakingModuleId args.nonce args.sortedGuardianSignatures = .ok () := by
  obtain ⟨signers, hcertifies, hguardians⟩ := h.signed
  refine verifySignaturesLoop_of hlisted hcertifies hguardians fun a ha => ?_
  obtain ⟨sig, -, hrecovers⟩ := hcertifies.exists_sig ha
  exact (BitVec.pos_iff_ne_zero a).mpr (ne_zero_of_recovers hrecovers)

/-- **Attestations pass all checks** of an available module exactly if the quorum is positive. -/
theorem Attested.checkDeposit_iff (h : s.Attested crypto env x args) (hlisted : s.Listed)
    (hindex : x.router.stakingModuleIndicesOneBased args.stakingModuleId = index + 1)
    (havailable : s.Available env x.router x.pool index) :
    s.checkDeposit crypto env x.router x.world args = .ok () ↔ s.quorum ≠ 0 := by
  have hnonce := h.nonce
  rw [StakingRouter.getStakingModuleNonce_of hindex, Except.ok.injEq] at hnonce
  rw [checkDeposit_eq_ok_iff hindex]
  constructor
  · rintro ⟨⟨hquorum, -⟩, -⟩
    exact hquorum
  · intro hquorum
    exact ⟨⟨hquorum, h.quorum_le⟩, h.depositRoot, havailable.active, havailable.distant,
      ⟨h.blockHash_ne_zero, h.blockhash⟩, hnonce.symm, h.verifySignatures hlisted⟩

/-- A call that succeeds finds a module that is available. -/
theorem available_of_depositBufferedAce {getKeyOffset : Nat → Nat → BitVec 256}
    {registryEnv : RegistryEnv} {x' : DepositSystem (ModuleWorld DepositContract)}
    (hindex : x.router.stakingModuleIndicesOneBased args.stakingModuleId = index + 1)
    (h : s.depositBufferedAce crypto getKeyOffset registryEnv env x args = .ok x') :
    s.Available env x.router x.pool index := by
  simp only [depositBufferedAce, bind_eq_ok, within_eq_ok] at h
  obtain ⟨_, hcheck, hdeposit⟩ := h
  obtain ⟨-, -, hactive, hdistant, -⟩ := (checkDeposit_eq_ok_iff hindex).mp hcheck
  simp only [DepositSystem.deposit, bind_eq_ok, within_eq_ok, require_eq_ok] at hdeposit
  obtain ⟨_, -, _, hcan, -⟩ := hdeposit
  exact ⟨hactive, hdistant, hcan⟩

/-! ## The two together -/

/-- When the view says yes, attestations reach the pool; when it says no, nothing succeeds. -/
structure Agrees (s : DepositSecurityModule) (crypto : Crypto) (env : SecurityEnv)
    (x : DepositSystem (ModuleWorld DepositContract)) (id : Nat) : Prop where
  reaches : s.canDeposit env x.router x.pool id = .ok true →
    ∀ args : DepositArgs, args.stakingModuleId = id → s.Attested crypto env x args →
      s.checkDeposit crypto env x.router x.world args = .ok () ∧
      ∀ getKeyOffset registryEnv,
        s.depositBufferedAce crypto getKeyOffset registryEnv env x args
          = within .deposit (x.deposit
              (ModuleWorld.registryCallees getKeyOffset registryEnv (depositInto crypto.sha256))
              { env.toRouterEnv with sender := s.self, value := 0 } s.maxDepositsPerBlock id
              args.depositCalldata)
  blocked : x.router.hasStakingModule id = true → s.canDeposit env x.router x.pool id = .ok false →
    ∀ args : DepositArgs, args.stakingModuleId = id → ∀ getKeyOffset registryEnv x',
      s.depositBufferedAce crypto getKeyOffset registryEnv env x args ≠ .ok x'

/-- A registered module is available, and there is a block whose hash can be named. -/
def Askable (s : DepositSecurityModule) (env : SecurityEnv)
    (x : DepositSystem (ModuleWorld DepositContract)) (id : Nat) : Prop :=
  (∃ index, x.router.stakingModuleIndicesOneBased id = index + 1 ∧
    s.Available env x.router x.pool index) ∧ ∃ blockNumber, env.blockhash blockNumber ≠ 0

/-- The no of the view is always right. -/
theorem blocked_of_canDeposit (hmodule : x.router.hasStakingModule args.stakingModuleId = true)
    (hview : s.canDeposit env x.router x.pool args.stakingModuleId = .ok false)
    {getKeyOffset : Nat → Nat → BitVec 256} {registryEnv : RegistryEnv}
    {x' : DepositSystem (ModuleWorld DepositContract)} :
    s.depositBufferedAce crypto getKeyOffset registryEnv env x args ≠ .ok x' := by
  intro hcall
  obtain ⟨index, hindex⟩ := Nat.exists_eq_succ_of_ne_zero (of_decide_eq_true hmodule)
  have havailable := available_of_depositBufferedAce hindex hcall
  rw [(canDeposit_eq_true_iff hindex).mpr havailable] at hview
  exact absurd hview (by decide)

/-- Without a quorum, no signature is needed for an attestation. -/
theorem attested_nil (hquorum : s.quorum = 0)
    (hindex : x.router.stakingModuleIndicesOneBased id = index + 1) {blockNumber : Nat}
    (hblock : env.blockhash blockNumber ≠ 0) :
    s.Attested crypto env x
      { blockNumber := blockNumber
        blockHash := env.blockhash blockNumber
        depositRoot := x.world.depositContract.getDepositRoot crypto.sha256
        stakingModuleId := id
        nonce := x.world.getNonce (x.router.stakingModules index).stakingModuleAddress
        depositCalldata := []
        sortedGuardianSignatures := [] } where
  depositRoot := rfl
  nonce := StakingRouter.getStakingModuleNonce_of hindex
  blockHash_ne_zero := hblock
  blockhash := rfl
  quorum_le := hquorum.le
  signed := ⟨[], .nil, fun _ ha => absurd ha List.not_mem_nil⟩

/-- **They agree** exactly if the quorum is positive, or there is nothing to ask for. -/
theorem agrees_iff (hlisted : s.Listed) :
    s.Agrees crypto env x id ↔ s.quorum ≠ 0 ∨ ¬ s.Askable env x id := by
  constructor
  · intro hagrees
    by_contra hnot
    obtain ⟨hquorum, hask⟩ := not_or.mp hnot
    obtain ⟨⟨index, hindex, havailable⟩, blockNumber, hblock⟩ := not_not.mp hask
    have hattested := @attested_nil s crypto env x id index (not_not.mp hquorum) hindex blockNumber
      hblock
    obtain ⟨hcheck, -⟩ := hagrees.reaches ((canDeposit_eq_true_iff hindex).mpr havailable) _ rfl
      hattested
    exact hquorum ((hattested.checkDeposit_iff hlisted hindex havailable).mp hcheck)
  · intro hor
    refine ⟨?_, ?_⟩
    · rintro hview args rfl hattested
      obtain ⟨index, hindex, havailable⟩ := exists_available hview
      -- the attestation names a block with its hash, so there was something to ask for
      have hquorum : s.quorum ≠ 0 := hor.resolve_right fun hnone =>
        hnone ⟨⟨index, hindex, havailable⟩, args.blockNumber,
          hattested.blockhash ▸ hattested.blockHash_ne_zero⟩
      have hcheck := (hattested.checkDeposit_iff hlisted hindex havailable).mpr hquorum
      refine ⟨hcheck, fun getKeyOffset registryEnv => ?_⟩
      unfold depositBufferedAce
      rw [hcheck, ok_bind]
    · rintro hmodule hview args rfl getKeyOffset registryEnv x'
      exact blocked_of_canDeposit hmodule hview

/-! ## Runs -/

/-- The module has no guardians yet. -/
structure Deployed (s : DepositSecurityModule) : Prop where
  guardians : s.guardians = []
  indices : ∀ a, s.guardianIndicesOneBased a = 0

/-- The steps of a run, with calls of which `allowed` holds. -/
inductive Calls (allowed : GuardianCall → Prop) :
    DepositSecurityModule → DepositSecurityModule → Prop where
  | call {s s' : DepositSecurityModule} {env : Env} {call : GuardianCall} :
      allowed call → s.run env call = .ok s' → Calls allowed s s'

theorem Deployed.listed (h : s.Deployed) : s.Listed := by
  intro a i
  rw [h.guardians, h.indices a]
  simp

theorem listed_of_reachable {allowed : GuardianCall → Prop}
    (h : Reachable Deployed (Calls allowed) s) : s.Listed := by
  refine h.invariant (fun s hs => hs.listed) ?_
  intro s s' hs hcalls
  obtain ⟨-, hcall⟩ := hcalls
  exact (hs.run _).of_ok hcall

/-- The quorum is what the last call that sets one has set. -/
theorem quorum_run {env : Env} {call : GuardianCall} (h : s.run env call = .ok s') :
    s'.quorum = call.newQuorum.getD s.quorum := by
  cases call with
  | setOwner newOwner =>
    simp only [run, setOwner, bind_eq_ok, pure_eq_ok] at h
    obtain ⟨_, -, _, -, rfl⟩ := h
    rfl
  | removeOwner owner =>
    simp only [run, removeOwner, bind_eq_ok, pure_eq_ok] at h
    obtain ⟨_, -, rfl⟩ := h
    rfl
  | setMaxDeposits newValue =>
    simp only [run, setMaxDeposits, bind_eq_ok, pure_eq_ok] at h
    obtain ⟨_, -, rfl⟩ := h
    rfl
  | setMinDepositBlockDistance newValue =>
    simp only [run, setMinDepositBlockDistance, bind_eq_ok, pure_eq_ok] at h
    obtain ⟨_, -, _, -, rfl⟩ := h
    rfl
  | setGuardianQuorum newValue =>
    simp only [run, setGuardianQuorum, bind_eq_ok, pure_eq_ok] at h
    obtain ⟨_, -, rfl⟩ := h
    rfl
  | addGuardian addr newQuorum =>
    simp only [run, addGuardian, bind_eq_ok, pure_eq_ok] at h
    obtain ⟨_, -, _, -, rfl⟩ := h
    rfl
  | addGuardians addresses newQuorum =>
    simp only [run, addGuardians, bind_eq_ok, pure_eq_ok] at h
    obtain ⟨_, -, _, -, rfl⟩ := h
    rfl
  | removeGuardian addr newQuorum =>
    simp only [run, removeGuardian, bind_eq_ok, pure_eq_ok] at h
    obtain ⟨_, -, _, -, _, -, _, -, rfl⟩ := h
    rfl

/-- A positive quorum stays positive, until a call sets it to zero. -/
theorem quorum_ne_zero_of_reachable (hquorum : s.quorum ≠ 0)
    (h : Reachable (· = s) (Calls fun call => call.newQuorum ≠ some 0) s') : s'.quorum ≠ 0 := by
  refine h.invariant (fun s heq => heq ▸ hquorum) ?_
  intro s s' hs hcalls
  obtain ⟨hallowed, hcall⟩ := hcalls
  rw [quorum_run hcall]
  cases hnew : GuardianCall.newQuorum _ with
  | none => exact hs
  | some newQuorum => exact fun hzero => hallowed (hnew.trans (congrArg some hzero))

/--
**The view and the action agree**, in a reachable state of the module, exactly if the quorum is
positive, or the module, the pool or the block number is in the way of any deposit. Once the quorum
is positive, they agree in all states that calls with positive quorums lead to.
-/
theorem canDeposit_agrees_iff (h : Reachable Deployed (Calls fun _ => True) s) :
    (∀ crypto env x id,
      s.Agrees crypto env x id ↔ s.quorum ≠ 0 ∨ ¬ s.Askable env x id) ∧
    (s.quorum ≠ 0 → ∀ s', Reachable (· = s) (Calls fun call => call.newQuorum ≠ some 0) s' →
      ∀ crypto env x id, s'.Agrees crypto env x id) := by
  refine ⟨fun crypto env x id => agrees_iff (listed_of_reachable h), ?_⟩
  intro hquorum s' hlater crypto env x id
  have hreachable : Reachable Deployed (Calls fun _ => True) s' :=
    h.trans (hlater.mono fun _ _ (.call _ hcall) => .call trivial hcall)
  exact (agrees_iff (listed_of_reachable hreachable)).mpr
    (Or.inl (quorum_ne_zero_of_reachable hquorum hlater))

/-! The committee of two guardians, and the quorum that its owner sets to zero. -/

open GuardedSystem

theorem deployed_exampleSecurityModule : exampleSecurityModule.Deployed :=
  ⟨rfl, fun _ => rfl⟩

theorem reachable_exampleCommittee :
    Reachable Deployed (Calls fun _ => True) exampleCommittee :=
  (Reachable.init deployed_exampleSecurityModule).step
    (.call trivial (eq_ok_result (exampleSecurityModule.run _ (.addGuardians [3, 5] 2)) _))

def exampleNoQuorum : DepositSecurityModule :=
  result (exampleCommittee.run (RouterSystem.exampleRouterEnv 0).toEnv (.setGuardianQuorum 0))
    (by decide +kernel)

theorem attested_example {s : DepositSecurityModule} (hquorum : s.quorum ≤ 2)
    (hmessage : s.attestMessagePrefix = exampleCommittee.attestMessagePrefix)
    (hguardians : s.guardians = [3, 5]) :
    s.Attested exampleCrypto (exampleSecurityEnv 11) exampleDeposits
      (exampleArgs exampleDeposits 10) := by
  refine ⟨rfl, by decide +kernel, by decide +kernel, rfl, hquorum, [3, 5], ?_, ?_⟩
  · unfold attestMessage
    rw [hmessage]
    refine ⟨.cons ?_ (.cons ?_ .nil), by decide⟩
    · show _ = _
      decide +kernel
    · show _ = _
      decide +kernel
  · rw [hguardians]
    exact fun _ ha => ha

/-- With a quorum of zero the view says yes, and attestations are refused. -/
theorem canDeposit_without_quorum :
    Reachable Deployed (Calls fun _ => True) exampleNoQuorum ∧
      exampleNoQuorum.canDeposit (exampleSecurityEnv 11) exampleDeposits.router
        exampleDeposits.pool 1 = .ok true ∧
      exampleNoQuorum.Attested exampleCrypto (exampleSecurityEnv 11) exampleDeposits
        (exampleArgs exampleDeposits 10) ∧
      exampleNoQuorum.checkDeposit exampleCrypto (exampleSecurityEnv 11) exampleDeposits.router
        exampleDeposits.world (exampleArgs exampleDeposits 10) = .error (.error .depositNoQuorum) ∧
      ¬ exampleNoQuorum.Agrees exampleCrypto (exampleSecurityEnv 11) exampleDeposits 1 := by
  have hview : exampleNoQuorum.canDeposit (exampleSecurityEnv 11) exampleDeposits.router
      exampleDeposits.pool 1 = .ok true := by decide +kernel
  have hattested : exampleNoQuorum.Attested exampleCrypto (exampleSecurityEnv 11) exampleDeposits
      (exampleArgs exampleDeposits 10) :=
    attested_example (by decide +kernel) (by decide +kernel) (by decide +kernel)
  have hcheck : exampleNoQuorum.checkDeposit exampleCrypto (exampleSecurityEnv 11)
      exampleDeposits.router exampleDeposits.world (exampleArgs exampleDeposits 10)
        = .error (.error .depositNoQuorum) := by decide +kernel
  refine ⟨reachable_exampleCommittee.step (.call trivial (eq_ok_result _ _)), hview, hattested,
    hcheck, fun hagrees => ?_⟩
  have hpassed := (hagrees.reaches hview _ rfl hattested).1
  rw [hcheck] at hpassed
  cases hpassed

theorem canDeposit_agrees_iff_two_guardians :
    exampleCommittee.checkDeposit exampleCrypto (exampleSecurityEnv 11) exampleDeposits.router
      exampleDeposits.world (exampleArgs exampleDeposits 10) = .ok () := by
  have hagrees := (canDeposit_agrees_iff reachable_exampleCommittee).2 (by decide +kernel) _
    (.init rfl) exampleCrypto (exampleSecurityEnv 11) exampleDeposits 1
  have hattested : exampleCommittee.Attested exampleCrypto (exampleSecurityEnv 11) exampleDeposits
      (exampleArgs exampleDeposits 10) :=
    attested_example (by decide +kernel) rfl (by decide +kernel)
  exact (hagrees.reaches (by decide +kernel) _ rfl hattested).1

end DepositSecurityModule

end Catalist

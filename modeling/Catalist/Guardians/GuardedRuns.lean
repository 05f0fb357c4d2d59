import Catalist.Guardians.Committee
import Catalist.Lib.History
import Catalist.Registry.Nonce
import Catalist.Router.ExitedRuns

/-!
# Runs with guarded deposits

The deposit security module over whole runs, with the pool, the router, its registries and the
deposit contract. Accounts sign messages at any time. Of signatures and hashes no more is assumed
than that a call presents no forged signature of a guardian (`Presents`), and that no two of the
strings that are hashed collide.

A message names the deposit root. The root commits to the number of deposits, which every deposit
of validators increases and nothing decreases; so no message can be used for two of them.
-/

namespace Catalist

open Solidity Transition Certificate

/-- The module, the contracts that take part in deposits, and what was signed by whom. -/
structure GuardedSystem where
  deposits : DepositSystem (ModuleWorld DepositContract)
  dsm : DepositSecurityModule
  signed : List (Address × Bytes)

namespace GuardedSystem

variable {crypto : Crypto} {getKeyOffset : Nat → Nat → BitVec 256} {hashed : Set Bytes}
  {x x' : GuardedSystem} {args : DepositArgs}

def depositCount (x : GuardedSystem) : Nat :=
  x.deposits.world.depositContract.depositCount

def depositRoot (crypto : Crypto) (x : GuardedSystem) : BitVec 256 :=
  x.deposits.world.depositContract.getDepositRoot crypto.sha256

/-- The nonce of a module, as the router answers it. -/
def moduleNonce (x : GuardedSystem) (stakingModuleId : Nat) :
    Call (RouterError (CalleeError DepositContractError)) Nat :=
  x.deposits.router.getStakingModuleNonce x.deposits.world.getNonce stakingModuleId

/-- The message that the signatures of a call have to be for. -/
def messageOf (x : GuardedSystem) (args : DepositArgs) : Bytes :=
  x.dsm.attestMessage args.blockNumber args.blockHash args.depositRoot args.stakingModuleId
    args.nonce

/-- What is assumed of a call: it hashes strings of `hashed`, and forges no guardian's signature. -/
structure Presents (crypto : Crypto) (hashed : Set Bytes) (x : GuardedSystem) (args : DepositArgs) :
    Prop where
  message_mem : x.messageOf args ∈ hashed
  rootPreimage_mem : x.deposits.world.depositContract.rootPreimage crypto.sha256 ∈ hashed
  unforged : Unforged
    (DepositSecurityModule.Recovers crypto (crypto.keccak256 (x.messageOf args)))
    {a | a ∈ x.dsm.guardians} (fun a message => (a, message) ∈ x.signed) crypto.keccak256
    (crypto.keccak256 (x.messageOf args)) args.sortedGuardianSignatures

/-! ## Runs -/

inductive Action where
  | call (env : Env) (call : GuardianCall)
  | depositBufferedAce (registryEnv : RegistryEnv) (env : SecurityEnv) (args : DepositArgs)
  | sign (account : Address) (message : Bytes)
  | depositOfOthers (value : Nat) (pubkey withdrawalCredentials signature : Bytes)
    (root : BitVec 256)
  | other

/-- The steps of a run. -/
inductive Performs (crypto : Crypto) (getKeyOffset : Nat → Nat → BitVec 256) (hashed : Set Bytes) :
    GuardedSystem → Action → GuardedSystem → Prop where
  | call {x : GuardedSystem} {env : Env} {call : GuardianCall} {dsm : DepositSecurityModule} :
      x.dsm.run env call = .ok dsm →
      Performs crypto getKeyOffset hashed x (.call env call) { x with dsm := dsm }
  | depositBufferedAce {x : GuardedSystem} {registryEnv : RegistryEnv} {env : SecurityEnv}
      {args : DepositArgs} {deposits : DepositSystem (ModuleWorld DepositContract)} :
      Presents crypto hashed x args →
      x.dsm.depositBufferedAce crypto getKeyOffset registryEnv env x.deposits args = .ok deposits →
      Performs crypto getKeyOffset hashed x (.depositBufferedAce registryEnv env args)
        { x with deposits := deposits }
  | sign {x : GuardedSystem} {account : Address} {message : Bytes} :
      message ∈ hashed →
      Performs crypto getKeyOffset hashed x (.sign account message)
        { x with signed := (account, message) :: x.signed }
  | depositOfOthers {x : GuardedSystem} {value : Nat}
      {pubkey withdrawalCredentials signature : Bytes} {root : BitVec 256} {c : DepositContract} :
      x.deposits.world.depositContract.deposit crypto.sha256 value pubkey withdrawalCredentials
        signature root = .ok c →
      Performs crypto getKeyOffset hashed x
        (.depositOfOthers value pubkey withdrawalCredentials signature root)
        { x with
          deposits := { x.deposits with world := { x.deposits.world with depositContract := c } } }
  /-- Everything else that happens to the pool, the router and the registries. -/
  | other {x : GuardedSystem} {pool : Pool} {router : StakingRouter}
      {registries : Address → NodeOperatorsRegistry} :
      Performs crypto getKeyOffset hashed x .other
        { x with
          deposits := { pool := pool, router := router,
                        world := { x.deposits.world with registries := registries } } }

/-- The module has no guardians yet. -/
structure Initial (hashed : Set Bytes) (x : GuardedSystem) : Prop where
  guardians : x.dsm.guardians = []
  indices : ∀ a, x.dsm.guardianIndicesOneBased a = 0
  signed : ∀ a message, (a, message) ∈ x.signed → message ∈ hashed

/-- The tables of the guardians belong together, and what was signed was hashed. -/
structure Guarded (hashed : Set Bytes) (x : GuardedSystem) : Prop where
  listed : x.dsm.Listed
  signed : ∀ a message, (a, message) ∈ x.signed → message ∈ hashed

theorem Initial.guarded (h : Initial hashed x) : Guarded hashed x where
  listed := by
    intro a i
    rw [h.guardians, h.indices a]
    simp
  signed := h.signed

theorem Guarded.step (h : Guarded hashed x) {action : Action}
    (hs : Performs crypto getKeyOffset hashed x action x') : Guarded hashed x' := by
  cases hs with
  | call hcall => exact ⟨(h.listed.run _).of_ok hcall, h.signed⟩
  | depositBufferedAce _ _ => exact ⟨h.listed, h.signed⟩
  | @sign account message hmessage =>
    refine ⟨h.listed, fun a message' hsigned => ?_⟩
    rcases List.mem_cons.mp hsigned with heq | hold
    · cases heq
      exact hmessage
    · exact h.signed a message' hold
  | depositOfOthers _ => exact ⟨h.listed, h.signed⟩
  | other => exact ⟨h.listed, h.signed⟩

theorem guarded_of_reachable {w : Recorded GuardedSystem Action}
    (h : Reachable (Recorded.Starts (Initial hashed))
      (Recorded.Acts (Performs crypto getKeyOffset hashed)) w) : Guarded hashed w.state := by
  refine h.invariant (fun w hw => hw.1.guarded) ?_
  intro w w' hw hs
  obtain ⟨hperforms⟩ := hs
  exact hw.step hperforms

/-! ## The quorum -/

/-- **A quorum of guardians signed** when the checks are passed. -/
theorem Guarded.quorum_signed (h : Guarded hashed x) (hkeccak : Set.InjOn crypto.keccak256 hashed)
    {env : SecurityEnv} (hpresents : Presents crypto hashed x args)
    (hcheck : x.dsm.checkDeposit crypto env x.deposits.router x.deposits.world args = .ok ()) :
    0 < x.dsm.quorum ∧ env.blockhash args.blockNumber ≠ 0 ∧
      ∃ nonce, x.moduleNonce args.stakingModuleId = .ok nonce ∧
        ∃ signers : List Address, signers.Nodup ∧ x.dsm.quorum ≤ signers.length ∧
          ∀ a ∈ signers, a ∈ x.dsm.guardians ∧
            (a, x.dsm.attestMessage args.blockNumber (env.blockhash args.blockNumber)
              (x.depositRoot crypto) args.stakingModuleId nonce) ∈ x.signed := by
  obtain ⟨hquorum, hsigs, hroot, hzero, hblock, hnonce, hverify⟩ :=
    DepositSecurityModule.checkDeposit_eq_ok hcheck
  obtain ⟨signers, hcertifies, hsigners⟩ :=
    DepositSecurityModule.certifies_of_verify h.listed hverify
  rw [hblock]
  refine ⟨Nat.pos_of_ne_zero hquorum, hzero, args.nonce, hnonce, signers, hcertifies.nodup,
    hcertifies.length_eq ▸ hsigs, fun a ha => ⟨hsigners a ha, ?_⟩⟩
  unfold depositRoot
  rw [← hroot]
  exact hcertifies.signed hpresents.unforged hkeccak hpresents.message_mem h.signed ha
    (hsigners a ha)

/-! ## No replay -/

/-- A call that returns has passed the checks, and then the pool has deposited. -/
theorem depositBufferedAce_eq_ok {registryEnv : RegistryEnv} {env : SecurityEnv}
    {deposits : DepositSystem (ModuleWorld DepositContract)} :
    x.dsm.depositBufferedAce crypto getKeyOffset registryEnv env x.deposits args = .ok deposits ↔
      x.dsm.checkDeposit crypto env x.deposits.router x.deposits.world args = .ok () ∧
      x.deposits.deposit
        (ModuleWorld.registryCallees getKeyOffset registryEnv (depositInto crypto.sha256))
        { env.toRouterEnv with sender := x.dsm.self, value := 0 } x.dsm.maxDepositsPerBlock
        args.stakingModuleId args.depositCalldata = .ok deposits := by
  simp only [DepositSecurityModule.depositBufferedAce, bind_eq_ok, within_eq_ok]
  constructor
  · rintro ⟨_, hcheck, hdeposit⟩
    exact ⟨hcheck, hdeposit⟩
  · rintro ⟨hcheck, hdeposit⟩
    exact ⟨(), hcheck, hdeposit⟩

/-- The validators of a deposit are counted by the deposit contract, and they change the nonce. -/
theorem depositBufferedAce_ok_cases {registryEnv : RegistryEnv} {env : SecurityEnv}
    {deposits : DepositSystem (ModuleWorld DepositContract)}
    (h : x.dsm.depositBufferedAce crypto getKeyOffset registryEnv env x.deposits args
      = .ok deposits) :
    ∃ n, deposits.pool.depositedValidators = x.deposits.pool.depositedValidators + n ∧
      deposits.world.depositContract.depositCount = x.depositCount + n ∧
      (0 < n → deposits.world.depositContract.depositCount ≤ MAX_DEPOSIT_COUNT ∧
        ∃ nonce, ({ x with deposits := deposits } : GuardedSystem).moduleNonce args.stakingModuleId
          = .ok nonce ∧ nonce ≠ args.nonce) := by
  obtain ⟨hcheck, hdeposit⟩ := depositBufferedAce_eq_ok.mp h
  obtain ⟨-, -, -, -, -, hnonce, -⟩ := DepositSecurityModule.checkDeposit_eq_ok hcheck
  obtain ⟨_, maxCount, -, -, -, hpool, -, -, hrouter⟩ := DepositSystem.deposit_ok_cases hdeposit
  obtain ⟨hcount, hfull⟩ := ModuleWorld.depositCount_deposit hrouter
  refine ⟨_, by rw [hpool], hcount, fun hpos => ⟨hfull hpos, ?_⟩⟩
  obtain ⟨index, hindex, hrouter', -, hsome⟩ := ModuleWorld.deposit_ok_cases hrouter
  obtain ⟨registry, keys, signatures, hobtain, hregistries⟩ := hsome hpos
  -- the nonce of the arguments was compared with the registry's before the deposit
  have hbefore : args.nonce = x.deposits.world.getNonce
      (x.deposits.router.stakingModules index).stakingModuleAddress := by
    rw [StakingRouter.getStakingModuleNonce_of hindex, Except.ok.injEq] at hnonce
    exact hnonce.symm
  -- the router still finds the same registry for the module
  have hlater : deposits.router.stakingModuleIndicesOneBased args.stakingModuleId = index + 1 := by
    rw [hrouter']
    exact hindex
  have haddress : (deposits.router.stakingModules index).stakingModuleAddress
      = (x.deposits.router.stakingModules index).stakingModuleAddress := by
    rw [hrouter']
    unfold StakingRouter.setStakingModule
    simp only [Function.update_self]
    rfl
  refine ⟨registry.getNonce, ?_, ?_⟩
  · unfold moduleNonce ModuleWorld.getNonce
    simp only
    rw [StakingRouter.getStakingModuleNonce_of hlater, haddress, hregistries, Function.update_self]
  · have hincreased := (NodeOperatorsRegistry.getNonce_obtainDepositData hpos.ne').of_ok hobtain
    rw [hincreased, hbefore]
    exact NodeOperatorsRegistry.uncheckedAdd_one_ne _

/-- The number of deposits never becomes less. -/
theorem depositCount_le {action : Action} (hs : Performs crypto getKeyOffset hashed x action x') :
    x.depositCount ≤ x'.depositCount := by
  cases hs with
  | call _ => exact Nat.le_refl _
  | depositBufferedAce _ hdeposit =>
    obtain ⟨n, -, hcount, -⟩ := depositBufferedAce_ok_cases hdeposit
    exact (Nat.le_add_right _ n).trans hcount.ge
  | sign _ => exact Nat.le_refl _
  | depositOfOthers hdeposit =>
    obtain ⟨-, hcount⟩ := DepositContract.depositCount_deposit hdeposit
    exact (Nat.le_succ _).trans hcount.ge
  | other => exact Nat.le_refl _

/-- At this moment the arguments make a deposit of a positive number of validators. -/
def Deposits (m : Moment GuardedSystem Action) (args : DepositArgs) : Prop :=
  (∃ registryEnv env, m.action = .depositBufferedAce registryEnv env args) ∧
    m.before.deposits.pool.depositedValidators < m.after.deposits.pool.depositedValidators

/-- What a step that deposits has done. -/
theorem Deposits.cases {m : Moment GuardedSystem Action} (h : Deposits m args)
    (hs : Performs crypto getKeyOffset hashed m.before m.action m.after) :
    Presents crypto hashed m.before args ∧ args.depositRoot = m.before.depositRoot crypto ∧
      m.before.depositCount < m.after.depositCount ∧ m.after.depositCount ≤ MAX_DEPOSIT_COUNT ∧
      ∃ nonce, m.after.moduleNonce args.stakingModuleId = .ok nonce ∧ nonce ≠ args.nonce := by
  obtain ⟨before, action, after⟩ := m
  obtain ⟨⟨registryEnv, env, haction⟩, hpositive⟩ := h
  simp only at haction hpositive hs
  subst haction
  obtain _ | ⟨hpresents, hdeposit⟩ := hs
  obtain ⟨n, hvalidators, hcount, hsome⟩ := depositBufferedAce_ok_cases hdeposit
  have hpos : 0 < n := by
    simp only at hpositive
    omega
  obtain ⟨hfull, hnonce⟩ := hsome hpos
  obtain ⟨hcheck, -⟩ := depositBufferedAce_eq_ok.mp hdeposit
  obtain ⟨-, -, hroot, -⟩ := DepositSecurityModule.checkDeposit_eq_ok hcheck
  exact ⟨hpresents, hroot, (Nat.lt_add_of_pos_right hpos).trans_eq hcount.symm, hfull, hnonce⟩

/--
**A guardian quorum is real and cannot be replayed.** In every run, the guardians are listed without
duplicates and have their positions, counted from one; everything else has position zero.

Whenever `depositBufferedAce` gets as far as the pool, the quorum is positive, and at least as many
different guardians of that moment have signed the message of the current deposit root, the block
with its hash, the module and its current nonce. A call that returns has got that far.

Two deposits of validators never have the same message, nor the same hash of it; and each leaves the
module with another nonce than the one that was signed.
-/
theorem guardian_quorum_not_replayable (hkeccak : Set.InjOn crypto.keccak256 hashed)
    (hsha : Set.InjOn crypto.sha256 hashed) {w : Recorded GuardedSystem Action}
    (h : Reachable (Recorded.Starts (Initial hashed))
      (Recorded.Acts (Performs crypto getKeyOffset hashed)) w) :
    (w.state.dsm.guardians.Nodup ∧
      (∀ a i, w.state.dsm.guardianIndicesOneBased a = i + 1 ↔ w.state.dsm.guardians[i]? = some a) ∧
      ∀ a, a ∉ w.state.dsm.guardians → w.state.dsm.guardianIndicesOneBased a = 0) ∧
    (∀ env args, Presents crypto hashed w.state args →
      w.state.dsm.checkDeposit crypto env w.state.deposits.router w.state.deposits.world args
        = .ok () →
      0 < w.state.dsm.quorum ∧ env.blockhash args.blockNumber ≠ 0 ∧
      ∃ nonce, w.state.moduleNonce args.stakingModuleId = .ok nonce ∧
        ∃ signers : List Address, signers.Nodup ∧ w.state.dsm.quorum ≤ signers.length ∧
          ∀ a ∈ signers, a ∈ w.state.dsm.guardians ∧
            (a, w.state.dsm.attestMessage args.blockNumber (env.blockhash args.blockNumber)
              (w.state.depositRoot crypto) args.stakingModuleId nonce) ∈ w.state.signed) ∧
    (∀ registryEnv env args deposits,
      w.state.dsm.depositBufferedAce crypto getKeyOffset registryEnv env w.state.deposits args
        = .ok deposits →
      w.state.dsm.checkDeposit crypto env w.state.deposits.router w.state.deposits.world args
        = .ok ()) ∧
    (∀ past m later args, w.history = past ++ m :: later → Deposits m args →
      ∃ nonce, m.after.moduleNonce args.stakingModuleId = .ok nonce ∧ nonce ≠ args.nonce) ∧
    ∀ past m between m' later args args', w.history = past ++ m :: (between ++ m' :: later) →
      Deposits m args → Deposits m' args' →
      m.before.messageOf args ≠ m'.before.messageOf args' ∧
      crypto.keccak256 (m.before.messageOf args)
        ≠ crypto.keccak256 (m'.before.messageOf args') := by
  have hstarts : ∀ (past : List (Moment GuardedSystem Action)) w₀,
      Recorded.Starts (α := Action) (Initial hashed) w₀ → w₀.history.length ≤ past.length := by
    intro past w₀ hw₀
    rw [hw₀.2]
    exact Nat.zero_le _
  have hguarded := guarded_of_reachable h
  refine ⟨⟨hguarded.listed.nodup, hguarded.listed, fun a ha => ?_⟩, ?_,
    fun _ _ _ _ hdeposit => (depositBufferedAce_eq_ok.mp hdeposit).1, ?_, ?_⟩
  · by_contra hne
    exact ha (hguarded.listed.mem_iff.mpr hne)
  · intro env args hpresents hcheck
    exact hguarded.quorum_signed hkeccak hpresents hcheck
  · intro past m later args hhistory hdeposits
    obtain ⟨-, hperforms, -⟩ := h.cut (hstarts past) hhistory
    obtain ⟨-, -, -, -, hnonce⟩ := hdeposits.cases hperforms
    exact hnonce
  · intro past m between m' later args args' hhistory hdeposits hdeposits'
    obtain ⟨-, hperforms, -⟩ := h.cut (hstarts past) hhistory
    obtain ⟨hpresents, hroot, hless, -⟩ := hdeposits.cases hperforms
    -- the number of deposits stays above what the first message was signed for
    obtain ⟨-, hlater⟩ := h.everAfter (P := fun x => m.before.depositCount < x.depositCount)
      (hstarts past) hhistory hless
      fun s action s' hs hperforms => Nat.lt_of_lt_of_le hs (depositCount_le hperforms)
    obtain ⟨hcount, hperforms'⟩ :=
      hlater m' (List.mem_append_right _ (List.mem_cons_self ..))
    obtain ⟨hpresents', hroot', hless', hfull', -⟩ := hdeposits'.cases hperforms'
    have hmessage : m.before.messageOf args ≠ m'.before.messageOf args' := by
      intro heq
      have hroots := DepositSecurityModule.depositRoot_of_attestMessage heq
      rw [hroot, hroot'] at hroots
      have hpreimages := hsha hpresents.rootPreimage_mem hpresents'.rootPreimage_mem hroots
      exact DepositContract.rootPreimage_ne hcount (hless'.le.trans hfull') hpreimages
    exact ⟨hmessage, fun heq => hmessage (hkeccak hpresents.message_mem hpresents'.message_mem heq)⟩

/-!
Two guardians sign for a validator, and again for the next one. A hash is the last word of the
string, and a signature of a hash is the hash itself, with the account.
-/

open ByteBuffer

def exampleCrypto : Crypto where
  keccak256 bytes := BitVec.ofNat 256 (natOfBytes bytes)
  sha256 bytes := BitVec.ofNat 256 (natOfBytes bytes)
  ecrecover hash _ r s := if s = hash then r.setWidth 160 else 0

def exampleSecurityModule : DepositSecurityModule where
  self := 12
  attestMessagePrefix := 77
  owners a := decide (a = 1)
  maxDepositsPerBlock := 1
  minDepositBlockDistance := 1
  quorum := 0
  guardians := []
  guardianIndicesOneBased _ := 0

def exampleCommittee : DepositSecurityModule :=
  result (exampleSecurityModule.run (RouterSystem.exampleRouterEnv 0).toEnv
    (.addGuardians [3, 5] 2)) (by decide +kernel)

def exampleDeposits : DepositSystem (ModuleWorld DepositContract) where
  pool := Pool.exampleStart
  router := RouterSystem.exampleOneModule
  world := ⟨fun _ => NodeOperatorsRegistry.exampleRegistry, ⟨fun _ => 0, 0, fun _ => 0⟩⟩

def exampleSecurityEnv (blockNumber : Nat) : SecurityEnv where
  toRouterEnv := ⟨⟨1, 0, 30, exampleDepositTime_pos⟩, blockNumber⟩
  blockhash n := BitVec.ofNat 256 (n + 1)

/-- The signatures of both guardians, for the state of the contracts. -/
def exampleArgs (deposits : DepositSystem (ModuleWorld DepositContract)) (blockNumber : Nat) :
    DepositArgs where
  blockNumber := blockNumber
  blockHash := BitVec.ofNat 256 (blockNumber + 1)
  depositRoot := deposits.world.depositContract.getDepositRoot exampleCrypto.sha256
  stakingModuleId := 1
  nonce := (deposits.world.registries 21).getNonce
  depositCalldata := []
  sortedGuardianSignatures :=
    [⟨3, (deposits.world.registries 21).getNonce⟩, ⟨5, (deposits.world.registries 21).getNonce⟩]

def exampleDepositCall (deposits : DepositSystem (ModuleWorld DepositContract))
    (blockNumber : Nat) : Call SecurityError (DepositSystem (ModuleWorld DepositContract)) :=
  exampleCommittee.depositBufferedAce exampleCrypto NodeOperatorsRegistry.exampleKeyOffset
    NodeOperatorsRegistry.exampleRegistryEnv (exampleSecurityEnv (blockNumber + 1)) deposits
    (exampleArgs deposits blockNumber)

def exampleFirst : DepositSystem (ModuleWorld DepositContract) :=
  result (exampleDepositCall exampleDeposits 10) (by decide +kernel)

def exampleSecond : DepositSystem (ModuleWorld DepositContract) :=
  result (exampleDepositCall exampleFirst 20) (by decide +kernel)

/-- The state of a run in which both guardians sign whatever is deposited. -/
def exampleGuarded (deposits : DepositSystem (ModuleWorld DepositContract))
    (signed : List (Address × Bytes)) : GuardedSystem :=
  ⟨deposits, exampleCommittee, signed⟩

def exampleMessage (deposits : DepositSystem (ModuleWorld DepositContract)) (blockNumber : Nat) :
    Bytes :=
  (exampleGuarded deposits []).messageOf (exampleArgs deposits blockNumber)

/-- The strings that are hashed. -/
def exampleHashed : List Bytes :=
  [exampleMessage exampleDeposits 10, exampleMessage exampleFirst 20,
    exampleDeposits.world.depositContract.rootPreimage exampleCrypto.sha256,
    exampleFirst.world.depositContract.rootPreimage exampleCrypto.sha256]

theorem injOn_exampleHashed : Set.InjOn exampleCrypto.sha256 {bytes | bytes ∈ exampleHashed} := by
  have hall : ∀ a ∈ exampleHashed, ∀ b ∈ exampleHashed,
      exampleCrypto.sha256 a = exampleCrypto.sha256 b → a = b := by decide +kernel
  exact fun a ha b hb heq => hall a ha b hb heq

/-- Both guardians sign the message. -/
def exampleSigned (message : Bytes) (signed : List (Address × Bytes)) : List (Address × Bytes) :=
  (5, message) :: (3, message) :: signed

def exampleAction (deposits : DepositSystem (ModuleWorld DepositContract)) (blockNumber : Nat) :
    Action :=
  .depositBufferedAce NodeOperatorsRegistry.exampleRegistryEnv
    (exampleSecurityEnv (blockNumber + 1)) (exampleArgs deposits blockNumber)

section exampleRun

variable {deposits deposits' : DepositSystem (ModuleWorld DepositContract)} {blockNumber : Nat}
  {signed : List (Address × Bytes)} {w : Recorded GuardedSystem Action}

theorem presents_exampleGuarded (hmessage : exampleMessage deposits blockNumber ∈ hashed)
    (hroot : deposits.world.depositContract.rootPreimage exampleCrypto.sha256 ∈ hashed) :
    Presents exampleCrypto hashed
      (exampleGuarded deposits (exampleSigned (exampleMessage deposits blockNumber) signed))
      (exampleArgs deposits blockNumber) := by
  refine ⟨hmessage, hroot, fun sig _ a ha _ => ⟨exampleMessage deposits blockNumber, ?_, rfl⟩⟩
  have hguardians : exampleCommittee.guardians = [3, 5] := by decide +kernel
  change a ∈ exampleCommittee.guardians at ha
  show (a, exampleMessage deposits blockNumber) ∈ exampleSigned _ signed
  rw [hguardians] at ha
  rcases List.mem_cons.mp ha with rfl | ha
  · exact List.mem_cons_of_mem _ List.mem_cons_self
  · rw [List.mem_singleton.mp ha]
    exact List.mem_cons_self

/-- Both guardians sign, and then there is a deposit. -/
theorem exists_exampleDeposit
    (h : Reachable (Recorded.Starts (Initial hashed))
      (Recorded.Acts (Performs exampleCrypto NodeOperatorsRegistry.exampleKeyOffset hashed)) w)
    (hstate : w.state = exampleGuarded deposits signed)
    (hmessage : exampleMessage deposits blockNumber ∈ hashed)
    (hroot : deposits.world.depositContract.rootPreimage exampleCrypto.sha256 ∈ hashed)
    (hcall : exampleDepositCall deposits blockNumber = .ok deposits') :
    ∃ (w' : Recorded GuardedSystem Action) (signed' : List (Address × Bytes)),
      Reachable (Recorded.Starts (Initial hashed))
        (Recorded.Acts (Performs exampleCrypto NodeOperatorsRegistry.exampleKeyOffset hashed)) w' ∧
      w'.state = exampleGuarded deposits signed' ∧
      Presents exampleCrypto hashed w'.state (exampleArgs deposits blockNumber) ∧
      (∃ signing, w'.history = w.history ++ signing) ∧
      Reachable (Recorded.Starts (Initial hashed))
        (Recorded.Acts (Performs exampleCrypto NodeOperatorsRegistry.exampleKeyOffset hashed))
        (w'.record (exampleAction deposits blockNumber) (exampleGuarded deposits' signed')) := by
  obtain ⟨state, history⟩ := w
  simp only at hstate
  subst hstate
  have hsigned := (h.step (.act (@Performs.sign _ _ _ _ 3 _ hmessage))).step
    (.act (@Performs.sign _ _ _ _ 5 _ hmessage))
  have hpresents : Presents exampleCrypto hashed
      (exampleGuarded deposits (exampleSigned (exampleMessage deposits blockNumber) signed))
      (exampleArgs deposits blockNumber) := presents_exampleGuarded hmessage hroot
  exact ⟨_, _, hsigned, rfl, hpresents, ⟨_, List.append_assoc _ _ _⟩,
    hsigned.step (.act (.depositBufferedAce hpresents hcall))⟩

end exampleRun

theorem guardian_quorum_not_replayable_two_deposits :
    (∃ signers : List Address, signers.Nodup ∧ exampleCommittee.quorum ≤ signers.length ∧
      ∀ a ∈ signers, a ∈ exampleCommittee.guardians) ∧
    exampleMessage exampleDeposits 10 ≠ exampleMessage exampleFirst 20 := by
  have hadd := eq_ok_result (exampleSecurityModule.run (RouterSystem.exampleRouterEnv 0).toEnv
    (.addGuardians [3, 5] 2)) (by decide +kernel)
  have hfirst := eq_ok_result (exampleDepositCall exampleDeposits 10) (by decide +kernel)
  have hsecond := eq_ok_result (exampleDepositCall exampleFirst 20) (by decide +kernel)
  have hpositive : exampleDeposits.pool.depositedValidators
      < exampleFirst.pool.depositedValidators := by decide +kernel
  have hpositive' : exampleFirst.pool.depositedValidators
      < exampleSecond.pool.depositedValidators := by decide +kernel
  have hmessage : exampleMessage exampleDeposits 10 ∈ {bytes | bytes ∈ exampleHashed} := by
    simp [exampleHashed]
  have hmessage' : exampleMessage exampleFirst 20 ∈ {bytes | bytes ∈ exampleHashed} := by
    simp [exampleHashed]
  have hroot : exampleDeposits.world.depositContract.rootPreimage exampleCrypto.sha256
      ∈ {bytes | bytes ∈ exampleHashed} := by
    simp [exampleHashed]
  have hroot' : exampleFirst.world.depositContract.rootPreimage exampleCrypto.sha256
      ∈ {bytes | bytes ∈ exampleHashed} := by
    simp [exampleHashed]
  have hinjective := injOn_exampleHashed
  change exampleDepositCall exampleDeposits 10 = .ok exampleFirst at hfirst
  change exampleDepositCall exampleFirst 20 = .ok exampleSecond at hsecond
  generalize {bytes | bytes ∈ exampleHashed} = hashed at *
  generalize exampleSecond = second at *
  generalize exampleFirst = first at *
  have hinit : Recorded.Starts (Initial hashed)
      ⟨⟨exampleDeposits, exampleSecurityModule, []⟩, ([] : List (Moment GuardedSystem Action))⟩ :=
    ⟨⟨rfl, fun _ => rfl, fun _ _ hnone => absurd hnone List.not_mem_nil⟩, rfl⟩
  obtain ⟨w₀, hcommittee, hstate₀⟩ : ∃ w : Recorded GuardedSystem Action,
      Reachable (Recorded.Starts (Initial hashed))
        (Recorded.Acts (Performs exampleCrypto NodeOperatorsRegistry.exampleKeyOffset hashed)) w ∧
      w.state = exampleGuarded exampleDeposits [] :=
    ⟨_, (Reachable.init hinit).step (.act (.call hadd)), rfl⟩
  obtain ⟨w, signed, -, hstate, -, -, hdeposit⟩ :=
    exists_exampleDeposit hcommittee hstate₀ hmessage hroot hfirst
  obtain ⟨w', signed', hready, hstate', hpresents, ⟨signing, hhistory⟩, hdeposit'⟩ :=
    exists_exampleDeposit hdeposit rfl hmessage' hroot' hsecond
  obtain ⟨-, hquorum, hreached, -⟩ := guardian_quorum_not_replayable hinjective hinjective hready
  obtain ⟨-, -, -, -, hreplay⟩ := guardian_quorum_not_replayable hinjective hinjective hdeposit'
  have hcheck := hreached NodeOperatorsRegistry.exampleRegistryEnv (exampleSecurityEnv 21)
    (exampleArgs first 20) second (by
      rw [hstate']
      exact hsecond)
  have hchecked := hquorum (exampleSecurityEnv 21) (exampleArgs first 20) hpresents hcheck
  obtain ⟨-, -, nonce, -, signers, hnodup, hlength, hsigners⟩ := hchecked
  have hmessages := hreplay w.history
    ⟨w.state, exampleAction exampleDeposits 10, exampleGuarded first signed⟩ signing
    ⟨w'.state, exampleAction first 20, exampleGuarded second signed'⟩ []
    (exampleArgs exampleDeposits 10) (exampleArgs first 20) ?_ ⟨⟨_, _, rfl⟩, ?_⟩ ⟨⟨_, _, rfl⟩, ?_⟩
  · have hne := hmessages.1
    rw [hstate'] at hlength hsigners
    rw [hstate, hstate'] at hne
    exact ⟨⟨signers, hnodup, hlength, fun a ha => (hsigners a ha).1⟩, hne⟩
  · show w'.history ++ [_] = _
    rw [hhistory]
    show w.history ++ [_] ++ signing ++ [_] = _
    rw [List.append_assoc, List.append_assoc]
    rfl
  · rw [hstate]
    exact hpositive
  · rw [hstate']
    exact hpositive'

end GuardedSystem

end Catalist

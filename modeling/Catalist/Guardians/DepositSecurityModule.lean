import Catalist.Guardians.DepositContract
import Catalist.Router.Invariant

/-!
# The deposit security module

`DepositSecurityModule.sol`: deposits are let through with signatures of enough guardians, over a
message that names the state they were checked for. `ECDSA.sol` recovers the signers. What the
router and the deposit contract answer is read from the contracts themselves; the deposit contract
is the one that the router deposits into. Pausing is added in `Guardians/Pause.lean`.
-/

namespace Catalist

open Solidity ByteBuffer

/-! ## Signatures -/

/-- The hash functions, and the precompiled contract that recovers the signer of a hash. -/
structure Crypto where
  keccak256 : Bytes → BitVec 256
  sha256 : Bytes → BitVec 256
  ecrecover : BitVec 256 → BitVec 8 → BitVec 256 → BitVec 256 → Address

/-- A short signature: the highest bit of `vs` is the parity, the others are `s`. -/
structure Signature where
  r : BitVec 256
  vs : BitVec 256
deriving DecidableEq, Repr

namespace ECDSA

/-- The texts that `recover` reverts with. -/
inductive ECDSAError where
  | invalidSignatureSValue
  | invalidSignature
deriving DecidableEq, Repr

/-- The largest `s`, half the order of the curve -/
def MAX_S_VALUE : Nat := 0x7FFFFFFFFFFFFFFFFFFFFFFFFFFFFFFF5D576E7357A4501DDFE92F46681B20A0

variable (crypto : Crypto)

/-- `recover`, from the three fields of a signature -/
def recoverFields (hash : BitVec 256) (v : BitVec 8) (r s : BitVec 256) :
    Call ECDSAError Address := do
  require (s.toNat ≤ MAX_S_VALUE) .invalidSignatureSValue
  let signer := crypto.ecrecover hash v r s
  require (signer ≠ 0) .invalidSignature
  return signer

/-- `recover`, from a short signature -/
def recover (hash r vs : BitVec 256) : Call ECDSAError Address :=
  let s := vs &&& BitVec.ofNat 256 (2 ^ 255 - 1)
  let v := ((vs >>> 255) + 27).setWidth 8
  recoverFields crypto hash v r s

end ECDSA

/-! ## What the router answers -/

namespace StakingRouter

variable {ε : Type} (s : StakingRouter)

def getStakingModuleIsActive (stakingModuleId : Nat) : Call (RouterError ε) Bool := do
  let index ← s.getStakingModuleIndexById stakingModuleId
  return decide ((s.stakingModules index).status = .active)

def getStakingModuleLastDepositBlock (stakingModuleId : Nat) : Call (RouterError ε) Nat := do
  let index ← s.getStakingModuleIndexById stakingModuleId
  return (s.stakingModules index).lastDepositBlock

/-- `getStakingModuleNonce`, for the nonces that the modules answer -/
def getStakingModuleNonce (getNonce : Address → Nat) (stakingModuleId : Nat) :
    Call (RouterError ε) Nat := do
  let index ← s.getStakingModuleIndexById stakingModuleId
  return getNonce (s.stakingModules index).stakingModuleAddress

variable {s} {id index : Nat}

theorem getStakingModuleIsActive_of (h : s.stakingModuleIndicesOneBased id = index + 1) :
    (s.getStakingModuleIsActive id : Call (RouterError ε) Bool)
      = .ok (decide ((s.stakingModules index).status = .active)) := by
  rw [getStakingModuleIsActive, getStakingModuleIndexById_of h]
  rfl

theorem getStakingModuleLastDepositBlock_of (h : s.stakingModuleIndicesOneBased id = index + 1) :
    (s.getStakingModuleLastDepositBlock id : Call (RouterError ε) Nat)
      = .ok (s.stakingModules index).lastDepositBlock := by
  rw [getStakingModuleLastDepositBlock, getStakingModuleIndexById_of h]
  rfl

theorem getStakingModuleNonce_of {getNonce : Address → Nat}
    (h : s.stakingModuleIndicesOneBased id = index + 1) :
    (s.getStakingModuleNonce getNonce id : Call (RouterError ε) Nat)
      = .ok (getNonce (s.stakingModules index).stakingModuleAddress) := by
  rw [getStakingModuleNonce, getStakingModuleIndexById_of h]
  rfl

end StakingRouter

def ModuleWorld.getNonce {δ : Type} (world : ModuleWorld δ) (addr : Address) : Nat :=
  (world.registries addr).getNonce

/-! ## The contract -/

inductive SecurityError where
  /-- `"NOT_OWNER"` -/
  | notOwner
  /-- `"ZERO_ADDRESS"`, of the owner -/
  | zeroOwner
  | zeroAddress (field : String)
  | duplicateAddress (addr : Address)
  | notAGuardian (addr : Address)
  | zeroParameter (parameter : String)
  | invalidSignature
  | signaturesNotSorted
  | depositNoQuorum
  | depositRootChanged
  | depositInactiveModule
  | depositTooFrequent
  | depositUnexpectedBlockHash
  | depositNonceChanged
  | ecdsa (e : ECDSA.ECDSAError)
  | router (e : RouterError (CalleeError DepositContractError))
  | deposit (e : DepositError (CalleeError DepositContractError))
deriving DecidableEq, Repr

structure SecurityEnv extends RouterEnv where
  /-- `blockhash`, zero for blocks that are too old or not there yet -/
  blockhash : Nat → BitVec 256

/-- The arguments of `depositBufferedAce`. -/
structure DepositArgs where
  blockNumber : Nat
  blockHash : BitVec 256
  depositRoot : BitVec 256
  stakingModuleId : Nat
  nonce : Nat
  depositCalldata : Bytes
  sortedGuardianSignatures : List Signature
deriving DecidableEq, Repr

structure DepositSecurityModule where
  /-- `address(this)` -/
  self : Address
  attestMessagePrefix : BitVec 256
  owners : Address → Bool
  maxDepositsPerBlock : Nat
  minDepositBlockDistance : Nat
  quorum : Nat
  guardians : List Address
  guardianIndicesOneBased : Address → Nat

namespace DepositSecurityModule

variable (s : DepositSecurityModule)

/-! ### Owners and parameters -/

def onlyOwner (env : Env) : Call SecurityError Unit :=
  require (s.owners env.sender = true) .notOwner

def setOwner (env : Env) (newOwner : Address) : Call SecurityError DepositSecurityModule := do
  s.onlyOwner env
  require (newOwner ≠ 0) .zeroOwner
  return { s with owners := Function.update s.owners newOwner true }

def removeOwner (env : Env) (owner : Address) : Call SecurityError DepositSecurityModule := do
  s.onlyOwner env
  return { s with owners := Function.update s.owners owner false }

def setMaxDeposits (env : Env) (newValue : Nat) : Call SecurityError DepositSecurityModule := do
  s.onlyOwner env
  return { s with maxDepositsPerBlock := newValue }

def setMinDepositBlockDistance (env : Env) (newValue : Nat) :
    Call SecurityError DepositSecurityModule := do
  s.onlyOwner env
  require (newValue ≠ 0) (.zeroParameter "minDepositBlockDistance")
  return { s with minDepositBlockDistance := newValue }

/-! ### Guardians -/

/-- `_setGuardianQuorum` -/
def withGuardianQuorum (newValue : Nat) : DepositSecurityModule :=
  { s with quorum := newValue }

def setGuardianQuorum (env : Env) (newValue : Nat) : Call SecurityError DepositSecurityModule := do
  s.onlyOwner env
  return s.withGuardianQuorum newValue

def isGuardian (addr : Address) : Bool :=
  decide (0 < s.guardianIndicesOneBased addr)

/-- `_addGuardian` -/
def pushGuardian (newGuardian : Address) : Call SecurityError DepositSecurityModule := do
  require (newGuardian ≠ 0) (.zeroAddress "_newGuardian")
  require (s.isGuardian newGuardian = false) (.duplicateAddress newGuardian)
  let guardians := s.guardians ++ [newGuardian]
  return { s with
    guardians := guardians
    guardianIndicesOneBased :=
      Function.update s.guardianIndicesOneBased newGuardian guardians.length }

def addGuardian (env : Env) (addr : Address) (newQuorum : Nat) :
    Call SecurityError DepositSecurityModule := do
  s.onlyOwner env
  let s ← s.pushGuardian addr
  return s.withGuardianQuorum newQuorum

/-- The loop of `addGuardians`, over the addresses that are left. -/
def addGuardiansLoop (s : DepositSecurityModule) :
    List Address → Call SecurityError DepositSecurityModule
  | [] => return s
  | addr :: addresses => do
    let s ← s.pushGuardian addr
    s.addGuardiansLoop addresses

def addGuardians (env : Env) (addresses : List Address) (newQuorum : Nat) :
    Call SecurityError DepositSecurityModule := do
  s.onlyOwner env
  let s ← s.addGuardiansLoop addresses
  return s.withGuardianQuorum newQuorum

/-- The tables of `removeGuardian`, after the last guardian has taken the free place. -/
def moveLastGuardian (indexOneBased totalGuardians : Nat) :
    Call SecurityError DepositSecurityModule := do
  if indexOneBased ≠ totalGuardians then
    let addrToMove ← getIndex s.guardians (totalGuardians - 1)
    let guardians ← setIndex s.guardians (indexOneBased - 1) addrToMove
    return { s with
      guardians := guardians
      guardianIndicesOneBased :=
        Function.update s.guardianIndicesOneBased addrToMove indexOneBased }
  else return s

def removeGuardian (env : Env) (addr : Address) (newQuorum : Nat) :
    Call SecurityError DepositSecurityModule := do
  s.onlyOwner env
  let indexOneBased := s.guardianIndicesOneBased addr
  require (indexOneBased ≠ 0) (.notAGuardian addr)
  let totalGuardians := s.guardians.length
  ensure (indexOneBased ≤ totalGuardians)
  let s ← s.moveLastGuardian indexOneBased totalGuardians
  let s : DepositSecurityModule := { s with
    guardians := s.guardians.dropLast
    guardianIndicesOneBased := Function.update s.guardianIndicesOneBased addr 0 }
  return s.withGuardianQuorum newQuorum

/-! ### Deposits -/

/-- The message that guardians sign. -/
def attestMessage (blockNumber : Nat) (blockHash depositRoot : BitVec 256)
    (stakingModuleId nonce : Nat) : Bytes :=
  bytesOfWord s.attestMessagePrefix ++ bytesOfNat 32 blockNumber ++ bytesOfWord blockHash ++
    bytesOfWord depositRoot ++ bytesOfNat 32 stakingModuleId ++ bytesOfNat 32 nonce

variable (crypto : Crypto)

/-- The loop of `_verifySignatures`, over the signatures that are left. -/
def verifySignaturesLoop (msgHash : BitVec 256) :
    List Signature → Address → Call SecurityError Unit
  | [], _ => return ()
  | sig :: sigs, prevSignerAddr => do
    let signerAddr ← within .ecdsa (ECDSA.recover crypto msgHash sig.r sig.vs)
    require (s.isGuardian signerAddr = true) .invalidSignature
    require (prevSignerAddr < signerAddr) .signaturesNotSorted
    verifySignaturesLoop msgHash sigs signerAddr

/-- `_verifySignatures` -/
def verifySignatures (depositRoot : BitVec 256) (blockNumber : Nat) (blockHash : BitVec 256)
    (stakingModuleId nonce : Nat) (sigs : List Signature) : Call SecurityError Unit :=
  let msgHash := crypto.keccak256
    (s.attestMessage blockNumber blockHash depositRoot stakingModuleId nonce)
  s.verifySignaturesLoop crypto msgHash sigs 0

/-- What `depositBufferedAce` checks before it calls the pool. -/
def checkDeposit (env : SecurityEnv) (router : StakingRouter) (world : ModuleWorld DepositContract)
    (args : DepositArgs) : Call SecurityError Unit := do
  require (¬ (s.quorum = 0 ∨ args.sortedGuardianSignatures.length < s.quorum)) .depositNoQuorum
  let onchainDepositRoot := world.depositContract.getDepositRoot crypto.sha256
  require (args.depositRoot = onchainDepositRoot) .depositRootChanged
  let isActive ← within .router (router.getStakingModuleIsActive args.stakingModuleId)
  require (isActive = true) .depositInactiveModule
  let lastDepositBlock ← within .router
    (router.getStakingModuleLastDepositBlock args.stakingModuleId)
  let distance ← checkedSub env.blockNumber lastDepositBlock
  require (s.minDepositBlockDistance ≤ distance) .depositTooFrequent
  require (args.blockHash ≠ 0 ∧ env.blockhash args.blockNumber = args.blockHash)
    .depositUnexpectedBlockHash
  let onchainNonce ← within .router
    (router.getStakingModuleNonce world.getNonce args.stakingModuleId)
  require (args.nonce = onchainNonce) .depositNonceChanged
  s.verifySignatures crypto args.depositRoot args.blockNumber args.blockHash args.stakingModuleId
    args.nonce args.sortedGuardianSignatures

/-- `depositBufferedAce`, with what the pool and the contracts that it calls become -/
def depositBufferedAce (getKeyOffset : Nat → Nat → BitVec 256) (registryEnv : RegistryEnv)
    (env : SecurityEnv) (x : DepositSystem (ModuleWorld DepositContract)) (args : DepositArgs) :
    Call SecurityError (DepositSystem (ModuleWorld DepositContract)) := do
  s.checkDeposit crypto env x.router x.world args
  within .deposit (x.deposit
    (ModuleWorld.registryCallees getKeyOffset registryEnv (depositInto crypto.sha256))
    { env.toRouterEnv with sender := s.self, value := 0 } s.maxDepositsPerBlock args.stakingModuleId
    args.depositCalldata)

end DepositSecurityModule

end Catalist

import Catalist.Router.Registries
import Mathlib.Data.Fintype.Basic

/-!
# The deposit contract

`deposit_contract.sol`: the deposits are the leaves of a Merkle tree of depth 32, of which one
branch is stored. The root is hashed with the number of deposits, so the strings that are hashed for
two numbers differ (`rootPreimage_ne`), and the number only grows.

The deposits of the router come with `_computeDepositDataRoot` of `BeaconChainDepositor.sol`.
-/

namespace Catalist

open Solidity ByteBuffer

/-! ## The contract -/

def DEPOSIT_CONTRACT_TREE_DEPTH : Nat := 32

def MAX_DEPOSIT_COUNT : Nat := 2 ^ DEPOSIT_CONTRACT_TREE_DEPTH - 1

/-- A height of the tree, from the leaves up. -/
abbrev Height := Fin DEPOSIT_CONTRACT_TREE_DEPTH

structure DepositContract where
  branch : Height → BitVec 256
  depositCount : Nat
  zeroHashes : Height → BitVec 256

/-- The texts that `deposit` reverts with. -/
inductive DepositContractError where
  | invalidPubkeyLength
  | invalidWithdrawalCredentialsLength
  | invalidSignatureLength
  | depositValueTooLow
  | depositValueNotMultipleOfGwei
  | depositValueTooHigh
  | depositDataRootMismatch
  | merkleTreeFull
deriving DecidableEq, Repr

/-- `to_little_endian_64`; the value is cut to 64 bits before. -/
def toLittleEndian64 (value : Nat) : Bytes :=
  (bytesOfNat 8 value).reverse

/-- The hash tree root of `DepositData`. -/
def depositDataRoot (sha256 : Bytes → BitVec 256)
    (pubkey withdrawalCredentials amount signature : Bytes) : BitVec 256 :=
  let pubkeyRoot := sha256 (pubkey ++ zeros 16)
  let signatureRoot := sha256 (bytesOfWord (sha256 (signature.take 64)) ++
    bytesOfWord (sha256 (signature.drop 64 ++ zeros 32)))
  sha256 (bytesOfWord (sha256 (bytesOfWord pubkeyRoot ++ withdrawalCredentials)) ++
    bytesOfWord (sha256 (amount ++ zeros 24 ++ bytesOfWord signatureRoot)))

namespace DepositContract

variable (sha256 : Bytes → BitVec 256) (c : DepositContract)

/-- The loop of `get_deposit_root`, over the heights that are left. -/
def rootLoop : List Height → Nat → BitVec 256 → BitVec 256
  | [], _, node => node
  | height :: heights, size, node =>
    if size % 2 = 1 then
      rootLoop heights (size / 2) (sha256 (bytesOfWord (c.branch height) ++ bytesOfWord node))
    else
      rootLoop heights (size / 2) (sha256 (bytesOfWord node ++ bytesOfWord (c.zeroHashes height)))

/-- What `get_deposit_root` hashes last. -/
def rootPreimage : Bytes :=
  bytesOfWord (c.rootLoop sha256 (List.finRange _) c.depositCount 0) ++
    toLittleEndian64 c.depositCount ++ zeros 24

/-- `get_deposit_root` -/
def getDepositRoot : BitVec 256 :=
  sha256 (c.rootPreimage sha256)

/-- The loop of `deposit`, over the heights that are left. Only one place of the branch changes. -/
def insertLoop : List Height → Nat → BitVec 256 → Call DepositContractError DepositContract
  | [], _, _ => .error (.panic .assertion)
  | height :: heights, size, node =>
    if size % 2 = 1 then return { c with branch := Function.update c.branch height node }
    else insertLoop heights (size / 2) (sha256 (bytesOfWord (c.branch height) ++ bytesOfWord node))

/-- `deposit`, a payable call with the given value -/
def deposit (value : Nat) (pubkey withdrawalCredentials signature : Bytes)
    (expectedRoot : BitVec 256) : Call DepositContractError DepositContract := do
  require (pubkey.length = 48) .invalidPubkeyLength
  require (withdrawalCredentials.length = 32) .invalidWithdrawalCredentialsLength
  require (signature.length = 96) .invalidSignatureLength
  require (10 ^ 18 ≤ value) .depositValueTooLow
  require (value % 10 ^ 9 = 0) .depositValueNotMultipleOfGwei
  let depositAmount := value / 10 ^ 9
  require (depositAmount ≤ 2 ^ 64 - 1) .depositValueTooHigh
  let node := depositDataRoot sha256 pubkey withdrawalCredentials (toLittleEndian64 depositAmount)
    signature
  require (node = expectedRoot) .depositDataRootMismatch
  require (c.depositCount < MAX_DEPOSIT_COUNT) .merkleTreeFull
  let c : DepositContract := { c with depositCount := c.depositCount + 1 }
  c.insertLoop sha256 (List.finRange _) c.depositCount node

end DepositContract

/-! ## The deposits of the router -/

/-- 32 ether in gwei, in little endian order, as a number of 64 bits -/
def DEPOSIT_SIZE_IN_GWEI_LE64 : Nat := 0x0040597307000000

/-- `_computeDepositDataRoot`, with the two parts of the signature as they are copied -/
def computeDepositDataRoot (sha256 : Bytes → BitVec 256)
    (withdrawalCredentials publicKey signature : Bytes) : BitVec 256 :=
  let sigPart1 := signature.take 64
  let sigPart2 := (signature.drop 64).take (StakingRouter.SIGNATURE_LENGTH - 64)
  let publicKeyRoot := sha256 (publicKey ++ zeros 16)
  let signatureRoot := sha256 (bytesOfWord (sha256 sigPart1) ++
    bytesOfWord (sha256 (sigPart2 ++ zeros 32)))
  sha256 (bytesOfWord (sha256 (bytesOfWord publicKeyRoot ++ withdrawalCredentials)) ++
    bytesOfWord (sha256 (bytesOfNat 8 DEPOSIT_SIZE_IN_GWEI_LE64 ++ zeros 24 ++
      bytesOfWord signatureRoot)))

/-- A deposit of `_makeBeaconChainDeposits32ACE` -/
def depositInto (sha256 : Bytes → BitVec 256) (c : DepositContract)
    (publicKey withdrawalCredentials signature : Bytes) :
    Call DepositContractError DepositContract :=
  c.deposit sha256 StakingRouter.DEPOSIT_SIZE publicKey withdrawalCredentials signature
    (computeDepositDataRoot sha256 withdrawalCredentials publicKey signature)

/-- The deposit contract finds the same root as the router. -/
theorem computeDepositDataRoot_eq (sha256 : Bytes → BitVec 256)
    (withdrawalCredentials publicKey : Bytes) {signature : Bytes} (h : signature.length = 96) :
    computeDepositDataRoot sha256 withdrawalCredentials publicKey signature =
      depositDataRoot sha256 publicKey withdrawalCredentials
        (toLittleEndian64 (StakingRouter.DEPOSIT_SIZE / 10 ^ 9)) signature := by
  have hamount : bytesOfNat 8 DEPOSIT_SIZE_IN_GWEI_LE64
      = toLittleEndian64 (StakingRouter.DEPOSIT_SIZE / 10 ^ 9) := by decide
  have hpart : (signature.drop 64).take (StakingRouter.SIGNATURE_LENGTH - 64)
      = signature.drop 64 := by
    refine List.take_of_length_le ?_
    rw [List.length_drop, h]
    decide
  unfold computeDepositDataRoot depositDataRoot
  rw [hpart, hamount]

/-! ## The number of deposits -/

theorem toLittleEndian64_injOn {m n : Nat} (hm : m < 2 ^ 64) (hn : n < 2 ^ 64)
    (h : toLittleEndian64 m = toLittleEndian64 n) : m = n := by
  exact bytesOfNat_injective hm hn (List.reverse_injective h)

@[simp] theorem length_toLittleEndian64 (value : Nat) : (toLittleEndian64 value).length = 8 := by
  rw [toLittleEndian64, List.length_reverse, length_bytesOfNat]

namespace DepositContract

variable {sha256 : Bytes → BitVec 256} {c c' : DepositContract}

/-- For two numbers of deposits, different strings are hashed. -/
theorem rootPreimage_ne (h : c.depositCount < c'.depositCount)
    (hfull : c'.depositCount ≤ MAX_DEPOSIT_COUNT) :
    c.rootPreimage sha256 ≠ c'.rootPreimage sha256 := by
  intro heq
  unfold rootPreimage at heq
  have hfront := (List.append_inj' heq rfl).1
  have hcount := (List.append_inj' hfront (by simp)).2
  have hmax : MAX_DEPOSIT_COUNT < 2 ^ 64 := by decide
  have hsame := toLittleEndian64_injOn (by omega) (by omega) hcount
  omega

theorem depositCount_insertLoop {heights : List Height} {size : Nat} {node : BitVec 256}
    (h : c.insertLoop sha256 heights size node = .ok c') : c'.depositCount = c.depositCount := by
  induction heights generalizing size node with
  | nil => cases h
  | cons height heights ih =>
    unfold insertLoop at h
    split at h
    · rw [← pure_eq_ok.mp h]
    · exact ih h

/-- The loop always ends with a place for the node: the number of deposits has a bit that is set. -/
theorem exists_insertLoop (c : DepositContract) {heights : List Height} {size : Nat}
    (node : BitVec 256) (hpos : 0 < size) (hlt : size < 2 ^ heights.length) :
    ∃ c', c.insertLoop sha256 heights size node = .ok c' := by
  induction heights generalizing size node with
  | nil =>
    rw [List.length_nil] at hlt
    omega
  | cons height heights ih =>
    unfold insertLoop
    by_cases hodd : size % 2 = 1
    · rw [if_pos hodd]
      exact ⟨_, rfl⟩
    · rw [if_neg hodd]
      rw [List.length_cons, Nat.pow_succ] at hlt
      exact ih _ (by omega) (by omega)

/-- A deposit is one more, in a tree that was not full. -/
theorem depositCount_deposit {value : Nat} {pubkey withdrawalCredentials signature : Bytes}
    {root : BitVec 256}
    (h : c.deposit sha256 value pubkey withdrawalCredentials signature root = .ok c') :
    c.depositCount < MAX_DEPOSIT_COUNT ∧ c'.depositCount = c.depositCount + 1 := by
  simp only [deposit, bind_eq_ok, require_eq_ok] at h
  obtain ⟨_, -, _, -, _, -, _, -, _, -, _, -, _, -, _, hfull, hinsert⟩ := h
  exact ⟨hfull, depositCount_insertLoop hinsert⟩

section Router

variable {publicKey withdrawalCredentials signature : Bytes} (hkey : publicKey.length = 48)
  (hcredentials : withdrawalCredentials.length = 32) (hsignature : signature.length = 96)

include hkey hcredentials hsignature

/-- A deposit of the router passes all checks but the last one. -/
theorem depositInto_eq : depositInto sha256 c publicKey withdrawalCredentials signature
    = (require (c.depositCount < MAX_DEPOSIT_COUNT) .merkleTreeFull >>= fun _ =>
        insertLoop sha256 { c with depositCount := c.depositCount + 1 } (List.finRange _)
          (c.depositCount + 1) (depositDataRoot sha256 publicKey withdrawalCredentials
            (toLittleEndian64 (StakingRouter.DEPOSIT_SIZE / 10 ^ 9)) signature)) := by
  have hlow : 10 ^ 18 ≤ StakingRouter.DEPOSIT_SIZE := by decide
  have hmultiple : StakingRouter.DEPOSIT_SIZE % 10 ^ 9 = 0 := by decide
  have hhigh : StakingRouter.DEPOSIT_SIZE / 10 ^ 9 ≤ 2 ^ 64 - 1 := by decide
  have hroot := (computeDepositDataRoot_eq sha256 withdrawalCredentials publicKey hsignature).symm
  simp only [depositInto, deposit, require_of hkey, require_of hcredentials, require_of hsignature,
    require_of hlow, require_of hmultiple, require_of hhigh, require_of hroot, ok_bind]

theorem exists_depositInto (hfull : c.depositCount < MAX_DEPOSIT_COUNT) :
    ∃ c', depositInto sha256 c publicKey withdrawalCredentials signature = .ok c' := by
  have hlt : c.depositCount + 1 < 2 ^ (List.finRange DEPOSIT_CONTRACT_TREE_DEPTH).length := by
    rw [List.length_finRange]
    unfold MAX_DEPOSIT_COUNT at hfull
    omega
  rw [depositInto_eq hkey hcredentials hsignature, require_of hfull, ok_bind]
  exact exists_insertLoop { c with depositCount := c.depositCount + 1 } _ (Nat.succ_pos _) hlt

/-- A deposit of the router can only find the tree full. -/
theorem depositInto_eq_error {r : Revert DepositContractError}
    (h : depositInto sha256 c publicKey withdrawalCredentials signature = .error r) :
    r = .error .merkleTreeFull := by
  by_cases hfull : c.depositCount < MAX_DEPOSIT_COUNT
  · obtain ⟨c', hc'⟩ := exists_depositInto hkey hcredentials hsignature hfull
    cases hc'.symm.trans h
  · rw [depositInto_eq hkey hcredentials hsignature, require, if_neg hfull] at h
    cases h
    rfl

end Router

/-- A hash that tells short strings apart. -/
def exampleSha256 (bytes : Bytes) : BitVec 256 :=
  BitVec.ofNat 256 (bytes.foldl (fun n byte => n * 257 + byte.toNat + 1) 0)

end DepositContract

/-! ## The number of deposits, through the router -/

namespace ModuleWorld

variable {sha256 : Bytes → BitVec 256} {getKeyOffset : Nat → Nat → BitVec 256} {env : RegistryEnv}
  {world world' : ModuleWorld DepositContract}

theorem depositCount_depositLoop {withdrawalCredentials keys signatures : Bytes} {is : List Nat}
    {balance balance' : Nat}
    (h : StakingRouter.depositLoop (registryCallees getKeyOffset env (depositInto sha256))
      withdrawalCredentials keys signatures is balance world = .ok (balance', world')) :
    world'.depositContract.depositCount = world.depositContract.depositCount + is.length ∧
      (0 < is.length → world'.depositContract.depositCount ≤ MAX_DEPOSIT_COUNT) := by
  induction is generalizing balance world with
  | nil =>
    simp only [StakingRouter.depositLoop, pure_eq_ok, Prod.mk.injEq] at h
    obtain ⟨-, rfl⟩ := h
    exact ⟨rfl, fun hpos => absurd hpos (Nat.lt_irrefl 0)⟩
  | cons i is ih =>
    simp only [StakingRouter.depositLoop, bind_eq_ok, within_eq_ok] at h
    obtain ⟨_, -, world₁, hdeposit, hrest⟩ := h
    obtain ⟨c, hinto, rfl⟩ := deposit_eq_ok.mp hdeposit
    obtain ⟨hfull, hcount⟩ := DepositContract.depositCount_deposit hinto
    obtain ⟨hlater, hlaterFull⟩ := ih hrest
    change _ = c.depositCount + is.length at hlater
    rw [List.length_cons]
    refine ⟨by omega, fun _ => ?_⟩
    rcases Nat.eq_zero_or_pos is.length with hnone | hsome
    · omega
    · exact hlaterFull hsome

/-- The deposits of a call of the router are counted one by one. -/
theorem depositCount_deposit {s s' : StakingRouter} {routerEnv : RouterEnv} {n id : Nat}
    {depositCalldata : Bytes}
    (h : s.deposit (registryCallees getKeyOffset env (depositInto sha256)) routerEnv n id
      depositCalldata world = .ok (s', world')) :
    world'.depositContract.depositCount = world.depositContract.depositCount + n ∧
      (0 < n → world'.depositContract.depositCount ≤ MAX_DEPOSIT_COUNT) := by
  obtain ⟨index, -, -, -, -, hnone, hsome⟩ := StakingRouter.deposit_ok_cases h
  rcases Nat.eq_zero_or_pos n with hn | hn
  · subst hn
    rw [hnone rfl]
    exact ⟨rfl, fun hpos => absurd hpos (Nat.lt_irrefl 0)⟩
  · obtain ⟨world₁, keys, signatures, hobtain, balance, hloop⟩ := hsome hn
    obtain ⟨registry, -, rfl⟩ := obtainDepositData_eq_ok.mp hobtain
    obtain ⟨hcount, hfull⟩ := depositCount_depositLoop hloop
    rw [List.length_range] at hcount hfull
    exact ⟨hcount, hfull⟩

end ModuleWorld

end Catalist

import Catalist.Guardians.DepositContract
import Catalist.MemUtils

/-!
# The deposits, in memory

`BeaconChainDepositor.sol` with the byte arrays at their addresses. The public key and the signature
of each deposit are copied into two arrays that all deposits share, and the root is computed from
these. The contract at `DEPOSIT_CONTRACT` is a parameter, and what `abi.encodePacked` packs is given
by value: it is written behind what is allocated.

The deposits are those of a batch that is cut into keys and signatures
(`makeBeaconChainDeposits32ACE_eq_foldlM`), as those of the call on lists of bytes
(`makeBeaconChainDeposits32ACE_refines`).
-/

namespace Catalist

open Solidity ByteBuffer MemUtils

inductive DepositorError (ε : Type) where
  | memUtils (e : MemUtilsError)
  | router (e : RouterError ε)
deriving DecidableEq, Repr

namespace BeaconChainDepositor

open StakingRouter (PUBLIC_KEY_LENGTH SIGNATURE_LENGTH)
open DepositContract (exampleSha256)

/-- The bytes of the array at an address -/
def contents (h : Heap) (p : Nat) : Bytes := h.mem.read (p + 32) (arrayLength h.mem p)

/-- `_computeDepositDataRoot` -/
def computeDepositDataRoot (sha256 : Bytes → BitVec 256) (h : Heap)
    (withdrawalCredentials publicKey signature : Nat) :
    Call MemUtilsError (Heap × BitVec 256) := do
  let (h, sigPart1) := unsafeAllocateBytes h 64
  let (h, sigPart2) := unsafeAllocateBytes h (SIGNATURE_LENGTH - 64)
  let mem ← copyBytes h.mem signature sigPart1 0 0 64
  let h : Heap := { h with mem := mem }
  let mem ← copyBytes h.mem signature sigPart2 64 0 (SIGNATURE_LENGTH - 64)
  let h : Heap := { h with mem := mem }
  let publicKeyRoot := sha256 (contents h publicKey ++ zeros 16)
  let signatureRoot := sha256 (bytesOfWord (sha256 (contents h sigPart1)) ++
    bytesOfWord (sha256 (contents h sigPart2 ++ zeros 32)))
  return (h, sha256 (bytesOfWord (sha256 (bytesOfWord publicKeyRoot ++
      contents h withdrawalCredentials)) ++
    bytesOfWord (sha256 (bytesOfNat 8 DEPOSIT_SIZE_IN_GWEI_LE64 ++ zeros 24 ++
      bytesOfWord signatureRoot))))

section Loop

variable {ε ρ : Type} (sha256 : Bytes → BitVec 256)
  (deposit : ρ → Nat → Bytes → Bytes → Bytes → BitVec 256 → Call ε ρ)

/-- The loop of `_makeBeaconChainDeposits32ACE`, over the keys that are left. -/
def depositLoop (withdrawalCredentials publicKeysBatch signaturesBatch publicKey signature : Nat) :
    List Nat → Heap → Nat → ρ → Call (DepositorError ε) (Heap × Nat × ρ)
  | [], h, balance, world => return (h, balance, world)
  | i :: is, h, balance, world => do
    let keyStart ← checkedMul 256 i PUBLIC_KEY_LENGTH
    let mem ← within .memUtils
      (copyBytes h.mem publicKeysBatch publicKey keyStart 0 PUBLIC_KEY_LENGTH)
    let h : Heap := { h with mem := mem }
    let signatureStart ← checkedMul 256 i SIGNATURE_LENGTH
    let mem ← within .memUtils
      (copyBytes h.mem signaturesBatch signature signatureStart 0 SIGNATURE_LENGTH)
    let h : Heap := { h with mem := mem }
    let (h, root) ← within .memUtils
      (computeDepositDataRoot sha256 h withdrawalCredentials publicKey signature)
    require (StakingRouter.DEPOSIT_SIZE ≤ balance) (.router .notEnoughBalance)
    let world ← within (.router ∘ .callee)
      (deposit world StakingRouter.DEPOSIT_SIZE (contents h publicKey)
        (contents h withdrawalCredentials) (contents h signature) root)
    depositLoop withdrawalCredentials publicKeysBatch signaturesBatch publicKey signature is h
      (balance - StakingRouter.DEPOSIT_SIZE) world

/-- `_makeBeaconChainDeposits32ACE`; it returns the balance that is left. -/
def makeBeaconChainDeposits32ACE (h : Heap) (keysCount : Nat)
    (withdrawalCredentials publicKeysBatch signaturesBatch : Nat) (balance : Nat) (world : ρ) :
    Call (DepositorError ε) (Heap × Nat × ρ) := do
  let keysLength ← checkedMul 256 PUBLIC_KEY_LENGTH keysCount
  require (arrayLength h.mem publicKeysBatch = keysLength)
    (.router (.invalidPublicKeysBatchLength (arrayLength h.mem publicKeysBatch) keysLength))
  let signaturesLength ← checkedMul 256 SIGNATURE_LENGTH keysCount
  require (arrayLength h.mem signaturesBatch = signaturesLength)
    (.router (.invalidSignaturesBatchLength (arrayLength h.mem signaturesBatch) signaturesLength))
  let (h, publicKey) := unsafeAllocateBytes h PUBLIC_KEY_LENGTH
  let (h, signature) := unsafeAllocateBytes h SIGNATURE_LENGTH
  depositLoop sha256 deposit withdrawalCredentials publicKeysBatch signaturesBatch publicKey
    signature (List.range keysCount) h balance world

end Loop

/-! ## The root -/

variable {sha256 : Bytes → BitVec 256} {h h₀ : Heap} {bs : Bytes} {p : Nat}

theorem contents_of_holds (hp : h.Holds p bs) : contents h p = bs := by
  rw [contents, arrayLength_of_holds hp]
  exact hp.bytes

/-- Both parts of the signature are copied into new arrays, so what was there is still there. -/
theorem computeDepositDataRoot_of_holds {withdrawalCredentials publicKey signature : Nat}
    {credentials key sig : Bytes} (hcredentials : h.Holds withdrawalCredentials credentials)
    (hkey : h.Holds publicKey key) (hsig : h.Holds signature sig) (hlength : sig.length = 96) :
    ∃ h', computeDepositDataRoot sha256 h withdrawalCredentials publicKey signature
        = .ok (h', Catalist.computeDepositDataRoot sha256 credentials key sig) ∧
      h.Extends h' := by
  obtain ⟨h₁, old₁, halloc₁, hext₁, hlength₁, hpart₁⟩ :=
    unsafeAllocateBytes_cases h (show 64 < 2 ^ 256 by decide)
  obtain ⟨h₂, old₂, halloc₂, hext₂, hlength₂, hpart₂⟩ :=
    unsafeAllocateBytes_cases h₁ (show SIGNATURE_LENGTH - 64 < 2 ^ 256 by decide)
  have hallocated₁ := hpart₁.allocated
  rw [hlength₁] at hallocated₁
  have hext := hext₁.trans hext₂
  obtain ⟨m₁, hcopy₁, hfill₁, hext₃, hkeep₁⟩ := @copyBytes_fill signature h.freeMemPtr 0 64 h₂ sig
    old₁ h hext hsig (hpart₁.extends hext₂) (Nat.le_refl _) hlength₁ (by omega)
  obtain ⟨m₂, hcopy₂, hfill₂, hext₄, hkeep₂⟩ := @copyBytes_fill signature h₁.freeMemPtr 64
    (SIGNATURE_LENGTH - 64) { h₂ with mem := m₁ } sig old₂ h hext₃ hsig
    (hkeep₁ _ _ hpart₂ (.inr hallocated₁)) hext₁.freeMemPtr_le hlength₂
    (by rw [hlength]; decide)
  have hpart := hkeep₂ _ _ hfill₁ (.inl (by rwa [length_take_drop (by omega)]))
  refine ⟨{ h₂ with mem := m₂ }, ?_, hext₄⟩
  simp only [computeDepositDataRoot, halloc₁, halloc₂, hcopy₁, hcopy₂, ok_bind,
    contents_of_holds (hkey.extends hext₄), contents_of_holds (hcredentials.extends hext₄),
    contents_of_holds hpart, contents_of_holds hfill₂]
  rfl

/-! ## The loop -/

/-- The two arrays that the deposits share, which are new since `h₀`. -/
structure Buffers (h₀ h : Heap) (publicKey signature : Nat) : Prop where
  kept : h₀.Extends h
  new : h₀.freeMemPtr ≤ publicKey
  apart : publicKey + 32 + PUBLIC_KEY_LENGTH ≤ signature
  publicKey : ∃ bs, bs.length = PUBLIC_KEY_LENGTH ∧ h.Holds publicKey bs
  signature : ∃ bs, bs.length = SIGNATURE_LENGTH ∧ h.Holds signature bs

theorem Buffers.of_extends {h' : Heap} {publicKey signature : Nat}
    (hbuffers : Buffers h₀ h publicKey signature) (hext : h.Extends h') :
    Buffers h₀ h' publicKey signature where
  kept := hbuffers.kept.trans hext
  new := hbuffers.new
  apart := hbuffers.apart
  publicKey := by
    obtain ⟨bs, hlength, hbs⟩ := hbuffers.publicKey
    exact ⟨bs, hlength, hbs.extends hext⟩
  signature := by
    obtain ⟨bs, hlength, hbs⟩ := hbuffers.signature
    exact ⟨bs, hlength, hbs.extends hext⟩

/-- The arrays before the loop. -/
theorem buffers_of_allocate (h : Heap) :
    ∃ h₁ h₂ publicKey signature, unsafeAllocateBytes h PUBLIC_KEY_LENGTH = (h₁, publicKey) ∧
      unsafeAllocateBytes h₁ SIGNATURE_LENGTH = (h₂, signature) ∧
      Buffers h h₂ publicKey signature := by
  obtain ⟨h₁, key, hallocKey, hext₁, hkeyLength, hkey⟩ :=
    unsafeAllocateBytes_cases h (show PUBLIC_KEY_LENGTH < 2 ^ 256 by decide)
  obtain ⟨h₂, sig, hallocSig, hext₂, hsigLength, hsig⟩ :=
    unsafeAllocateBytes_cases h₁ (show SIGNATURE_LENGTH < 2 ^ 256 by decide)
  refine ⟨h₁, h₂, _, _, hallocKey, hallocSig, ⟨hext₁.trans hext₂, Nat.le_refl _, ?_,
    ⟨key, hkeyLength, hkey.extends hext₂⟩, ⟨sig, hsigLength, hsig⟩⟩⟩
  have hallocated := hkey.allocated
  rwa [hkeyLength] at hallocated

/-- The key of the `i`-th deposit of a batch. -/
def keyAt (keys : Bytes) (i : Nat) : Bytes := (keys.drop (48 * i)).take 48

/-- The signature of the `i`-th deposit of a batch. -/
def signatureAt (signatures : Bytes) (i : Nat) : Bytes := (signatures.drop (96 * i)).take 96

variable {withdrawalCredentials publicKeysBatch signaturesBatch publicKey signature n i : Nat}
  {credentials keys signatures : Bytes}

theorem length_keyAt (hkeys : keys.length = 48 * n) (hi : i < n) : (keyAt keys i).length = 48 :=
  length_take_drop (by omega)

theorem length_signatureAt (hsignatures : signatures.length = 96 * n) (hi : i < n) :
    (signatureAt signatures i).length = 96 :=
  length_take_drop (by omega)

/-- What one round of the loop copies. -/
theorem fill_buffers (hbuffers : Buffers h₀ h publicKey signature)
    (hkeys : h₀.Holds publicKeysBatch keys) (hsignatures : h₀.Holds signaturesBatch signatures)
    (hkeysLength : keys.length = 48 * n) (hsignaturesLength : signatures.length = 96 * n)
    (hi : i < n) :
    ∃ m₁ m₂, copyBytes h.mem publicKeysBatch publicKey (i * PUBLIC_KEY_LENGTH) 0 PUBLIC_KEY_LENGTH
        = .ok m₁ ∧
      copyBytes m₁ signaturesBatch signature (i * SIGNATURE_LENGTH) 0 SIGNATURE_LENGTH = .ok m₂ ∧
      Buffers h₀ { h with mem := m₂ } publicKey signature ∧
      Heap.Holds { h with mem := m₂ } publicKey (keyAt keys i) ∧
      Heap.Holds { h with mem := m₂ } signature (signatureAt signatures i) := by
  obtain ⟨oldKey, holdKeyLength, holdKey⟩ := hbuffers.publicKey
  obtain ⟨oldSig, holdSigLength, holdSig⟩ := hbuffers.signature
  have hnewSig : h₀.freeMemPtr ≤ signature := by
    have hnew := hbuffers.new
    have hapart := hbuffers.apart
    omega
  have hkeyStart : i * PUBLIC_KEY_LENGTH = 48 * i := Nat.mul_comm _ _
  have hsignatureStart : i * SIGNATURE_LENGTH = 96 * i := Nat.mul_comm _ _
  have hkeyPart : 48 * i + PUBLIC_KEY_LENGTH ≤ keys.length := by
    rw [hkeysLength, show PUBLIC_KEY_LENGTH = 48 from rfl]
    omega
  have hsignaturePart : 96 * i + SIGNATURE_LENGTH ≤ signatures.length := by
    rw [hsignaturesLength, show SIGNATURE_LENGTH = 96 from rfl]
    omega
  obtain ⟨m₁, hcopyKey, hkey, hext₁, hkeep₁⟩ :=
    copyBytes_fill hbuffers.kept hkeys holdKey hbuffers.new holdKeyLength hkeyPart
  obtain ⟨m₂, hcopySig, hsig, hext₂, hkeep₂⟩ :=
    copyBytes_fill hext₁ hsignatures (hkeep₁ _ _ holdSig (.inr hbuffers.apart)) hnewSig
      holdSigLength hsignaturePart
  have hkey₂ := hkeep₂ _ _ hkey (.inl (by
    rw [length_take_drop hkeyPart]
    exact hbuffers.apart))
  rw [hkeyStart, hsignatureStart]
  exact ⟨m₁, m₂, hcopyKey, hcopySig, ⟨hext₂, hbuffers.new, hbuffers.apart,
    ⟨_, length_take_drop hkeyPart, hkey₂⟩, ⟨_, length_take_drop hsignaturePart, hsig⟩⟩, hkey₂, hsig⟩

section Batch

variable {ε ρ : Type} (sha256 : Bytes → BitVec 256)
  (deposit : ρ → Nat → Bytes → Bytes → Bytes → BitVec 256 → Call ε ρ)

/-- The `i`-th deposit of a batch, of 32 ether, with the root that the deposit contract computes. -/
def batchDeposit (credentials keys signatures : Bytes) (st : Nat × ρ) (i : Nat) :
    Call (RouterError ε) (Nat × ρ) := do
  require (StakingRouter.DEPOSIT_SIZE ≤ st.1) .notEnoughBalance
  let world ← within .callee (deposit st.2 StakingRouter.DEPOSIT_SIZE (keyAt keys i) credentials
    (signatureAt signatures i)
    (depositDataRoot sha256 (keyAt keys i) credentials
      (toLittleEndian64 (StakingRouter.DEPOSIT_SIZE / 10 ^ 9)) (signatureAt signatures i)))
  return (st.1 - StakingRouter.DEPOSIT_SIZE, world)

variable {sha256 deposit}

/-- The loop makes the deposits of the batch. The induction is over the keys that are left. -/
theorem depositLoop_eq_foldlM {is : List Nat} {balance : Nat} {world : ρ}
    (hcredentials : h₀.Holds withdrawalCredentials credentials)
    (hkeys : h₀.Holds publicKeysBatch keys) (hsignatures : h₀.Holds signaturesBatch signatures)
    (hkeysLength : keys.length = 48 * n) (hsignaturesLength : signatures.length = 96 * n)
    (hbuffers : Buffers h₀ h publicKey signature) (his : ∀ i ∈ is, i < n) :
    Prod.snd <$> depositLoop sha256 deposit withdrawalCredentials publicKeysBatch signaturesBatch
        publicKey signature is h balance world
      = within .router (is.foldlM (batchDeposit sha256 deposit credentials keys signatures)
          (balance, world)) := by
  induction is generalizing h balance world with
  | nil => rfl
  | cons i is ih =>
    have hi := his i (List.mem_cons_self ..)
    have hkeysWord : keys.length < 2 ^ 256 := hkeys.length ▸ BitVec.isLt _
    have hsignaturesWord : signatures.length < 2 ^ 256 := hsignatures.length ▸ BitVec.isLt _
    have hkeyStart : i * PUBLIC_KEY_LENGTH < 2 ^ 256 := by
      rw [show PUBLIC_KEY_LENGTH = 48 from rfl]
      omega
    have hsignatureStart : i * SIGNATURE_LENGTH < 2 ^ 256 := by
      rw [show SIGNATURE_LENGTH = 96 from rfl]
      omega
    obtain ⟨m₁, m₂, hcopyKey, hcopySig, hfilled, hkey, hsig⟩ :=
      fill_buffers hbuffers hkeys hsignatures hkeysLength hsignaturesLength hi
    have hsigLength := length_signatureAt hsignaturesLength hi
    obtain ⟨h', hroot, hext⟩ := @computeDepositDataRoot_of_holds sha256 _ _ _ _ _ _ _
      (hcredentials.extends hfilled.kept) hkey hsig hsigLength
    have hlater := hfilled.of_extends hext
    have hcomputed := computeDepositDataRoot_eq sha256 credentials (keyAt keys i) hsigLength
    simp only [depositLoop, checkedMul_of hkeyStart, checkedMul_of hsignatureStart, hcopyKey,
      hcopySig, within_ok, ok_bind, hroot, List.foldlM_cons, batchDeposit,
      contents_of_holds (hkey.extends hext), contents_of_holds (hsig.extends hext),
      contents_of_holds (hcredentials.extends hlater.kept), hcomputed]
    by_cases hbalance : StakingRouter.DEPOSIT_SIZE ≤ balance
    · rw [require_of hbalance, require_of hbalance, ok_bind, ok_bind]
      cases hdeposit : deposit world StakingRouter.DEPOSIT_SIZE (keyAt keys i) credentials
        (signatureAt signatures i) (depositDataRoot sha256 (keyAt keys i) credentials
          (toLittleEndian64 (StakingRouter.DEPOSIT_SIZE / 10 ^ 9)) (signatureAt signatures i)) with
      | ok world' =>
        exact ih hlater fun j hj => his j (List.mem_cons_of_mem _ hj)
      | error r => cases r <;> rfl
    · rw [require, require, if_neg hbalance, if_neg hbalance]
      rfl

/-- The loop over lists of bytes makes the deposits of the batch too. -/
theorem depositLoop_refines {callees : RouterCallees ε ρ} {is : List Nat} {balance : Nat} {world : ρ}
    (hdeposit : ∀ world key credentials sig, callees.deposit world key credentials sig
      = deposit world StakingRouter.DEPOSIT_SIZE key credentials sig
          (Catalist.computeDepositDataRoot sha256 credentials key sig))
    (hsignaturesLength : signatures.length = 96 * n) (his : ∀ i ∈ is, i < n) :
    StakingRouter.depositLoop callees credentials keys signatures is balance world
      = is.foldlM (batchDeposit sha256 deposit credentials keys signatures) (balance, world) := by
  induction is generalizing balance world with
  | nil => rfl
  | cons i is ih =>
    have hi := his i (List.mem_cons_self ..)
    have hcomputed := computeDepositDataRoot_eq sha256 credentials (keyAt keys i)
      (length_signatureAt hsignaturesLength hi)
    have hkey : (keys.drop (i * PUBLIC_KEY_LENGTH)).take PUBLIC_KEY_LENGTH = keyAt keys i := by
      rw [keyAt, Nat.mul_comm]
      rfl
    have hsig : (signatures.drop (i * SIGNATURE_LENGTH)).take SIGNATURE_LENGTH
        = signatureAt signatures i := by
      rw [signatureAt, Nat.mul_comm]
      rfl
    simp only [StakingRouter.depositLoop, List.foldlM_cons, batchDeposit, hkey, hsig, hdeposit,
      hcomputed, bind_assoc, pure_bind]
    exact congrArg (_ >>= ·) (funext fun _ => congrArg (_ >>= ·) (funext fun world' =>
      ih fun j hj => his j (List.mem_cons_of_mem _ hj)))

/-! ## The whole call -/

theorem makeBeaconChainDeposits32ACE_eq_foldlM {balance : Nat} {world : ρ}
    (hcredentials : h.Holds withdrawalCredentials credentials)
    (hkeys : h.Holds publicKeysBatch keys) (hsignatures : h.Holds signaturesBatch signatures)
    (hkeysLength : keys.length = 48 * n) (hsignaturesLength : signatures.length = 96 * n) :
    Prod.snd <$> makeBeaconChainDeposits32ACE sha256 deposit h n withdrawalCredentials
        publicKeysBatch signaturesBatch balance world
      = within .router ((List.range n).foldlM
          (batchDeposit sha256 deposit credentials keys signatures) (balance, world)) := by
  have hkeysWord : PUBLIC_KEY_LENGTH * n < 2 ^ 256 := by
    rw [show PUBLIC_KEY_LENGTH = 48 from rfl, ← hkeysLength, ← hkeys.length]
    exact BitVec.isLt _
  have hsignaturesWord : SIGNATURE_LENGTH * n < 2 ^ 256 := by
    rw [show SIGNATURE_LENGTH = 96 from rfl, ← hsignaturesLength, ← hsignatures.length]
    exact BitVec.isLt _
  have hkeysChecked : arrayLength h.mem publicKeysBatch = PUBLIC_KEY_LENGTH * n :=
    (arrayLength_of_holds hkeys).trans hkeysLength
  have hsignaturesChecked : arrayLength h.mem signaturesBatch = SIGNATURE_LENGTH * n :=
    (arrayLength_of_holds hsignatures).trans hsignaturesLength
  obtain ⟨h₁, h₂, publicKey, signature, hallocKey, hallocSig, hbuffers⟩ := buffers_of_allocate h
  rw [← depositLoop_eq_foldlM hcredentials hkeys hsignatures hkeysLength hsignaturesLength hbuffers
    fun i hi => List.mem_range.mp hi]
  simp only [makeBeaconChainDeposits32ACE, checkedMul_of hkeysWord, checkedMul_of hsignaturesWord,
    require_of hkeysChecked, require_of hsignaturesChecked, ok_bind, hallocKey, hallocSig]

/-- The call in memory is the call on lists of bytes, whatever the arrays are. -/
theorem makeBeaconChainDeposits32ACE_refines {callees : RouterCallees ε ρ} {balance : Nat} {world : ρ}
    (hdeposit : ∀ world key credentials sig, callees.deposit world key credentials sig
      = deposit world StakingRouter.DEPOSIT_SIZE key credentials sig
          (Catalist.computeDepositDataRoot sha256 credentials key sig))
    (hcredentials : h.Holds withdrawalCredentials credentials)
    (hkeys : h.Holds publicKeysBatch keys) (hsignatures : h.Holds signaturesBatch signatures) :
    Prod.snd <$> makeBeaconChainDeposits32ACE sha256 deposit h n withdrawalCredentials
        publicKeysBatch signaturesBatch balance world
      = within .router (StakingRouter.makeBeaconChainDeposits32ACE callees n credentials keys
          signatures balance world) := by
  simp only [makeBeaconChainDeposits32ACE, StakingRouter.makeBeaconChainDeposits32ACE, map_bind,
    within_bind, within_require, within_checkedMul, arrayLength_of_holds hkeys,
    arrayLength_of_holds hsignatures]
  refine bind_congr_of_ok fun keysLength hkeysMul => bind_congr_of_ok fun _ hkeysChecked =>
    bind_congr_of_ok fun signaturesLength hsignaturesMul =>
      bind_congr_of_ok fun _ hsignaturesChecked => ?_
  have hkeysLength : keys.length = 48 * n :=
    (require_eq_ok.mp hkeysChecked).trans (checkedMul_eq_ok.mp hkeysMul).2
  have hsignaturesLength : signatures.length = 96 * n :=
    (require_eq_ok.mp hsignaturesChecked).trans (checkedMul_eq_ok.mp hsignaturesMul).2
  obtain ⟨h₁, h₂, publicKey, signature, hallocKey, hallocSig, hbuffers⟩ := buffers_of_allocate h
  have his : ∀ i ∈ List.range n, i < n := fun i hi => List.mem_range.mp hi
  rw [depositLoop_refines hdeposit hsignaturesLength his,
    ← depositLoop_eq_foldlM hcredentials hkeys hsignatures hkeysLength hsignaturesLength hbuffers his]
  simp only [hallocKey, hallocSig]

/-! ## The deposit contract accepts -/

end Batch

/-- A deposit of a batch is one of the router. -/
theorem batchDeposit_eq {balance i : Nat} {c : DepositContract}
    (hsignaturesLength : signatures.length = 96 * n) (hi : i < n) :
    batchDeposit sha256 (DepositContract.deposit sha256) credentials keys signatures (balance, c) i
      = (do
        require (StakingRouter.DEPOSIT_SIZE ≤ balance) .notEnoughBalance
        let c ← within .callee
          (depositInto sha256 c (keyAt keys i) credentials (signatureAt signatures i))
        return (balance - StakingRouter.DEPOSIT_SIZE, c)) := by
  rw [depositInto, computeDepositDataRoot_eq sha256 credentials (keyAt keys i)
    (length_signatureAt hsignaturesLength hi)]
  rfl

section Accepted

variable (hcredentialsLength : credentials.length = 32) (hkeysLength : keys.length = 48 * n)
  (hsignaturesLength : signatures.length = 96 * n)

include hcredentialsLength hkeysLength hsignaturesLength

/-- Either the balance is used up, or the tree is full. -/
theorem foldlM_batchDeposit_eq_error {is : List Nat} {balance : Nat} {c : DepositContract}
    {r : Revert (RouterError DepositContractError)} (his : ∀ i ∈ is, i < n)
    (hfold : is.foldlM (batchDeposit sha256 (DepositContract.deposit sha256) credentials keys
      signatures) (balance, c) = .error r) :
    r = .error .notEnoughBalance ∨ r = .error (.callee .merkleTreeFull) := by
  induction is generalizing balance c with
  | nil => cases hfold
  | cons i is ih =>
    have hi := his i (List.mem_cons_self ..)
    rw [List.foldlM_cons, batchDeposit_eq hsignaturesLength hi] at hfold
    by_cases hbalance : StakingRouter.DEPOSIT_SIZE ≤ balance
    · rw [require_of hbalance, ok_bind] at hfold
      cases hdeposit : depositInto sha256 c (keyAt keys i) credentials (signatureAt signatures i) with
      | error r' =>
        rw [hdeposit] at hfold
        cases hfold
        rw [DepositContract.depositInto_eq_error (length_keyAt hkeysLength hi) hcredentialsLength
          (length_signatureAt hsignaturesLength hi) hdeposit]
        exact .inr rfl
      | ok c' =>
        rw [hdeposit] at hfold
        exact ih (fun j hj => his j (List.mem_cons_of_mem _ hj)) hfold
    · rw [require, if_neg hbalance] at hfold
      cases hfold
      exact .inl rfl

/-- With balance and room for the deposits that are left, all of them are made. -/
theorem exists_foldlM_batchDeposit {is : List Nat} {balance : Nat} {c : DepositContract}
    (his : ∀ i ∈ is, i < n) (hbalance : is.length * StakingRouter.DEPOSIT_SIZE ≤ balance)
    (hroom : c.depositCount + is.length ≤ MAX_DEPOSIT_COUNT) :
    ∃ c', is.foldlM (batchDeposit sha256 (DepositContract.deposit sha256) credentials keys signatures)
        (balance, c) = .ok (balance - is.length * StakingRouter.DEPOSIT_SIZE, c') ∧
      c'.depositCount = c.depositCount + is.length := by
  induction is generalizing balance c with
  | nil =>
    refine ⟨c, ?_, rfl⟩
    rw [List.length_nil, Nat.zero_mul, Nat.sub_zero]
    rfl
  | cons i is ih =>
    have hi := his i (List.mem_cons_self ..)
    rw [List.length_cons] at hbalance hroom
    rw [Nat.succ_mul] at hbalance
    obtain ⟨c₁, hinto⟩ := @DepositContract.exists_depositInto sha256 c _ _ _
      (length_keyAt hkeysLength hi) hcredentialsLength (length_signatureAt hsignaturesLength hi)
      (by omega)
    obtain ⟨-, hcount⟩ := DepositContract.depositCount_deposit hinto
    obtain ⟨c', hrest, hlater⟩ := @ih (balance - StakingRouter.DEPOSIT_SIZE) c₁
      (fun j hj => his j (List.mem_cons_of_mem _ hj)) (by omega) (by omega)
    refine ⟨c', ?_, by rw [List.length_cons]; omega⟩
    rw [List.foldlM_cons, batchDeposit_eq hsignaturesLength hi, require_of (by omega), ok_bind, hinto,
      within_ok, ok_bind, pure_bind, hrest, List.length_cons, Nat.succ_mul, Nat.sub_sub,
      Nat.add_comm]

end Accepted

/--
**Beacon deposits slice and hash correctly.** Whatever the contract that is called is, the call makes
one deposit of 32 ether for each key, with the part of each batch that is the key's and with the root
of these. The deposit contract never rejects a root: a call that fails lacks balance or finds the tree
full, and with balance and room all deposits are made.
-/
theorem makeBeaconChainDeposits32ACE_exact (hcredentials : h.Holds withdrawalCredentials credentials)
    (hkeys : h.Holds publicKeysBatch keys) (hsignatures : h.Holds signaturesBatch signatures)
    (hcredentialsLength : credentials.length = 32) (hkeysLength : keys.length = 48 * n)
    (hsignaturesLength : signatures.length = 96 * n) :
    (∀ {ε ρ : Type} (deposit : ρ → Nat → Bytes → Bytes → Bytes → BitVec 256 → Call ε ρ)
      (balance : Nat) (world : ρ),
      Prod.snd <$> makeBeaconChainDeposits32ACE sha256 deposit h n withdrawalCredentials
          publicKeysBatch signaturesBatch balance world
        = within .router ((List.range n).foldlM
            (batchDeposit sha256 deposit credentials keys signatures) (balance, world))) ∧
    ∀ (balance : Nat) (c : DepositContract),
      (∀ r, makeBeaconChainDeposits32ACE sha256 (DepositContract.deposit sha256) h n
          withdrawalCredentials publicKeysBatch signaturesBatch balance c = .error r →
        r = .error (.router .notEnoughBalance) ∨
          r = .error (.router (.callee .merkleTreeFull))) ∧
      (n * StakingRouter.DEPOSIT_SIZE ≤ balance → c.depositCount + n ≤ MAX_DEPOSIT_COUNT →
        ∃ h' c', makeBeaconChainDeposits32ACE sha256 (DepositContract.deposit sha256) h n
            withdrawalCredentials publicKeysBatch signaturesBatch balance c
            = .ok (h', balance - n * StakingRouter.DEPOSIT_SIZE, c') ∧
          c'.depositCount = c.depositCount + n) := by
  have heq (balance : Nat) (c : DepositContract) := @makeBeaconChainDeposits32ACE_eq_foldlM h _ _ _ n
    _ _ _ _ _ sha256 (DepositContract.deposit sha256) balance c hcredentials hkeys hsignatures
    hkeysLength hsignaturesLength
  have his : ∀ i ∈ List.range n, i < n := fun i hi => List.mem_range.mp hi
  refine ⟨fun _ _ _ => makeBeaconChainDeposits32ACE_eq_foldlM hcredentials hkeys hsignatures
    hkeysLength hsignaturesLength, fun balance c => ⟨fun r hr => ?_, fun hbalance hroom => ?_⟩⟩
  · obtain ⟨r', hr', rfl⟩ := within_eq_error.mp ((heq balance c).symm.trans (map_eq_error.mpr hr))
    rcases foldlM_batchDeposit_eq_error hcredentialsLength hkeysLength hsignaturesLength his hr'
      with rfl | rfl
    · exact .inl rfl
    · exact .inr rfl
  · obtain ⟨c', hc', hcount⟩ := @exists_foldlM_batchDeposit sha256 n _ _ _ hcredentialsLength
      hkeysLength hsignaturesLength (List.range n) balance c his (by rwa [List.length_range])
      (by rwa [List.length_range])
    rw [List.length_range] at hc' hcount
    have hdone := heq balance c
    rw [hc', within_ok, map_eq_ok] at hdone
    obtain ⟨⟨h', _⟩, hmake, rfl⟩ := hdone
    exact ⟨h', c', hmake, hcount⟩

/-- Credentials at 0, two keys at 64 and two signatures at 192. -/
def twoKeysHeap : Heap where
  mem a :=
    if a = 31 then 32 else if 32 ≤ a ∧ a < 64 then 7
    else if a = 95 then 96 else if 96 ≤ a ∧ a < 144 then 1 else if 144 ≤ a ∧ a < 192 then 2
    else if a = 223 then 192 else if 224 ≤ a ∧ a < 320 then 3 else if 320 ≤ a ∧ a < 416 then 4
    else 0
  freeMemPtr := 416

/-- A contract that accepts everything, and the deposits it was sent. -/
def exampleRecorder (deposits : List (Bytes × Bytes × BitVec 256)) (_ : Nat)
    (pubkey _ signature : Bytes) (root : BitVec 256) :
    Call DepositContractError (List (Bytes × Bytes × BitVec 256)) :=
  return deposits ++ [(pubkey, signature, root)]

/-- The root of a deposit of a key and a signature of equal bytes. -/
def exampleRoot (key signature : Byte) : BitVec 256 :=
  depositDataRoot exampleSha256 (List.replicate 48 key) (List.replicate 32 7)
    (toLittleEndian64 (StakingRouter.DEPOSIT_SIZE / 10 ^ 9)) (List.replicate 96 signature)

/-- Two deposits, each with its own key and signature. -/
theorem makeBeaconChainDeposits32ACE_exact_two :
    Prod.snd <$> makeBeaconChainDeposits32ACE exampleSha256 exampleRecorder twoKeysHeap 2 0 64 192
        (70 * 10 ^ 18) []
      = .ok (6 * 10 ^ 18, [(List.replicate 48 1, List.replicate 96 3, exampleRoot 1 3),
          (List.replicate 48 2, List.replicate 96 4, exampleRoot 2 4)]) ∧
    exampleRoot 1 3 ≠ exampleRoot 2 4 ∧
    ∃ h' c', makeBeaconChainDeposits32ACE exampleSha256 (DepositContract.deposit exampleSha256)
        twoKeysHeap 2 0 64 192 (70 * 10 ^ 18)
        { branch := fun _ => 0, depositCount := 6, zeroHashes := fun _ => 0 }
      = .ok (h', 6 * 10 ^ 18, c') ∧ c'.depositCount = 8 := by
  have hexact := @makeBeaconChainDeposits32ACE_exact exampleSha256 twoKeysHeap 0 64 192 2
    (List.replicate 32 7) (List.replicate 48 1 ++ List.replicate 48 2)
    (List.replicate 96 3 ++ List.replicate 96 4)
    ⟨by decide +kernel, by decide +kernel, by decide +kernel⟩
    ⟨by decide +kernel, by decide +kernel, by decide +kernel⟩
    ⟨by decide +kernel, by decide +kernel, by decide +kernel⟩ List.length_replicate
    (by rw [List.length_append, List.length_replicate, List.length_replicate])
    (by rw [List.length_append, List.length_replicate, List.length_replicate])
  have hrecorded : within DepositorError.router ((List.range 2).foldlM (batchDeposit exampleSha256
        exampleRecorder (List.replicate 32 7) (List.replicate 48 1 ++ List.replicate 48 2)
        (List.replicate 96 3 ++ List.replicate 96 4)) (70 * 10 ^ 18, []))
      = .ok (6 * 10 ^ 18, [(List.replicate 48 1, List.replicate 96 3, exampleRoot 1 3),
          (List.replicate 48 2, List.replicate 96 4, exampleRoot 2 4)]) := by decide +kernel
  have hdiffer : exampleRoot 1 3 ≠ exampleRoot 2 4 := by decide +kernel
  refine ⟨(hexact.1 exampleRecorder _ _).trans hrecorded, hdiffer, ?_⟩
  exact (hexact.2 (70 * 10 ^ 18) _).2 (by decide) (by decide)

end BeaconChainDepositor

end Catalist

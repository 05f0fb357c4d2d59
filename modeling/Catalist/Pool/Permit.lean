import Catalist.Guardians.DepositSecurityModule
import Catalist.Lib.CallEncoding
import Catalist.Lib.Certificate
import Catalist.Lib.History
import Catalist.Pool.BACE

/-!
# Permits

`BACEPermit.sol` with `EIP712BACE.sol` and `SignatureUtils.sol`: an allowance that the owner signs
for, and that anybody may hand in. The message that is signed has the nonce of the owner in it, and
its hash the chain and the token.

An account with code answers for itself whether a signature is valid; what it answers is in the
environment of the call, and so is the id of the chain, which a fork changes.
-/

namespace Catalist

open Solidity ByteBuffer Transition Certificate

inductive PermitError where
  | deadlineExpired
  | invalidSignature
  | zeroEIP712BACE
  | eip712BACEAlreadySet
  | zeroBACEAddress
  /-- a call of an account without code -/
  | noCode
  | ecdsa (e : ECDSA.ECDSAError)
  | pool (e : PoolError)
deriving DecidableEq, Repr

structure PermitEnv extends Env where
  /-- `block.chainid` -/
  chainId : BitVec 256
  hasCode : Address → Bool
  /-- A static call with some data: what it returns, if it succeeds. -/
  staticcall : Address → Bytes → Option Bytes

/-- The bytes of a string in ASCII. -/
def asciiBytes (s : String) : Bytes := s.toList.map fun c => BitVec.ofNat 8 c.toNat

/-- `abi.encode` of an address -/
def wordOfAddress (addr : Address) : BitVec 256 := addr.setWidth 256

/-! ## Typed data -/

/-- The immutables of the contract. -/
structure EIP712BACE where
  cachedDomainSeparator : BitVec 256
  cachedChainId : BitVec 256
  cachedBACE : Address
  hashedName : BitVec 256
  hashedVersion : BitVec 256
  typeHash : BitVec 256

namespace EIP712BACE

variable (crypto : Crypto)

/-- The string that `_buildDomainSeparator` hashes -/
def domainData (typeHash nameHash versionHash chainId : BitVec 256) (bACE : Address) : Bytes :=
  bytesOfWords [typeHash, nameHash, versionHash, chainId, wordOfAddress bACE]

def buildDomainSeparator (typeHash nameHash versionHash chainId : BitVec 256) (bACE : Address) :
    BitVec 256 :=
  crypto.keccak256 (domainData typeHash nameHash versionHash chainId bACE)

def DOMAIN_TYPE : Bytes :=
  asciiBytes "EIP712Domain(string name,string version,uint256 chainId,address verifyingContract)"

/-- The constructor. -/
def construct (chainId : BitVec 256) (bACE : Address) : Call PermitError EIP712BACE := do
  require (bACE ≠ 0) .zeroBACEAddress
  let hashedName := crypto.keccak256 (asciiBytes "Bond Ace")
  let hashedVersion := crypto.keccak256 (asciiBytes "2")
  let typeHash := crypto.keccak256 DOMAIN_TYPE
  return {
    hashedName := hashedName
    hashedVersion := hashedVersion
    cachedChainId := chainId
    cachedDomainSeparator :=
      buildDomainSeparator crypto typeHash hashedName hashedVersion chainId bACE
    cachedBACE := bACE
    typeHash := typeHash }

variable (eip : EIP712BACE)

def domainSeparatorV4 (chainId : BitVec 256) (bACE : Address) : BitVec 256 :=
  if bACE = eip.cachedBACE ∧ chainId = eip.cachedChainId then eip.cachedDomainSeparator
  else buildDomainSeparator crypto eip.typeHash eip.hashedName eip.hashedVersion chainId bACE

/-- The string of `ECDSA.toTypedDataHash` -/
def typedData (domainSeparator structHash : BitVec 256) : Bytes :=
  [0x19, 0x01] ++ (bytesOfWord domainSeparator ++ bytesOfWord structHash)

def hashTypedDataV4 (chainId : BitVec 256) (bACE : Address) (structHash : BitVec 256) :
    BitVec 256 :=
  crypto.keccak256 (typedData (eip.domainSeparatorV4 crypto chainId bACE) structHash)

/-- `eip712Domain`: the name, the version, the chain and the token -/
def eip712Domain (chainId : BitVec 256) (bACE : Address) :
    Bytes × Bytes × BitVec 256 × Address :=
  (asciiBytes "Bond Ace", asciiBytes "1", chainId, bACE)

end EIP712BACE

/-! ## Signatures -/

namespace SignatureUtils

def ERC1271_IS_VALID_SIGNATURE_SELECTOR : BitVec 32 := 0x1626ba7e

/-- `abi.encodeWithSelector` of `isValidSignature(bytes32,bytes)` -/
def isValidSignatureData (msgHash : BitVec 256) (sig : Bytes) : Bytes :=
  bytesOfNat 4 ERC1271_IS_VALID_SIGNATURE_SELECTOR.toNat ++
    (bytesOfWord msgHash ++ (bytesOfNat 32 64 ++ CallEncoding.tail sig))

/-- `isValidSignature` -/
def isValidSignature (crypto : Crypto) (env : PermitEnv) (signer : Address) (msgHash : BitVec 256)
    (v : BitVec 8) (r s : BitVec 256) : Call ECDSA.ECDSAError Bool := do
  if env.hasCode signer = true then
    let sig := bytesOfWord r ++ bytesOfWord s ++ [v]
    let retval : BitVec 256 :=
      match env.staticcall signer (isValidSignatureData msgHash sig) with
      | some returndata => if returndata.length = 32 then mload returndata 0 else 0
      | none => 0
    return decide (retval = ERC1271_IS_VALID_SIGNATURE_SELECTOR.setWidth 256 <<< 224)
  else do
    let recovered ← ECDSA.recoverFields crypto msgHash v r s
    return decide (recovered = signer)

end SignatureUtils

/-! ## The token -/

structure BACEPermit extends BACE where
  noncesByAddress : Address → Nat
  /-- The contract at `getEIP712BACE()`, if that address is set. -/
  eip712BACE : Option EIP712BACE

/-- The arguments of `permit`. -/
structure PermitArgs where
  owner : Address
  spender : Address
  value : BitVec 256
  deadline : BitVec 256
  v : BitVec 8
  r : BitVec 256
  s : BitVec 256
deriving DecidableEq, Repr

namespace BACEPermit

variable (crypto : Crypto) (t : BACEPermit)

/-- `_initializeEIP712BACE`, for the contract at the address, if it is not zero -/
def initializeEIP712BACE (eip712BACE : Option EIP712BACE) : Call PermitError BACEPermit := do
  require (eip712BACE.isSome = true) .zeroEIP712BACE
  require (t.eip712BACE.isNone = true) .eip712BACEAlreadySet
  return { t with eip712BACE := eip712BACE }

/-- `_useNonce` -/
def useNonce (owner : Address) : Call PermitError (BACEPermit × Nat) := do
  let current := t.noncesByAddress owner
  let next ← checkedAdd 256 current 1
  return ({ t with noncesByAddress := Function.update t.noncesByAddress owner next }, current)

def PERMIT_TYPE : Bytes :=
  asciiBytes "Permit(address owner,address spender,uint256 value,uint256 nonce,uint256 deadline)"

/-- The string of the struct that is signed -/
def permitData (owner spender : Address) (value nonce deadline : BitVec 256) : Bytes :=
  bytesOfWords [crypto.keccak256 PERMIT_TYPE, wordOfAddress owner, wordOfAddress spender, value,
    nonce, deadline]

/-- The contract that `IEIP712BACE(getEIP712BACE())` calls -/
def calledEIP712BACE : Call PermitError EIP712BACE :=
  match t.eip712BACE with
  | some eip => .ok eip
  | none => .error (.error .noCode)

def permit (env : PermitEnv) (args : PermitArgs) : Call PermitError BACEPermit := do
  require (env.timestamp ≤ args.deadline.toNat) .deadlineExpired
  let (t, nonce) ← t.useNonce args.owner
  let structHash := crypto.keccak256
    (permitData crypto args.owner args.spender args.value (BitVec.ofNat 256 nonce) args.deadline)
  let eip ← t.calledEIP712BACE
  let hash := eip.hashTypedDataV4 crypto env.chainId t.self structHash
  let valid ← within .ecdsa
    (SignatureUtils.isValidSignature crypto env args.owner hash args.v args.r args.s)
  require (valid = true) .invalidSignature
  let token ← within .pool (t.approveInternal args.owner args.spender args.value.toNat)
  return { t with toBACE := token }

def nonces (owner : Address) : Nat := t.noncesByAddress owner

end BACEPermit

/-! ## What is signed -/

/-- What the owner of tokens signs for. -/
@[ext]
structure PermitMessage where
  chainId : BitVec 256
  token : Address
  owner : Address
  spender : Address
  value : BitVec 256
  nonce : BitVec 256
  deadline : BitVec 256
deriving DecidableEq, Repr

namespace PermitMessage

variable (crypto : Crypto) (m : PermitMessage)

/-- The string that the separator of the message's domain is the hash of. -/
def domainData : Bytes :=
  EIP712BACE.domainData (crypto.keccak256 EIP712BACE.DOMAIN_TYPE)
    (crypto.keccak256 (asciiBytes "Bond Ace")) (crypto.keccak256 (asciiBytes "2")) m.chainId m.token

def structData : Bytes :=
  BACEPermit.permitData crypto m.owner m.spender m.value m.nonce m.deadline

def typedData : Bytes :=
  EIP712BACE.typedData (crypto.keccak256 (m.domainData crypto))
    (crypto.keccak256 (m.structData crypto))

def digest : BitVec 256 := crypto.keccak256 (m.typedData crypto)

/-- The strings that are hashed for the message. -/
def hashed : Set Bytes := {m.domainData crypto, m.structData crypto, m.typedData crypto}

end PermitMessage

theorem wordOfAddress_injective {a b : Address} (h : wordOfAddress a = wordOfAddress b) : a = b := by
  have hnat := congrArg BitVec.toNat h
  simp only [wordOfAddress, BitVec.toNat_setWidth] at hnat
  exact BitVec.eq_of_toNat_eq (by omega)

/-- **A digest is of one message**, unless the hash collides. -/
theorem PermitMessage.eq_of_digest_eq {crypto : Crypto} {m m' : PermitMessage}
    (hinj : Set.InjOn crypto.keccak256 (m.hashed crypto ∪ m'.hashed crypto))
    (h : m.digest crypto = m'.digest crypto) : m = m' := by
  have htyped : m.typedData crypto = m'.typedData crypto :=
    hinj (.inl (by simp [hashed])) (.inr (by simp [hashed])) h
  obtain ⟨hdomainHash, hstructHash⟩ :=
    bytesOfWord_append_inj (List.append_cancel_left htyped)
  have hdomain : m.domainData crypto = m'.domainData crypto :=
    hinj (.inl (by simp [hashed])) (.inr (by simp [hashed])) hdomainHash
  have hstruct : m.structData crypto = m'.structData crypto :=
    hinj (.inl (by simp [hashed])) (.inr (by simp [hashed])) (bytesOfWord_injective hstructHash)
  have hdomainWords := bytesOfWords_injective hdomain
  have hstructWords := bytesOfWords_injective hstruct
  simp only [List.cons.injEq, and_true, true_and] at hdomainWords hstructWords
  obtain ⟨hchain, htoken⟩ := hdomainWords
  obtain ⟨howner, hspender, hvalue, hnonce, hdeadline⟩ := hstructWords
  exact PermitMessage.ext hchain (wordOfAddress_injective htoken) (wordOfAddress_injective howner)
    (wordOfAddress_injective hspender) hvalue hnonce hdeadline

namespace EIP712BACE

variable {crypto : Crypto} {eip : EIP712BACE}

/-- The contract was made by its constructor. -/
def Constructed (crypto : Crypto) (eip : EIP712BACE) : Prop :=
  ∃ chainId bACE, construct crypto chainId bACE = .ok eip

/-- The separator in the cache is the one that would be built. -/
theorem domainSeparatorV4_eq (h : Constructed crypto eip) (chainId : BitVec 256) (bACE : Address) :
    eip.domainSeparatorV4 crypto chainId bACE
      = crypto.keccak256 (domainData (crypto.keccak256 DOMAIN_TYPE)
          (crypto.keccak256 (asciiBytes "Bond Ace")) (crypto.keccak256 (asciiBytes "2")) chainId
          bACE) := by
  obtain ⟨cachedChainId, cachedBACE, hconstruct⟩ := h
  simp only [construct, bind_eq_ok, require_eq_ok, pure_eq_ok] at hconstruct
  obtain ⟨_, -, rfl⟩ := hconstruct
  unfold domainSeparatorV4
  split
  · next hcached =>
    obtain ⟨rfl, rfl⟩ := hcached
    rfl
  · rfl

theorem hashTypedDataV4_eq (h : Constructed crypto eip) (m : PermitMessage) :
    eip.hashTypedDataV4 crypto m.chainId m.token (crypto.keccak256 (m.structData crypto))
      = m.digest crypto := by
  rw [hashTypedDataV4, domainSeparatorV4_eq h]
  rfl

/-- The separator of a domain, from the fields of its description. -/
def separatorOf (crypto : Crypto) (domain : Bytes × Bytes × BitVec 256 × Address) : BitVec 256 :=
  buildDomainSeparator crypto (crypto.keccak256 DOMAIN_TYPE) (crypto.keccak256 domain.1)
    (crypto.keccak256 domain.2.1) domain.2.2.1 domain.2.2.2

/-- The strings that are hashed for the separator of a domain. -/
def hashedFor (crypto : Crypto) (domain : Bytes × Bytes × BitVec 256 × Address) : Set Bytes :=
  {domain.1, domain.2.1, domainData (crypto.keccak256 DOMAIN_TYPE) (crypto.keccak256 domain.1)
    (crypto.keccak256 domain.2.1) domain.2.2.1 domain.2.2.2}

/-- **A separator is of one domain**, unless the hash collides. -/
theorem eq_of_separatorOf_eq {domain domain' : Bytes × Bytes × BitVec 256 × Address}
    (hinj : Set.InjOn crypto.keccak256 (hashedFor crypto domain ∪ hashedFor crypto domain'))
    (h : separatorOf crypto domain = separatorOf crypto domain') : domain = domain' := by
  obtain ⟨name, version, chainId, bACE⟩ := domain
  obtain ⟨name', version', chainId', bACE'⟩ := domain'
  have hwords := bytesOfWords_injective
    (hinj (.inl (by simp [hashedFor, domainData])) (.inr (by simp [hashedFor, domainData])) h)
  simp only [List.cons.injEq, and_true, true_and] at hwords
  obtain ⟨hnameHash, hversionHash, hchain, htoken⟩ := hwords
  have hname : name = name' :=
    hinj (.inl (by simp [hashedFor])) (.inr (by simp [hashedFor])) hnameHash
  have hversion : version = version' :=
    hinj (.inl (by simp [hashedFor])) (.inr (by simp [hashedFor])) hversionHash
  rw [hname, hversion, hchain, wordOfAddress_injective htoken]

/--
**The separator of the token, and the one it describes.** On every chain, also after a fork, the
separator is that of the name, version 2, the chain and the token; the cache makes no difference. So
the separators of different tokens or chains differ. The domain that `eip712Domain` describes has
version 1, and its separator never is the token's; unless two of the strings collide.
-/
theorem domainSeparator_exact (h : Constructed crypto eip) (chainId : BitVec 256) (bACE : Address) :
    eip.domainSeparatorV4 crypto chainId bACE
      = separatorOf crypto (asciiBytes "Bond Ace", asciiBytes "2", chainId, bACE) ∧
    (∀ eip' chainId' bACE', Constructed crypto eip' → (chainId, bACE) ≠ (chainId', bACE') →
      eip.domainSeparatorV4 crypto chainId bACE = eip'.domainSeparatorV4 crypto chainId' bACE' →
      Collides crypto.keccak256
        (hashedFor crypto (asciiBytes "Bond Ace", asciiBytes "2", chainId, bACE) ∪
          hashedFor crypto (asciiBytes "Bond Ace", asciiBytes "2", chainId', bACE'))) ∧
    (separatorOf crypto (eip712Domain chainId bACE) = eip.domainSeparatorV4 crypto chainId bACE →
      Collides crypto.keccak256 (hashedFor crypto (eip712Domain chainId bACE) ∪
        hashedFor crypto (asciiBytes "Bond Ace", asciiBytes "2", chainId, bACE))) := by
  have hplain : ∀ {eip : EIP712BACE} {chainId bACE}, Constructed crypto eip →
      eip.domainSeparatorV4 crypto chainId bACE
        = separatorOf crypto (asciiBytes "Bond Ace", asciiBytes "2", chainId, bACE) :=
    fun h => domainSeparatorV4_eq h _ _
  refine ⟨hplain h, fun eip' chainId' bACE' h' hne heq => ?_, fun heq => ?_⟩
  · rw [hplain h, hplain h'] at heq
    refine (injOn_or_collides _ _).resolve_left fun hinj => hne ?_
    have hsame := eq_of_separatorOf_eq hinj heq
    simpa using hsame
  · rw [hplain h] at heq
    refine (injOn_or_collides _ _).resolve_left fun hinj => ?_
    have hsame := eq_of_separatorOf_eq hinj heq
    have hversion : asciiBytes "1" = asciiBytes "2" := congrArg (fun domain => domain.2.1) hsame
    exact absurd hversion (by decide)

def exampleCrypto : Crypto where
  keccak256 bs := BitVec.ofNat 256 (natOfBytes bs)
  sha256 _ := 0
  ecrecover _ _ r _ := r.setWidth 160

/-- The contract is made on chain 1 and asked on chain 5. -/
theorem domainSeparator_exact_fork :
    ∃ eip, construct exampleCrypto 1 7 = .ok eip ∧ eip.domainSeparatorV4 exampleCrypto 5 7
      = separatorOf exampleCrypto (asciiBytes "Bond Ace", asciiBytes "2", 5, 7) := by
  have hconstruct := eq_ok_result (construct exampleCrypto 1 7) (by decide +kernel)
  exact ⟨_, hconstruct, (domainSeparator_exact ⟨1, 7, hconstruct⟩ 5 7).1⟩

end EIP712BACE

/-! ## What a permit does -/

namespace BACEPermit

variable {crypto : Crypto} {t t' : BACEPermit} {env : PermitEnv} {args : PermitArgs}

/-- The message that a permit is checked against. -/
def message (t : BACEPermit) (env : PermitEnv) (args : PermitArgs) : PermitMessage where
  chainId := env.chainId
  token := t.self
  owner := args.owner
  spender := args.spender
  value := args.value
  nonce := BitVec.ofNat 256 (t.nonces args.owner)
  deadline := args.deadline

theorem calledEIP712BACE_eq_ok {eip : EIP712BACE} :
    t.calledEIP712BACE = .ok eip ↔ t.eip712BACE = some eip := by
  unfold calledEIP712BACE
  cases t.eip712BACE <;> simp

theorem permit_ok_cases (h : t.permit crypto env args = .ok t') :
    env.timestamp ≤ args.deadline.toNat ∧ t.nonces args.owner + 1 < 2 ^ 256 ∧
    (∃ eip, t.eip712BACE = some eip ∧
      (eip.Constructed crypto → SignatureUtils.isValidSignature crypto env args.owner
        ((t.message env args).digest crypto) args.v args.r args.s = .ok true)) ∧
    t' = { t with
      allowances := Function.update t.allowances args.owner
        (Function.update (t.allowances args.owner) args.spender args.value.toNat)
      noncesByAddress := Function.update t.noncesByAddress args.owner (t.nonces args.owner + 1) } := by
  simp only [permit, useNonce, bind_eq_ok, require_eq_ok, within_eq_ok, pure_eq_ok,
    checkedAdd_eq_ok] at h
  obtain ⟨_, hdeadline, ⟨t₁, nonce⟩, ⟨_, ⟨hfits, rfl⟩, hnonce⟩, eip, heip, valid, hsigned, _, hvalid,
    token, happrove, rfl⟩ := h
  obtain ⟨rfl, rfl⟩ := Prod.mk.inj hnonce
  subst hvalid
  refine ⟨hdeadline, hfits, ⟨eip, calledEIP712BACE_eq_ok.mp heip, fun hconstructed => ?_⟩, ?_⟩
  · rw [← EIP712BACE.hashTypedDataV4_eq hconstructed]
    exact hsigned
  · rw [BACE.approveInternal_ok_cases happrove]
    rfl

end BACEPermit

/-! ## Allowances -/

namespace BACE

variable {t t' : BACE} {pooled : Call PoolError Nat} {caller owner spender : Address} {op : TokenOp}

/-- The caller sets its allowance for a spender. -/
def TokenOp.Sets (op : TokenOp) (spender : Address) : Prop :=
  match op with
  | .approve s _ | .increaseAllowance s _ | .decreaseAllowance s _ => s = spender
  | _ => False

theorem allowances_of_approveInternal {sender s : Address} {amount : Nat}
    (h : t.approveInternal sender s amount = .ok t') :
    t'.allowances owner spender = t.allowances owner spender ∨ (owner = sender ∧ s = spender) := by
  obtain rfl := approveInternal_ok_cases h
  rcases eq_or_ne owner sender with rfl | howner
  · rcases eq_or_ne spender s with rfl | hspender
    · exact .inr ⟨rfl, rfl⟩
    · refine .inl ?_
      simp only [Function.update_self]
      rw [Function.update_of_ne hspender]
  · exact .inl (by simp only [Function.update_of_ne howner])

/-- Only the spender spends, and the allowance gets less by it. -/
theorem allowances_of_spendAllowance {sender : Address} {amount : Nat}
    (h : t.spendAllowance sender caller amount = .ok t') :
    t'.allowances owner spender = t.allowances owner spender ∨
      (spender = caller ∧ t'.allowances owner spender ≤ t.allowances owner spender) := by
  rcases spendAllowance_ok_cases h with ⟨-, rfl⟩ | ⟨-, rfl⟩
  · exact .inl rfl
  · rcases eq_or_ne owner sender with rfl | howner
    · rcases eq_or_ne spender caller with rfl | hspender
      · refine .inr ⟨rfl, ?_⟩
        simp only [Function.update_self]
        exact Nat.sub_le _ _
      · refine .inl ?_
        simp only [Function.update_self]
        rw [Function.update_of_ne hspender]
    · exact .inl (by simp only [Function.update_of_ne howner])

theorem allowances_of_transferSharesInternal {sender recipient : Address} {n : Nat}
    (h : t.transferSharesInternal sender recipient n = .ok t') :
    t'.allowances = t.allowances := by
  obtain ⟨-, -, -, -, -, rfl⟩ := transferSharesInternal_ok_cases h
  rfl

theorem allowances_of_transferInternal {sender recipient : Address} {amount : Nat}
    (h : t.transferInternal pooled sender recipient amount = .ok t') :
    t'.allowances = t.allowances := by
  simp only [transferInternal, bind_eq_ok] at h
  obtain ⟨_, -, h⟩ := h
  exact allowances_of_transferSharesInternal h

/-- **What a call does to an allowance**: its owner sets it, or the spender spends it. -/
theorem TokenOp.allowances (owner spender : Address) (h : op.run t pooled caller = .ok t') :
    t'.allowances owner spender = t.allowances owner spender ∨
      (owner = caller ∧ op.Sets spender) ∨
      (spender = caller ∧ t'.allowances owner spender ≤ t.allowances owner spender) := by
  have happrove : ∀ {s : Address} {amount : Nat}, t.approveInternal caller s amount = .ok t' →
      t'.allowances owner spender = t.allowances owner spender ∨ (owner = caller ∧ s = spender) :=
    fun h => allowances_of_approveInternal h
  cases op with
  | transfer recipient amount =>
    exact .inl (by rw [allowances_of_transferInternal h])
  | transferFrom sender recipient amount =>
    simp only [TokenOp.run, BACE.transferFrom, bind_eq_ok] at h
    obtain ⟨t₁, hspend, h⟩ := h
    rw [allowances_of_transferInternal h]
    exact (allowances_of_spendAllowance hspend).imp_right .inr
  | transferShares recipient sharesAmount =>
    obtain ⟨⟨t₁, tokens⟩, hrun, rfl⟩ := map_eq_ok.mp h
    simp only [BACE.transferShares, bind_eq_ok, pure_eq_ok, Prod.mk.injEq] at hrun
    obtain ⟨t₁, hmove, _, -, rfl, -⟩ := hrun
    exact .inl (by rw [allowances_of_transferSharesInternal hmove])
  | transferSharesFrom sender recipient sharesAmount =>
    obtain ⟨⟨t₂, tokens⟩, hrun, rfl⟩ := map_eq_ok.mp h
    simp only [BACE.transferSharesFrom, bind_eq_ok, pure_eq_ok, Prod.mk.injEq] at hrun
    obtain ⟨_, -, t₁, hspend, t₂, hmove, rfl, -⟩ := hrun
    rw [allowances_of_transferSharesInternal hmove]
    exact (allowances_of_spendAllowance hspend).imp_right .inr
  | approve s amount => exact (happrove h).imp_right .inl
  | increaseAllowance s addedValue =>
    obtain ⟨_, h⟩ := increaseAllowance_ok_cases h
    exact (happrove h).imp_right .inl
  | decreaseAllowance s subtractedValue =>
    obtain ⟨_, h⟩ := decreaseAllowance_ok_cases h
    exact (happrove h).imp_right .inl

end BACE

/-! ## Runs -/

/-- The calls of a run. -/
inductive PermitAction where
  | op (caller : Address) (op : BACE.TokenOp)
  | permit (env : PermitEnv) (args : PermitArgs)
  | initializeV2 (withdrawalQueue burner : Address)
  | pool

namespace BACEPermit

variable {crypto : Crypto} {t t' : BACEPermit}

/-- The part of `_initialize_v2` of `Catalist.sol` that concerns the token -/
def initializeV2 (t : BACEPermit) (eip712BACE : Option EIP712BACE) (withdrawalQueue burner : Address) :
    Call PermitError BACEPermit := do
  let t ← t.initializeEIP712BACE eip712BACE
  let token ← within .pool (t.approveInternal withdrawalQueue burner INFINITE_ALLOWANCE)
  return { t with toBACE := token }

/-- What each call does. The pool mints and burns shares, and stops and resumes the token. -/
inductive Performs (crypto : Crypto) : BACEPermit → PermitAction → BACEPermit → Prop where
  | op {t : BACEPermit} {caller : Address} {op : BACE.TokenOp} {pooled : Call PoolError Nat}
      {token : BACE} : op.run t.toBACE pooled caller = .ok token →
      Performs crypto t (.op caller op) { t with toBACE := token }
  | permit {t t' : BACEPermit} {env : PermitEnv} {args : PermitArgs} :
      t.permit crypto env args = .ok t' → Performs crypto t (.permit env args) t'
  | initializeV2 {t t' : BACEPermit} {eip : EIP712BACE} {withdrawalQueue burner : Address} :
      eip.Constructed crypto → t.initializeV2 (some eip) withdrawalQueue burner = .ok t' →
      Performs crypto t (.initializeV2 withdrawalQueue burner) t'
  | pool {t : BACEPermit} {shares : Address → Nat} {totalShares : Nat} {active : Bool} :
      Performs crypto t .pool
        { t with shares := shares, totalShares := totalShares, active := active }

/-- Storage that was never written. -/
structure Fresh (t : BACEPermit) : Prop where
  nonces : ∀ owner, t.nonces owner = 0
  allowances : ∀ owner spender, t.allowances owner spender = 0
  eip712BACE : t.eip712BACE = none

/-- The recorded runs of a token. -/
def Runs (crypto : Crypto) (w : Recorded BACEPermit PermitAction) : Prop :=
  Reachable (Recorded.Starts Fresh) (Recorded.Acts (Performs crypto)) w

/-- The permits of an owner in a history. -/
def permitsOf (owner : Address) (history : List (Moment BACEPermit PermitAction)) :
    List PermitArgs :=
  history.filterMap fun m =>
    match m.action with
    | .permit _ args => if args.owner = owner then some args else none
    | _ => none

theorem permitsOf_append (owner : Address) (history history' : List (Moment BACEPermit PermitAction)) :
    permitsOf owner (history ++ history') = permitsOf owner history ++ permitsOf owner history' :=
  List.filterMap_append ..

/-- Nonces count permits, and only a contract made by the constructor is called. -/
structure Sound (crypto : Crypto) (w : Recorded BACEPermit PermitAction) : Prop where
  nonces : ∀ owner, w.state.nonces owner = (permitsOf owner w.history).length
  nonces_lt : ∀ owner, w.state.nonces owner < 2 ^ 256
  constructed : ∀ eip, w.state.eip712BACE = some eip → eip.Constructed crypto

theorem initializeV2_ok_cases {eip : EIP712BACE} {withdrawalQueue burner : Address}
    (h : t.initializeV2 (some eip) withdrawalQueue burner = .ok t') :
    t' = { t with
      eip712BACE := some eip
      allowances := Function.update t.allowances withdrawalQueue
        (Function.update (t.allowances withdrawalQueue) burner INFINITE_ALLOWANCE) } := by
  simp only [initializeV2, initializeEIP712BACE, bind_eq_ok, require_eq_ok, within_eq_ok,
    pure_eq_ok] at h
  obtain ⟨t₁, ⟨_, -, _, -, rfl⟩, token, happrove, rfl⟩ := h
  rw [BACE.approveInternal_ok_cases happrove]

variable {w w' : Recorded BACEPermit PermitAction}

theorem Sound.step (h : Sound crypto w) (hs : Recorded.Acts (Performs crypto) w w') :
    Sound crypto w' := by
  -- a call that is no permit leaves the nonces alone
  have hother : ∀ {action : PermitAction} {t : BACEPermit}, (∀ env args, action ≠ .permit env args) →
      t.noncesByAddress = w.state.noncesByAddress →
      (∀ eip, t.eip712BACE = some eip → eip.Constructed crypto) →
      Sound crypto (w.record action t) := by
    intro action t hnone hnonces hconstructed
    refine ⟨fun owner => ?_, fun owner => ?_, hconstructed⟩
    · rw [Recorded.record, permitsOf_append]
      have hskip : permitsOf owner [⟨w.state, action, t⟩] = [] := by
        cases action with
        | permit env args => exact absurd rfl (hnone env args)
        | _ => rfl
      rw [hskip, List.append_nil, ← h.nonces owner]
      exact congrFun hnonces owner
    · show t.noncesByAddress owner < _
      rw [hnonces]
      exact h.nonces_lt owner
  obtain ⟨hperforms⟩ := hs
  cases hperforms with
  | op hrun => exact hother (fun _ _ hne => by cases hne) rfl h.constructed
  | initializeV2 hconstructed hrun =>
    obtain rfl := initializeV2_ok_cases hrun
    refine hother (fun _ _ hne => by cases hne) rfl fun eip' heip => ?_
    cases heip
    exact hconstructed
  | pool => exact hother (fun _ _ hne => by cases hne) rfl h.constructed
  | @permit t' env args hrun =>
    obtain ⟨-, hfits, -, rfl⟩ := permit_ok_cases hrun
    refine ⟨fun owner => ?_, fun owner => ?_, h.constructed⟩
    · rw [Recorded.record, permitsOf_append, List.length_append, ← h.nonces owner]
      show Function.update w.state.noncesByAddress args.owner _ owner = _
      rcases eq_or_ne owner args.owner with rfl | hne
      · rw [Function.update_self]
        simp [permitsOf]
      · rw [Function.update_of_ne hne]
        simp [permitsOf, hne.symm]
        rfl
    · show Function.update w.state.noncesByAddress args.owner _ owner < _
      rcases eq_or_ne owner args.owner with rfl | hne
      · rw [Function.update_self]
        exact hfits
      · rw [Function.update_of_ne hne]
        exact h.nonces_lt owner

theorem sound_of_runs (h : Runs crypto w) : Sound crypto w := by
  induction h with
  | init h0 =>
    refine ⟨fun owner => ?_, fun owner => ?_, fun eip heip => ?_⟩
    · rw [h0.2, h0.1.nonces]
      rfl
    · rw [h0.1.nonces]
      exact Nat.two_pow_pos 256
    · rw [h0.1.eip712BACE] at heip
      cases heip
  | step _ hs ih => exact ih.step hs

/-! ## No permit twice -/

/-- The message of a permit in a history. -/
def messageOf (m : Moment BACEPermit PermitAction) (env : PermitEnv) (args : PermitArgs) :
    PermitMessage :=
  m.before.message env args

theorem nonce_of_moment (h : Runs crypto w) {past later : List (Moment BACEPermit PermitAction)}
    {m : Moment BACEPermit PermitAction} (hhistory : w.history = past ++ m :: later)
    (env : PermitEnv) (args : PermitArgs) :
    Sound crypto ⟨m.before, past⟩ ∧ Performs crypto m.before m.action m.after ∧
      (messageOf m env args).nonce.toNat = (permitsOf args.owner past).length := by
  obtain ⟨hpast, hperforms, -⟩ := Reachable.cut h (fun w₀ h₀ => by
    rw [h₀.2]
    exact Nat.zero_le _) hhistory
  have hsound := sound_of_runs hpast
  refine ⟨hsound, hperforms, ?_⟩
  show (BitVec.ofNat 256 (m.before.nonces args.owner)).toNat = _
  rw [BitVec.toNat_ofNat, Nat.mod_eq_of_lt (hsound.nonces_lt args.owner)]
  exact hsound.nonces args.owner

/--
**A permit is used once.** In every run of the token each permit is checked against a message with
the chain, the token, its arguments, and the number of permits that its owner has had; it is not past
its deadline, and sets the allowance that was signed for and nothing else. So two permits with the
same digest are for the same message, even in runs of different tokens or on different chains, and no
digest is used twice in a run; unless two of the strings that are hashed for them collide.
-/
theorem permits_are_used_once (h : Runs crypto w)
    {past later : List (Moment BACEPermit PermitAction)} {m : Moment BACEPermit PermitAction}
    {env : PermitEnv} {args : PermitArgs} (hhistory : w.history = past ++ m :: later)
    (haction : m.action = .permit env args) :
    (messageOf m env args).nonce.toNat = (permitsOf args.owner past).length ∧
    env.timestamp ≤ args.deadline.toNat ∧
    SignatureUtils.isValidSignature crypto env args.owner ((messageOf m env args).digest crypto)
      args.v args.r args.s = .ok true ∧
    m.after = { m.before with
      allowances := Function.update m.before.allowances args.owner
        (Function.update (m.before.allowances args.owner) args.spender args.value.toNat)
      noncesByAddress :=
        Function.update m.before.noncesByAddress args.owner (m.before.nonces args.owner + 1) } ∧
    (∀ (w' : Recorded BACEPermit PermitAction) (past' later' : List (Moment BACEPermit PermitAction))
        (m' : Moment BACEPermit PermitAction) (env' : PermitEnv) (args' : PermitArgs),
      Runs crypto w' → w'.history = past' ++ m' :: later' → m'.action = .permit env' args' →
      (messageOf m env args).digest crypto = (messageOf m' env' args').digest crypto →
      (messageOf m env args = messageOf m' env' args' ∧
        (permitsOf args.owner past).length = (permitsOf args'.owner past').length) ∨
      Collides crypto.keccak256
        ((messageOf m env args).hashed crypto ∪ (messageOf m' env' args').hashed crypto)) ∧
    ∀ between rest m' env' args', later = between ++ m' :: rest → m'.action = .permit env' args' →
      (messageOf m env args).digest crypto = (messageOf m' env' args').digest crypto →
      Collides crypto.keccak256
        ((messageOf m env args).hashed crypto ∪ (messageOf m' env' args').hashed crypto) := by
  obtain ⟨hsound, hperforms, hnonce⟩ := nonce_of_moment h hhistory env args
  have hacross : ∀ (w' : Recorded BACEPermit PermitAction)
      (past' later' : List (Moment BACEPermit PermitAction)) (m' : Moment BACEPermit PermitAction)
      (env' : PermitEnv) (args' : PermitArgs), Runs crypto w' →
      w'.history = past' ++ m' :: later' → m'.action = .permit env' args' →
      (messageOf m env args).digest crypto = (messageOf m' env' args').digest crypto →
      (messageOf m env args = messageOf m' env' args' ∧
        (permitsOf args.owner past).length = (permitsOf args'.owner past').length) ∨
      Collides crypto.keccak256
        ((messageOf m env args).hashed crypto ∪ (messageOf m' env' args').hashed crypto) := by
    intro w' past' later' m' env' args' h' hhistory' haction' hdigest
    rcases injOn_or_collides crypto.keccak256
      ((messageOf m env args).hashed crypto ∪ (messageOf m' env' args').hashed crypto) with
      hinj | hcollides
    · have hsame := PermitMessage.eq_of_digest_eq hinj hdigest
      obtain ⟨-, -, hnonce'⟩ := nonce_of_moment h' hhistory' env' args'
      refine .inl ⟨hsame, ?_⟩
      rw [← hnonce, ← hnonce', hsame]
    · exact .inr hcollides
  obtain ⟨before, action, after⟩ := m
  subst haction
  cases hperforms with
  | permit hrun =>
    obtain ⟨hdeadline, -, ⟨eip, heip, hvalid⟩, hafter⟩ := permit_ok_cases hrun
    refine ⟨hnonce, hdeadline, hvalid (hsound.constructed eip heip), hafter, hacross, ?_⟩
    intro between rest m' env' args' hlater haction' hdigest
    rw [hlater, ← List.cons_append, ← List.append_assoc] at hhistory
    refine (hacross w _ _ m' env' args' h hhistory haction' hdigest).resolve_left ?_
    rintro ⟨hsame, hlength⟩
    -- the permit itself is counted by the time of the second one
    have howner : args.owner = args'.owner := congrArg PermitMessage.owner hsame
    rw [← howner, permitsOf_append, List.length_append] at hlength
    have hpos : 0 < (permitsOf args.owner
        (⟨before, .permit env args, after⟩ :: between)).length := by
      simp [permitsOf]
    omega

/-! ## Where an allowance comes from -/

/-- The owner sets the allowance, or has signed for it, or the token starts with it. -/
def SetsAllowance (owner spender : Address) (m : Moment BACEPermit PermitAction) : Prop :=
  match m.action with
  | .op caller op => caller = owner ∧ op.Sets spender
  | .permit _ args => args.owner = owner ∧ args.spender = spender
  | .initializeV2 withdrawalQueue burner => withdrawalQueue = owner ∧ burner = spender
  | .pool => False

/-- Nobody but the spender changes the allowance, and it does not become more. -/
structure OnlySpends (owner spender : Address) (m : Moment BACEPermit PermitAction) : Prop where
  not_sets : ¬ SetsAllowance owner spender m
  le : m.after.allowances owner spender ≤ m.before.allowances owner spender
  by_spender : m.after.allowances owner spender ≠ m.before.allowances owner spender →
    ∃ op, m.action = .op spender op

theorem allowances_update {allowances : Address → Address → Nat} {a b : Address} {amount : Nat}
    (owner spender : Address) :
    Function.update allowances a (Function.update (allowances a) b amount) owner spender
        = allowances owner spender ∨ (a = owner ∧ b = spender) := by
  rcases eq_or_ne owner a with rfl | howner
  · rcases eq_or_ne spender b with rfl | hspender
    · exact .inr ⟨rfl, rfl⟩
    · exact .inl (by rw [Function.update_self, Function.update_of_ne hspender])
  · exact .inl (by rw [Function.update_of_ne howner])

/-- **What a call does to an allowance**, one case for each kind. -/
theorem onlySpends_of_performs {action : PermitAction} (owner spender : Address)
    (h : Performs crypto t action t') (hnot : ¬ SetsAllowance owner spender ⟨t, action, t'⟩) :
    OnlySpends owner spender ⟨t, action, t'⟩ := by
  have hsame : t'.allowances owner spender = t.allowances owner spender →
      OnlySpends owner spender ⟨t, action, t'⟩ :=
    fun heq => ⟨hnot, heq.le, fun hne => absurd heq hne⟩
  cases h with
  | @op caller op pooled token hrun =>
    rcases BACE.TokenOp.allowances owner spender hrun with heq | hsets | ⟨rfl, hle⟩
    · exact hsame heq
    · exact absurd ⟨hsets.1.symm, hsets.2⟩ hnot
    · exact ⟨hnot, hle, fun _ => ⟨op, rfl⟩⟩
  | permit hrun =>
    obtain ⟨-, -, -, rfl⟩ := permit_ok_cases hrun
    exact hsame ((allowances_update owner spender).resolve_right hnot)
  | initializeV2 hconstructed hrun =>
    obtain rfl := initializeV2_ok_cases hrun
    exact hsame ((allowances_update owner spender).resolve_right hnot)
  | pool => exact hsame rfl

/--
**Every allowance was given by its owner.** In every run of the token, what a spender may still spend
is no more than what was last set; since then nobody but the spender has changed it, and it has not
become more. It was set by a call of the owner, by the initialization, or by a permit: then the owner's
signature of that permit is valid, with the value of the allowance in it.
-/
theorem allowance_was_given (h : Runs crypto w) {owner spender : Address}
    (hpos : 0 < w.state.allowances owner spender) :
    ∃ past m later, w.history = past ++ m :: later ∧ SetsAllowance owner spender m ∧
      (∀ m' ∈ later, OnlySpends owner spender m') ∧
      w.state.allowances owner spender ≤ m.after.allowances owner spender ∧
      ∀ env args, m.action = .permit env args → args.owner = owner ∧ args.spender = spender ∧
        m.after.allowances owner spender = args.value.toNat ∧
        SignatureUtils.isValidSignature crypto env owner ((messageOf m env args).digest crypto)
          args.v args.r args.s = .ok true := by
  obtain ⟨past, m, later, hhistory, hsets, hlater, hle⟩ : ∃ past m later,
      w.history = past ++ m :: later ∧ SetsAllowance owner spender m ∧
      (∀ m' ∈ later, OnlySpends owner spender m') ∧
      w.state.allowances owner spender ≤ m.after.allowances owner spender := by
    induction h with
    | init h0 =>
      rw [h0.1.allowances] at hpos
      exact absurd hpos (Nat.lt_irrefl 0)
    | @step w w' _ hs ih =>
      cases hs with
      | @act action t hperforms =>
        by_cases hsets : SetsAllowance owner spender ⟨w.state, action, t⟩
        · exact ⟨w.history, _, [], rfl, hsets, fun _ hm => absurd hm List.not_mem_nil,
            Nat.le_refl _⟩
        · have hspends := onlySpends_of_performs owner spender hperforms hsets
          obtain ⟨past, m, later, hhistory, hsets, hlater, hle⟩ := ih (hpos.trans_le hspends.le)
          refine ⟨past, m, later ++ [⟨w.state, action, t⟩], ?_, hsets, fun m' hm' => ?_,
            hspends.le.trans hle⟩
          · rw [Recorded.record, hhistory, List.append_assoc, List.cons_append]
          · rcases List.mem_append.mp hm' with hm' | hm'
            · exact hlater m' hm'
            · rw [List.mem_singleton.mp hm']
              exact hspends
  refine ⟨past, m, later, hhistory, hsets, hlater, hle, fun env args haction => ?_⟩
  obtain ⟨-, -, hvalid, hafter, -⟩ := permits_are_used_once h hhistory haction
  obtain ⟨rfl, rfl⟩ : args.owner = owner ∧ args.spender = spender := by
    unfold SetsAllowance at hsets
    rw [haction] at hsets
    exact hsets
  refine ⟨rfl, rfl, ?_, hvalid⟩
  rw [hafter]
  simp only [Function.update_self]

/-! The token is initialized, and an owner signs for an allowance of 5. -/

def exampleFresh : BACEPermit where
  self := 7
  shares _ := 0
  allowances _ _ := 0
  totalShares := 0
  active := true
  noncesByAddress _ := 0
  eip712BACE := none

def exampleEIP712BACE : EIP712BACE :=
  result (EIP712BACE.construct EIP712BACE.exampleCrypto 1 7) (by decide +kernel)

def exampleInitialized : BACEPermit :=
  result (exampleFresh.initializeV2 (some exampleEIP712BACE) 8 9) (by decide +kernel)

theorem exampleTime_pos : 0 < 100 := by decide

def examplePermitEnv : PermitEnv where
  toEnv := ⟨4, 0, 100, exampleTime_pos⟩
  chainId := 1
  hasCode _ := false
  staticcall _ _ := none

def examplePermitArgs : PermitArgs where
  owner := 3
  spender := 4
  value := 5
  deadline := 200
  v := 27
  r := 3
  s := 1

def examplePermitted : BACEPermit :=
  result (exampleInitialized.permit EIP712BACE.exampleCrypto examplePermitEnv examplePermitArgs)
    (by decide +kernel)

def exampleHistory (t t₁ t₂ : BACEPermit) : Recorded BACEPermit PermitAction :=
  (Recorded.record ⟨t, []⟩ (.initializeV2 8 9) t₁).record (.permit examplePermitEnv examplePermitArgs)
    t₂

theorem runs_exampleHistory {t t₁ t₂ : BACEPermit} {eip : EIP712BACE} (hfresh : t.Fresh)
    (heip : eip.Constructed crypto) (hinit : t.initializeV2 (some eip) 8 9 = .ok t₁)
    (hpermit : t₁.permit crypto examplePermitEnv examplePermitArgs = .ok t₂) :
    Runs crypto (exampleHistory t t₁ t₂) :=
  ((Reachable.init ⟨hfresh, rfl⟩).step ⟨.initializeV2 heip hinit⟩).step ⟨.permit hpermit⟩

theorem runs_examplePermitted : Runs EIP712BACE.exampleCrypto
    (exampleHistory exampleFresh exampleInitialized examplePermitted) :=
  runs_exampleHistory ⟨fun _ => rfl, fun _ _ => rfl, rfl⟩
    ⟨1, 7, eq_ok_result _ (by decide +kernel)⟩ (eq_ok_result _ (by decide +kernel))
    (eq_ok_result _ (by decide +kernel))

theorem permits_are_used_once_first :
    (exampleInitialized.message examplePermitEnv examplePermitArgs).nonce.toNat = 0 ∧
      SignatureUtils.isValidSignature EIP712BACE.exampleCrypto examplePermitEnv 3
        ((exampleInitialized.message examplePermitEnv examplePermitArgs).digest
          EIP712BACE.exampleCrypto) 27 3 1 = .ok true := by
  have hrun := runs_examplePermitted
  generalize exampleInitialized = initialized at *
  generalize examplePermitted = permitted at *
  have hhistory : (exampleHistory exampleFresh initialized permitted).history
      = [⟨exampleFresh, .initializeV2 8 9, initialized⟩] ++
        ⟨initialized, .permit examplePermitEnv examplePermitArgs, permitted⟩ :: [] := rfl
  obtain ⟨hnonce, -, hvalid, -⟩ := permits_are_used_once hrun hhistory rfl
  exact ⟨hnonce, hvalid⟩

theorem allowance_was_given_permitted :
    ∃ m ∈ (exampleHistory exampleFresh exampleInitialized examplePermitted).history,
      SetsAllowance 3 4 m ∧ 5 ≤ m.after.allowances 3 4 := by
  have hallowance : examplePermitted.allowances 3 4 = 5 := by decide +kernel
  have hrun := runs_examplePermitted
  generalize exampleInitialized = initialized at *
  generalize examplePermitted = permitted at *
  have hpos : 0 < (exampleHistory exampleFresh initialized permitted).state.allowances 3 4 := by
    show 0 < permitted.allowances 3 4
    omega
  obtain ⟨past, m, later, hhistory, hsets, -, hle, -⟩ := allowance_was_given hrun hpos
  refine ⟨m, ?_, hsets, hallowance ▸ hle⟩
  rw [hhistory]
  exact List.mem_append_right _ List.mem_cons_self

end BACEPermit

end Catalist

import Catalist.Lib.ByteBuffer
import Catalist.Registry.Packed64x4

/-!
# Signing keys in storage

`SigningKeys.sol`: each key of 48 bytes and its signature of 96 bytes take five words of storage,
from an offset on that is a hash of the operator and the index. The hash function is a parameter.
The errors of the registry and its libraries and the operations of `SafeMath` are here too.
-/

namespace Catalist

open Solidity ByteBuffer

inductive RegistryError where
  | packed (e : PackedError)
  | mathAddOverflow
  | mathMulOverflow
  | mathSubUnderflow
  -- SigningKeys
  | invalidKeysCount
  | lengthMismatch
  | emptyKey
  -- NodeOperatorsRegistry
  | appAuthFailed
  | cantClearPenalty
  | catalistRewardAddress
  | exitedValidatorsCountDecreased
  | invalidAllocatedKeysCount
  | invalidReportData
  | maxOperatorsCountExceeded
  | notActive
  | notOwner
  | outOfRange
  | valueIsTheSame
  | wrongNameLength
  | wrongOperatorActiveState
  | zeroAddress
deriving DecidableEq, Repr

/-! ## SafeMath -/

def safeAdd (a b : Nat) : Call RegistryError Nat := do
  require (a + b < 2 ^ 256) .mathAddOverflow
  return a + b

def safeMul (a b : Nat) : Call RegistryError Nat := do
  require (a * b < 2 ^ 256) .mathMulOverflow
  return a * b

def safeSub (a b : Nat) : Call RegistryError Nat := do
  require (b ≤ a) .mathSubUnderflow
  return a - b

namespace SigningKeys

def PUBKEY_LENGTH : Nat := 48

def SIGNATURE_LENGTH : Nat := 96

/-- The words of a contract's storage. -/
abbrev Storage := BitVec 256 → BitVec 256

/-- The `j`-th word of a key that is stored at `curOffset`. -/
def slot (curOffset : BitVec 256) (j : Nat) : BitVec 256 := curOffset + BitVec.ofNat 256 j

variable (storage : Storage) (getKeyOffset : Nat → Nat → BitVec 256)

/-! ## Adding keys -/

/-- The body of the loop of `saveKeysSigs`: the key at position `i` of the buffers. -/
def saveKeySig (pubkeys signatures : Bytes) (curOffset : BitVec 256) (i : Nat) :
    Call RegistryError Storage := do
  let part1 := mload pubkeys (i * PUBKEY_LENGTH)
  let part2 := mload pubkeys (i * PUBKEY_LENGTH + 0x10)
  require (part1 ||| part2 ≠ 0) .emptyKey
  let storage := Function.update storage curOffset part1
  let storage := Function.update storage (slot curOffset 1) (part2 <<< 128)
  let storage := Function.update storage (slot curOffset 2)
    (mload signatures (i * SIGNATURE_LENGTH))
  let storage := Function.update storage (slot curOffset 3)
    (mload signatures (i * SIGNATURE_LENGTH + 0x20))
  return Function.update storage (slot curOffset 4)
    (mload signatures (i * SIGNATURE_LENGTH + 0x40))

/-- The loop of `saveKeysSigs`; `i` keys are saved, and the next one gets the index `startIndex`. -/
def saveKeysSigsLoop (nodeOperatorId : Nat) (pubkeys signatures : Bytes) :
    Nat → Nat → Nat → Storage → Call RegistryError (Storage × Nat)
  | 0, _, startIndex, storage => return (storage, startIndex)
  | left + 1, i, startIndex, storage => do
    let storage ← saveKeySig storage pubkeys signatures (getKeyOffset nodeOperatorId startIndex) i
    saveKeysSigsLoop nodeOperatorId pubkeys signatures left (i + 1) (startIndex + 1) storage

/-- `saveKeysSigs`; it returns the new number of keys. -/
def saveKeysSigs (nodeOperatorId startIndex keysCount : Nat) (pubkeys signatures : Bytes) :
    Call RegistryError (Storage × Nat) := do
  require (0 < keysCount) .invalidKeysCount
  let endIndex ← safeAdd startIndex keysCount
  require (endIndex ≤ UINT64_MAX) .invalidKeysCount
  let pubkeysLength ← safeMul keysCount PUBKEY_LENGTH
  require (pubkeys.length = pubkeysLength) .lengthMismatch
  let signaturesLength ← safeMul keysCount SIGNATURE_LENGTH
  require (signatures.length = signaturesLength) .lengthMismatch
  saveKeysSigsLoop getKeyOffset nodeOperatorId pubkeys signatures keysCount 0 startIndex storage

/-! ## Removing keys -/

/-- Copy the words of one key to another place. -/
def copyKey (curOffset lastOffset : BitVec 256) : Nat → Storage → Storage
  | 0, storage => storage
  | j + 1, storage =>
    let storage := copyKey curOffset lastOffset j storage
    Function.update storage (slot curOffset j) (storage (slot lastOffset j))

/-- Clear the words of a key. -/
def clearKey (curOffset : BitVec 256) : Nat → Storage → Storage
  | 0, storage => storage
  | j + 1, storage => Function.update (clearKey curOffset j storage) (slot curOffset j) 0

/-- The body of the loop of `removeKeysSigs`: the last key moves to the place of the removed one. -/
def removeKeySig (nodeOperatorId index totalKeysCount : Nat) : Storage :=
  let curOffset := getKeyOffset nodeOperatorId index
  if index + 1 < totalKeysCount then
    let lastOffset := getKeyOffset nodeOperatorId (totalKeysCount - 1)
    clearKey lastOffset 5 (copyKey curOffset lastOffset 5 storage)
  else clearKey curOffset 5 storage

/-- The loop of `removeKeysSigs`, from the last index down. -/
def removeKeysSigsLoop (nodeOperatorId startIndex : Nat) :
    Nat → Nat → Storage → Storage × Nat
  | 0, totalKeysCount, storage => (storage, totalKeysCount)
  | left + 1, totalKeysCount, storage =>
    let storage :=
      removeKeySig storage getKeyOffset nodeOperatorId (startIndex + left) totalKeysCount
    removeKeysSigsLoop nodeOperatorId startIndex left (totalKeysCount - 1) storage

/-- `removeKeysSigs`; it returns the new number of keys. -/
def removeKeysSigs (nodeOperatorId startIndex keysCount totalKeysCount : Nat) :
    Call RegistryError (Storage × Nat) := do
  require (0 < keysCount) .invalidKeysCount
  let endIndex ← safeAdd startIndex keysCount
  require (endIndex ≤ totalKeysCount ∧ totalKeysCount ≤ UINT64_MAX) .invalidKeysCount
  return removeKeysSigsLoop getKeyOffset nodeOperatorId startIndex keysCount totalKeysCount storage

/-! ## Loading keys -/

/-- The body of the loop of `loadKeysSigs`: a key goes to position `position` of both buffers. -/
def loadKeySig (curOffset : BitVec 256) (position : Nat) (buffers : Bytes × Bytes) :
    Bytes × Bytes :=
  let pubkeysOfs := position * PUBKEY_LENGTH
  let pubkeys := mstore buffers.1 (pubkeysOfs + 0x10) (storage (slot curOffset 1) >>> 128)
  let pubkeys := mstore pubkeys pubkeysOfs (storage curOffset)
  let signaturesOfs := position * SIGNATURE_LENGTH
  let signatures := mstore buffers.2 signaturesOfs (storage (slot curOffset 2))
  let signatures := mstore signatures (signaturesOfs + 0x20) (storage (slot curOffset 3))
  let signatures := mstore signatures (signaturesOfs + 0x40) (storage (slot curOffset 4))
  (pubkeys, signatures)

/-- The loop of `loadKeysSigs`. -/
def loadKeysSigsLoop (nodeOperatorId startIndex bufOffset : Nat) :
    Nat → Nat → Bytes × Bytes → Bytes × Bytes
  | 0, _, buffers => buffers
  | left + 1, i, buffers =>
    loadKeysSigsLoop nodeOperatorId startIndex bufOffset left (i + 1)
      (loadKeySig storage (getKeyOffset nodeOperatorId (startIndex + i)) (bufOffset + i) buffers)

/-- `loadKeysSigs`; the buffers are those for the keys and for the signatures. -/
def loadKeysSigs (nodeOperatorId startIndex keysCount : Nat) (buffers : Bytes × Bytes)
    (bufOffset : Nat) : Bytes × Bytes :=
  loadKeysSigsLoop storage getKeyOffset nodeOperatorId startIndex bufOffset keysCount 0 buffers

/-- `initKeysSigsBuf` -/
def initKeysSigsBuf (count : Nat) : Call RegistryError (Bytes × Bytes) := do
  let pubkeysLength ← safeMul count PUBKEY_LENGTH
  let signaturesLength ← safeMul count SIGNATURE_LENGTH
  return (zeros pubkeysLength, zeros signaturesLength)

/-! ## What is stored and loaded -/

/-- The 48 bytes of the key with the given index. -/
def storedKey (nodeOperatorId index : Nat) : Bytes :=
  let offset := getKeyOffset nodeOperatorId index
  bytesOfWord (storage offset) ++ (bytesOfWord (storage (slot offset 1))).take 16

/-- The 96 bytes of its signature. -/
def storedSignature (nodeOperatorId index : Nat) : Bytes :=
  let offset := getKeyOffset nodeOperatorId index
  bytesOfWord (storage (slot offset 2)) ++ bytesOfWord (storage (slot offset 3)) ++
    bytesOfWord (storage (slot offset 4))

variable {storage getKeyOffset} {nodeOperatorId : Nat}

@[simp] theorem length_storedKey (index : Nat) :
    (storedKey storage getKeyOffset nodeOperatorId index).length = PUBKEY_LENGTH := by
  simp [storedKey, PUBKEY_LENGTH]

@[simp] theorem length_storedSignature (index : Nat) :
    (storedSignature storage getKeyOffset nodeOperatorId index).length = SIGNATURE_LENGTH := by
  simp [storedSignature, SIGNATURE_LENGTH]

/-- The keys of a range, one after the other. -/
def storedKeys (storage : Storage) (getKeyOffset : Nat → Nat → BitVec 256)
    (nodeOperatorId startIndex keysCount : Nat) : Bytes :=
  (List.range' startIndex keysCount).flatMap (storedKey storage getKeyOffset nodeOperatorId)

def storedSignatures (storage : Storage) (getKeyOffset : Nat → Nat → BitVec 256)
    (nodeOperatorId startIndex keysCount : Nat) : Bytes :=
  (List.range' startIndex keysCount).flatMap (storedSignature storage getKeyOffset nodeOperatorId)

theorem length_flatMap_const {f : Nat → Bytes} {k : Nat} (hf : ∀ i, (f i).length = k)
    (is : List Nat) : (is.flatMap f).length = is.length * k := by
  induction is with
  | nil => simp
  | cons i is ih =>
    rw [List.flatMap_cons, List.length_append, ih, hf, List.length_cons, Nat.succ_mul, Nat.add_comm]

@[simp] theorem length_storedKeys (startIndex keysCount : Nat) :
    (storedKeys storage getKeyOffset nodeOperatorId startIndex keysCount).length
      = keysCount * PUBKEY_LENGTH := by
  rw [storedKeys, length_flatMap_const length_storedKey, List.length_range']

@[simp] theorem length_storedSignatures (startIndex keysCount : Nat) :
    (storedSignatures storage getKeyOffset nodeOperatorId startIndex keysCount).length
      = keysCount * SIGNATURE_LENGTH := by
  rw [storedSignatures, length_flatMap_const length_storedSignature, List.length_range']

/-- Loading a key replaces what is at its position in both buffers, and nothing else. -/
theorem loadKeySig_append {keys signatures old old' post post' : Bytes} {index position : Nat}
    (hkeys : keys.length = position * PUBKEY_LENGTH)
    (hsignatures : signatures.length = position * SIGNATURE_LENGTH)
    (hold : old.length = PUBKEY_LENGTH) (hold' : old'.length = SIGNATURE_LENGTH) :
    loadKeySig storage (getKeyOffset nodeOperatorId index) position
        (keys ++ (old ++ post), signatures ++ (old' ++ post'))
      = (keys ++ (storedKey storage getKeyOffset nodeOperatorId index ++ post),
          signatures ++ (storedSignature storage getKeyOffset nodeOperatorId index ++ post')) := by
  have hsplit : ∀ (bs : Bytes) (k : Nat), bs = bs.take k ++ bs.drop k := fun bs k =>
    (List.take_append_drop k bs).symm
  unfold loadKeySig
  simp only [Prod.mk.injEq]
  constructor
  · -- the second part is written first, and its upper half is overwritten
    obtain ⟨low, high, rfl, hlow, hhigh⟩ : ∃ low high : Bytes,
        old = low ++ high ∧ low.length = 16 ∧ high.length = 32 := by
      refine ⟨old.take 16, old.drop 16, hsplit _ _, ?_, ?_⟩
      · rw [List.length_take, hold]
        rfl
      · rw [List.length_drop, hold]
        rfl
    have hofs : position * PUBKEY_LENGTH + 0x10 = (keys ++ low).length := by
      rw [List.length_append, hkeys, hlow]
    have hhalves : ∀ w : BitVec 256, (keys ++ low) ++ (bytesOfWord w ++ post)
        = keys ++ ((low ++ (bytesOfWord w).take 16) ++ ((bytesOfWord w).drop 16 ++ post)) := by
      intro w
      conv_lhs => rw [hsplit (bytesOfWord w) 16]
      simp only [List.append_assoc]
    rw [show keys ++ (low ++ high ++ post) = (keys ++ low) ++ (high ++ post) by
      simp only [List.append_assoc], hofs, mstore_append _ hhigh, ← hkeys, hhalves,
      mstore_append _ (by simp [hlow]), drop_bytesOfWord_shift]
    simp only [storedKey, List.append_assoc]
  · obtain ⟨first, second, third, rfl, hfirst, hsecond, hthird⟩ : ∃ first second third : Bytes,
        old' = first ++ (second ++ third) ∧ first.length = 32 ∧ second.length = 32 ∧
          third.length = 32 := by
      refine ⟨old'.take 32, (old'.drop 32).take 32, (old'.drop 32).drop 32, ?_, ?_, ?_, ?_⟩
      · rw [← hsplit, ← hsplit]
      · rw [List.length_take, hold']
        rfl
      · rw [List.length_take, List.length_drop, hold']
        rfl
      · rw [List.length_drop, List.length_drop, hold']
        rfl
    have hofs : ∀ w : BitVec 256, position * SIGNATURE_LENGTH + 0x20
        = (signatures ++ bytesOfWord w).length := by
      intro w
      rw [List.length_append, length_bytesOfWord, hsignatures]
    have hofs' : ∀ w w' : BitVec 256, position * SIGNATURE_LENGTH + 0x40
        = ((signatures ++ bytesOfWord w) ++ bytesOfWord w').length := by
      intro w w'
      rw [List.length_append, List.length_append, length_bytesOfWord, length_bytesOfWord,
        hsignatures, Nat.add_assoc]
    generalize hw₂ : storage (slot (getKeyOffset nodeOperatorId index) 2) = w₂
    generalize hw₃ : storage (slot (getKeyOffset nodeOperatorId index) 3) = w₃
    rw [List.append_assoc, List.append_assoc, ← hsignatures, mstore_append _ hfirst,
      ← List.append_assoc, hsignatures, hofs w₂, mstore_append _ hsecond, ← List.append_assoc,
      hofs' w₂ w₃, mstore_append _ hthird]
    simp only [storedSignature, hw₂, hw₃, List.append_assoc]

/-- The induction is over the keys that are left to load. -/
theorem loadKeysSigsLoop_append {startIndex bufOffset left i : Nat}
    {keys signatures old old' post post' : Bytes}
    (hkeys : keys.length = (bufOffset + i) * PUBKEY_LENGTH)
    (hsignatures : signatures.length = (bufOffset + i) * SIGNATURE_LENGTH)
    (hold : old.length = left * PUBKEY_LENGTH) (hold' : old'.length = left * SIGNATURE_LENGTH) :
    loadKeysSigsLoop storage getKeyOffset nodeOperatorId startIndex bufOffset left i
        (keys ++ (old ++ post), signatures ++ (old' ++ post'))
      = (keys ++ (storedKeys storage getKeyOffset nodeOperatorId (startIndex + i) left ++ post),
          signatures ++
            (storedSignatures storage getKeyOffset nodeOperatorId (startIndex + i) left
              ++ post')) := by
  induction left generalizing i keys signatures old old' with
  | zero =>
    rw [Nat.zero_mul, List.length_eq_zero_iff] at hold hold'
    subst hold hold'
    rfl
  | succ left ih =>
    have hsplit : ∀ {bs : Bytes} {k : Nat}, bs.length = (left + 1) * k →
        ∃ head tail : Bytes, bs = head ++ tail ∧ head.length = k ∧ tail.length = left * k := by
      intro bs k hlength
      rw [Nat.succ_mul] at hlength
      refine ⟨bs.take k, bs.drop k, (List.take_append_drop k bs).symm, ?_, ?_⟩
      · rw [List.length_take, hlength]
        omega
      · rw [List.length_drop, hlength]
        omega
    obtain ⟨head, tail, rfl, hhead, htail⟩ := hsplit hold
    obtain ⟨head', tail', rfl, hhead', htail'⟩ := hsplit hold'
    rw [loadKeysSigsLoop, List.append_assoc, List.append_assoc,
      loadKeySig_append hkeys hsignatures hhead hhead', ← List.append_assoc keys,
      ← List.append_assoc signatures, ih ?_ ?_ htail htail']
    · simp only [storedKeys, storedSignatures, List.range'_succ, List.flatMap_cons,
        List.append_assoc, Nat.add_assoc]
    · rw [List.length_append, length_storedKey, hkeys, ← Nat.succ_mul]
      rfl
    · rw [List.length_append, length_storedSignature, hsignatures, ← Nat.succ_mul]
      rfl

/--
**Loading keys puts the stored keys of the range at their places in the buffers**, and leaves
everything before and after these places alone.
-/
theorem loadKeysSigs_append {startIndex keysCount bufOffset : Nat}
    {keys signatures old old' post post' : Bytes}
    (hkeys : keys.length = bufOffset * PUBKEY_LENGTH)
    (hsignatures : signatures.length = bufOffset * SIGNATURE_LENGTH)
    (hold : old.length = keysCount * PUBKEY_LENGTH)
    (hold' : old'.length = keysCount * SIGNATURE_LENGTH) :
    loadKeysSigs storage getKeyOffset nodeOperatorId startIndex keysCount
        (keys ++ (old ++ post), signatures ++ (old' ++ post')) bufOffset
      = (keys ++ (storedKeys storage getKeyOffset nodeOperatorId startIndex keysCount ++ post),
          signatures ++
            (storedSignatures storage getKeyOffset nodeOperatorId startIndex keysCount
              ++ post')) := by
  unfold loadKeysSigs
  exact loadKeysSigsLoop_append hkeys hsignatures hold hold'

/-- Buffers of zeros are filled from the front. -/
theorem loadKeysSigs_zeros {startIndex keysCount bufOffset k : Nat} {keys signatures : Bytes}
    (hkeys : keys.length = bufOffset * PUBKEY_LENGTH)
    (hsignatures : signatures.length = bufOffset * SIGNATURE_LENGTH) :
    loadKeysSigs storage getKeyOffset nodeOperatorId startIndex keysCount
        (keys ++ zeros ((keysCount + k) * PUBKEY_LENGTH),
          signatures ++ zeros ((keysCount + k) * SIGNATURE_LENGTH)) bufOffset
      = (keys ++ storedKeys storage getKeyOffset nodeOperatorId startIndex keysCount
            ++ zeros (k * PUBKEY_LENGTH),
          signatures ++ storedSignatures storage getKeyOffset nodeOperatorId startIndex keysCount
            ++ zeros (k * SIGNATURE_LENGTH)) := by
  rw [Nat.add_mul, Nat.add_mul, zeros_add, zeros_add,
    loadKeysSigs_append hkeys hsignatures (length_zeros _) (length_zeros _), List.append_assoc,
    List.append_assoc]

end SigningKeys

end Catalist

import Catalist.Lib.IndexTable
import Catalist.Registry.Base

/-!
# The keys of an operator as a list

What is stored for an operator with `n` keys is a list of `n` keys with their signatures, as long as
the hash that places a key keeps the words of different keys apart (`Separate`). Saving keys appends
to the list, and removing a range of them removes it from the list (`IndexTable.removeRange`); the
lists of the other operators stay as they are.
-/

namespace Catalist

open Solidity ByteBuffer IndexTable

namespace SigningKeys

/-- A public key with its signature. -/
@[ext]
structure SigningKey where
  pubkey : Bytes
  signature : Bytes
  length_pubkey : pubkey.length = PUBKEY_LENGTH
  length_signature : signature.length = SIGNATURE_LENGTH
deriving DecidableEq

/--
The hash keeps keys apart: the five words of one key are none of the words of another. Operators are
at most `MAX_NODE_OPERATORS_COUNT`, and an index has 64 bits.
-/
def Separate (getKeyOffset : Nat → Nat → BitVec 256) : Prop :=
  ∀ id id' index index' : Nat, id < NodeOperatorsRegistry.MAX_NODE_OPERATORS_COUNT →
    id' < NodeOperatorsRegistry.MAX_NODE_OPERATORS_COUNT → index < 2 ^ 64 → index' < 2 ^ 64 →
    (id, index) ≠ (id', index') → ∀ j j' : Nat, j < 5 → j' < 5 →
      slot (getKeyOffset id index) j ≠ slot (getKeyOffset id' index') j'

/-- What is stored for a key. -/
def storedSigningKey (storage : Storage) (getKeyOffset : Nat → Nat → BitVec 256)
    (nodeOperatorId index : Nat) : SigningKey where
  pubkey := storedKey storage getKeyOffset nodeOperatorId index
  signature := storedSignature storage getKeyOffset nodeOperatorId index
  length_pubkey := length_storedKey index
  length_signature := length_storedSignature index

/-- The first `n` keys of an operator. -/
def keyList (storage : Storage) (getKeyOffset : Nat → Nat → BitVec 256) (nodeOperatorId n : Nat) :
    List SigningKey :=
  (List.range n).map (storedSigningKey storage getKeyOffset nodeOperatorId)

/-- The key at position `i` of two buffers. -/
def readSigningKey (pubkeys signatures : Bytes) (i : Nat) : SigningKey where
  pubkey := readBytes pubkeys (i * PUBKEY_LENGTH) PUBKEY_LENGTH
  signature := readBytes signatures (i * SIGNATURE_LENGTH) SIGNATURE_LENGTH
  length_pubkey := length_readBytes ..
  length_signature := length_readBytes ..

/-- The first `n` keys of two buffers. -/
def readSigningKeys (pubkeys signatures : Bytes) (n : Nat) : List SigningKey :=
  (List.range n).map (readSigningKey pubkeys signatures)

variable {storage storage' : Storage} {getKeyOffset : Nat → Nat → BitVec 256} {id index : Nat}

@[simp] theorem length_keyList (n : Nat) : (keyList storage getKeyOffset id n).length = n := by
  rw [keyList, List.length_map, List.length_range]

theorem getElem?_keyList (n i : Nat) :
    (keyList storage getKeyOffset id n)[i]?
      = if i < n then some (storedSigningKey storage getKeyOffset id i) else none := by
  rw [keyList, List.getElem?_map]
  split
  · next h => rw [List.getElem?_range h, Option.map_some]
  · next h =>
    rw [List.getElem?_eq_none (by simpa using h)]
    rfl

theorem keyList_succ (n : Nat) :
    keyList storage getKeyOffset id (n + 1)
      = keyList storage getKeyOffset id n ++ [storedSigningKey storage getKeyOffset id n] := by
  rw [keyList, List.range_succ, List.map_append]
  rfl

theorem keyList_take {m n : Nat} (h : m ≤ n) :
    (keyList storage getKeyOffset id n).take m = keyList storage getKeyOffset id m := by
  rw [keyList, ← List.map_take, List.take_range, Nat.min_eq_left h]
  rfl

theorem keyList_congr {n : Nat} (h : ∀ i < n, storedSigningKey storage' getKeyOffset id i
      = storedSigningKey storage getKeyOffset id i) :
    keyList storage' getKeyOffset id n = keyList storage getKeyOffset id n :=
  List.map_congr_left fun i hi => h i (List.mem_range.mp hi)

/-! ## Words -/

theorem UINT64_MAX_le : UINT64_MAX ≤ 2 ^ 64 := by decide

theorem slot_zero (offset : BitVec 256) : slot offset 0 = offset := BitVec.add_zero offset

theorem slot_ne {offset : BitVec 256} {j j' : Nat} (hj : j < 5) (hj' : j' < 5) (hne : j ≠ j') :
    slot offset j ≠ slot offset j' := by
  intro heq
  have hword : BitVec.ofNat 256 j = BitVec.ofNat 256 j' := by
    unfold slot at heq
    exact (BitVec.add_right_inj offset).mp heq
  have hnat := congrArg BitVec.toNat hword
  rw [BitVec.toNat_ofNat, BitVec.toNat_ofNat, Nat.mod_eq_of_lt (by omega),
    Nat.mod_eq_of_lt (by omega)] at hnat
  exact hne hnat

/-- A word that is none of the words of a key. -/
def Outside (w offset : BitVec 256) : Prop := ∀ j < 5, w ≠ slot offset j

theorem Separate.outside (hsep : Separate getKeyOffset) {id' index' j : Nat}
    (hid : id < NodeOperatorsRegistry.MAX_NODE_OPERATORS_COUNT)
    (hid' : id' < NodeOperatorsRegistry.MAX_NODE_OPERATORS_COUNT) (hindex : index < 2 ^ 64)
    (hindex' : index' < 2 ^ 64) (hne : (id, index) ≠ (id', index')) (hj : j < 5) :
    Outside (slot (getKeyOffset id index) j) (getKeyOffset id' index') :=
  fun j' hj' => hsep id id' index index' hid hid' hindex hindex' hne j j' hj hj'

/-- A key is what its five words are. -/
theorem storedSigningKey_congr {id' index' : Nat}
    (h : ∀ j < 5, storage' (slot (getKeyOffset id' index') j)
      = storage (slot (getKeyOffset id index) j)) :
    storedSigningKey storage' getKeyOffset id' index'
      = storedSigningKey storage getKeyOffset id index := by
  have h₀ := h 0 (by decide)
  rw [slot_zero, slot_zero] at h₀
  have h₁ := h 1 (by decide)
  have h₂ := h 2 (by decide)
  have h₃ := h 3 (by decide)
  have h₄ := h 4 (by decide)
  simp only [storedSigningKey, storedKey, storedSignature, h₀, h₁, h₂, h₃, h₄]

/-- Changing the words of one key leaves the other keys alone. -/
theorem storedSigningKey_of_outside (hsep : Separate getKeyOffset) {id' index' : Nat}
    (hid : id < NodeOperatorsRegistry.MAX_NODE_OPERATORS_COUNT)
    (hid' : id' < NodeOperatorsRegistry.MAX_NODE_OPERATORS_COUNT) (hindex : index < 2 ^ 64)
    (hindex' : index' < 2 ^ 64) (hne : (id', index') ≠ (id, index))
    (hframe : ∀ w, Outside w (getKeyOffset id index) → storage' w = storage w) :
    storedSigningKey storage' getKeyOffset id' index'
      = storedSigningKey storage getKeyOffset id' index' :=
  storedSigningKey_congr fun _ hj =>
    hframe _ (hsep.outside hid' hid hindex' hindex hne hj)

/-! ## Saving -/

variable {pubkeys signatures : Bytes}

theorem saveKeySig_frame {offset : BitVec 256} {i : Nat}
    (h : saveKeySig storage pubkeys signatures offset i = .ok storage') :
    ∀ w, Outside w offset → storage' w = storage w := by
  simp only [saveKeySig, bind_eq_ok, require_eq_ok, pure_eq_ok] at h
  obtain ⟨_, -, rfl⟩ := h
  intro w hw
  have hw₀ := hw 0 (by decide)
  rw [slot_zero] at hw₀
  rw [Function.update_of_ne (hw 4 (by decide)), Function.update_of_ne (hw 3 (by decide)),
    Function.update_of_ne (hw 2 (by decide)), Function.update_of_ne (hw 1 (by decide)),
    Function.update_of_ne hw₀]

/-- The five words that are written. -/
theorem saveKeySig_words {offset : BitVec 256} {i : Nat}
    (h : saveKeySig storage pubkeys signatures offset i = .ok storage') :
    storage' offset = mload pubkeys (i * PUBKEY_LENGTH) ∧
    storage' (slot offset 1) = mload pubkeys (i * PUBKEY_LENGTH + 0x10) <<< 128 ∧
    storage' (slot offset 2) = mload signatures (i * SIGNATURE_LENGTH) ∧
    storage' (slot offset 3) = mload signatures (i * SIGNATURE_LENGTH + 0x20) ∧
    storage' (slot offset 4) = mload signatures (i * SIGNATURE_LENGTH + 0x40) := by
  simp only [saveKeySig, bind_eq_ok, require_eq_ok, pure_eq_ok] at h
  obtain ⟨_, -, rfl⟩ := h
  have hzero : ∀ j, 0 < j → j < 5 → offset ≠ slot offset j := by
    intro j hpos hj
    have hne : slot offset 0 ≠ slot offset j := slot_ne (Nat.zero_lt_of_lt hj) hj hpos.ne
    rwa [slot_zero] at hne
  refine ⟨?_, ?_, ?_, ?_, ?_⟩
  · rw [Function.update_of_ne (hzero 4 (by decide) (by decide)),
      Function.update_of_ne (hzero 3 (by decide) (by decide)),
      Function.update_of_ne (hzero 2 (by decide) (by decide)),
      Function.update_of_ne (hzero 1 (by decide) (by decide)), Function.update_self]
  · rw [Function.update_of_ne (slot_ne (by decide) (by decide) (by decide)),
      Function.update_of_ne (slot_ne (by decide) (by decide) (by decide)),
      Function.update_of_ne (slot_ne (by decide) (by decide) (by decide)), Function.update_self]
  · rw [Function.update_of_ne (slot_ne (by decide) (by decide) (by decide)),
      Function.update_of_ne (slot_ne (by decide) (by decide) (by decide)), Function.update_self]
  · rw [Function.update_of_ne (slot_ne (by decide) (by decide) (by decide)), Function.update_self]
  · rw [Function.update_self]

/-- What is stored is what is read from the buffers. -/
theorem storedSigningKey_of_saveKeySig {i : Nat}
    (h : saveKeySig storage pubkeys signatures (getKeyOffset id index) i = .ok storage')
    (hpubkeys : i * PUBKEY_LENGTH + PUBKEY_LENGTH ≤ pubkeys.length)
    (hsignatures : i * SIGNATURE_LENGTH + SIGNATURE_LENGTH ≤ signatures.length) :
    storedSigningKey storage' getKeyOffset id index = readSigningKey pubkeys signatures i := by
  obtain ⟨h₀, h₁, h₂, h₃, h₄⟩ := saveKeySig_words h
  unfold PUBKEY_LENGTH at hpubkeys
  unfold SIGNATURE_LENGTH at hsignatures
  -- both sides are consecutive parts of the buffers
  have hsplit : ∀ (buf : Bytes) (o m n : Nat),
      (buf.drop o).take m ++ (buf.drop (o + m)).take n = (buf.drop o).take (m + n) := by
    intro buf o m n
    rw [List.take_add, List.drop_drop]
  ext1
  · show bytesOfWord (storage' _) ++ (bytesOfWord (storage' _)).take 16 = readBytes _ _ _
    rw [h₀, h₁, take_bytesOfWord_shift, bytesOfWord_mload (by unfold PUBKEY_LENGTH; omega),
      bytesOfWord_mload (by unfold PUBKEY_LENGTH; omega),
      readBytes_of_le (by unfold PUBKEY_LENGTH; omega), List.drop_take, List.drop_drop,
      Nat.add_assoc, hsplit]
    rfl
  · show bytesOfWord (storage' _) ++ bytesOfWord (storage' _) ++ bytesOfWord (storage' _)
      = readBytes _ _ _
    rw [h₂, h₃, h₄, bytesOfWord_mload (by unfold SIGNATURE_LENGTH; omega),
      bytesOfWord_mload (by unfold SIGNATURE_LENGTH; omega),
      bytesOfWord_mload (by unfold SIGNATURE_LENGTH; omega),
      readBytes_of_le (by unfold SIGNATURE_LENGTH; omega), hsplit, hsplit]
    rfl

/--
The loop appends the keys that are left in the buffers. The induction is over these keys; the
index of the next one is the length of the list.
-/
theorem keyList_of_saveKeysSigsLoop (hsep : Separate getKeyOffset) {left i startIndex n : Nat}
    (hid : id < NodeOperatorsRegistry.MAX_NODE_OPERATORS_COUNT) (hindex : startIndex + left ≤ 2 ^ 64)
    (hpubkeys : (i + left) * PUBKEY_LENGTH ≤ pubkeys.length)
    (hsignatures : (i + left) * SIGNATURE_LENGTH ≤ signatures.length)
    (h : saveKeysSigsLoop getKeyOffset id pubkeys signatures left i startIndex storage
      = .ok (storage', n)) :
    n = startIndex + left ∧
    keyList storage' getKeyOffset id n = keyList storage getKeyOffset id startIndex
      ++ (List.range' i left).map (readSigningKey pubkeys signatures) ∧
    ∀ id' index', id' < NodeOperatorsRegistry.MAX_NODE_OPERATORS_COUNT → index' < 2 ^ 64 →
      id' ≠ id → storedSigningKey storage' getKeyOffset id' index'
        = storedSigningKey storage getKeyOffset id' index' := by
  induction left generalizing i startIndex storage with
  | zero =>
    simp only [saveKeysSigsLoop, pure_eq_ok, Prod.mk.injEq] at h
    obtain ⟨rfl, rfl⟩ := h
    exact ⟨rfl, (List.append_nil _).symm, fun _ _ _ _ _ => rfl⟩
  | succ left ih =>
    simp only [saveKeysSigsLoop, bind_eq_ok] at h
    obtain ⟨storage₁, hsave, hrest⟩ := h
    have hmul : ∀ k, i * k + k ≤ (i + (left + 1)) * k := fun k => by
      rw [← Nat.succ_mul]
      exact Nat.mul_le_mul_right k (by omega)
    have hstored := storedSigningKey_of_saveKeySig hsave ((hmul _).trans hpubkeys)
      ((hmul _).trans hsignatures)
    have hframe := saveKeySig_frame hsave
    have hshift : ∀ k, (i + 1 + left) * k = (i + (left + 1)) * k := fun k => by
      rw [Nat.add_assoc, Nat.add_comm 1 left]
    obtain ⟨hn, hlist, hother⟩ := ih (by omega) (hshift _ ▸ hpubkeys) (hshift _ ▸ hsignatures) hrest
    refine ⟨by omega, ?_, fun id' index' hid' hindex' hne => ?_⟩
    · -- the key is written behind the list, so the list is still what it was
      have hbefore : keyList storage₁ getKeyOffset id startIndex
          = keyList storage getKeyOffset id startIndex :=
        keyList_congr fun j hj => storedSigningKey_of_outside hsep hid hid (by omega) (by omega)
          (fun heq => hj.ne (Prod.mk.inj heq).2) hframe
      rw [hlist, keyList_succ, hbefore, hstored, List.range'_succ, List.map_cons,
        List.append_assoc]
      rfl
    · rw [hother id' index' hid' hindex' hne]
      exact storedSigningKey_of_outside hsep hid hid' (by omega) hindex'
        (fun heq => hne (Prod.mk.inj heq).1) hframe

/-- **Saving keys appends them.** -/
theorem keyList_of_saveKeysSigs (hsep : Separate getKeyOffset) {startIndex keysCount n : Nat}
    (hid : id < NodeOperatorsRegistry.MAX_NODE_OPERATORS_COUNT)
    (h : saveKeysSigs storage getKeyOffset id startIndex keysCount pubkeys signatures
      = .ok (storage', n)) :
    n = startIndex + keysCount ∧
    keyList storage' getKeyOffset id n = keyList storage getKeyOffset id startIndex
      ++ readSigningKeys pubkeys signatures keysCount ∧
    ∀ id' index', id' < NodeOperatorsRegistry.MAX_NODE_OPERATORS_COUNT → index' < 2 ^ 64 →
      id' ≠ id → storedSigningKey storage' getKeyOffset id' index'
        = storedSigningKey storage getKeyOffset id' index' := by
  simp only [saveKeysSigs, safeAdd, safeMul, bind_eq_ok, require_eq_ok, pure_eq_ok] at h
  obtain ⟨_, _, _, ⟨_, _, rfl⟩, _, hle, _, ⟨_, _, rfl⟩, _, hpubkeys, _, ⟨_, _, rfl⟩, _, hsignatures,
    hloop⟩ := h
  have hindex : startIndex + keysCount ≤ 2 ^ 64 := Nat.le_trans hle UINT64_MAX_le
  obtain ⟨hn, hlist, hother⟩ := keyList_of_saveKeysSigsLoop hsep hid hindex
    (by rw [Nat.zero_add]; exact hpubkeys.ge) (by rw [Nat.zero_add]; exact hsignatures.ge) hloop
  refine ⟨hn, ?_, hother⟩
  rw [hlist, ← List.range_eq_range']
  rfl

/-! ## Removing -/

/-- The words of one key are those of another place, and nothing else changes. -/
theorem copyKey_apply (storage : Storage) {offset lastOffset : BitVec 256}
    (hapart : ∀ j j', j < 5 → j' < 5 → slot lastOffset j ≠ slot offset j') {n : Nat} (hn : n ≤ 5) :
    (∀ j < n, copyKey offset lastOffset n storage (slot offset j) = storage (slot lastOffset j)) ∧
    ∀ w, (∀ j < n, w ≠ slot offset j) → copyKey offset lastOffset n storage w = storage w := by
  induction n with
  | zero => exact ⟨fun j hj => absurd hj (Nat.not_lt_zero j), fun _ _ => rfl⟩
  | succ n ih =>
    obtain ⟨hcopied, hframe⟩ := ih (by omega)
    refine ⟨fun j hj => ?_, fun w hw => ?_⟩
    · rw [copyKey]
      rcases Nat.lt_succ_iff_lt_or_eq.mp hj with hlt | rfl
      · rw [Function.update_of_ne (slot_ne (by omega) (by omega) hlt.ne)]
        exact hcopied j hlt
      · rw [Function.update_self]
        exact hframe _ fun j' hj' => hapart j j' (by omega) (by omega)
    · rw [copyKey, Function.update_of_ne (hw n (Nat.lt_succ_self n))]
      exact hframe w fun j hj => hw j (Nat.lt_succ_of_lt hj)

theorem clearKey_frame {offset : BitVec 256} {n : Nat} :
    ∀ w, (∀ j < n, w ≠ slot offset j) → clearKey offset n storage w = storage w := by
  induction n with
  | zero => exact fun _ _ => rfl
  | succ n ih =>
    intro w hw
    rw [clearKey, Function.update_of_ne (hw n (Nat.lt_succ_self n))]
    exact ih w fun j hj => hw j (Nat.lt_succ_of_lt hj)

/-- The last key takes the place of the removed one, and the others stay. -/
theorem storedSigningKey_of_removeKeySig (hsep : Separate getKeyOffset) {total : Nat}
    (hid : id < NodeOperatorsRegistry.MAX_NODE_OPERATORS_COUNT) (hindex : index < total)
    (htotal : total ≤ 2 ^ 64) {id' index' : Nat}
    (hid' : id' < NodeOperatorsRegistry.MAX_NODE_OPERATORS_COUNT) (hindex' : index' < 2 ^ 64)
    (hne : id' ≠ id ∨ index' + 1 < total) :
    storedSigningKey (removeKeySig storage getKeyOffset id index total) getKeyOffset id' index'
      = if id' = id ∧ index' = index then storedSigningKey storage getKeyOffset id (total - 1)
        else storedSigningKey storage getKeyOffset id' index' := by
  have hlast : (id', index') ≠ (id, total - 1) := by
    rintro heq
    obtain ⟨rfl, rfl⟩ := Prod.mk.inj heq
    rcases hne with hne | hne
    · exact hne rfl
    · omega
  have hcleared : ∀ (st : Storage) (j : Nat), j < 5 →
      clearKey (getKeyOffset id (total - 1)) 5 st (slot (getKeyOffset id' index') j)
        = st (slot (getKeyOffset id' index') j) := fun st j hj =>
    clearKey_frame _ (hsep.outside hid' hid hindex' (by omega) hlast hj)
  unfold removeKeySig
  simp only
  split
  · next hlt =>
    have hapart : ∀ j j', j < 5 → j' < 5 →
        slot (getKeyOffset id (total - 1)) j ≠ slot (getKeyOffset id index) j' :=
      fun j j' hj hj' => hsep id id (total - 1) index hid hid (by omega) (by omega)
        (fun heq => by have := (Prod.mk.inj heq).2; omega) j j' hj hj'
    obtain ⟨hcopied, hframe⟩ := copyKey_apply storage hapart (Nat.le_refl 5)
    split
    · next hsame =>
      obtain ⟨rfl, rfl⟩ := hsame
      exact storedSigningKey_congr fun j hj => (hcleared _ j hj).trans (hcopied j hj)
    · next hother =>
      refine storedSigningKey_congr fun j hj => (hcleared _ j hj).trans (hframe _ ?_)
      exact hsep.outside hid' hid hindex' (by omega)
        (fun heq => hother ⟨(Prod.mk.inj heq).1, (Prod.mk.inj heq).2⟩) hj
  · next hge =>
    -- the removed key is the last one
    obtain rfl : index = total - 1 := by omega
    rw [if_neg (fun hsame => hlast (by rw [hsame.1, hsame.2]))]
    exact storedSigningKey_congr fun j hj => hcleared _ j hj

theorem keyList_of_removeKeySig (hsep : Separate getKeyOffset) {total : Nat}
    (hid : id < NodeOperatorsRegistry.MAX_NODE_OPERATORS_COUNT) (hindex : index < total)
    (htotal : total ≤ 2 ^ 64) :
    keyList (removeKeySig storage getKeyOffset id index total) getKeyOffset id (total - 1)
      = swapRemove (keyList storage getKeyOffset id total) index := by
  have hlength : (keyList storage getKeyOffset id total).length = total := length_keyList total
  have hlast : (keyList storage getKeyOffset id total)[(keyList storage getKeyOffset id
      total).length - 1]? = some (storedSigningKey storage getKeyOffset id (total - 1)) := by
    rw [hlength, getElem?_keyList, if_pos (by omega)]
  refine List.ext_getElem? fun i => ?_
  rw [getElem?_keyList, getElem?_swapRemove (by omega) hlast, hlength]
  by_cases hi : i < total - 1
  · rw [if_pos hi, if_pos (by omega), storedSigningKey_of_removeKeySig hsep hid hindex htotal hid
      (by omega) (.inr (by omega))]
    rcases eq_or_ne i index with rfl | hne
    · rw [if_pos ⟨rfl, rfl⟩, if_pos rfl]
    · rw [if_neg (fun h => hne h.2), if_neg hne, getElem?_keyList, if_pos (by omega)]
  · rw [if_neg hi, if_neg (by omega)]

/-- The induction is over the keys that are left to remove. -/
theorem keyList_of_removeKeysSigsLoop (hsep : Separate getKeyOffset) {startIndex left total n : Nat}
    (hid : id < NodeOperatorsRegistry.MAX_NODE_OPERATORS_COUNT) (hend : startIndex + left ≤ total)
    (htotal : total ≤ 2 ^ 64)
    (h : removeKeysSigsLoop getKeyOffset id startIndex left total storage = (storage', n)) :
    n = total - left ∧
    keyList storage' getKeyOffset id n
      = removeRange startIndex left (keyList storage getKeyOffset id total) ∧
    ∀ id' index', id' < NodeOperatorsRegistry.MAX_NODE_OPERATORS_COUNT → index' < 2 ^ 64 →
      id' ≠ id → storedSigningKey storage' getKeyOffset id' index'
        = storedSigningKey storage getKeyOffset id' index' := by
  induction left generalizing total storage with
  | zero =>
    obtain ⟨rfl, rfl⟩ := Prod.mk.inj h
    exact ⟨rfl, rfl, fun _ _ _ _ _ => rfl⟩
  | succ left ih =>
    rw [removeKeysSigsLoop] at h
    obtain ⟨hn, hlist, hother⟩ := ih (by omega) (by omega) h
    refine ⟨by omega, ?_, fun id' index' hid' hindex' hne => ?_⟩
    · rw [hlist, keyList_of_removeKeySig hsep hid (by omega) htotal, removeRange]
    · rw [hother id' index' hid' hindex' hne, storedSigningKey_of_removeKeySig hsep hid (by omega)
        htotal hid' hindex' (.inl hne), if_neg (fun hsame => hne hsame.1)]

/-- **Removing keys removes their range from the list.** -/
theorem keyList_of_removeKeysSigs (hsep : Separate getKeyOffset) {startIndex keysCount total n : Nat}
    (hid : id < NodeOperatorsRegistry.MAX_NODE_OPERATORS_COUNT)
    (h : removeKeysSigs storage getKeyOffset id startIndex keysCount total = .ok (storage', n)) :
    startIndex + keysCount ≤ total ∧ n = total - keysCount ∧
    keyList storage' getKeyOffset id n
      = removeRange startIndex keysCount (keyList storage getKeyOffset id total) ∧
    ∀ id' index', id' < NodeOperatorsRegistry.MAX_NODE_OPERATORS_COUNT → index' < 2 ^ 64 →
      id' ≠ id → storedSigningKey storage' getKeyOffset id' index'
        = storedSigningKey storage getKeyOffset id' index' := by
  simp only [removeKeysSigs, safeAdd, bind_eq_ok, require_eq_ok, pure_eq_ok] at h
  obtain ⟨_, _, _, ⟨_, _, rfl⟩, _, ⟨hend, htotal⟩, hloop⟩ := h
  exact ⟨hend, keyList_of_removeKeysSigsLoop hsep hid hend
    (Nat.le_trans htotal UINT64_MAX_le) hloop⟩

/-! ## Loading -/

theorem keyList_drop_take {start n total : Nat} (h : start + n ≤ total) :
    ((keyList storage getKeyOffset id total).drop start).take n
      = (List.range' start n).map (storedSigningKey storage getKeyOffset id) := by
  rw [keyList, ← List.map_drop, ← List.map_take, List.range_eq_range', List.drop_range',
    List.take_range'_of_length_ge (by omega), Nat.zero_add, Nat.mul_one]

/--
**Loading keys is exact**: the keys of the range are put at their places in both buffers, and all
bytes before and after these places stay.
-/
theorem loadKeysSigs_eq {start n total bufOffset : Nat} {buffers : Bytes × Bytes}
    (hrange : start + n ≤ total)
    (hpubkeys : (bufOffset + n) * PUBKEY_LENGTH ≤ buffers.1.length)
    (hsignatures : (bufOffset + n) * SIGNATURE_LENGTH ≤ buffers.2.length) :
    loadKeysSigs storage getKeyOffset id start n buffers bufOffset
      = (buffers.1.take (bufOffset * PUBKEY_LENGTH)
          ++ ((((keyList storage getKeyOffset id total).drop start).take n).flatMap
              SigningKey.pubkey ++ buffers.1.drop ((bufOffset + n) * PUBKEY_LENGTH)),
        buffers.2.take (bufOffset * SIGNATURE_LENGTH)
          ++ ((((keyList storage getKeyOffset id total).drop start).take n).flatMap
              SigningKey.signature ++ buffers.2.drop ((bufOffset + n) * SIGNATURE_LENGTH))) := by
  obtain ⟨pubkeys, signatures⟩ := buffers
  have hsplit : ∀ (bs : Bytes) (k : Nat), bs = bs.take (bufOffset * k)
      ++ ((bs.drop (bufOffset * k)).take (n * k) ++ bs.drop ((bufOffset + n) * k)) := by
    intro bs k
    rw [Nat.add_mul, ← drop_eq_take_append, List.take_append_drop]
  have hhead : ∀ {bs : Bytes} {k : Nat}, (bufOffset + n) * k ≤ bs.length →
      (bs.take (bufOffset * k)).length = bufOffset * k := by
    intro bs k hle
    rw [Nat.add_mul] at hle
    rw [List.length_take]
    omega
  have hmiddle : ∀ {bs : Bytes} {k : Nat}, (bufOffset + n) * k ≤ bs.length →
      ((bs.drop (bufOffset * k)).take (n * k)).length = n * k := by
    intro bs k hle
    rw [Nat.add_mul] at hle
    exact length_take_drop hle
  rw [keyList_drop_take hrange, List.flatMap_map, List.flatMap_map]
  conv_lhs => rw [hsplit pubkeys PUBKEY_LENGTH, hsplit signatures SIGNATURE_LENGTH]
  exact loadKeysSigs_append (hhead hpubkeys) (hhead hsignatures) (hmiddle hpubkeys)
    (hmiddle hsignatures)

end SigningKeys

end Catalist

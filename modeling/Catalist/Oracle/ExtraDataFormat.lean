import Catalist.Oracle.AccountingOracle
import Mathlib.Data.Prod.Lex
import Mathlib.Order.Nat

/-!
# The format of extra data

The documented format: items that are numbered from zero on, each with a type, a module and the
counts of some node operators, sorted by type, module and first node operator.
-/

namespace Catalist

open Solidity ByteBuffer AccountingOracle

/-- `itemType` -/
inductive ExtraDataType where
  | stuckValidators
  | exitedValidators
deriving DecidableEq, Repr

def ExtraDataType.code : ExtraDataType → Nat
  | .stuckValidators => EXTRA_DATA_TYPE_STUCK_VALIDATORS
  | .exitedValidators => EXTRA_DATA_TYPE_EXITED_VALIDATORS

/-- An item of the extra data: the counts of some node operators of one module. -/
structure ExtraDataItem where
  itemType : ExtraDataType
  moduleId : Nat
  nodeOperatorIds : List Nat
  validatorsCounts : List Nat
  moduleId_pos : 0 < moduleId
  moduleId_lt : moduleId < 2 ^ 24
  nodeOperatorIds_ne : nodeOperatorIds ≠ []
  length_lt : nodeOperatorIds.length < 2 ^ 64
  length_eq : validatorsCounts.length = nodeOperatorIds.length
  nodeOperatorIds_lt : ∀ id ∈ nodeOperatorIds, id < 2 ^ 64
  validatorsCounts_lt : ∀ count ∈ validatorsCounts, count < 2 ^ 128

namespace ExtraDataItem

variable (item : ExtraDataItem)

/-- The ids of the node operators, packed tightly. -/
def packedIds : Bytes := item.nodeOperatorIds.flatMap (bytesOfNat 8)

/-- The counts, packed tightly. -/
def packedCounts : Bytes := item.validatorsCounts.flatMap (bytesOfNat 16)

/-- `| itemIndex | itemType | moduleId | nodeOpsCount | nodeOperatorIds | validatorsCounts |` -/
def encode (index : Nat) : Bytes :=
  bytesOfNat 3 index ++ bytesOfNat 2 item.itemType.code ++ bytesOfNat 3 item.moduleId ++
    bytesOfNat 8 item.nodeOperatorIds.length ++ item.packedIds ++ item.packedCounts

/-- The items are sorted by type, module and first node operator. -/
def key : Nat ×ₗ Nat ×ₗ Nat :=
  toLex (item.itemType.code, toLex (item.moduleId, item.nodeOperatorIds.headD 0))

/-- The call that reports the item to the staking router. -/
def routerCall : RouterCall :=
  match item.itemType with
  | .stuckValidators =>
    .reportStuckValidatorsCount item.moduleId item.packedIds item.packedCounts
  | .exitedValidators =>
    .reportExitedValidatorsCount item.moduleId item.packedIds item.packedCounts

end ExtraDataItem

namespace ExtraData

/-- Items one after the other, numbered from `index` on. -/
def encodeItems : Nat → List ExtraDataItem → Bytes
  | _, [] => []
  | index, item :: items => item.encode index ++ encodeItems (index + 1) items

/-- The byte string is the encoding of the items. -/
structure Encodes (bytes : Bytes) (items : List ExtraDataItem) : Prop where
  ne : items ≠ []
  /-- An index has three bytes. -/
  length_le : items.length ≤ 2 ^ 24
  bytes : bytes = encodeItems 0 items
  sorted : (items.map ExtraDataItem.key).Pairwise (· < ·)

/-! ## Keys -/

/-- A key in one word, as the parser compares it. -/
def packedKey (key : Nat ×ₗ Nat ×ₗ Nat) : Nat :=
  (ofLex key).1 <<< 240 ||| (ofLex (ofLex key).2).1 <<< 64 ||| (ofLex (ofLex key).2).2

theorem packedKey_eq {t m f : Nat} (hm : m < 2 ^ 24) (hf : f < 2 ^ 64) :
    packedKey (toLex (t, toLex (m, f))) = t * 2 ^ 240 + m * 2 ^ 64 + f := by
  have hlow : m <<< 64 ||| f = m * 2 ^ 64 + f := by
    rw [← Nat.shiftLeft_add_eq_or_of_lt hf, Nat.shiftLeft_eq]
  have hlt : m * 2 ^ 64 + f < 2 ^ 240 := by omega
  show t <<< 240 ||| m <<< 64 ||| f = _
  rw [Nat.or_assoc, hlow, ← Nat.shiftLeft_add_eq_or_of_lt hlt, Nat.shiftLeft_eq, Nat.add_assoc]

theorem packedKey_lt_iff {t m f t' m' f' : Nat} (hm : m < 2 ^ 24) (hf : f < 2 ^ 64)
    (hm' : m' < 2 ^ 24) (hf' : f' < 2 ^ 64) :
    packedKey (toLex (t, toLex (m, f))) < packedKey (toLex (t', toLex (m', f'))) ↔
      toLex (t, toLex (m, f)) < toLex (t', toLex (m', f')) := by
  rw [packedKey_eq hm hf, packedKey_eq hm' hf']
  simp only [Prod.Lex.toLex_lt_toLex]
  omega

end ExtraData

namespace ExtraDataItem

open ExtraData

theorem headD_lt (item : ExtraDataItem) : item.nodeOperatorIds.headD 0 < 2 ^ 64 := by
  have hids := item.nodeOperatorIds_lt
  cases hcases : item.nodeOperatorIds with
  | nil => exact absurd hcases item.nodeOperatorIds_ne
  | cons id ids =>
    rw [hcases] at hids
    exact hids id List.mem_cons_self

theorem packedKey_key_lt_iff (item item' : ExtraDataItem) :
    packedKey item.key < packedKey item'.key ↔ item.key < item'.key :=
  packedKey_lt_iff item.moduleId_lt item.headD_lt item'.moduleId_lt item'.headD_lt

theorem packedKey_key_pos (item : ExtraDataItem) : 0 < packedKey item.key := by
  have hpos := item.moduleId_pos
  rw [key, packedKey_eq item.moduleId_lt item.headD_lt]
  omega

/-! ## Encoded items -/

theorem length_flatMap_bytesOfNat (k : Nat) (ns : List Nat) :
    (ns.flatMap (bytesOfNat k)).length = ns.length * k := by
  induction ns with
  | nil => simp
  | cons n ns ih =>
    rw [List.flatMap_cons, List.length_append, length_bytesOfNat, ih, List.length_cons,
      Nat.succ_mul, Nat.add_comm]

theorem length_packedIds (item : ExtraDataItem) :
    item.packedIds.length = item.nodeOperatorIds.length * 8 := length_flatMap_bytesOfNat 8 _

theorem length_packedCounts (item : ExtraDataItem) :
    item.packedCounts.length = item.nodeOperatorIds.length * 16 := by
  rw [packedCounts, length_flatMap_bytesOfNat, item.length_eq]

theorem code_lt (itemType : ExtraDataType) : itemType.code < 2 ^ 16 := by
  cases itemType <;> decide

theorem routerCallOf_code (itemType : ExtraDataType) (moduleId : Nat) (ids counts : Bytes) :
    routerCallOf itemType.code moduleId ids counts =
      match itemType with
      | .stuckValidators => .reportStuckValidatorsCount moduleId ids counts
      | .exitedValidators => .reportExitedValidatorsCount moduleId ids counts := by
  cases itemType <;> rfl

end ExtraDataItem

end Catalist

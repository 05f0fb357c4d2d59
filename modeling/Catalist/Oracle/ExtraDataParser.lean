import Catalist.Oracle.ExtraDataFormat

/-!
# The parser of extra data

The parser of `AccountingOracle` accepts exactly the byte strings of the documented format, and
reports exactly their items to the staking router.

## Approach

One round of the loop succeeds exactly if the data goes on with the fields of an acceptable item
(`processExtraDataRound_eq_ok`), and the fields are acceptable exactly where an item is encoded
(`exists_item`, `describes_of_encode`). The two directions of the theorem are inductions over the
rounds of the loop and over the items.
-/

namespace Catalist

open Solidity ByteBuffer AccountingOracle

namespace ExtraData

/-! ## One round -/

/-- What a round reads: the fields of an item. -/
structure ExtraDataFields where
  index : Nat
  itemType : Nat
  moduleId : Nat
  nodeOpsCount : Nat
  firstNodeOpId : Nat
  nodeOpIds : Bytes
  valuesCounts : Bytes

/-- The fields at an offset of the data. -/
def fieldsAt (data : CalldataBytes) (o : Nat) : ExtraDataFields where
  index := data.number o 3
  itemType := data.number (o + 3) 2
  moduleId := data.number (o + 5) 3
  nodeOpsCount := data.number (o + 8) 8
  firstNodeOpId := data.number (o + 16) 8
  nodeOpIds := (data.bytes.drop (o + 16)).take (data.number (o + 8) 8 * 8)
  valuesCounts := (data.bytes.drop (o + 16 + data.number (o + 8) 8 * 8)).take
    (data.number (o + 8) 8 * 16)

def ExtraDataFields.sortingKey (fields : ExtraDataFields) : Nat :=
  packedKey (toLex (fields.itemType, toLex (fields.moduleId, fields.firstNodeOpId)))

end ExtraData

/-- The index that an item has to have. -/
def ExtraDataIterState.nextIndex (iter : ExtraDataIterState) : Nat :=
  if iter.itemType = 0 then 0 else iter.index + 1

/-- The variables after an item. -/
def AccountingOracle.ExtraDataLoop.after {ρ : Type} (loop : ExtraDataLoop ρ)
    (fields : ExtraData.ExtraDataFields) (router : ρ) :
    ExtraDataLoop ρ where
  dataOffset := loop.dataOffset + 16 + fields.nodeOpsCount * 24
  maxNodeOperatorsPerItem := max loop.maxNodeOperatorsPerItem fields.nodeOpsCount
  maxNodeOperatorItemIndex :=
    if loop.maxNodeOperatorsPerItem < fields.nodeOpsCount then fields.index
    else loop.maxNodeOperatorItemIndex
  iter :=
    { index := fields.index
      itemType := fields.itemType
      dataOffset := loop.dataOffset + 16 + fields.nodeOpsCount * 24
      lastSortingKey := fields.sortingKey }
  router := router

namespace ExtraData

/-- The guards of a round. -/
structure Accepts (data : CalldataBytes) (o : Nat) (iter : ExtraDataIterState)
    (fields : ExtraDataFields) : Prop where
  index : fields.index = iter.nextIndex
  itemType : fields.itemType = EXTRA_DATA_TYPE_EXITED_VALIDATORS ∨
    fields.itemType = EXTRA_DATA_TYPE_STUCK_VALIDATORS
  moduleId : fields.moduleId ≠ 0
  sorted : iter.lastSortingKey < fields.sortingKey
  nodeOpsCount : fields.nodeOpsCount ≠ 0
  inside : o + 16 + fields.nodeOpsCount * 24 ≤ data.length

variable {ρ : Type} {callees : ExtraDataCallees ρ} {data : CalldataBytes}
  {loop loop' : ExtraDataLoop ρ}

theorem checkExtraDataIndex_eq_ok {iter : ExtraDataIterState} {index : Nat}
    (h : index < 2 ^ 24) {u : Unit} :
    checkExtraDataIndex iter index = .ok u ↔ index = iter.nextIndex := by
  unfold checkExtraDataIndex ExtraDataIterState.nextIndex
  split
  · simp
  · simp
    omega

theorem processExtraDataItem_eq_ok {o : Nat} {iter iter' : ExtraDataIterState} {router router' : ρ}
    {n : Nat} (ho : o < data.length) (hiter : iter.dataOffset = o + 5)
    (htype : iter.itemType = data.number (o + 3) 2) :
    processExtraDataItem callees data iter router = .ok (iter', router', n) ↔
      o + 40 ≤ data.length ∧ (fieldsAt data o).moduleId ≠ 0 ∧
      iter.lastSortingKey < (fieldsAt data o).sortingKey ∧
      o + 16 + (fieldsAt data o).nodeOpsCount * 24 ≤ data.length ∧
      (fieldsAt data o).nodeOpsCount ≠ 0 ∧
      callees.router (routerCallOf (fieldsAt data o).itemType (fieldsAt data o).moduleId
        (fieldsAt data o).nodeOpIds (fieldsAt data o).valuesCounts) router = .ok router' ∧
      iter' = { iter with
        lastSortingKey := (fieldsAt data o).sortingKey
        dataOffset := o + 16 + (fieldsAt data o).nodeOpsCount * 24 } ∧
      n = (fieldsAt data o).nodeOpsCount := by
  have hlength := data.length_lt
  have hoffset := data.offset_lt
  have hcount := data.number_lt (o + 8) 8
  by_cases hfits : o + 40 ≤ data.length
  · -- calldata is shorter than 2 ^ 64 bytes, so no offset of the assembly wraps around
    have hheader : Yul.add data.offset (o + 5) = data.offset + (o + 5) :=
      Yul.add_of_lt (by omega)
    have hmodule : (mload data.calldata (data.offset + (o + 5)) >>> 232).toNat
        = data.number (o + 5) 3 := CalldataBytes.toNat_shift (l := 29) rfl (by omega)
    have hcountOf : (mload data.calldata (data.offset + (o + 5)) >>> 168
        &&& 0xffffffffffffffff).toNat = data.number (o + 8) 8 :=
      CalldataBytes.toNat_shift_mask (j := 3) (k := 8) (l := 21) rfl (by omega)
    have hids : Yul.add data.offset (Yul.add (o + 5) 11) = data.offset + (o + 16) := by
      rw [Yul.add_of_lt (a := o + 5) (by omega), Yul.add_of_lt (by omega)]
    have hfirst : (mload data.calldata (data.offset + (o + 16)) >>> 192).toNat
        = data.number (o + 16) 8 := CalldataBytes.toNat_shift (l := 24) rfl (by omega)
    have hidsLength : Yul.mul (data.number (o + 8) 8) 8 = data.number (o + 8) 8 * 8 :=
      Yul.mul_of_lt (by omega)
    have hcountsLength : Yul.mul (data.number (o + 8) 8) 16 = data.number (o + 8) 8 * 16 :=
      Yul.mul_of_lt (by omega)
    have hcounts : Yul.add (data.offset + (o + 16)) (data.number (o + 8) 8 * 8)
        = data.offset + (o + 16) + data.number (o + 8) 8 * 8 := Yul.add_of_lt (by omega)
    have hend : Yul.sub (Yul.add (data.offset + (o + 16) + data.number (o + 8) 8 * 8)
        (data.number (o + 8) 8 * 16)) data.offset = o + 16 + data.number (o + 8) 8 * 24 := by
      rw [Yul.add_of_lt (by omega), Yul.sub_of_le (by omega) (by omega)]
      omega
    have hsum : o + 5 + 35 < 2 ^ 256 := by omega
    unfold processExtraDataItem
    simp only [hiter, checkedAdd_of hsum, ok_bind, hheader, hmodule, hcountOf, hids, hfirst,
      hidsLength, hcountsLength, hcounts, hend, htype, bind_eq_ok, require_eq_ok, pure_eq_ok]
    have hslices : o + 16 + data.number (o + 8) 8 * 24 ≤ data.length →
        data.slice (data.offset + (o + 16)) (data.number (o + 8) 8 * 8)
          = (fieldsAt data o).nodeOpIds ∧
        data.slice (data.offset + (o + 16) + data.number (o + 8) 8 * 8)
          (data.number (o + 8) 8 * 16) = (fieldsAt data o).valuesCounts := by
      intro hinside
      rw [Nat.add_assoc, CalldataBytes.slice_eq (by omega), CalldataBytes.slice_eq (by omega)]
      exact ⟨rfl, rfl⟩
    constructor
    · rintro ⟨_, _, _, hmoduleId, _, hsorted, _, ⟨hinside, hne⟩, _, hcall, heq⟩
      rw [(hslices hinside).1, (hslices hinside).2] at hcall
      cases heq
      exact ⟨hfits, hmoduleId, hsorted, hinside, hne, hcall, rfl, rfl⟩
    · rintro ⟨_, hmoduleId, hsorted, hinside, hne, hcall, rfl, rfl⟩
      refine ⟨(), by omega, (), hmoduleId, (), hsorted, (), ⟨hinside, hne⟩, router', ?_, rfl⟩
      rw [(hslices hinside).1, (hslices hinside).2]
      exact hcall
  · -- the item is cut off before the first node operator id
    constructor
    · intro h
      simp only [processExtraDataItem, hiter, bind_eq_ok, checkedAdd_eq_ok, require_eq_ok] at h
      obtain ⟨_, ⟨_, rfl⟩, _, hle, -⟩ := h
      omega
    · intro h
      exact absurd h.1 hfits

/-- **A round succeeds exactly if the data goes on with an acceptable item.** -/
theorem processExtraDataRound_eq_ok (ho : loop.dataOffset < data.length) :
    processExtraDataRound callees data loop = .ok loop' ↔
      Accepts data loop.dataOffset loop.iter (fieldsAt data loop.dataOffset) ∧
      ∃ router, callees.router (routerCallOf (fieldsAt data loop.dataOffset).itemType
          (fieldsAt data loop.dataOffset).moduleId (fieldsAt data loop.dataOffset).nodeOpIds
          (fieldsAt data loop.dataOffset).valuesCounts) loop.router = .ok router ∧
        loop' = loop.after (fieldsAt data loop.dataOffset) router := by
  have hlength := data.length_lt
  have hoffset := data.offset_lt
  by_cases hfits : loop.dataOffset + 40 ≤ data.length
  · have hheader : Yul.add data.offset loop.dataOffset = data.offset + loop.dataOffset :=
      Yul.add_of_lt (by omega)
    have hindex : (mload data.calldata (data.offset + loop.dataOffset) >>> 232).toNat
        = data.number loop.dataOffset 3 := CalldataBytes.toNat_shift (l := 29) rfl (by omega)
    have htype : (mload data.calldata (data.offset + loop.dataOffset) >>> 216 &&& 0xffff).toNat
        = data.number (loop.dataOffset + 3) 2 :=
      CalldataBytes.toNat_shift_mask (j := 3) (k := 2) (l := 27) rfl (by omega)
    have hnext : Yul.add loop.dataOffset 5 = loop.dataOffset + 5 := Yul.add_of_lt (by omega)
    have hindex_lt := data.number_lt loop.dataOffset 3
    unfold processExtraDataRound
    simp only [hheader, hindex, htype, hnext, bind_eq_ok, require_eq_ok, pure_eq_ok, ensure_eq_ok,
      checkExtraDataIndex_eq_ok hindex_lt]
    constructor
    · rintro ⟨_, hnumber, _, hcode, ⟨iter', router', n⟩, hitem, _, _, rfl⟩
      obtain ⟨_, hmodule, hsorted, hinside, hne, hcall, rfl, rfl⟩ :=
        (processExtraDataItem_eq_ok ho rfl rfl).mp hitem
      exact ⟨⟨hnumber, hcode, hmodule, hsorted, hne, hinside⟩, router', hcall, rfl⟩
    · rintro ⟨hacc, router', hcall, rfl⟩
      refine ⟨(), hacc.index, (), hacc.itemType, _,
        (processExtraDataItem_eq_ok ho rfl rfl).mpr ⟨hfits, hacc.moduleId, hacc.sorted, hacc.inside,
          hacc.nodeOpsCount, hcall, rfl, rfl⟩, (), ?_, rfl⟩
      have hpos := Nat.pos_of_ne_zero hacc.nodeOpsCount
      simp only
      omega
  · constructor
    · intro h
      simp only [processExtraDataRound, bind_eq_ok] at h
      obtain ⟨_, _, _, _, r, hitem, -⟩ := h
      simp only [processExtraDataItem, bind_eq_ok, checkedAdd_eq_ok, require_eq_ok] at hitem
      obtain ⟨_, ⟨_, rfl⟩, _, hle, -⟩ := hitem
      rw [Yul.add_of_lt (by omega)] at hle
      omega
    · rintro ⟨hacc, -⟩
      have hinside := hacc.inside
      have hpos := Nat.pos_of_ne_zero hacc.nodeOpsCount
      omega

/-! ## Items in the data -/

/-- The fields are those of the item. -/
structure Describes (fields : ExtraDataFields) (index : Nat) (item : ExtraDataItem) : Prop where
  index : fields.index = index
  itemType : fields.itemType = item.itemType.code
  moduleId : fields.moduleId = item.moduleId
  nodeOpsCount : fields.nodeOpsCount = item.nodeOperatorIds.length
  firstNodeOpId : fields.firstNodeOpId = item.nodeOperatorIds.headD 0
  nodeOpIds : fields.nodeOpIds = item.packedIds
  valuesCounts : fields.valuesCounts = item.packedCounts

variable {fields : ExtraDataFields} {item : ExtraDataItem} {index o : Nat} {data : CalldataBytes}

theorem Describes.sortingKey (h : Describes fields index item) :
    fields.sortingKey = packedKey item.key := by
  rw [ExtraDataFields.sortingKey, h.itemType, h.moduleId, h.firstNodeOpId]
  rfl

theorem Describes.routerCall (h : Describes fields index item) :
    routerCallOf fields.itemType fields.moduleId fields.nodeOpIds
      fields.valuesCounts = item.routerCall := by
  rw [h.itemType, h.moduleId, h.nodeOpIds, h.valuesCounts, ExtraDataItem.routerCallOf_code]
  rfl

/-- Where an item is encoded, its fields are read. -/
theorem describes_of_encode {tail : Bytes} (hindex : index < 2 ^ 24)
    (h : data.bytes.drop o = item.encode index ++ tail) :
    Describes (fieldsAt data o) index item ∧
      o + 16 + item.nodeOperatorIds.length * 24 ≤ data.length ∧
      data.bytes.drop (o + 16 + item.nodeOperatorIds.length * 24) = tail := by
  simp only [ExtraDataItem.encode, List.append_assoc] at h
  -- cut one field after the other off the front
  have h₁ := drop_of_append h (length_bytesOfNat 3 _)
  have h₂ := drop_of_append h₁ (length_bytesOfNat 2 _)
  have h₃ := drop_of_append h₂ (length_bytesOfNat 3 _)
  have h₄ := drop_of_append h₃ (length_bytesOfNat 8 _)
  have h₅ := drop_of_append h₄ item.length_packedIds
  have h₆ := drop_of_append h₅ item.length_packedCounts
  have hcount : data.number (o + 8) 8 = item.nodeOperatorIds.length := by
    rw [CalldataBytes.number, take_of_append h₃ (length_bytesOfNat 8 _),
      natOfBytes_bytesOfNat item.length_lt]
  have hfirst : data.number (o + 16) 8 = item.nodeOperatorIds.headD 0 := by
    have hids := item.nodeOperatorIds_lt
    cases hcases : item.nodeOperatorIds with
    | nil => exact absurd hcases item.nodeOperatorIds_ne
    | cons id ids =>
      rw [hcases] at hids
      rw [ExtraDataItem.packedIds, hcases, List.flatMap_cons, List.append_assoc] at h₄
      rw [CalldataBytes.number, take_of_append h₄ (length_bytesOfNat 8 _),
        natOfBytes_bytesOfNat (hids id List.mem_cons_self), List.headD_cons]
  refine ⟨⟨?_, ?_, ?_, hcount, hfirst, ?_, ?_⟩, ?_, ?_⟩
  · show data.number o 3 = index
    rw [CalldataBytes.number, take_of_append h (length_bytesOfNat 3 _),
      natOfBytes_bytesOfNat hindex]
  · show data.number (o + 3) 2 = _
    rw [CalldataBytes.number, take_of_append h₁ (length_bytesOfNat 2 _),
      natOfBytes_bytesOfNat (ExtraDataItem.code_lt _)]
  · show data.number (o + 5) 3 = _
    rw [CalldataBytes.number, take_of_append h₂ (length_bytesOfNat 3 _),
      natOfBytes_bytesOfNat item.moduleId_lt]
  · show (data.bytes.drop (o + 16)).take (data.number (o + 8) 8 * 8) = _
    rw [hcount, take_of_append h₄ item.length_packedIds]
  · show (data.bytes.drop (o + 16 + data.number (o + 8) 8 * 8)).take
      (data.number (o + 8) 8 * 16) = _
    rw [hcount, take_of_append h₅ item.length_packedCounts]
  · have hlength := congrArg List.length h₅
    have hbytes := data.length_bytes
    have hpos := List.length_pos_iff.mpr item.nodeOperatorIds_ne
    rw [List.length_drop, List.length_append, item.length_packedCounts] at hlength
    omega
  · rw [← h₆]
    congr 1
    omega

/-- What a round accepts is an encoded item. -/
theorem exists_item {iter : ExtraDataIterState} (h : Accepts data o iter (fieldsAt data o)) :
    ∃ item, Describes (fieldsAt data o) iter.nextIndex item ∧
      data.bytes.drop o = item.encode iter.nextIndex ++
        data.bytes.drop (o + 16 + item.nodeOperatorIds.length * 24) := by
  have hinside : o + 16 + data.number (o + 8) 8 * 24 ≤ data.length := h.inside
  have hbytes := data.length_bytes
  have hpos : data.number (o + 8) 8 ≠ 0 := h.nodeOpsCount
  have hlength : ∀ {a k}, a + k ≤ data.length → ((data.bytes.drop a).take k).length = k :=
    fun hle => length_take_drop (by omega)
  obtain ⟨ids, hidsLength, hidsLt, hids⟩ := exists_numbers
    (show ((data.bytes.drop (o + 16)).take (data.number (o + 8) 8 * 8)).length
      = data.number (o + 8) 8 * 8 from hlength (by omega))
  obtain ⟨counts, hcountsLength, hcountsLt, hcounts⟩ := exists_numbers
    (show ((data.bytes.drop (o + 16 + data.number (o + 8) 8 * 8)).take
      (data.number (o + 8) 8 * 16)).length = data.number (o + 8) 8 * 16 from hlength (by omega))
  have hne : ids ≠ [] := by
    rintro rfl
    exact hpos hidsLength.symm
  obtain ⟨itemType, htype⟩ : ∃ itemType : ExtraDataType,
      data.number (o + 3) 2 = itemType.code := by
    rcases h.itemType with hexited | hstuck
    · exact ⟨.exitedValidators, hexited⟩
    · exact ⟨.stuckValidators, hstuck⟩
  have hnumber : ∀ {a k}, a + k ≤ data.length →
      bytesOfNat k (data.number a k) = (data.bytes.drop a).take k :=
    fun hle => bytesOfNat_natOfBytes (hlength hle)
  -- the item that the fields describe; its bounds are those of the widths of the fields
  let item : ExtraDataItem := {
    itemType := itemType
    moduleId := data.number (o + 5) 3
    nodeOperatorIds := ids
    validatorsCounts := counts
    moduleId_pos := Nat.pos_of_ne_zero h.moduleId
    moduleId_lt := data.number_lt _ 3
    nodeOperatorIds_ne := hne
    length_lt := hidsLength ▸ data.number_lt _ 8
    length_eq := hcountsLength.trans hidsLength.symm
    nodeOperatorIds_lt := hidsLt
    validatorsCounts_lt := hcountsLt }
  have hencode : data.bytes.drop o = item.encode iter.nextIndex ++
      data.bytes.drop (o + 16 + item.nodeOperatorIds.length * 24) := by
    have hindex : data.number o 3 = iter.nextIndex := h.index
    show _ = bytesOfNat 3 _ ++ bytesOfNat 2 itemType.code ++ bytesOfNat 3 _ ++
      bytesOfNat 8 ids.length ++ ids.flatMap (bytesOfNat 8) ++ counts.flatMap (bytesOfNat 16) ++
      data.bytes.drop (o + 16 + ids.length * 24)
    rw [← hids, ← hcounts, hidsLength, ← hindex, ← htype, hnumber (by omega), hnumber (by omega),
      hnumber (by omega), hnumber (by omega)]
    simp only [List.append_assoc]
    have hcountsPart : data.bytes.drop (o + 16 + data.number (o + 8) 8 * 8)
        = (data.bytes.drop (o + 16 + data.number (o + 8) 8 * 8)).take
            (data.number (o + 8) 8 * 16) ++
          data.bytes.drop (o + 16 + data.number (o + 8) 8 * 24) := by
      have hend : o + 16 + data.number (o + 8) 8 * 8 + data.number (o + 8) 8 * 16
          = o + 16 + data.number (o + 8) 8 * 24 := by omega
      rw [← hend]
      exact drop_eq_take_append _ _ _
    rw [← hcountsPart, ← drop_eq_take_append _ (o + 16), ← drop_eq_take_append _ (o + 8) 8,
      ← drop_eq_take_append _ (o + 5) 3, ← drop_eq_take_append _ (o + 3) 2,
      ← drop_eq_take_append _ o 3]
  have hindex : iter.nextIndex < 2 ^ 24 := by
    rw [← h.index]
    exact data.number_lt o 3
  exact ⟨item, (describes_of_encode hindex hencode).1, hencode⟩

/-! ## The loop -/

section loop

variable {ρ : Type} {callees : ExtraDataCallees ρ} {loop loop' : ExtraDataLoop ρ}
  {items : List ExtraDataItem} {router : ρ}

/-- The router after some calls. -/
def routeAll (callees : ExtraDataCallees ρ) (calls : List RouterCall) (router : ρ) :
    Call AccountingError ρ :=
  calls.foldlM (fun router call => callees.router call router) router

/-- The data goes on with these items, which are greater than the last one. -/
structure Continues (data : CalldataBytes) (o : Nat) (iter : ExtraDataIterState)
    (items : List ExtraDataItem) : Prop where
  bytes : data.bytes.drop o = encodeItems iter.nextIndex items
  length_le : iter.nextIndex + items.length ≤ 2 ^ 24
  sorted : (iter.lastSortingKey :: items.map fun item => packedKey item.key).Pairwise (· < ·)

/-- Where the loop is after the items. -/
structure Processed (callees : ExtraDataCallees ρ) (items : List ExtraDataItem)
    (loop loop' : ExtraDataLoop ρ) : Prop where
  router : routeAll callees (items.map ExtraDataItem.routerCall) loop.router = .ok loop'.router
  nextIndex : loop'.iter.nextIndex = loop.iter.nextIndex + items.length
  maxNodeOperatorsPerItem :
    0 < loop'.maxNodeOperatorsPerItem ↔ 0 < loop.maxNodeOperatorsPerItem ∨ items ≠ []

theorem nextIndex_after (loop : ExtraDataLoop ρ) (router : ρ)
    (hfields : fields.itemType = EXTRA_DATA_TYPE_EXITED_VALIDATORS ∨
    fields.itemType = EXTRA_DATA_TYPE_STUCK_VALIDATORS) :
    (loop.after fields router).iter.nextIndex = fields.index + 1 := by
  unfold ExtraDataIterState.nextIndex
  rcases hfields with htype | htype <;>
    simp [ExtraDataLoop.after, htype, EXTRA_DATA_TYPE_EXITED_VALIDATORS,
      EXTRA_DATA_TYPE_STUCK_VALIDATORS]

/-- An accepted item in front of the items that follow it. -/
theorem Continues.cons (hacc : Accepts data loop.dataOffset loop.iter (fieldsAt data loop.dataOffset))
    (hitem : Describes (fieldsAt data loop.dataOffset) loop.iter.nextIndex item)
    (hencode : data.bytes.drop loop.dataOffset = item.encode loop.iter.nextIndex ++
      data.bytes.drop (loop.dataOffset + 16 + item.nodeOperatorIds.length * 24))
    (h : Continues data (loop.after (fieldsAt data loop.dataOffset) router).dataOffset
      (loop.after (fieldsAt data loop.dataOffset) router).iter items) :
    Continues data loop.dataOffset loop.iter (item :: items) := by
  have hnext := nextIndex_after loop router hacc.itemType
  rw [hitem.index] at hnext
  have hlength := h.length_le
  have hsorted := h.sorted
  have hbytes := h.bytes
  rw [hnext] at hlength hbytes
  refine ⟨?_, ?_, ?_⟩
  · rw [hencode, encodeItems, ← hbytes, ← hitem.nodeOpsCount]
    rfl
  · rw [List.length_cons]
    omega
  · have hkey : (loop.after (fieldsAt data loop.dataOffset) router).iter.lastSortingKey
        = packedKey item.key := hitem.sortingKey
    have hlt : loop.iter.lastSortingKey < packedKey item.key := hitem.sortingKey ▸ hacc.sorted
    rw [hkey] at hsorted
    rw [List.map_cons]
    refine List.pairwise_cons.mpr ⟨fun key hmem => ?_, hsorted⟩
    rcases List.mem_cons.mp hmem with rfl | hmem
    · exact hlt
    · exact hlt.trans ((List.pairwise_cons.mp hsorted).1 key hmem)

/-- The first of the items is accepted, and the others follow it. -/
theorem Continues.of_cons (h : Continues data loop.dataOffset loop.iter (item :: items)) :
    Describes (fieldsAt data loop.dataOffset) loop.iter.nextIndex item ∧
      Accepts data loop.dataOffset loop.iter (fieldsAt data loop.dataOffset) ∧
      ∀ router, Continues data (loop.after (fieldsAt data loop.dataOffset) router).dataOffset
        (loop.after (fieldsAt data loop.dataOffset) router).iter items := by
  have hlength := h.length_le
  rw [List.length_cons] at hlength
  obtain ⟨hitem, hinside, htail⟩ := describes_of_encode (by omega) h.bytes
  obtain ⟨hlt, hsorted⟩ := List.pairwise_cons.mp h.sorted
  have hcode : (fieldsAt data loop.dataOffset).itemType = EXTRA_DATA_TYPE_EXITED_VALIDATORS ∨
      (fieldsAt data loop.dataOffset).itemType = EXTRA_DATA_TYPE_STUCK_VALIDATORS := by
    rw [hitem.itemType]
    cases item.itemType with
    | stuckValidators => exact .inr rfl
    | exitedValidators => exact .inl rfl
  refine ⟨hitem, ⟨hitem.index, hcode, ?_, ?_, ?_, ?_⟩, fun router => ?_⟩
  · rw [hitem.moduleId]
    exact item.moduleId_pos.ne'
  · rw [hitem.sortingKey]
    exact hlt _ List.mem_cons_self
  · rw [hitem.nodeOpsCount]
    exact (List.length_pos_iff.mpr item.nodeOperatorIds_ne).ne'
  · rw [hitem.nodeOpsCount]
    exact hinside
  · have hnext := nextIndex_after loop router hcode
    rw [hitem.index] at hnext
    refine ⟨?_, ?_, ?_⟩
    · rw [hnext, ← htail, ← hitem.nodeOpsCount]
      rfl
    · rw [hnext]
      omega
    · have hkey : (loop.after (fieldsAt data loop.dataOffset) router).iter.lastSortingKey
          = packedKey item.key := hitem.sortingKey
      rw [hkey]
      exact hsorted

theorem Processed.cons {loop₁ : ExtraDataLoop ρ} (hrouter :
      callees.router item.routerCall loop.router = .ok loop₁.router)
    (hnext : loop₁.iter.nextIndex = loop.iter.nextIndex + 1)
    (hmax : 0 < loop₁.maxNodeOperatorsPerItem) (h : Processed callees items loop₁ loop') :
    Processed callees (item :: items) loop loop' where
  router := by
    rw [List.map_cons, routeAll, List.foldlM_cons, hrouter]
    exact h.router
  nextIndex := by
    rw [h.nextIndex, hnext, List.length_cons]
    omega
  maxNodeOperatorsPerItem := by
    rw [h.maxNodeOperatorsPerItem]
    simp [hmax]

theorem Processed.refl (loop : ExtraDataLoop ρ) :
    Processed callees [] loop loop := by
  refine ⟨rfl, rfl, ?_⟩
  simp

/-- A round goes from an item to the items that follow it. -/
theorem after_of_describes (router : ρ) (hitem : Describes fields loop.iter.nextIndex item)
    (hcode : fields.itemType = EXTRA_DATA_TYPE_EXITED_VALIDATORS ∨
      fields.itemType = EXTRA_DATA_TYPE_STUCK_VALIDATORS) :
    (loop.after fields router).iter.nextIndex = loop.iter.nextIndex + 1 ∧
      0 < (loop.after fields router).maxNodeOperatorsPerItem := by
  refine ⟨by rw [nextIndex_after loop router hcode, hitem.index], ?_⟩
  have hpos := List.length_pos_iff.mpr item.nodeOperatorIds_ne
  rw [← hitem.nodeOpsCount] at hpos
  exact Nat.lt_of_lt_of_le hpos (Nat.le_max_right _ _)

/-- What the loop accepts is a list of items, by induction over its rounds. -/
theorem exists_items (h : Runs (fun loop => loop.dataOffset < data.length)
      (processExtraDataRound callees data) loop loop')
    (ho : loop.dataOffset ≤ data.length) (hindex : loop.iter.nextIndex ≤ 2 ^ 24) :
    ∃ items, Continues data loop.dataOffset loop.iter items ∧ Processed callees items loop loop' := by
  induction h with
  | @done loop hend =>
    refine ⟨[], ⟨?_, hindex, List.pairwise_singleton _ _⟩, Processed.refl loop⟩
    exact List.drop_of_length_le (by rw [data.length_bytes]; omega)
  | @round loop loop₁ loop' hlt hround _ ih =>
    obtain ⟨hacc, router, hcall, rfl⟩ :=
      (processExtraDataRound_eq_ok hlt).mp hround
    obtain ⟨item, hitem, hencode⟩ := exists_item hacc
    obtain ⟨hnext, hmax⟩ := after_of_describes router hitem hacc.itemType
    rw [hitem.routerCall] at hcall
    have hbound : (fieldsAt data loop.dataOffset).index < 2 ^ 24 := data.number_lt _ 3
    rw [hacc.index] at hbound
    obtain ⟨items, hcont, hproc⟩ := ih hacc.inside (by rw [hnext]; exact hbound)
    exact ⟨item :: items, hcont.cons hacc hitem hencode, hproc.cons hcall hnext hmax⟩

/-- The loop accepts a list of items, by induction over the items. -/
theorem exists_runs (loop : ExtraDataLoop ρ)
    (hrouter : ∀ call router, ∃ router', callees.router call router = .ok router')
    (h : Continues data loop.dataOffset loop.iter items) :
    ∃ loop', Runs (fun loop => loop.dataOffset < data.length)
      (processExtraDataRound callees data) loop loop' ∧
      Processed callees items loop loop' := by
  induction items generalizing loop with
  | nil =>
    refine ⟨loop, .done ?_, Processed.refl loop⟩
    have hlength := congrArg List.length h.bytes
    rw [List.length_drop, data.length_bytes] at hlength
    simp only [encodeItems, List.length_nil] at hlength
    omega
  | cons item items ih =>
    obtain ⟨hitem, hacc, hcont⟩ := h.of_cons
    obtain ⟨router, hcall⟩ := hrouter item.routerCall loop.router
    obtain ⟨hnext, hmax⟩ := after_of_describes router hitem hacc.itemType
    obtain ⟨loop', hruns, hproc⟩ := ih _ (hcont router)
    have hinside := hacc.inside
    have hlt : loop.dataOffset < data.length := by omega
    refine ⟨loop', .round hlt ((processExtraDataRound_eq_ok hlt).mpr
      ⟨hacc, router, ?_, rfl⟩) hruns, hproc.cons hcall hnext hmax⟩
    rw [hitem.routerCall]
    exact hcall

end loop

/-! ## Acceptance -/

/-- The state in which the list is processed. -/
def initialIter : ExtraDataIterState :=
  { index := 0, itemType := 0, dataOffset := 0, lastSortingKey := 0 }

theorem encodes_iff {items : List ExtraDataItem} :
    Encodes data.bytes items ↔ items ≠ [] ∧ Continues data 0 initialIter items := by
  have hsorted : (initialIter.lastSortingKey ::
      items.map fun item => packedKey item.key).Pairwise (· < ·) ↔
      (items.map ExtraDataItem.key).Pairwise (· < ·) := by
    rw [List.pairwise_cons, List.pairwise_map, List.pairwise_map]
    simp only [ExtraDataItem.packedKey_key_lt_iff, and_iff_right_iff_imp, List.mem_map]
    rintro - _ ⟨item, -, rfl⟩
    exact item.packedKey_key_pos
  constructor
  · rintro ⟨hne, hlength, hbytes, hkeys⟩
    exact ⟨hne, hbytes, (Nat.zero_add _).trans_le hlength, hsorted.mpr hkeys⟩
  · rintro ⟨hne, hbytes, hlength, hkeys⟩
    exact ⟨hne, (Nat.zero_add _).symm.trans_le hlength, hbytes, hsorted.mp hkeys⟩

section acceptance

variable {ρ : Type} {callees : ExtraDataCallees ρ} {items : List ExtraDataItem}

/-- The calls that report the items. -/
def reports (items : List ExtraDataItem) : List RouterCall := items.map ExtraDataItem.routerCall

/-- What processing the items leads to. -/
structure ItemsProcessed (callees : ExtraDataCallees ρ) (items : List ExtraDataItem) (router : ρ)
    (result : ExtraDataIterState × ρ) : Prop where
  index : result.1.index + 1 = items.length
  router : routeAll callees (reports items) router = .ok result.2

theorem Processed.itemsProcessed {router : ρ} {loop' : ExtraDataLoop ρ}
    (hne : items ≠ [])
    (h : Processed callees items ⟨0, 0, 0, initialIter, router⟩ loop') :
    0 < loop'.maxNodeOperatorsPerItem ∧
      ItemsProcessed callees items router (loop'.iter, loop'.router) := by
  have hpos := List.length_pos_iff.mpr hne
  have hnext : loop'.iter.nextIndex = 0 + items.length := h.nextIndex
  refine ⟨h.maxNodeOperatorsPerItem.mpr (.inr hne), ?_, h.router⟩
  unfold ExtraDataIterState.nextIndex at hnext
  split at hnext
  · omega
  · exact hnext.trans (Nat.zero_add _)

/--
The items are processed within as many rounds as the data has bytes, and the byte strings for which
this succeeds are the encodings of items.
-/
theorem exists_processExtraDataItems (data : CalldataBytes) (router : ρ)
    (hrouter : ∀ call router, ∃ router', callees.router call router = .ok router')
    (hcheck : ∀ index count,
      callees.checkNodeOperatorsPerExtraDataItemCount index count = .ok ()) :
    ∃ outcome, (∀ rounds, data.length < rounds →
        processExtraDataItems callees data rounds initialIter router
          = some outcome) ∧
      (∀ result, outcome = .ok result →
        ∃ items, Encodes data.bytes items ∧ ItemsProcessed callees items router result) ∧
      ∀ items, Encodes data.bytes items →
        ∃ result, outcome = .ok result ∧ ItemsProcessed callees items router result := by
  have hdec : ∀ loop loop' : ExtraDataLoop ρ, loop.dataOffset < data.length →
      processExtraDataRound callees data loop = .ok loop' →
      data.length - loop'.dataOffset < data.length - loop.dataOffset := by
    intro loop loop' hlt hround
    obtain ⟨-, router', -, rfl⟩ := (processExtraDataRound_eq_ok hlt).mp hround
    simp only [ExtraDataLoop.after]
    omega
  obtain ⟨outcome, hrounds, hruns⟩ := exists_whileLoop
    (fun loop : ExtraDataLoop ρ => data.length - loop.dataOffset) hdec
    ⟨0, 0, 0, initialIter, router⟩
  refine ⟨outcome >>= finishExtraDataItems callees, fun rounds hlt => ?_, ?_, ?_⟩
  · unfold processExtraDataItems
    rw [show initialIter.dataOffset = 0 from rfl, hrounds rounds hlt]
    rfl
  · intro result hresult
    simp only [finishExtraDataItems, bind_eq_ok, ensure_eq_ok,
      pure_eq_ok] at hresult
    obtain ⟨loop', hloop, _, hmax, _, _, rfl⟩ := hresult
    obtain ⟨items, hcont, hproc⟩ := exists_items ((hruns loop').mp hloop) (Nat.zero_le _)
      (Nat.zero_le _)
    have hne : items ≠ [] := by
      rcases hproc.maxNodeOperatorsPerItem.mp hmax with hzero | hne
      · exact absurd hzero (Nat.lt_irrefl 0)
      · exact hne
    exact ⟨items, encodes_iff.mpr ⟨hne, hcont⟩, (hproc.itemsProcessed hne).2⟩
  · intro items hitems
    obtain ⟨hne, hcont⟩ := encodes_iff.mp hitems
    obtain ⟨loop', hloop, hproc⟩ := exists_runs ⟨0, 0, 0, initialIter, router⟩ hrouter hcont
    obtain ⟨hmax, hresult⟩ := hproc.itemsProcessed hne
    refine ⟨(loop'.iter, loop'.router), ?_, hresult⟩
    rw [(hruns loop').mpr hloop, ok_bind, finishExtraDataItems, ensure_of hmax,
      ok_bind, hcheck]
    rfl

/-- The list of items is expected from the sender now, and it has the hash of the report. -/
structure ListExpected (o : AccountingOracle) (env : AccountingEnv) (bytes : Bytes) : Prop where
  sender : env.hasSubmitDataRole env.sender = true ∨ env.isConsensusMember env.sender = true
  report : o.base.consensusReport.hash ≠ ZERO_HASH
  refSlot : o.extraData.refSlot = o.base.consensusReport.refSlot
  deadline : env.timestamp ≤ o.base.consensusReport.processingDeadlineTime
  dataFormat : o.extraData.dataFormat = EXTRA_DATA_FORMAT_LIST
  itemsProcessed : o.extraData.itemsProcessed = 0
  itemsCount : o.extraData.itemsCount ≠ 0
  dataHash : env.keccak256 bytes = o.extraData.dataHash

theorem checkExtraDataList_eq_ok {o : AccountingOracle} {env : AccountingEnv} {u : Unit} :
    o.checkExtraDataList data env = .ok u ↔ ListExpected o env data.bytes := by
  simp only [checkExtraDataList, checkCanSubmitExtraData,
    checkMsgSenderIsAllowedToSubmitData, bind_eq_ok, require_eq_ok]
  constructor
  · rintro ⟨_, ⟨_, hsender, _, ⟨hreport, hrefSlot⟩, _, hdeadline, hformat⟩, _, hne, _, hzero, hhash⟩
    exact ⟨hsender, hreport, hrefSlot, hdeadline, hformat, hzero, fun h => hne (hzero.trans h.symm),
      hhash⟩
  · intro h
    exact ⟨(), ⟨(), h.sender, (), ⟨h.report, h.refSlot⟩, (), h.deadline, h.dataFormat⟩, (),
      fun heq => h.itemsCount (heq.symm.trans h.itemsProcessed), (), h.itemsProcessed, h.dataHash⟩

/-- What is left to do after the items were processed. -/
theorem finishExtraDataList_eq_ok {o o' : AccountingOracle} {router router' : ρ}
    {processed : ExtraDataIterState × ρ} (hlength : items.length < 2 ^ 256)
    (h : ItemsProcessed callees items router processed) :
    o.finishExtraDataList callees processed = .ok (o', router') ↔
      items.length = o.extraData.itemsCount ∧
      callees.router .reportingFinished processed.2 = .ok router' ∧
      o' = { o with
        extraData := { o.extraData with
          submitted := true
          itemsProcessed := items.length % 2 ^ 64
          lastSortingKey := processed.1.lastSortingKey } } := by
  simp only [finishExtraDataList, h.index, checkedAdd_of (h.index ▸ hlength),
    ok_bind, bind_eq_ok, require_eq_ok, pure_eq_ok, Prod.mk.injEq]
  constructor
  · rintro ⟨_, hcount, _, hcall, rfl, rfl⟩
    exact ⟨hcount, hcall, rfl⟩
  · rintro ⟨hcount, hcall, rfl⟩
    exact ⟨(), hcount, router', hcall, rfl, rfl⟩

/--
**The parser accepts exactly the documented format.** Processing a list of items ends, and it
succeeds exactly if the list is expected and is the encoding of as many items as the report says;
the staking router then gets one call for each item, in order, and the final one.
-/
theorem extraData_accepted_iff (o : AccountingOracle) (env : AccountingEnv) (data : CalldataBytes)
    (router : ρ) (hrouter : ∀ call router, ∃ router', callees.router call router = .ok router')
    (hcheck : ∀ index count,
      callees.checkNodeOperatorsPerExtraDataItemCount index count = .ok ()) :
    ∃ outcome, (∀ rounds, data.length < rounds →
        o.submitReportExtraDataList callees data env rounds router = some outcome) ∧
      ((∃ result, outcome = .ok result) ↔ ListExpected o env data.bytes ∧
        ∃ items, Encodes data.bytes items ∧ items.length = o.extraData.itemsCount) ∧
      ∀ o' router' items, outcome = .ok (o', router') → Encodes data.bytes items →
        o'.extraData.submitted = true ∧
        routeAll callees (reports items ++ [.reportingFinished]) router = .ok router' := by
  obtain ⟨outcome, hrounds, hsound, hcomplete⟩ :=
    exists_processExtraDataItems data router hrouter hcheck
  have hsmall : ∀ {items}, Encodes data.bytes items → items.length < 2 ^ 256 := by
    intro items hitems
    have := hitems.length_le
    omega
  -- the checks come before the loop: if they fail, nothing is processed
  cases hexpected : o.checkExtraDataList data env with
  | error r =>
    refine ⟨.error r, fun rounds _ => ?_, ?_, fun o' router' items h => by cases h⟩
    · simp only [submitReportExtraDataList, hexpected]
    · constructor
      · rintro ⟨_, h⟩
        cases h
      · rintro ⟨h, -⟩
        rw [(checkExtraDataList_eq_ok (u := ())).mpr h] at hexpected
        cases hexpected
  | ok u =>
    have hlist := checkExtraDataList_eq_ok.mp hexpected
    refine ⟨outcome >>= o.finishExtraDataList callees, fun rounds hlt => ?_, ⟨?_, ?_⟩, ?_⟩
    · simp only [submitReportExtraDataList, hexpected]
      rw [show (⟨0, 0, 0, 0⟩ : ExtraDataIterState) = initialIter from rfl, hrounds rounds hlt]
      rfl
    · rintro ⟨⟨o', router'⟩, h⟩
      obtain ⟨processed, hprocessed, hfinish⟩ := bind_eq_ok.mp h
      obtain ⟨items, hitems, hresult⟩ := hsound processed hprocessed
      exact ⟨hlist, items, hitems,
        ((finishExtraDataList_eq_ok (hsmall hitems) hresult).mp hfinish).1⟩
    · rintro ⟨-, items, hitems, hcount⟩
      obtain ⟨processed, hprocessed, hresult⟩ := hcomplete items hitems
      obtain ⟨router', hcall⟩ := hrouter .reportingFinished processed.2
      exact ⟨_, bind_eq_ok.mpr ⟨processed, hprocessed,
        (finishExtraDataList_eq_ok (hsmall hitems) hresult).mpr ⟨hcount, hcall, rfl⟩⟩⟩
    · intro o' router' items h hitems
      obtain ⟨processed, hprocessed, hresult⟩ := hcomplete items hitems
      obtain ⟨processed', hprocessed', hfinish⟩ := bind_eq_ok.mp h
      cases hprocessed.symm.trans hprocessed'
      obtain ⟨-, hcall, rfl⟩ := (finishExtraDataList_eq_ok (hsmall hitems) hresult).mp hfinish
      refine ⟨rfl, ?_⟩
      rw [routeAll, List.foldlM_append]
      refine bind_eq_ok.mpr ⟨_, hresult.router, ?_⟩
      rw [List.foldlM_cons, hcall]
      rfl

/-!
A list of two items: stuck validators of two node operators of module 1, and exited validators of
one of module 3.
-/

def exampleItem : ExtraDataItem where
  itemType := .stuckValidators
  moduleId := 1
  nodeOperatorIds := [7, 9]
  validatorsCounts := [2, 5]
  moduleId_pos := Nat.one_pos
  moduleId_lt := by decide
  nodeOperatorIds_ne := List.cons_ne_nil 7 _
  length_lt := by decide
  length_eq := rfl
  nodeOperatorIds_lt := by decide
  validatorsCounts_lt := by decide

def exampleSecondItem : ExtraDataItem where
  itemType := .exitedValidators
  moduleId := 3
  nodeOperatorIds := [4]
  validatorsCounts := [11]
  moduleId_pos := by decide
  moduleId_lt := by decide
  nodeOperatorIds_ne := List.cons_ne_nil 4 _
  length_lt := by decide
  length_eq := rfl
  nodeOperatorIds_lt := by decide
  validatorsCounts_lt := by decide

def exampleData : CalldataBytes where
  calldata := exampleItem.encode 0 ++ exampleSecondItem.encode 1
  offset := 0
  length := 104
  inside := Nat.le_refl 104
  offset_lt := Nat.two_pow_pos 65
  length_lt := by decide

/-- The router records its calls. -/
def exampleCallees : ExtraDataCallees (List RouterCall) where
  router call calls := .ok (calls ++ [call])
  checkNodeOperatorsPerExtraDataItemCount _ _ := .ok ()

def exampleOracle : AccountingOracle where
  base := { BaseOracle.blank 12 0 with
    consensusReport := { hash := 5, refSlot := 383, processingDeadlineTime := 9204 } }
  extraData := ⟨383, EXTRA_DATA_FORMAT_LIST, false, 2, 0, 0, 6⟩

def exampleEnv : AccountingEnv where
  sender := 11
  value := 0
  timestamp := 1
  timestamp_pos := Nat.one_pos
  hasSubmitDataRole := fun _ => false
  isConsensusMember := fun sender => sender = 11
  keccak256 := fun _ => 6

theorem encodes_exampleItems : Encodes exampleData.bytes [exampleItem, exampleSecondItem] where
  ne := List.cons_ne_nil _ _
  length_le := by decide
  bytes := by decide +kernel
  sorted := by
    refine List.pairwise_pair.mpr (Prod.Lex.toLex_lt_toLex.mpr (.inl ?_))
    decide

theorem extraData_accepted_two_items :
    ∃ o', exampleOracle.submitReportExtraDataList exampleCallees exampleData exampleEnv 105 [] =
      some (.ok (o', [
        .reportStuckValidatorsCount 1 (bytesOfNat 8 7 ++ bytesOfNat 8 9)
          (bytesOfNat 16 2 ++ bytesOfNat 16 5),
        .reportExitedValidatorsCount 3 (bytesOfNat 8 4) (bytesOfNat 16 11), .reportingFinished])) ∧
      o'.extraData.submitted = true := by
  have hcalls : ∀ call calls, ∃ calls', exampleCallees.router call calls = .ok calls' :=
    fun call calls => ⟨_, rfl⟩
  obtain ⟨outcome, hrounds, hiff, hrouter⟩ := extraData_accepted_iff exampleOracle exampleEnv
    exampleData ([] : List RouterCall) hcalls fun _ _ => rfl
  have hexpected : ListExpected exampleOracle exampleEnv exampleData.bytes :=
    ⟨.inr rfl, by decide, rfl, by decide, rfl, rfl, by decide, rfl⟩
  obtain ⟨⟨o', router'⟩, rfl⟩ := hiff.mpr ⟨hexpected, _, encodes_exampleItems, rfl⟩
  obtain ⟨hsubmitted, hcalls⟩ := hrouter o' router' _ rfl encodes_exampleItems
  cases hcalls
  exact ⟨o', hrounds 105 (by decide), hsubmitted⟩

end acceptance

end ExtraData

end Catalist

import Catalist.Registry.Allocation

/-!
# Handing out keys

`_loadAllocatedSigningKeys` goes through the operators that were allocated keys: it copies the
keys behind the deposited ones to the next free part of two buffers, and raises the deposited
count. The summary lags behind by what was loaded until the loop is done.
-/

namespace Catalist

open Solidity ByteBuffer SigningKeys

namespace NodeOperatorsRegistry

variable {s s' s₀ : NodeOperatorsRegistry} {env : RegistryEnv} {id n : Nat}
  {getKeyOffset : Nat → Nat → BitVec 256} {allowed : Revert RegistryError → Prop}

/-! ## What was handed out -/

/-- The indices of an operator's keys that are deposited in `s'` and not yet in `s`. -/
def newlyDeposited (s s' : NodeOperatorsRegistry) (id : Nat) : List Nat :=
  List.range' (s.operators id).deposited
    ((s'.operators id).deposited - (s.operators id).deposited)

/-- The keys of operators and indices, one after the other. -/
def keysOf (s : NodeOperatorsRegistry) (getKeyOffset : Nat → Nat → BitVec 256)
    (returned : List (Nat × Nat)) : Bytes :=
  returned.flatMap fun key => storedKey s.signingKeys getKeyOffset key.1 key.2

def signaturesOf (s : NodeOperatorsRegistry) (getKeyOffset : Nat → Nat → BitVec 256)
    (returned : List (Nat × Nat)) : Bytes :=
  returned.flatMap fun key => storedSignature s.signingKeys getKeyOffset key.1 key.2

/-- Operators and indices of the keys that were deposited between `s` and `s'`, for `ids`. -/
def returnedBy (s s' : NodeOperatorsRegistry) (ids : List Nat) : List (Nat × Nat) :=
  ids.flatMap fun id => (newlyDeposited s s' id).map fun index => (id, index)

/-- Only the operators `ids` are given keys, and no more than their limits admit. -/
structure Deposited (s s' : NodeOperatorsRegistry) (ids : List Nat) : Prop where
  totalOperatorsCount : s'.totalOperatorsCount = s.totalOperatorsCount
  signingKeys : s'.signingKeys = s.signingKeys
  other : ∀ i, i ∉ ids → s'.operators i = s.operators i
  deposited_le : ∀ i, (s.operators i).deposited ≤ (s'.operators i).deposited
  le_max : ∀ i ∈ ids, (s'.operators i).deposited ≤ (s.operators i).maxValidators
  vetted : ∀ i, (s'.operators i).vetted = (s.operators i).vetted

theorem Deposited.refl (s : NodeOperatorsRegistry) : Deposited s s [] where
  totalOperatorsCount := rfl
  signingKeys := rfl
  other _ _ := rfl
  deposited_le _ := Nat.le_refl _
  le_max _ hi := absurd hi List.not_mem_nil
  vetted _ := rfl

theorem Deposited.self (h : (s.operators id).deposited ≤ (s.operators id).maxValidators) :
    Deposited s s [id] where
  totalOperatorsCount := rfl
  signingKeys := rfl
  other _ _ := rfl
  deposited_le _ := Nat.le_refl _
  le_max _ hi := List.mem_singleton.mp hi ▸ h
  vetted _ := rfl

/-- One operator after the other. -/
theorem Deposited.cons {s₁ : NodeOperatorsRegistry} {ids : List Nat} (h : Deposited s s₁ [id])
    (h' : Deposited s₁ s' ids) (hid : id ∉ ids) : Deposited s s' (id :: ids) where
  totalOperatorsCount := h'.totalOperatorsCount.trans h.totalOperatorsCount
  signingKeys := h'.signingKeys.trans h.signingKeys
  other i hi := by
    rw [List.mem_cons, not_or] at hi
    rw [h'.other i hi.2, h.other i (fun hmem => hi.1 (List.mem_singleton.mp hmem))]
  deposited_le i := (h.deposited_le i).trans (h'.deposited_le i)
  le_max i hi := by
    rcases List.mem_cons.mp hi with rfl | hi
    · rw [h'.other i hid]
      exact h.le_max i (List.mem_singleton_self i)
    · have hne : i ∉ [id] := fun hmem => hid (List.mem_singleton.mp hmem ▸ hi)
      rw [← h.other i hne]
      exact h'.le_max i hi
  vetted i := (h'.vetted i).trans (h.vetted i)

theorem keysOf_append (returned returned' : List (Nat × Nat)) :
    s.keysOf getKeyOffset (returned ++ returned')
      = s.keysOf getKeyOffset returned ++ s.keysOf getKeyOffset returned' :=
  List.flatMap_append

theorem signaturesOf_append (returned returned' : List (Nat × Nat)) :
    s.signaturesOf getKeyOffset (returned ++ returned')
      = s.signaturesOf getKeyOffset returned ++ s.signaturesOf getKeyOffset returned' :=
  List.flatMap_append

theorem keysOf_newlyDeposited :
    s.keysOf getKeyOffset ((newlyDeposited s s' id).map fun index => (id, index))
      = storedKeys s.signingKeys getKeyOffset id (s.operators id).deposited
        ((s'.operators id).deposited - (s.operators id).deposited) :=
  List.flatMap_map _ _ _

theorem signaturesOf_newlyDeposited :
    s.signaturesOf getKeyOffset ((newlyDeposited s s' id).map fun index => (id, index))
      = storedSignatures s.signingKeys getKeyOffset id (s.operators id).deposited
        ((s'.operators id).deposited - (s.operators id).deposited) :=
  List.flatMap_map _ _ _

/-- What the first operator is given does not change when the others are given keys. -/
theorem returnedBy_cons {s₁ : NodeOperatorsRegistry} {ids : List Nat} (h : Deposited s s₁ [id])
    (h' : Deposited s₁ s' ids) (hid : id ∉ ids) :
    returnedBy s s' (id :: ids)
      = (newlyDeposited s s₁ id).map (fun index => (id, index)) ++ returnedBy s₁ s' ids := by
  have hhead : newlyDeposited s s' id = newlyDeposited s s₁ id := by
    unfold newlyDeposited
    rw [h'.other id hid]
  have htail : ∀ i ∈ ids, (newlyDeposited s s' i).map (fun index => (i, index))
      = (newlyDeposited s₁ s' i).map fun index => (i, index) := by
    intro i hi
    have hne : i ∉ [id] := fun hmem => hid (List.mem_singleton.mp hmem ▸ hi)
    unfold newlyDeposited
    rw [h.other i hne]
  rw [returnedBy, List.flatMap_cons, hhead, List.flatMap_congr htail]
  rfl

/-- What is returned for the first operator, which is given `g` keys, and then for the others. -/
theorem returned_cons {s₁ : NodeOperatorsRegistry} {ids : List Nat} {g : Nat}
    (h : Deposited s s₁ [id]) (h' : Deposited s₁ s' ids) (hid : id ∉ ids)
    (hgiven : (s₁.operators id).deposited = (s.operators id).deposited + g) :
    (returnedBy s s' (id :: ids)).length = g + (returnedBy s₁ s' ids).length ∧
      s.keysOf getKeyOffset (returnedBy s s' (id :: ids))
        = storedKeys s.signingKeys getKeyOffset id (s.operators id).deposited g
          ++ s₁.keysOf getKeyOffset (returnedBy s₁ s' ids) ∧
      s.signaturesOf getKeyOffset (returnedBy s s' (id :: ids))
        = storedSignatures s.signingKeys getKeyOffset id (s.operators id).deposited g
          ++ s₁.signaturesOf getKeyOffset (returnedBy s₁ s' ids) := by
  have hcount : (s₁.operators id).deposited - (s.operators id).deposited = g := by omega
  rw [returnedBy_cons h h' hid]
  refine ⟨?_, ?_, ?_⟩
  · rw [List.length_append, List.length_map, newlyDeposited, List.length_range', hcount]
  · rw [keysOf_append, keysOf_newlyDeposited, hcount]
    unfold keysOf
    rw [h.signingKeys]
  · rw [signaturesOf_append, signaturesOf_newlyDeposited, hcount]
    unfold signaturesOf
    rw [h.signingKeys]

/-! ## Loading -/

theorem sum_le_of_forall₂ {f : Nat → Nat} {ids counts : List Nat}
    (h : List.Forall₂ (fun id count => f id ≤ count) ids counts) :
    (ids.map f).sum ≤ counts.sum := by
  induction h with
  | nil => exact Nat.le_refl 0
  | cons hle _ ih =>
    rw [List.map_cons, List.sum_cons, List.sum_cons]
    omega

/-- The count that the allocation assigns to an operator: at least the present one, at most the
maximal one. -/
def Assigned (s : NodeOperatorsRegistry) (id count : Nat) : Prop :=
  (s.operators id).deposited - (s.operators id).exited ≤ count ∧
    count ≤ (s.operators id).maxValidators - (s.operators id).exited

/-- One operator was given `n` more keys, on top of the `loaded` ones. -/
structure Given (s s' : NodeOperatorsRegistry) (id n loaded : Nat) : Prop where
  balanced : Balanced s' (loaded + n) 0
  deposited : Deposited s s' [id]
  footprint : Footprint [.ready] s s'
  count : (s'.operators id).deposited = (s.operators id).deposited + n

theorem Given.none {loaded : Nat} (h : Balanced s loaded 0) : Given s s id 0 loaded :=
  ⟨h, Deposited.self (h.deposited_le_max id), Footprint.refl _ s, rfl⟩

theorem ensures_deposit {loaded : Nat} {stats : Packed} (h : Balanced s loaded 0)
    (hid : id < s.totalOperatorsCount) (hn : 0 < n)
    (hle : (s.operators id).deposited + n ≤ (s.operators id).maxValidators)
    (hstats : Packed.Updated (s.operators id).signingKeysStats stats
      TOTAL_DEPOSITED_KEYS_COUNT_OFFSET ((s.operators id).deposited + n)) :
    Ensures allowed
      ((s.saveOperatorSigningKeysStats id stats).updateSummaryMaxValidatorsCount env id)
      fun s' => Given s s' id n loaded := by
  have hwf := h.wellFormed id
  have hmax := h.max_le_vetted id
  have hvetted : stats.get TOTAL_VETTED_KEYS_COUNT_OFFSET = (s.operators id).vetted :=
    hstats.get_of_ne _ (by decide)
  have htotal : stats.get TOTAL_KEYS_COUNT_OFFSET = (s.operators id).total :=
    hstats.get_of_ne _ (by decide)
  have hexited : stats.get TOTAL_EXITED_KEYS_COUNT_OFFSET = (s.operators id).exited :=
    hstats.get_of_ne _ (by decide)
  -- keys to deposit are left, so the operator is active
  have hactive := hwf.active_of_deposited_lt (by omega)
  have hnew : NodeOperator.WellFormed { s.operators id with signingKeysStats := stats } :=
    wellFormed_of_signingKeysStats hvetted hexited htotal hstats.get
      (hwf.exited_add_stuck_le.trans (Nat.le_add_right _ _))
      (hwf.refunded_le.trans (Nat.le_add_right _ _)) (hle.trans hmax) hwf.vetted_le_total
      (fun hinactive => absurd (hactive.symm.trans hinactive) Bool.noConfusion)
  have he : Edited s (s.saveOperatorSigningKeysStats id stats) id
      { s.operators id with signingKeysStats := stats } loaded 0 (loaded + n) 0 := by
    refine edited_of_signingKeysStats hnew rfl (by rw [hexited]) (by rw [htotal]) ?_
    rw [hstats.get]
    omega
  refine (h.ensures_limits hid he).mono fun s' hs => ?_
  obtain ⟨hbalanced, hlimits⟩ := hs
  have hsave : ∀ i, i ≠ id → (s.saveOperatorSigningKeysStats id stats).operators i = s.operators i :=
    fun i hne => Function.update_of_ne hne _ _
  have hself : (s'.operators id).signingKeysStats = stats := by
    rw [hlimits.signingKeysStats id]
    show (Function.update s.operators id _ id).signingKeysStats = stats
    rw [Function.update_self]
  have hdeposited : (s'.operators id).deposited = (s.operators id).deposited + n := by
    rw [NodeOperator.deposited, hself, hstats.get]
  have hother : ∀ i, i ≠ id → s'.operators i = s.operators i := fun i hne =>
    (hlimits.operators_of_ne hne).trans (hsave i hne)
  have hf : Footprint [.ready] s (s.saveOperatorSigningKeysStats id stats) :=
    footprint_of_update rfl rfl (fun _ => ⟨rfl, htotal⟩) (fun _ => hvetted.le) (fun _ => rfl)
      List.mem_cons_self
  refine ⟨hbalanced, ?_, hf.trans (hlimits.footprint List.mem_cons_self) List.mem_cons_self,
    hdeposited⟩
  exact
    { totalOperatorsCount := hlimits.totalOperatorsCount
      signingKeys := hlimits.signingKeys
      other := fun i hi => hother i (fun heq => hi (heq ▸ List.mem_singleton_self _))
      deposited_le := fun i => by
        rcases eq_or_ne i id with rfl | hne
        · rw [hdeposited]
          exact Nat.le_add_right _ _
        · rw [hother i hne]
      le_max := fun i hi => by
        rw [List.mem_singleton.mp hi, hdeposited]
        exact hle
      vetted := fun i => by
        rcases eq_or_ne i id with rfl | hne
        · rw [NodeOperator.vetted, hself, hvetted]
        · rw [hother i hne] }

/-- Where the loop stands: `loaded` keys are loaded, and the operators `ids` are assigned `n` more. -/
structure ToLoad (s : NodeOperatorsRegistry) (ids counts : List Nat) (loaded n : Nat) : Prop where
  balanced : Balanced s loaded 0
  exist : ∀ id ∈ ids, id < s.totalOperatorsCount
  nodup : ids.Nodup
  assigned : List.Forall₂ (Assigned s) ids counts
  sum : counts.sum
    = (ids.map fun id => (s.operators id).deposited - (s.operators id).exited).sum + n

section head

variable {ids counts : List Nat} {count loaded g k : Nat}

/-- The first operator is given `g` keys, and `k` are left for the others. -/
theorem ToLoad.head (h : ToLoad s (id :: ids) (count :: counts) loaded n) :
    ∃ g k, (s.operators id).exited + count = (s.operators id).deposited + g ∧ n = g + k := by
  obtain ⟨⟨hlow, -⟩, htail⟩ := List.forall₂_cons.mp h.assigned
  have hexited := (h.balanced.wellFormed id).exited_le_deposited
  have hsum := h.sum
  rw [List.map_cons, List.sum_cons, List.sum_cons] at hsum
  have htail_le := sum_le_of_forall₂ (htail.imp fun _ _ h => h.1)
  exact ⟨(s.operators id).exited + count - (s.operators id).deposited,
    n - ((s.operators id).exited + count - (s.operators id).deposited), by omega, by omega⟩

variable (h : ToLoad s (id :: ids) (count :: counts) loaded (g + k))
  (hg : (s.operators id).exited + count = (s.operators id).deposited + g)
include h hg

theorem ToLoad.deposited_add_le :
    (s.operators id).deposited + g ≤ (s.operators id).maxValidators := by
  obtain ⟨⟨-, hhigh⟩, -⟩ := List.forall₂_cons.mp h.assigned
  have hmax := h.balanced.deposited_le_max id
  have hexited := (h.balanced.wellFormed id).exited_le_deposited
  omega

/-- The deposited count that the loop computes. -/
theorem ToLoad.uncheckedAdd_exited :
    uncheckedAdd (s.operators id).exited count = (s.operators id).deposited + g := by
  have hle := h.deposited_add_le hg
  have hbound : (s.operators id).maxValidators < 2 ^ 64 := Packed.get_lt
  exact (uncheckedAdd_of_lt (by omega)).trans hg

/-- What is loaded is deposited, and the deposits of all operators have 64 bits. -/
theorem ToLoad.uncheckedAdd_loaded : uncheckedAdd loaded g = loaded + g := by
  have hle := h.deposited_add_le hg
  have hbound : (s.operators id).maxValidators < 2 ^ 64 := Packed.get_lt
  have hdeposited := h.balanced.deposited
  have hsum := h.balanced.sumOver_le_max fun i => (h.balanced.wellFormed i).deposited_le_total
  unfold UINT64_MAX at hsum
  exact uncheckedAdd_of_lt (by omega)

/-- What is left after the first operator, in the state that it leaves. -/
theorem ToLoad.tail {s₁ : NodeOperatorsRegistry} (h₁ : Given s s₁ id g loaded) :
    ToLoad s₁ ids counts (loaded + g) k := by
  obtain ⟨⟨hlow, -⟩, htail⟩ := List.forall₂_cons.mp h.assigned
  obtain ⟨hnot, hnodup⟩ := List.nodup_cons.mp h.nodup
  have hother : ∀ i ∈ ids, s₁.operators i = s.operators i := fun i hi =>
    h₁.deposited.other i fun hmem => hnot (List.mem_singleton.mp hmem ▸ hi)
  have hsame : ids.map (fun id => (s₁.operators id).deposited - (s₁.operators id).exited)
      = ids.map fun id => (s.operators id).deposited - (s.operators id).exited :=
    List.map_congr_left fun i hi => by rw [hother i hi]
  refine ⟨h₁.balanced, fun i hi => ?_, hnodup, ?_, ?_⟩
  · rw [h₁.deposited.totalOperatorsCount]
    exact h.exist i (List.mem_cons_of_mem _ hi)
  · refine Ledger.forall₂_of_mem htail fun i hi count hcount => ?_
    unfold Assigned
    rw [hother i hi]
    exact hcount
  · have hexited := (h.balanced.wellFormed id).exited_le_deposited
    have hsum := h.sum
    rw [List.map_cons, List.sum_cons, List.sum_cons] at hsum
    rw [hsame]
    omega

end head

/-- What the loop has done with the operators `ids`: `n` more keys are in the buffers. -/
structure Loaded (s : NodeOperatorsRegistry) (getKeyOffset : Nat → Nat → BitVec 256)
    (ids : List Nat) (loaded n : Nat) (keys signatures : Bytes)
    (r : NodeOperatorsRegistry × (Bytes × Bytes) × Nat) : Prop where
  balanced : Balanced r.1 (loaded + n) 0
  deposited : Deposited s r.1 ids
  footprint : Footprint [.ready] s r.1
  length : (returnedBy s r.1 ids).length = n
  buffers : r.2 = ((keys ++ s.keysOf getKeyOffset (returnedBy s r.1 ids),
    signatures ++ s.signaturesOf getKeyOffset (returnedBy s r.1 ids)), loaded + n)

theorem Loaded.nil {loaded : Nat} {keys signatures : Bytes} (h : Balanced s loaded 0) :
    Loaded s getKeyOffset [] loaded 0 keys signatures
      (s, (keys ++ zeros (0 * PUBKEY_LENGTH), signatures ++ zeros (0 * SIGNATURE_LENGTH)),
        loaded) where
  balanced := h
  deposited := Deposited.refl s
  footprint := Footprint.refl _ s
  length := rfl
  buffers := by simp [returnedBy, keysOf, signaturesOf, zeros]

/-- First the keys of the first operator, then those of the others. -/
theorem Loaded.cons {s₁ : NodeOperatorsRegistry} {ids : List Nat} {loaded g k : Nat}
    {keys signatures : Bytes} {r : NodeOperatorsRegistry × (Bytes × Bytes) × Nat}
    (h₁ : Given s s₁ id g loaded) (hid : id ∉ ids)
    (h : Loaded s₁ getKeyOffset ids (loaded + g) k
      (keys ++ storedKeys s.signingKeys getKeyOffset id (s.operators id).deposited g)
      (signatures ++ storedSignatures s.signingKeys getKeyOffset id (s.operators id).deposited g)
      r) :
    Loaded s getKeyOffset (id :: ids) loaded (g + k) keys signatures r := by
  obtain ⟨hboth, hkeysOf, hsignaturesOf⟩ := returned_cons h₁.deposited h.deposited hid h₁.count
  refine ⟨?_, h₁.deposited.cons h.deposited hid, h₁.footprint.trans h.footprint List.mem_cons_self,
    ?_, ?_⟩
  · rw [← Nat.add_assoc]
    exact h.balanced
  · rw [hboth, h.length]
  · rw [h.buffers, hkeysOf, hsignaturesOf, List.append_assoc, List.append_assoc, Nat.add_assoc]

/--
The loop fills `n` places of the buffers. The induction is over the operators that are left; each
of them is there once, so that what they are given was not changed by the operators before.
-/
theorem ensures_loadAllocatedLoop {ids counts : List Nat} {loaded : Nat}
    {keys signatures : Bytes} (h : ToLoad s ids counts loaded n)
    (hkeys : keys.length = loaded * PUBKEY_LENGTH)
    (hsignatures : signatures.length = loaded * SIGNATURE_LENGTH) :
    Ensures allowed (loadAllocatedLoop getKeyOffset env ids counts s
        (keys ++ zeros (n * PUBKEY_LENGTH), signatures ++ zeros (n * SIGNATURE_LENGTH)) loaded)
      (Loaded s getKeyOffset ids loaded n keys signatures) := by
  induction ids generalizing s n loaded counts keys signatures with
  | nil =>
    cases h.assigned
    obtain rfl : n = 0 := by simpa using h.sum.symm
    exact ensures_pure (Loaded.nil h.balanced)
  | cons id ids ih =>
    obtain - | @⟨_, count, _, counts, hassigned, htail⟩ := h.assigned
    obtain ⟨g, k, hg, rfl⟩ := h.head
    -- what the loop does after the first operator
    have hrest : ∀ s₁, Given s s₁ id g loaded → Ensures allowed
        (loadAllocatedLoop getKeyOffset env ids counts s₁
          (keys ++ storedKeys s.signingKeys getKeyOffset id (s.operators id).deposited g
              ++ zeros (k * PUBKEY_LENGTH),
            signatures ++ storedSignatures s.signingKeys getKeyOffset id
              (s.operators id).deposited g ++ zeros (k * SIGNATURE_LENGTH)) (loaded + g))
        (Loaded s getKeyOffset (id :: ids) loaded (g + k) keys signatures) := by
      intro s₁ h₁
      refine (ih (h.tail hg h₁) ?_ ?_).mono fun r hr =>
        hr.cons h₁ (List.nodup_cons.mp h.nodup).1
      · rw [List.length_append, length_storedKeys, hkeys, Nat.add_mul]
      · rw [List.length_append, length_storedSignatures, hsignatures, Nat.add_mul]
    have hafter := h.uncheckedAdd_exited hg
    unfold NodeOperator.exited NodeOperator.deposited at hafter
    unfold loadAllocatedLoop
    simp only [hafter, Nat.add_sub_cancel_left, h.uncheckedAdd_loaded hg]
    split
    · next hnone =>
      obtain rfl : g = 0 := by omega
      have hstart := hrest s (Given.none h.balanced)
      simp only [storedKeys, storedSignatures, List.range'_zero, List.flatMap_nil,
        List.append_nil, Nat.add_zero, Nat.zero_add] at hstart ⊢
      exact hstart
    · next hsome =>
      have hpos : 0 < g := by omega
      have hle := h.deposited_add_le hg
      refine (ensures_ensure (Nat.lt_add_of_pos_right hpos)).bind fun _ _ => ?_
      rw [loadKeysSigs_zeros hkeys hsignatures]
      refine (ensures_set (.inl (hle.trans Packed.get_le))).bind fun stats hstats => ?_
      refine (ensures_deposit h.balanced (h.exist id List.mem_cons_self) hpos hle hstats).bind
        fun s₁ h₁ => ?_
      exact hrest s₁ h₁

/-- What the allocation assigns, as the loop reads it. -/
theorem assigned_of_raised {ids counts : List Nat} (h : Invariant s)
    (hraised : MinFirstAllocationStrategy.Raised
      (ids.map fun id => (s.operators id).deposited - (s.operators id).exited) counts
      (ids.map fun id => (s.operators id).maxValidators - (s.operators id).exited) n) :
    List.Forall₂ (Assigned s) ids counts := by
  have hlength := hraised.length
  rw [List.length_map] at hlength
  refine List.forall₂_iff_get.mpr ⟨hlength.symm, fun i hi hi' => ?_⟩
  have hle := hraised.le i
  have hcapacity := hraised.le_capacity i
  have hmax := h.deposited_le_max (ids.get ⟨i, hi⟩)
  simp only [List.getD_eq_getElem?_getD, List.getElem?_map, List.getElem?_eq_getElem hi,
    List.getElem?_eq_getElem hi', Option.map_some, Option.getD_some] at hle hcapacity
  simp only [List.get_eq_getElem] at hmax ⊢
  refine ⟨hle, hcapacity.trans (Nat.max_le.mpr ⟨?_, Nat.le_refl _⟩)⟩
  omega

theorem sum_of_raised {ids counts : List Nat} {f g : Nat → Nat}
    (hraised : MinFirstAllocationStrategy.Raised (ids.map f) counts (ids.map g) n) :
    counts.sum = (ids.map f).sum + n := by
  have hsum := hraised.sum
  rw [Ledger.sum_range_getD, ← hraised.length, Ledger.sum_range_getD] at hsum
  exact hsum

/-- An operator that is not given keys adds nothing to what is returned. -/
theorem returnedBy_ready (h : Deposited s s' (s.ready (List.range s.totalOperatorsCount))) :
    returnedBy s s' (s.ready (List.range s.totalOperatorsCount))
      = returnedBy s s' (List.range s.totalOperatorsCount) := by
  unfold returnedBy
  refine flatMap_filter fun id hid => ?_
  have hnot : id ∉ s.ready (List.range s.totalOperatorsCount) := fun hmem => by
    have hready := (List.mem_filter.mp hmem).2
    rw [hid] at hready
    cases hready
  unfold newlyDeposited
  rw [h.other id hnot, Nat.sub_self]
  rfl

/-! ## `obtainDepositData` -/

theorem initKeysSigsBuf_eq (hn : n ≤ UINT64_MAX) :
    initKeysSigsBuf n = .ok (zeros (n * PUBKEY_LENGTH), zeros (n * SIGNATURE_LENGTH)) := by
  unfold UINT64_MAX at hn
  have hkeys : n * PUBKEY_LENGTH < 2 ^ 256 := by
    unfold PUBKEY_LENGTH
    omega
  have hsignatures : n * SIGNATURE_LENGTH < 2 ^ 256 := by
    unfold SIGNATURE_LENGTH
    omega
  unfold initKeysSigsBuf safeMul
  rw [require_of hkeys, require_of hsignatures]
  rfl

/-- The summary catches up with the keys that were loaded. -/
theorem ensures_summaryDeposited (h : Balanced s n 0) :
    Ensures allowed
      (within .packed (s.summarySigningKeysStats.add SUMMARY_DEPOSITED_KEYS_COUNT_OFFSET n))
      fun summary => Invariant (s.saveSummarySigningKeysStats summary) := by
  have hdeposited := h.deposited
  have hle := h.sumOver_le_max fun i => (h.wellFormed i).deposited_le_total
  refine (ensures_add (.inl (hdeposited.le.trans hle))).mono fun summary hsummary => ?_
  exact
    { h with
      max := (hsummary.get_of_ne _ (by decide)).trans h.max
      exited := (hsummary.get_of_ne _ (by decide)).trans h.exited
      total := (hsummary.get_of_ne _ (by decide)).trans h.total
      deposited := hsummary.get.trans hdeposited }

/-- What a call that hands out `n` keys does, and what it returns. -/
structure HandsOut (s s' : NodeOperatorsRegistry) (getKeyOffset : Nat → Nat → BitVec 256)
    (n : Nat) (publicKeys signatures : Bytes) : Prop where
  invariant : Invariant s'
  deposited : Deposited s s' (s.ready (List.range s.totalOperatorsCount))
  length : (returnedBy s s' (List.range s.totalOperatorsCount)).length = n
  publicKeys : publicKeys
    = s.keysOf getKeyOffset (returnedBy s s' (List.range s.totalOperatorsCount))
  signatures : signatures
    = s.signaturesOf getKeyOffset (returnedBy s s' (List.range s.totalOperatorsCount))

theorem ensures_loadAllocatedSigningKeys {counts : List Nat} (h : Invariant s)
    (hn : n ≤ s.sumOver depositable)
    (hraised : MinFirstAllocationStrategy.Raised
      ((s.ready (List.range s.totalOperatorsCount)).map
        fun id => (s.operators id).deposited - (s.operators id).exited) counts
      ((s.ready (List.range s.totalOperatorsCount)).map
        fun id => (s.operators id).maxValidators - (s.operators id).exited) n) :
    Ensures allowed (s.loadAllocatedSigningKeys getKeyOffset env n
        (s.ready (List.range s.totalOperatorsCount)) counts)
      fun r => HandsOut s r.1 getKeyOffset n r.2.1 r.2.2 ∧ Footprint [.ready] s r.1 := by
  have hmax : s.sumOver depositable ≤ UINT64_MAX := h.sumOver_le_max fun i =>
    (Nat.sub_le _ _).trans ((h.max_le_vetted i).trans (h.wellFormed i).vetted_le_total)
  have hids : ∀ id ∈ s.ready (List.range s.totalOperatorsCount), id < s.totalOperatorsCount :=
    fun id hid => List.mem_range.mp (List.mem_filter.mp hid).1
  unfold loadAllocatedSigningKeys
  rw [initKeysSigsBuf_eq (hn.trans hmax), ok_bind]
  have hempty : ∀ k, ([] : Bytes).length = 0 * k := fun k => (Nat.zero_mul k).symm
  have htoLoad : ToLoad s (s.ready (List.range s.totalOperatorsCount)) counts 0 n :=
    ⟨h, hids, List.nodup_range.filter _, assigned_of_raised h hraised, sum_of_raised hraised⟩
  refine (ensures_loadAllocatedLoop htoLoad (hempty _) (hempty _)).bind ?_
  rintro ⟨s₁, buffers, loaded⟩ ⟨hbalanced, hdeposited, hf, hlength, hbuffers⟩
  simp only [Prod.mk.injEq, List.nil_append, Nat.zero_add] at hbalanced hdeposited hlength hbuffers
  obtain ⟨rfl, rfl⟩ := hbuffers
  refine (ensures_ensure rfl).bind fun _ _ => ?_
  refine (ensures_summaryDeposited hbalanced).bind fun summary hinvariant => ensures_pure ?_
  rw [returnedBy_ready hdeposited] at hlength ⊢
  refine ⟨?_, hf.trans (footprint_of_operators rfl rfl rfl) List.mem_cons_self⟩
  exact
    { invariant := hinvariant
      deposited := { hdeposited with }
      length := hlength
      publicKeys := rfl
      signatures := rfl }

/--
**Handing out keys.** If there are enough, the call returns the keys of every operator from its
deposited count on, and raises that count accordingly.
-/
theorem ensures_obtainDepositData (h : Invariant s)
    (hauth : env.canPerform env.sender .stakingRouter = true ∨ allowed (.error .appAuthFailed))
    (hn : n ≤ s.sumOver depositable ∨ allowed (.error .invalidAllocatedKeysCount)) :
    Ensures allowed (s.obtainDepositData getKeyOffset env n) fun r =>
      HandsOut s r.1 getKeyOffset n r.2.1 r.2.2 ∧ Footprint [.nonce] s r.1 ∧
        n ≤ s.sumOver depositable := by
  have hguard : Ensures allowed (auth env .stakingRouter) fun _ => True := by
    rcases hauth with hauth | hallowed
    · rw [auth, require_of hauth]
      exact ensures_ok trivial
    · exact (ensures_require hallowed).mono fun _ _ => trivial
  refine hguard.bind fun _ _ => ?_
  simp only
  split
  · -- no keys are asked for, and the operators are not read at all
    next hzero =>
    subst hzero
    have hnone : returnedBy s s (List.range s.totalOperatorsCount) = [] := by
      refine List.flatMap_eq_nil_iff.mpr fun id _ => ?_
      rw [newlyDeposited, Nat.sub_self]
      rfl
    refine ensures_pure ⟨⟨h, ?_, ?_, ?_, ?_⟩, Footprint.refl _ s, Nat.zero_le _⟩
    · exact
        { totalOperatorsCount := rfl
          signingKeys := rfl
          other := fun _ _ => rfl
          deposited_le := fun _ => Nat.le_refl _
          le_max := fun i _ => h.deposited_le_max i
          vetted := fun _ => rfl }
    · rw [hnone]
      rfl
    · rw [hnone]
      rfl
    · rw [hnone]
      rfl
  · obtain ⟨counts, hdata, hraised⟩ := getSigningKeysAllocationData_eq h (n := n)
    rw [hdata, ok_bind]
    have hcheck : Ensures allowed
        (require (min n (s.sumOver depositable) = n) .invalidAllocatedKeysCount)
        fun _ => n ≤ s.sumOver depositable := by
      rcases hn with hn | hallowed
      · rw [require_of (Nat.min_eq_left hn)]
        exact ensures_ok hn
      · exact (ensures_require hallowed).mono fun _ heq => by
          rw [← heq]
          exact Nat.min_le_right _ _
    refine hcheck.bind fun _ hn => ?_
    rw [Nat.min_eq_left hn] at hraised ⊢
    refine (ensures_loadAllocatedSigningKeys h hn hraised).bind ?_
    rintro r ⟨hr, hf⟩
    refine ensures_pure ⟨?_, hf.increaseValidatorsKeysNonce List.not_mem_nil, hn⟩
    exact
      { invariant := hr.invariant.increaseValidatorsKeysNonce
        deposited := { hr.deposited with }
        length := hr.length
        publicKeys := hr.publicKeys
        signatures := hr.signatures }

end NodeOperatorsRegistry

end Catalist

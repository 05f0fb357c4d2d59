import Catalist.Registry.KeyStorage
import Catalist.Registry.Limits
import Catalist.Registry.Steps

/-!
# The key lists of a run

Each call of the registry acts on the list of keys of each operator as `RegistryAction.editKeys`
says: keys are appended, a range of them is removed, or the list is cut off behind the deposited
keys. So in every run the storage holds the lists that the calls make, and a deposited key stays
where it is.
-/

namespace Catalist

open Solidity ByteBuffer SigningKeys IndexTable Transition

/-- What a call does to the keys of the operator `id`, of which `deposited` are deposited. -/
def RegistryAction.editKeys (action : RegistryAction) (id deposited : Nat)
    (keys : List SigningKey) : List SigningKey :=
  match action with
  | .addSigningKeys id' keysCount publicKeys signatures
  | .addSigningKeysOperatorBH id' keysCount publicKeys signatures =>
    if id = id' then keys ++ readSigningKeys publicKeys signatures keysCount else keys
  | .removeSigningKey id' index | .removeSigningKeyOperatorBH id' index =>
    if id = id' then removeRange index 1 keys else keys
  | .removeSigningKeys id' fromIndex keysCount
  | .removeSigningKeysOperatorBH id' fromIndex keysCount =>
    if id = id' then removeRange fromIndex keysCount keys else keys
  | .invalidateReadyToDepositKeysRange indexFrom indexTo =>
    if indexFrom ≤ id ∧ id ≤ indexTo then keys.take deposited else keys
  | .onWithdrawalCredentialsChanged => keys.take deposited
  | _ => keys

namespace NodeOperatorsRegistry

variable {s s' : NodeOperatorsRegistry} {env : RegistryEnv} {id n : Nat}
  {getKeyOffset : Nat → Nat → BitVec 256} {publicKeys signatures : Bytes}

/-- The keys of an operator. -/
def signingKeysOf (s : NodeOperatorsRegistry) (getKeyOffset : Nat → Nat → BitVec 256) (id : Nat) :
    List SigningKey :=
  keyList s.signingKeys getKeyOffset id (s.operators id).total

theorem SameKeys.signingKeysOf (h : SameKeys s s') (id : Nat) :
    s'.signingKeysOf getKeyOffset id = s.signingKeysOf getKeyOffset id := by
  unfold NodeOperatorsRegistry.signingKeysOf
  rw [h.signingKeys, h.total]

/-- Operators have fewer than `2 ^ 64` keys, and those that do not exist have none. -/
theorem Counted.of_lt_total {loaded trimmed i : Nat} (h : Counted s loaded trimmed)
    (hi : i < (s.operators id).total) : id < MAX_NODE_OPERATORS_COUNT ∧ i < 2 ^ 64 := by
  have hbound : (s.operators id).total < 2 ^ 64 := Packed.get_lt
  refine ⟨?_, by omega⟩
  by_contra hge
  have hle := h.totalOperatorsCount_le
  rw [(h.blank id (by omega)).total] at hi
  exact Nat.not_lt_zero i hi

/-- Storage was rewritten for one operator, which has `m` keys now. -/
structure Rewritten (s s' : NodeOperatorsRegistry) (id m : Nat) (storage : Storage) : Prop where
  signingKeys : s'.signingKeys = storage
  total_self : (s'.operators id).total = m
  total_of_ne : ∀ i, i ≠ id → (s'.operators i).total = (s.operators i).total

theorem Rewritten.signingKeysOf_of_ne {m i : Nat} {storage : Storage} (h : Invariant s)
    (hr : Rewritten s s' id m storage) (hne : i ≠ id)
    (hother : ∀ id' index', id' < MAX_NODE_OPERATORS_COUNT → index' < 2 ^ 64 → id' ≠ id →
      storedSigningKey storage getKeyOffset id' index'
        = storedSigningKey s.signingKeys getKeyOffset id' index') :
    s'.signingKeysOf getKeyOffset i = s.signingKeysOf getKeyOffset i := by
  unfold NodeOperatorsRegistry.signingKeysOf
  rw [hr.signingKeys, hr.total_of_ne i hne]
  refine keyList_congr fun index hindex => ?_
  obtain ⟨hi, hbound⟩ := h.of_lt_total hindex
  exact hother i index hi hbound hne

theorem Rewritten.sameKeys {m : Nat} {storage : Storage} {s₁ : NodeOperatorsRegistry}
    (hr : Rewritten s s₁ id m storage) (h : SameKeys s₁ s') : Rewritten s s' id m storage where
  signingKeys := h.signingKeys.trans hr.signingKeys
  total_self := (h.total id).trans hr.total_self
  total_of_ne i hne := (h.total i).trans (hr.total_of_ne i hne)

/-- The signing keys stats of one operator are saved, after its keys. -/
theorem rewritten_of_save {m : Nat} {storage : Storage} {stats : Packed}
    (htotal : stats.get TOTAL_KEYS_COUNT_OFFSET = m) :
    Rewritten s (saveOperatorSigningKeysStats { s with signingKeys := storage } id stats) id m
      storage where
  signingKeys := rfl
  total_self := by
    show (Function.update s.operators id _ id).total = m
    rw [Function.update_self]
    exact htotal
  total_of_ne i hne := by
    show (Function.update s.operators id _ i).total = _
    rw [Function.update_of_ne hne]

/-! ## Adding -/

theorem rewritten_of_addSigningKeysInternal (h : Invariant s) :
    Ensures (fun _ => True) (s.addSigningKeysInternal getKeyOffset id n publicKeys signatures)
      fun s' => id < MAX_NODE_OPERATORS_COUNT ∧ ∃ storage m,
        saveKeysSigs s.signingKeys getKeyOffset id (s.operators id).total n publicKeys signatures
          = .ok (storage, m) ∧
        Rewritten s s' id m storage := by
  refine (ensures_require trivial).bind fun _ hid => ?_
  refine ensures_check.bind fun _ _ => ?_
  refine ensures_check.bind fun _ _ => ?_
  refine (ensures_any _).bind fun _ _ => ?_
  refine ensures_check.bind fun _ _ => ?_
  refine (ensures_any _).bind_ok fun ⟨storage, m⟩ hsave => ?_
  refine (ensures_set (.inr trivial)).bind fun stats hstats => ?_
  refine (ensures_any _).bind fun summary _ => ensures_pure ?_
  refine ⟨Nat.lt_of_lt_of_le hid h.totalOperatorsCount_le, storage, m, hsave, ?_⟩
  exact (rewritten_of_save hstats.get).sameKeys ⟨rfl, fun _ => rfl⟩

/-- The keys of the caller's operator are appended to its list. -/
theorem signingKeysOf_of_add (hsep : Separate getKeyOffset) (h : Invariant s)
    (hrun : s.addSigningKeys getKeyOffset env id n publicKeys signatures = .ok s') (i : Nat) :
    s'.signingKeysOf getKeyOffset i
      = if i = id then s.signingKeysOf getKeyOffset i ++ readSigningKeys publicKeys signatures n
        else s.signingKeysOf getKeyOffset i := by
  simp only [addSigningKeys, bind_eq_ok] at hrun
  obtain ⟨_, -, hrun⟩ := hrun
  obtain ⟨hid, storage, m, hsave, hr⟩ := (rewritten_of_addSigningKeysInternal h).of_ok hrun
  obtain ⟨-, hlist, hother⟩ := keyList_of_saveKeysSigs hsep hid hsave
  split
  · next heq =>
    subst heq
    unfold signingKeysOf
    rw [hr.signingKeys, hr.total_self, hlist]
  · next hne => exact hr.signingKeysOf_of_ne h hne hother

/-! ## Removing -/

theorem rewritten_of_removeUnusedSigningKeys (h : Invariant s) {fromIndex : Nat} :
    Ensures (fun _ => True) (s.removeUnusedSigningKeys getKeyOffset env id fromIndex n)
      fun s' => (n = 0 ∧ s' = s) ∨
        ((s.operators id).deposited ≤ fromIndex ∧ id < MAX_NODE_OPERATORS_COUNT ∧ ∃ storage m,
          removeKeysSigs s.signingKeys getKeyOffset id fromIndex n (s.operators id).total
            = .ok (storage, m) ∧
          Rewritten s s' id m storage) := by
  refine (ensures_require trivial).bind fun _ hid => ?_
  refine ensures_check.bind fun _ _ => ?_
  split
  · next hzero => exact ensures_pure (.inl ⟨hzero, rfl⟩)
  · refine (ensures_require trivial).bind fun _ hfrom => ?_
    refine (ensures_any _).bind fun _ _ => ?_
    refine ensures_check.bind fun _ _ => ?_
    refine (ensures_any _).bind_ok fun removed hremove => ?_
    obtain ⟨storage, m⟩ := removed
    refine (ensures_set (.inr trivial)).bind fun stats₁ hstats₁ => ?_
    have hlimit : Ensures (fun _ => True) (within RegistryError.packed
        (if fromIndex < stats₁.get TOTAL_VETTED_KEYS_COUNT_OFFSET then
          stats₁.set TOTAL_VETTED_KEYS_COUNT_OFFSET fromIndex
        else return stats₁)) fun stats => stats.get TOTAL_KEYS_COUNT_OFFSET = m := by
      split
      · refine (ensures_set (.inr trivial)).mono fun stats hstats => ?_
        exact (hstats.get_of_ne _ (by decide)).trans hstats₁.get
      · exact ensures_ok hstats₁.get
    refine hlimit.bind fun stats hstats => ?_
    refine (ensures_any _).bind fun summary _ => ?_
    have hsaved : Rewritten s (saveSummarySigningKeysStats
        (saveOperatorSigningKeysStats { s with signingKeys := storage } id stats) summary) id m
          storage :=
      (rewritten_of_save hstats).sameKeys ⟨rfl, fun _ => rfl⟩
    refine onlyTargets_updateSummaryMaxValidatorsCount.bind fun s₁ hs₁ => ensures_pure ?_
    exact .inr ⟨hfrom, Nat.lt_of_lt_of_le hid h.totalOperatorsCount_le, storage, m, hremove,
      (hsaved.sameKeys hs₁.sameKeys).sameKeys ⟨rfl, fun _ => rfl⟩⟩

/-- A range behind the deposited keys is removed from the list of the caller's operator. -/
theorem signingKeysOf_of_removeUnused (hsep : Separate getKeyOffset) (h : Invariant s)
    {fromIndex : Nat}
    (hrun : s.removeUnusedSigningKeys getKeyOffset env id fromIndex n = .ok s') :
    (n = 0 ∨ (s.operators id).deposited ≤ fromIndex ∧
      fromIndex + n ≤ (s.signingKeysOf getKeyOffset id).length) ∧
    ∀ i, s'.signingKeysOf getKeyOffset i
      = if i = id then removeRange fromIndex n (s.signingKeysOf getKeyOffset i)
        else s.signingKeysOf getKeyOffset i := by
  rcases (rewritten_of_removeUnusedSigningKeys h).of_ok hrun with
    ⟨rfl, rfl⟩ | ⟨hfrom, hid, storage, m, hremove, hr⟩
  · refine ⟨.inl rfl, fun i => ?_⟩
    rw [removeRange, ite_self]
  · obtain ⟨hend, -, hlist, hother⟩ := keyList_of_removeKeysSigs hsep hid hremove
    refine ⟨.inr ⟨hfrom, ?_⟩, fun i => ?_⟩
    · rw [signingKeysOf, length_keyList]
      exact hend
    · split
      · next heq =>
        subst heq
        unfold signingKeysOf
        rw [hr.signingKeys, hr.total_self, hlist]
      · next hne => exact hr.signingKeysOf_of_ne h hne hother

/-! ## Invalidating -/

/-- The lists of the operators `ids` are cut off behind the deposited keys. -/
structure Truncated (s s' : NodeOperatorsRegistry) (ids : List Nat) : Prop where
  signingKeys : s'.signingKeys = s.signingKeys
  total : ∀ i, (s'.operators i).total
    = if i ∈ ids then (s.operators i).deposited else (s.operators i).total
  deposited : ∀ i, (s'.operators i).deposited = (s.operators i).deposited

/-- The induction is over the ids that are left. -/
theorem truncated_of_invalidateLoop {ids : List Nat} {trimmed : Nat} :
    Ensures (fun _ => True) (invalidateLoop env ids trimmed s) fun r => Truncated s r.1 ids := by
  induction ids generalizing s trimmed with
  | nil => exact ensures_pure ⟨rfl, fun i => (if_neg List.not_mem_nil).symm, fun _ => rfl⟩
  | cons id ids ih =>
    unfold invalidateLoop
    simp only
    split
    · -- an operator without unused keys is passed over: there is nothing to cut off
      next heq =>
      have heq : (s.operators id).total = (s.operators id).deposited := heq
      refine ih.mono fun r hr => ⟨hr.signingKeys, fun i => ?_, hr.deposited⟩
      rw [hr.total i]
      rcases eq_or_ne i id with rfl | hne
      · rw [if_pos List.mem_cons_self, heq, ite_self]
      · simp only [List.mem_cons, hne, false_or]
    · refine (ensures_any _).bind fun _ _ => ?_
      refine (ensures_set (.inr trivial)).bind fun stats₁ hstats₁ => ?_
      refine (ensures_set (.inr trivial)).bind fun stats hstats => ?_
      have htotal : stats.get TOTAL_KEYS_COUNT_OFFSET = (s.operators id).deposited :=
        (hstats.get_of_ne _ (by decide)).trans hstats₁.get
      have hdeposited : stats.get TOTAL_DEPOSITED_KEYS_COUNT_OFFSET
          = (s.operators id).deposited :=
        (hstats.get_of_ne _ (by decide)).trans (hstats₁.get_of_ne _ (by decide))
      refine onlyTargets_updateSummaryMaxValidatorsCount.bind fun s₁ hs₁ => ?_
      have hself : (s₁.operators id).signingKeysStats = stats := by
        rw [hs₁.signingKeysStats id]
        show (Function.update s.operators id _ id).signingKeysStats = stats
        rw [Function.update_self]
      have hother : ∀ i, i ≠ id →
          (s₁.operators i).signingKeysStats = (s.operators i).signingKeysStats := by
        intro i hne
        rw [hs₁.signingKeysStats i]
        show (Function.update s.operators id _ i).signingKeysStats = _
        rw [Function.update_of_ne hne]
      have hsame : ∀ i, (s₁.operators i).deposited = (s.operators i).deposited := by
        intro i
        rcases eq_or_ne i id with rfl | hne
        · rw [NodeOperator.deposited, hself, hdeposited]
        · rw [NodeOperator.deposited, NodeOperator.deposited, hother i hne]
      refine ih.mono fun r hr => ⟨hr.signingKeys.trans hs₁.signingKeys, fun i => ?_,
        fun i => (hr.deposited i).trans (hsame i)⟩
      rw [hr.total i, hsame i]
      rcases eq_or_ne i id with rfl | hne
      · rw [if_pos List.mem_cons_self, NodeOperator.total, hself, htotal, ite_self]
      · simp only [List.mem_cons, hne, false_or, NodeOperator.total, hother i hne]

/-- The lists of the operators of a range are cut off behind the deposited keys. -/
theorem signingKeysOf_of_invalidate (h : Invariant s) {m : Nat}
    (hrun : s.invalidateReadyToDepositKeysRangeInternal env n m = .ok s') (i : Nat) :
    s'.signingKeysOf getKeyOffset i
      = if n ≤ i ∧ i ≤ m then (s.signingKeysOf getKeyOffset i).take (s.operators i).deposited
        else s.signingKeysOf getKeyOffset i := by
  have hensures : Ensures (fun _ => True) (s.invalidateReadyToDepositKeysRangeInternal env n m)
      fun s' => Truncated s s' (List.range' n (m + 1 - n)) := by
    refine ensures_check.bind fun _ _ => ?_
    refine truncated_of_invalidateLoop.bind fun ⟨s₁, trimmed⟩ hs => ?_
    show Ensures _ (if 0 < trimmed then _ else _) _
    split
    · exact (ensures_any _).bind fun summary _ =>
        ensures_pure ⟨hs.signingKeys, hs.total, hs.deposited⟩
    · exact ensures_pure hs
  have hs := hensures.of_ok hrun
  have hmem : i ∈ List.range' n (m + 1 - n) ↔ n ≤ i ∧ i ≤ m := by
    rw [List.mem_range'_1]
    omega
  unfold signingKeysOf
  rw [hs.signingKeys, hs.total i]
  by_cases hin : n ≤ i ∧ i ≤ m
  · rw [if_pos (hmem.mpr hin), if_pos hin, keyList_take (h.wellFormed i).deposited_le_total]
  · rw [if_neg (mt hmem.mp hin), if_neg hin]

theorem signingKeysOf_of_onWithdrawalCredentialsChanged (h : Invariant s)
    (hrun : s.onWithdrawalCredentialsChanged env = .ok s') (i : Nat) :
    s'.signingKeysOf getKeyOffset i
      = (s.signingKeysOf getKeyOffset i).take (s.operators i).deposited := by
  -- an operator that does not exist has no keys
  have hnone : s.totalOperatorsCount ≤ i → s.signingKeysOf getKeyOffset i = [] := by
    intro hi
    rw [signingKeysOf, (h.blank i hi).total]
    rfl
  simp only [onWithdrawalCredentialsChanged, bind_eq_ok] at hrun
  obtain ⟨_, -, hrun⟩ := hrun
  split at hrun
  · rw [signingKeysOf_of_invalidate h hrun]
    split
    · rfl
    · rw [hnone (by omega), List.take_nil]
  · cases hrun
    rw [hnone (by omega), List.take_nil]

/-! ## Every call -/

/-- **Every call acts on the lists as it should**, one case for each function. -/
theorem signingKeysOf_of_run (hsep : Separate getKeyOffset) (h : Invariant s)
    {action : RegistryAction} (hrun : action.run getKeyOffset env s = .ok s') (i : Nat) :
    s'.signingKeysOf getKeyOffset i
      = action.editKeys i (s.operators i).deposited (s.signingKeysOf getKeyOffset i) := by
  have hgrown := (ensures_run h).of_ok hrun
  have hremove : ∀ {id fromIndex count : Nat},
      s.removeSigningKeys getKeyOffset env id fromIndex count = .ok s' →
      s'.signingKeysOf getKeyOffset i
        = if i = id then removeRange fromIndex count (s.signingKeysOf getKeyOffset i)
          else s.signingKeysOf getKeyOffset i := by
    intro id fromIndex count hx
    simp only [removeSigningKeys, bind_eq_ok] at hx
    obtain ⟨_, -, hx⟩ := hx
    exact (signingKeysOf_of_removeUnused hsep h hx).2 i
  -- only adding, removing and the two invalidations touch the lists of keys
  cases action with
  | onWithdrawalCredentialsChanged =>
    exact signingKeysOf_of_onWithdrawalCredentialsChanged h hrun i
  | invalidateReadyToDepositKeysRange indexFrom indexTo =>
    simp only [RegistryAction.run, invalidateReadyToDepositKeysRange, bind_eq_ok] at hrun
    obtain ⟨_, -, hrun⟩ := hrun
    exact signingKeysOf_of_invalidate h hrun i
  | addSigningKeys id keysCount publicKeys signatures =>
    exact signingKeysOf_of_add hsep h hrun i
  | addSigningKeysOperatorBH id keysCount publicKeys signatures =>
    exact signingKeysOf_of_add hsep h hrun i
  | removeSigningKey id index => exact hremove hrun
  | removeSigningKeys id fromIndex keysCount => exact hremove hrun
  | removeSigningKeyOperatorBH id index => exact hremove hrun
  | removeSigningKeysOperatorBH id fromIndex keysCount => exact hremove hrun
  | _ => exact (hgrown.keys (by simp [RegistryAction.parts])).signingKeysOf i

/-- The deposited keys of every operator stay. -/
theorem take_signingKeysOf_of_run (hsep : Separate getKeyOffset) (h : Invariant s)
    {action : RegistryAction} (hrun : action.run getKeyOffset env s = .ok s') (i : Nat) :
    (s'.signingKeysOf getKeyOffset i).take (s.operators i).deposited
      = (s.signingKeysOf getKeyOffset i).take (s.operators i).deposited := by
  have hlength : (s.operators i).deposited ≤ (s.signingKeysOf getKeyOffset i).length := by
    rw [signingKeysOf, length_keyList]
    exact (h.wellFormed i).deposited_le_total
  have hremove : ∀ {id fromIndex count : Nat},
      s.removeSigningKeys getKeyOffset env id fromIndex count = .ok s' →
      (s'.signingKeysOf getKeyOffset i).take (s.operators i).deposited
        = (s.signingKeysOf getKeyOffset i).take (s.operators i).deposited := by
    intro id fromIndex count hx
    simp only [removeSigningKeys, bind_eq_ok] at hx
    obtain ⟨_, -, hx⟩ := hx
    obtain ⟨hunused, hlist⟩ := signingKeysOf_of_removeUnused hsep h hx
    rw [hlist i]
    split
    · next heq =>
      subst heq
      rcases hunused with rfl | ⟨hfrom, hend⟩
      · rfl
      · exact take_removeRange hend hfrom
    · rfl
  have hlist := signingKeysOf_of_run hsep h hrun i
  -- new keys go to the end, and removed ones come from behind the deposited ones
  cases action with
  | addSigningKeys id keysCount publicKeys signatures =>
    rw [hlist, RegistryAction.editKeys]
    split
    · rw [List.take_append_of_le_length hlength]
    · rfl
  | addSigningKeysOperatorBH id keysCount publicKeys signatures =>
    rw [hlist, RegistryAction.editKeys]
    split
    · rw [List.take_append_of_le_length hlength]
    · rfl
  | removeSigningKey id index => exact hremove hrun
  | removeSigningKeys id fromIndex keysCount => exact hremove hrun
  | removeSigningKeyOperatorBH id index => exact hremove hrun
  | removeSigningKeysOperatorBH id fromIndex keysCount => exact hremove hrun
  | invalidateReadyToDepositKeysRange indexFrom indexTo =>
    rw [hlist, RegistryAction.editKeys]
    split
    · rw [List.take_take, Nat.min_self]
    · rfl
  | onWithdrawalCredentialsChanged =>
    rw [hlist, RegistryAction.editKeys, List.take_take, Nat.min_self]
  | _ => exact congrArg (List.take _) hlist

/-! ## Runs -/

/-- The induction is over the rest of the run. -/
theorem take_signingKeysOf_of_reachable (hsep : Separate getKeyOffset)
    (h : Reachable Initial (Step getKeyOffset) s)
    (h' : Reachable (· = s) (Step getKeyOffset) s') (i : Nat) :
    (s.operators i).deposited ≤ (s'.operators i).deposited ∧
    (s'.signingKeysOf getKeyOffset i).take (s.operators i).deposited
      = (s.signingKeysOf getKeyOffset i).take (s.operators i).deposited := by
  suffices hall : Reachable Initial (Step getKeyOffset) s' ∧
      (s.operators i).deposited ≤ (s'.operators i).deposited ∧
      (s'.signingKeysOf getKeyOffset i).take (s.operators i).deposited
        = (s.signingKeysOf getKeyOffset i).take (s.operators i).deposited from hall.2
  induction h' with
  | init heq =>
    subst heq
    exact ⟨h, Nat.le_refl _, rfl⟩
  | @step s₁ s₂ _ hs ih =>
    obtain ⟨hreach, hle, htake⟩ := ih
    have hinvariant := invariant_of_reachable hreach
    obtain ⟨env, action, hrun⟩ := hs
    have hgrown := (ensures_run hinvariant).of_ok hrun
    refine ⟨hreach.step ⟨env, action, hrun⟩, hle.trans (hgrown.deposited_le i), ?_⟩
    have hkept := congrArg (List.take (s.operators i).deposited)
      (take_signingKeysOf_of_run hsep hinvariant hrun i)
    rw [List.take_take, List.take_take, Nat.min_eq_left hle] at hkept
    exact hkept.trans htake

theorem signingKeysOf_of_initial (h : Initial s) (i : Nat) :
    s.signingKeysOf getKeyOffset i = [] := by
  have hcount := totalOperatorsCount_of_initial h
  have hblank := (invariant_of_initial h).blank i (by omega)
  rw [signingKeysOf, hblank.total]
  rfl

/--
**The storage of the keys refines lists of keys.** If the hash keeps the words of different keys
apart, then in every run each call acts on the lists as `RegistryAction.editKeys` says. A removal
leaves the indexes below its range alone and removes nothing but the range, a deposited key never
changes, and a range is loaded into the buffers as it is listed.
-/
theorem signingKeys_refine_lists (hsep : Separate getKeyOffset) :
    (∀ s, Initial s → ∀ id, s.signingKeysOf getKeyOffset id = []) ∧
    ∀ s, Reachable Initial (Step getKeyOffset) s →
      (∀ env action s', RegistryAction.run action getKeyOffset env s = .ok s' → ∀ id,
        s'.signingKeysOf getKeyOffset id = action.editKeys id (s.operators id).deposited
          (s.signingKeysOf getKeyOffset id)) ∧
      (∀ env id fromIndex count s',
        s.removeUnusedSigningKeys getKeyOffset env id fromIndex count = .ok s' →
        s'.signingKeysOf getKeyOffset id
            = removeRange fromIndex count (s.signingKeysOf getKeyOffset id) ∧
          (s'.signingKeysOf getKeyOffset id).take fromIndex
            = (s.signingKeysOf getKeyOffset id).take fromIndex ∧
          (((s.signingKeysOf getKeyOffset id).drop fromIndex).take count
            ++ s'.signingKeysOf getKeyOffset id).Perm (s.signingKeysOf getKeyOffset id)) ∧
      (∀ s', Reachable (· = s) (Step getKeyOffset) s' → ∀ id,
        (s.operators id).deposited ≤ (s'.operators id).deposited ∧
          (s'.signingKeysOf getKeyOffset id).take (s.operators id).deposited
            = (s.signingKeysOf getKeyOffset id).take (s.operators id).deposited) ∧
      ∀ id start n bufOffset (pubkeys signatures : Bytes),
        start + n ≤ (s.signingKeysOf getKeyOffset id).length →
        (bufOffset + n) * PUBKEY_LENGTH ≤ pubkeys.length →
        (bufOffset + n) * SIGNATURE_LENGTH ≤ signatures.length →
        loadKeysSigs s.signingKeys getKeyOffset id start n (pubkeys, signatures) bufOffset
          = (pubkeys.take (bufOffset * PUBKEY_LENGTH)
              ++ ((((s.signingKeysOf getKeyOffset id).drop start).take n).flatMap
                  SigningKey.pubkey ++ pubkeys.drop ((bufOffset + n) * PUBKEY_LENGTH)),
            signatures.take (bufOffset * SIGNATURE_LENGTH)
              ++ ((((s.signingKeysOf getKeyOffset id).drop start).take n).flatMap
                  SigningKey.signature
                ++ signatures.drop ((bufOffset + n) * SIGNATURE_LENGTH))) := by
  refine ⟨fun s hs id => signingKeysOf_of_initial hs id, fun s hs => ?_⟩
  have hinvariant := invariant_of_reachable hs
  refine ⟨?_, ?_, ?_, ?_⟩
  · intro env action s' hrun id
    exact signingKeysOf_of_run hsep hinvariant hrun id
  · intro env id fromIndex count s' hrun
    obtain ⟨hunused, hlist⟩ := signingKeysOf_of_removeUnused hsep hinvariant hrun
    have hself := hlist id
    rw [if_pos rfl] at hself
    rw [hself]
    rcases hunused with rfl | ⟨-, hend⟩
    · exact ⟨rfl, rfl, List.Perm.refl _⟩
    · exact ⟨rfl, take_removeRange hend (Nat.le_refl _), removeRange_perm hend⟩
  · intro s' hs' id
    exact take_signingKeysOf_of_reachable hsep hs hs' id
  · intro id start n bufOffset pubkeys signatures hrange hpubkeys hsignatures
    rw [signingKeysOf, length_keyList] at hrange
    exact loadKeysSigs_eq hrange hpubkeys hsignatures

theorem separate_exampleKeyOffset : Separate exampleKeyOffset := by
  intro id id' index index' hid hid' hindex hindex' hne j j' hj hj' heq
  have hnat := congrArg BitVec.toNat heq
  simp only [slot, exampleKeyOffset, BitVec.toNat_add, BitVec.toNat_ofNat,
    MAX_NODE_OPERATORS_COUNT] at hnat hid hid'
  refine hne (Prod.mk.injEq .. ▸ ⟨?_, ?_⟩) <;> omega

/-- The first of two keys is removed, so that the second one takes its place. -/
theorem signingKeys_refine_lists_removed :
    ∃ s', RegistryAction.run (.removeSigningKey 0 0) exampleKeyOffset exampleRegistryEnv
        exampleRegistry = .ok s' ∧
      s'.signingKeysOf exampleKeyOffset 0
        = removeRange 0 1 (exampleRegistry.signingKeysOf exampleKeyOffset 0) ∧
      (exampleRegistry.signingKeysOf exampleKeyOffset 0).length = 2 := by
  have hreach : Reachable Initial (Step exampleKeyOffset) exampleRegistry :=
    reachable_runAll (.init initial_exampleInitialRegistry) runAll_exampleRegistry
  have hrun := eq_ok_result (RegistryAction.run (.removeSigningKey 0 0) exampleKeyOffset
    exampleRegistryEnv exampleRegistry) (by decide +kernel)
  have hlist := ((signingKeys_refine_lists separate_exampleKeyOffset).2 _ hreach).1 _ _ _ hrun 0
  rw [RegistryAction.editKeys, if_pos rfl] at hlist
  exact ⟨_, hrun, hlist, by rw [signingKeysOf, length_keyList]; decide +kernel⟩

end NodeOperatorsRegistry

end Catalist

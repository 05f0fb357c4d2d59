import Catalist.Lib.Outcome
import Catalist.Lib.Sums
import Catalist.WithdrawalQueue.Invariant
import Mathlib.Data.Nat.Find

/-!
# How the queue is stored

The parts of the storage that belong together fit in every state that any calls can reach: requests
of any amounts, finalizations at any rate with any amount of ace, claims and transfers. A finalized
request has exactly one hint, and what it can be claimed for never changes (`Frozen`): later
finalizations only add checkpoints behind it.
-/

namespace Catalist

open Solidity Transition

namespace WithdrawalQueue

variable {q q' q'' : WithdrawalQueue} {env : Env}

/-! ## Hints -/

/-- The hints that `_calculateClaimableAce` accepts for a request. -/
def ValidHint (q : WithdrawalQueue) (id hint : Nat) : Prop :=
  hint ≠ 0 ∧ hint ≤ q.lastCheckpointIndex ∧ (q.checkpoints hint).fromRequestId ≤ id ∧
    (hint < q.lastCheckpointIndex → id < (q.checkpoints (hint + 1)).fromRequestId)

/-- The last checkpoint that starts at or before the request. -/
def hintOf (q : WithdrawalQueue) (id : Nat) : Nat :=
  Nat.findGreatest (fun h => (q.checkpoints h).fromRequestId ≤ id) q.lastCheckpointIndex

theorem Represented.from_mono (hr : Represented q) {g h : Nat} (hgh : g < h)
    (hh : h ≤ q.lastCheckpointIndex) :
    (q.checkpoints g).fromRequestId < (q.checkpoints h).fromRequestId :=
  Ledger.lt_of_steps (f := fun h => (q.checkpoints h).fromRequestId) hgh fun i _ hi =>
    hr.from_lt i (by omega)

theorem Represented.from_hintOf_le (hr : Represented q) (id : Nat) :
    (q.checkpoints (q.hintOf id)).fromRequestId ≤ id :=
  Nat.findGreatest_spec (P := fun h => (q.checkpoints h).fromRequestId ≤ id) (Nat.zero_le _)
    (by simp [hr.checkpoint_zero])

/-- Every finalized request has a valid hint. -/
theorem Represented.validHint_hintOf (hr : Represented q) {id : Nat} (hpos : 0 < id)
    (hfinal : id ≤ q.lastFinalizedRequestId) : q.ValidHint id (q.hintOf id) := by
  obtain ⟨hsome, hone⟩ := hr.checkpoint_one (by omega)
  have hle : q.hintOf id ≤ q.lastCheckpointIndex := Nat.findGreatest_le _
  have hge : 1 ≤ q.hintOf id := Nat.le_findGreatest hsome (by omega)
  refine ⟨by omega, hle, hr.from_hintOf_le id, fun hlt => ?_⟩
  exact Nat.not_le.mp (Nat.findGreatest_is_greatest
    (P := fun h => (q.checkpoints h).fromRequestId ≤ id) (Nat.lt_succ_self _) hlt)

/-- A request has no other valid hint. -/
theorem Represented.eq_hintOf (hr : Represented q) {id hint : Nat} (h : q.ValidHint id hint) :
    hint = q.hintOf id := by
  obtain ⟨_, hle, hfrom, hnext⟩ := h
  have hge : hint ≤ q.hintOf id := Nat.le_findGreatest hle hfrom
  have hbound : q.hintOf id ≤ q.lastCheckpointIndex := Nat.findGreatest_le _
  have hspec := hr.from_hintOf_le id
  by_contra hne
  have hafter := hnext (by omega)
  rcases Nat.lt_or_ge (hint + 1) (q.hintOf id) with hfar | hnear
  · have := hr.from_mono hfar hbound
    omega
  · have : hint + 1 = q.hintOf id := by omega
    rw [this] at hafter
    omega

theorem calculateClaimableAce_of_not_validHint {id hint : Nat} (h : ¬ q.ValidHint id hint) :
    q.calculateClaimableAce id hint = .error (.error (.invalidHint hint)) := by
  unfold calculateClaimableAce require
  by_cases hzero : hint ≠ 0
  · rw [if_pos hzero, ok_bind]
    by_cases hlast : hint ≤ q.lastCheckpointIndex
    · rw [if_pos hlast, ok_bind]
      by_cases hfrom : (q.checkpoints hint).fromRequestId ≤ id
      · simp only [if_pos hfrom, ok_bind]
        rw [if_neg fun hnext => h ⟨hzero, hlast, hfrom, hnext⟩]
        rfl
      · simp only [if_neg hfrom]
        rfl
    · rw [if_neg hlast]
      rfl
  · rw [if_neg hzero]
    rfl

/-- The reverts of `calculateClaimableAce`, besides that of its hint. -/
theorem ensures_calculateClaimableAce {allowed : Revert QueueError → Prop} {id hint : Nat}
    (ho : allowed (.panic .overflow)) (hu : allowed (.panic .underflow))
    (hz : allowed (.panic .divisionByZero))
    (hhint : ¬ q.ValidHint id hint → allowed (.error (.invalidHint hint))) :
    Ensures allowed (q.calculateClaimableAce id hint) fun _ => True := by
  by_cases h : q.ValidHint id hint
  · have hbatch : ∀ pre last, Ensures allowed (calcBatch pre last) fun _ => True := by
      intro pre last
      refine (ensures_subtraction hu).bind fun _ _ => ?_
      refine (ensures_subtraction hu).bind fun _ _ => ?_
      refine (ensures_checkedMul ho).bind fun _ _ => ?_
      exact (ensures_division hz).bind fun _ _ => ensures_pure trivial
    obtain ⟨hzero, hlast, hfrom, hnext⟩ := h
    refine (ensures_require_of hzero).bind fun _ _ => ?_
    refine (ensures_require_of hlast).bind fun _ _ => ?_
    refine (ensures_require_of hfrom).bind fun _ _ => ?_
    refine (ensures_require_of hnext).bind fun _ _ => ?_
    refine (ensures_subtraction hu).bind fun _ _ => ?_
    refine (hbatch _ _).bind fun batch _ => ?_
    unfold batchAce
    split
    · exact (ensures_checkedMul ho).bind fun _ _ => (ensures_division hz).mono fun _ _ => trivial
    · exact ensures_pure trivial
  · rw [calculateClaimableAce_of_not_validHint h]
    exact ensures_error (hhint h)

/-- A hint is refused exactly if it is not valid. -/
theorem calculateClaimableAce_invalidHint_iff {id hint : Nat} :
    q.calculateClaimableAce id hint = .error (.error (.invalidHint hint)) ↔
      ¬ q.ValidHint id hint := by
  constructor
  · intro h hvalid
    have hensures : Ensures (fun r => ∃ p, r = .panic p) (q.calculateClaimableAce id hint)
        fun _ => True :=
      ensures_calculateClaimableAce ⟨_, rfl⟩ ⟨_, rfl⟩ ⟨_, rfl⟩ fun hnot => absurd hvalid hnot
    obtain ⟨p, hp⟩ := hensures.of_error h
    cases hp
  · exact calculateClaimableAce_of_not_validHint

/-! ## Any calls -/

theorem Represented.step (hr : Represented q) (h : AnyStep q q') : Represented q' := by
  cases h with
  | enqueue _ h => exact hr.enqueue h
  | finalize _ h => exact hr.finalize h
  | claim h => exact hr.claim h
  | transfer h => exact hr.transfer h
  | other => exact ⟨hr.1, hr.2, hr.3, hr.4, hr.5, hr.6, hr.7, hr.8, hr.9, hr.10⟩

theorem represented_of_reachable (h : Reachable Initial AnyStep q) : Represented q :=
  h.invariant (fun _ => represented_initial) fun _ _ hr hs => hr.step hs

/-! ## What never changes -/

/--
What the finalized requests are paid by is the same: sums of the requests, and the checkpoints; new
checkpoints start behind the finalized requests.
-/
structure Frozen (q q' : WithdrawalQueue) : Prop where
  lastRequestId : q.lastRequestId ≤ q'.lastRequestId
  lastFinalizedRequestId : q.lastFinalizedRequestId ≤ q'.lastFinalizedRequestId
  lastCheckpointIndex : q.lastCheckpointIndex ≤ q'.lastCheckpointIndex
  bACE : ∀ i ≤ q.lastRequestId, (q'.queue i).cumulativeBACE = (q.queue i).cumulativeBACE
  shares : ∀ i ≤ q.lastRequestId, (q'.queue i).cumulativeShares = (q.queue i).cumulativeShares
  checkpoints : ∀ h ≤ q.lastCheckpointIndex, q'.checkpoints h = q.checkpoints h
  later : ∀ h, q.lastCheckpointIndex < h → h ≤ q'.lastCheckpointIndex →
    q.lastFinalizedRequestId < (q'.checkpoints h).fromRequestId

theorem Frozen.refl : Frozen q q where
  lastRequestId := Nat.le_refl _
  lastFinalizedRequestId := Nat.le_refl _
  lastCheckpointIndex := Nat.le_refl _
  bACE _ _ := rfl
  shares _ _ := rfl
  checkpoints _ _ := rfl
  later _ hlt hle := absurd hle (Nat.not_le.mpr hlt)

theorem Frozen.trans (h : Frozen q q') (h' : Frozen q' q'') : Frozen q q'' where
  lastRequestId := h.lastRequestId.trans h'.lastRequestId
  lastFinalizedRequestId := h.lastFinalizedRequestId.trans h'.lastFinalizedRequestId
  lastCheckpointIndex := h.lastCheckpointIndex.trans h'.lastCheckpointIndex
  bACE i hi := (h'.bACE i (hi.trans h.lastRequestId)).trans (h.bACE i hi)
  shares i hi := (h'.shares i (hi.trans h.lastRequestId)).trans (h.shares i hi)
  checkpoints i hi :=
    (h'.checkpoints i (hi.trans h.lastCheckpointIndex)).trans (h.checkpoints i hi)
  later i hlt hle := by
    by_cases hi : i ≤ q'.lastCheckpointIndex
    · rw [h'.checkpoints i hi]
      exact h.later i hlt hi
    · have hlater := h'.later i (by omega) hle
      have hgrown := h.lastFinalizedRequestId
      omega

/-- Calls that leave the sums and the checkpoints alone. -/
theorem frozen_of_same (hlast : q'.lastRequestId = q.lastRequestId)
    (hfinalized : q'.lastFinalizedRequestId = q.lastFinalizedRequestId)
    (hindex : q'.lastCheckpointIndex = q.lastCheckpointIndex)
    (hcheckpoints : q'.checkpoints = q.checkpoints)
    (hbACE : ∀ i, (q'.queue i).cumulativeBACE = (q.queue i).cumulativeBACE)
    (hshares : ∀ i, (q'.queue i).cumulativeShares = (q.queue i).cumulativeShares) :
    Frozen q q' where
  lastRequestId := hlast.ge
  lastFinalizedRequestId := hfinalized.ge
  lastCheckpointIndex := hindex.ge
  bACE i _ := hbACE i
  shares i _ := hshares i
  checkpoints h _ := by rw [hcheckpoints]
  later h hlt hle := by omega

/-- One step, one case for each sort of call. -/
theorem frozen_of_step (h : AnyStep q q') : Frozen q q' := by
  cases h with
  | enqueue _ h =>
    obtain ⟨-, -, -, rfl⟩ := enqueue_ok_cases h
    have hold : ∀ i ≤ q.lastRequestId, i ≠ q.lastRequestId + 1 := fun i hi => by omega
    exact {
      lastRequestId := Nat.le_succ _
      lastFinalizedRequestId := Nat.le_refl _
      lastCheckpointIndex := Nat.le_refl _
      bACE := fun i hi => by simp only [Function.update_of_ne (hold i hi)]
      shares := fun i hi => by simp only [Function.update_of_ne (hold i hi)]
      checkpoints := fun _ _ => rfl
      later := fun _ hlt hle => absurd hle (Nat.not_le.mpr hlt) }
  | finalize _ h =>
    obtain ⟨hle, hlt, rfl⟩ := finalize_ok_cases h
    have hold : ∀ h ≤ q.lastCheckpointIndex, h ≠ q.lastCheckpointIndex + 1 := fun h hh => by omega
    exact {
      lastRequestId := Nat.le_refl _
      lastFinalizedRequestId := hlt.le
      lastCheckpointIndex := Nat.le_succ _
      bACE := fun _ _ => rfl
      shares := fun _ _ => rfl
      checkpoints := fun h hh => by simp only [Function.update_of_ne (hold h hh)]
      later := fun h hlt hle => by
        obtain rfl : h = q.lastCheckpointIndex + 1 := Nat.le_antisymm hle hlt
        simp only [Function.update_self]
        exact Nat.lt_succ_self _ }
  -- a claim and a transfer touch the mark and the owner, not the amounts
  | @claim _ env id hint accepts h =>
    obtain ⟨-, -, -, -, amount, -, -, -, -, rfl⟩ := claim_ok_cases h
    refine frozen_of_same rfl rfl rfl rfl ?_ ?_
    · intro i
      rcases eq_or_ne i id with rfl | hi <;> simp [*]
    · intro i
      rcases eq_or_ne i id with rfl | hi <;> simp [*]
  | @transfer _ env fromAddr toAddr id h =>
    obtain ⟨-, -, -, -, -, rfl⟩ := transfer_ok_cases h
    refine frozen_of_same rfl rfl rfl rfl ?_ ?_
    · intro i
      rcases eq_or_ne i id with rfl | hi <;> simp [*]
    · intro i
      rcases eq_or_ne i id with rfl | hi <;> simp [*]
  | other => exact frozen_of_same rfl rfl rfl rfl (fun _ => rfl) fun _ => rfl

theorem frozen_of_reachable (h : Reachable (· = q) AnyStep q') : Frozen q q' := by
  refine h.invariant ?_ fun _ _ hf hs => hf.trans (frozen_of_step hs)
  rintro _ rfl
  exact Frozen.refl

theorem calcBatch_congr {pre pre' last last' : WithdrawalRequest}
    (hpreBACE : pre'.cumulativeBACE = pre.cumulativeBACE)
    (hpreShares : pre'.cumulativeShares = pre.cumulativeShares)
    (hlastBACE : last'.cumulativeBACE = last.cumulativeBACE)
    (hlastShares : last'.cumulativeShares = last.cumulativeShares) :
    calcBatch pre' last' = calcBatch pre last := by
  unfold calcBatch
  rw [hpreBACE, hpreShares, hlastBACE, hlastShares]

/-- The same hints are valid for a finalized request. -/
theorem Frozen.validHint_iff (hf : Frozen q q') {id hint : Nat}
    (hfinal : id ≤ q.lastFinalizedRequestId) : q'.ValidHint id hint ↔ q.ValidHint id hint := by
  have hgrown := hf.lastCheckpointIndex
  constructor
  · rintro ⟨hzero, hlast, hfrom, hnext⟩
    have hold : hint ≤ q.lastCheckpointIndex := by
      by_contra hnew
      have hlater := hf.later hint (by omega) hlast
      omega
    rw [hf.checkpoints hint hold] at hfrom
    refine ⟨hzero, hold, hfrom, fun hlt => ?_⟩
    rw [← hf.checkpoints (hint + 1) hlt]
    exact hnext (by omega)
  · rintro ⟨hzero, hlast, hfrom, hnext⟩
    rw [← hf.checkpoints hint hlast] at hfrom
    refine ⟨hzero, by omega, hfrom, fun hlt => ?_⟩
    by_cases hold : hint < q.lastCheckpointIndex
    · rw [hf.checkpoints (hint + 1) hold]
      exact hnext hold
    · -- the next checkpoint was added later
      have hlater := hf.later (hint + 1) (by omega) hlt
      omega

theorem Frozen.amounts (h : Frozen q q') {id : Nat} (hle : id ≤ q.lastRequestId) :
    q'.amountOfBACE id = q.amountOfBACE id ∧ q'.amountOfShares id = q.amountOfShares id := by
  unfold amountOfBACE amountOfShares
  rw [h.bACE id hle, h.bACE (id - 1) (by omega), h.shares id hle, h.shares (id - 1) (by omega)]
  exact ⟨rfl, rfl⟩

/-- **What a finalized request is paid never changes.** -/
theorem Frozen.calculateClaimableAce_eq (hf : Frozen q q') (hr : Represented q) {id hint : Nat}
    (hfinal : id ≤ q.lastFinalizedRequestId) :
    q'.calculateClaimableAce id hint = q.calculateClaimableAce id hint := by
  by_cases hvalid : q.ValidHint id hint
  · have hvalid' := (hf.validHint_iff hfinal).mpr hvalid
    have hle := hfinal.trans hr.finalized_le
    have hbatch := calcBatch_congr (hf.bACE (id - 1) (by omega)) (hf.shares (id - 1) (by omega))
      (hf.bACE id hle) (hf.shares id hle)
    unfold calculateClaimableAce
    obtain ⟨hzero, hlast, hfrom, hnext⟩ := hvalid
    obtain ⟨-, hlast', hfrom', hnext'⟩ := hvalid'
    simp only [require_of hzero, require_of hlast, require_of hlast', require_of hfrom,
      require_of hfrom', require_of hnext, require_of hnext', ok_bind, checkedSub]
    split
    · simp only [ok_bind, hbatch, hf.checkpoints hint hlast]
    · rfl
  · rw [calculateClaimableAce_of_not_validHint hvalid,
      calculateClaimableAce_of_not_validHint (mt (hf.validHint_iff hfinal).mp hvalid)]

/-! ## Assertions -/

/-- A revert other than a failed assertion. -/
def Asserted (r : Revert QueueError) : Prop := r ≠ .panic .assertion

theorem asserted_error (e : QueueError) : Asserted (.error e) := nofun

theorem asserted_overflow : Asserted (.panic .overflow) := nofun

theorem asserted_underflow : Asserted (.panic .underflow) := nofun

theorem asserted_divisionByZero : Asserted (.panic .divisionByZero) := nofun

theorem Represented.ensures_enqueue (hr : Represented q) {bACE shares : Nat} {owner : Address} :
    Ensures Asserted (q.enqueue env bACE shares owner) fun _ => True := by
  have hnew : q.lastRequestId + 1 ∉ q.requestsByOwner owner := fun hin => by
    have hle := ((hr.owners _ _).mp hin).2.1
    omega
  refine (ensures_checkedAdd asserted_overflow).bind fun _ _ => ?_
  refine (ensures_checkedAdd asserted_overflow).bind fun _ _ => ?_
  refine (ensures_checkedAdd asserted_overflow).bind fun requestId hid => ?_
  subst hid
  exact (ensures_ensure hnew).bind fun _ _ => ensures_pure trivial

/-- An unclaimed request is in the set of its owner. -/
theorem Represented.ensures_claim (hr : Represented q) {id hint : Nat} {accepts : Bool} :
    Ensures Asserted (q.claim env id hint accepts) fun _ => True := by
  refine (ensures_require (asserted_error _)).bind fun _ hzero => ?_
  refine (ensures_require (asserted_error _)).bind fun _ hfinal => ?_
  refine (ensures_require (asserted_error _)).bind fun _ hclaimed => ?_
  refine (ensures_require (asserted_error _)).bind fun _ _ => ?_
  have hmem : id ∈ q.requestsByOwner (q.queue id).owner :=
    (hr.owners _ _).mpr ⟨Nat.pos_of_ne_zero hzero, hfinal.trans hr.finalized_le, hclaimed, rfl⟩
  refine (ensures_ensure hmem).bind fun _ _ => ?_
  refine (ensures_calculateClaimableAce asserted_overflow asserted_underflow
    asserted_divisionByZero fun _ => asserted_error _).bind fun _ _ => ?_
  refine (ensures_subtraction asserted_underflow).bind fun _ _ => ?_
  refine (ensures_require (asserted_error _)).bind fun _ _ => ?_
  exact (ensures_require (asserted_error _)).bind fun _ _ => ensures_pure trivial

/-- The set of the new owner does not have the request. -/
theorem Represented.ensures_transfer (hr : Represented q) {fromAddr toAddr : Address} {id : Nat} :
    Ensures Asserted (q.transfer env fromAddr toAddr id) fun _ => True := by
  refine (ensures_require (asserted_error _)).bind fun _ _ => ?_
  refine (ensures_require (asserted_error _)).bind fun _ hne => ?_
  refine (ensures_require (asserted_error _)).bind fun _ hid => ?_
  refine (ensures_require (asserted_error _)).bind fun _ hclaimed => ?_
  refine (ensures_require (asserted_error _)).bind fun _ howner => ?_
  refine (ensures_require (asserted_error _)).bind fun _ _ => ?_
  have hmem : id ∈ q.requestsByOwner fromAddr :=
    (hr.owners _ _).mpr ⟨Nat.pos_of_ne_zero hid.1, hid.2, hclaimed, howner.symm⟩
  have hnew : id ∉ Function.update q.requestsByOwner fromAddr
      ((q.requestsByOwner fromAddr).erase id) toAddr := by
    rw [Function.update_of_ne hne]
    intro hin
    exact hne (((hr.owners _ _).mp hin).2.2.2.symm.trans howner.symm)
  refine (ensures_ensure hmem).bind fun _ _ => ?_
  exact (ensures_ensure hnew).bind fun _ _ => ensures_pure trivial

/-! ## The representation -/

theorem Represented.sums_le (hr : Represented q) {i j : Nat} (hij : i ≤ j)
    (hj : j ≤ q.lastRequestId) :
    (q.queue i).cumulativeBACE ≤ (q.queue j).cumulativeBACE ∧
    (q.queue i).cumulativeShares ≤ (q.queue j).cumulativeShares :=
  ⟨Ledger.le_of_steps (f := fun i => (q.queue i).cumulativeBACE) hij fun k _ hk =>
      hr.bACE_le k (by omega),
    Ledger.le_of_steps (f := fun i => (q.queue i).cumulativeShares) hij fun k _ hk =>
      hr.shares_le k (by omega)⟩

/-- Checkpoints start at finalized requests. -/
theorem Represented.from_bounds (hr : Represented q) {h : Nat} (hpos : 0 < h)
    (hle : h ≤ q.lastCheckpointIndex) :
    0 < (q.checkpoints h).fromRequestId ∧
    (q.checkpoints h).fromRequestId ≤ q.lastFinalizedRequestId := by
  have hfirst := hr.from_mono hpos hle
  have hlast := hr.from_le
  refine ⟨by omega, ?_⟩
  rcases Nat.lt_or_ge h q.lastCheckpointIndex with hlt | hge
  · have hmono := hr.from_mono hlt (Nat.le_refl _)
    omega
  · obtain rfl : h = q.lastCheckpointIndex := Nat.le_antisymm hle hge
    exact hlast

/--
**The queue is well represented**, whatever calls are made. The sums never decrease along the queue,
the checkpoints strictly increase from the first request to finalized ones, a finalized request has
exactly one hint, the sets list the unclaimed requests of each owner, so that no assertion about them
fails, and no later call changes what a finalized request can be claimed for.
-/
theorem queue_representation (h : Reachable Initial AnyStep q) :
    (∀ i j, i ≤ j → j ≤ q.lastRequestId →
      (q.queue i).cumulativeBACE ≤ (q.queue j).cumulativeBACE ∧
      (q.queue i).cumulativeShares ≤ (q.queue j).cumulativeShares) ∧
    (∀ g h, g < h → h ≤ q.lastCheckpointIndex →
      (q.checkpoints g).fromRequestId < (q.checkpoints h).fromRequestId) ∧
    (∀ h, 0 < h → h ≤ q.lastCheckpointIndex →
      0 < (q.checkpoints h).fromRequestId ∧
      (q.checkpoints h).fromRequestId ≤ q.lastFinalizedRequestId) ∧
    (0 < q.lastCheckpointIndex → (q.checkpoints 1).fromRequestId = 1) ∧
    (∀ id, 0 < id → id ≤ q.lastFinalizedRequestId → ∃! hint,
      q.calculateClaimableAce id hint ≠ .error (.error (.invalidHint hint))) ∧
    (∀ id owner, id ∈ q.requestsByOwner owner ↔
      0 < id ∧ id ≤ q.lastRequestId ∧ (q.queue id).claimed = false ∧
        (q.queue id).owner = owner) ∧
    (∀ env bACE shares owner, q.enqueue env bACE shares owner ≠ .error (.panic .assertion)) ∧
    (∀ env id hint accepts, q.claim env id hint accepts ≠ .error (.panic .assertion)) ∧
    (∀ env fromAddr toAddr id, q.transfer env fromAddr toAddr id ≠ .error (.panic .assertion)) ∧
    ∀ q', Reachable (· = q) AnyStep q' → ∀ id hint, id ≤ q.lastFinalizedRequestId →
      q'.calculateClaimableAce id hint = q.calculateClaimableAce id hint := by
  have hr := represented_of_reachable h
  refine ⟨fun i j => hr.sums_le, fun g h hgh hh => hr.from_mono hgh hh,
    fun h => hr.from_bounds, fun hsome => ?_, fun id hpos hfinal => ?_, hr.owners, ?_, ?_, ?_, ?_⟩
  · have hbounds := hr.from_bounds hsome (Nat.le_refl _)
    exact (hr.checkpoint_one (by omega)).2
  · refine ⟨q.hintOf id, ?_, fun hint haccepted => ?_⟩
    · exact fun h => calculateClaimableAce_invalidHint_iff.mp h (hr.validHint_hintOf hpos hfinal)
    · exact hr.eq_hintOf (not_not.mp (mt calculateClaimableAce_invalidHint_iff.mpr haccepted))
  · intro env bACE shares owner hfails
    exact hr.ensures_enqueue.of_error hfails rfl
  · intro env id hint accepts hfails
    exact hr.ensures_claim.of_error hfails rfl
  · intro env fromAddr toAddr id hfails
    exact hr.ensures_transfer.of_error hfails rfl
  · intro q' hlater id hint hfinal
    exact (frozen_of_reachable hlater).calculateClaimableAce_eq hr hfinal

/-! Runs start on storage that was never written. Everybody has every role. -/

def exampleBlankQueue : WithdrawalQueue where
  queue _ := ⟨0, 0, 0, 0, false, 0⟩
  lastRequestId := 0
  lastFinalizedRequestId := 0
  checkpoints _ := ⟨0, 0⟩
  lastCheckpointIndex := 0
  lockedAceAmount := 0
  requestsByOwner _ := ∅
  lastReportTimestamp := 0
  tokenApprovals _ := 0
  operatorApprovals _ _ := false
  resumeSinceTimestamp := 0
  hasRole _ _ := true
  balance := 0

def exampleQueueEnv (value : Nat) : Env := ⟨7, value, 1, Nat.one_pos⟩

theorem initial_exampleBlankQueue :
    Initial (exampleBlankQueue.initializeQueue (exampleQueueEnv 0)) :=
  ⟨exampleBlankQueue, exampleQueueEnv 0, ⟨rfl, rfl, rfl, rfl, fun _ => rfl⟩, rfl⟩

/-- A request that is finalized and then transferred: it has one hint, and is in one set. -/
theorem queue_representation_transferred :
    ∃ q, Reachable Initial AnyStep q ∧ q.lastFinalizedRequestId = 1 ∧
      (∃! hint, q.calculateClaimableAce 1 hint ≠ .error (.error (.invalidHint hint))) ∧
      1 ∉ q.requestsByOwner 7 ∧ 1 ∈ q.requestsByOwner 8 := by
  have h₀ : Reachable Initial AnyStep _ := .init initial_exampleBlankQueue
  have h₁ := h₀.step
    (@StepUnder.enqueue _ _ _ (exampleQueueEnv 0) 100 0 _ 7 trivial
      (eq_ok_result _ (by decide +kernel)))
  have h₂ := h₁.step
    (@StepUnder.finalize _ _ _ (exampleQueueEnv 60) 1 0 trivial
      (eq_ok_result _ (by decide +kernel)))
  have h₃ := h₂.step
    (@StepUnder.transfer _ _ _ (exampleQueueEnv 0) 7 8 1 (eq_ok_result _ (by decide +kernel)))
  obtain ⟨-, -, -, -, hhints, howners, -⟩ := queue_representation h₃
  refine ⟨_, h₃, by decide +kernel, hhints 1 (by decide) (by decide +kernel), fun hmem => ?_, ?_⟩
  · have howner := ((howners 1 7).mp hmem).2.2.2
    exact absurd howner (by decide +kernel)
  · exact (howners 1 8).mpr ⟨by decide, by decide +kernel, by decide +kernel, by decide +kernel⟩

end WithdrawalQueue

end Catalist

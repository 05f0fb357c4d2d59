import Catalist.WithdrawalQueue.Prefinalize

/-!
# The calculation of batches

`calculateFinalizationBatches` walks over the requests that are not finalized and puts them into
batches, as long as their timestamps, the budget and the number of batches allow it. A call handles
a limited number of requests, and the next one goes on from the state that it returned.

`stateAt` and `loopAt` say what the state is when the requests up to some number have been handled;
`batchesLoop_eq_ok` and `calculateFinalizationBatches_eq_ok` say what the loop and a call make of it.
-/

namespace Catalist

open Solidity ShareRate Transition Grouping

/-- `MAX_BATCHES_LENGTH` -/
def MAX_BATCHES_LENGTH : Nat := 36

/-- The state between two calls. `batches` is an array of `MAX_BATCHES_LENGTH` numbers. -/
structure BatchesCalculationState where
  remainingAceBudget : Nat
  finished : Bool
  batches : List Nat
  batchesLength : Nat
deriving DecidableEq, Repr

/-- The local variables of the loop. -/
structure BatchesLoop where
  state : BatchesCalculationState
  currentId : Nat
  prevRequest : WithdrawalRequest
  prevRequestShareRate : Nat
deriving DecidableEq, Repr

namespace WithdrawalQueue

variable (q : WithdrawalQueue)

/-! ## The contract -/

/-- The loop, with the number of ids before `queueLength` and `nextCallRequestId` that are left. -/
def batchesLoop (maxShareRate maxTimestamp : Nat) : Nat → BatchesLoop → Call QueueError BatchesLoop
  | 0, loop => return loop
  | left + 1, loop => do
    let request := q.queue loop.currentId
    -- max timestamp break
    if request.timestamp > maxTimestamp then return loop
    else do
      let batch ← calcBatch loop.prevRequest request
      let ethToFinalize ← batchAce batch maxShareRate
      -- budget break
      if ethToFinalize > loop.state.remainingAceBudget then return loop
      else do
        let remaining ← checkedSub loop.state.remainingAceBudget ethToFinalize
        let state : BatchesCalculationState := { loop.state with remainingAceBudget := remaining }
        if state.batchesLength ≠ 0 ∧
            (loop.prevRequest.reportTimestamp = request.reportTimestamp ∨
              (loop.prevRequestShareRate ≤ maxShareRate ∧ batch.shareRate ≤ maxShareRate) ∨
              (loop.prevRequestShareRate > maxShareRate ∧ batch.shareRate > maxShareRate)) then do
          -- extend the last batch
          let lastIndex ← checkedSub state.batchesLength 1
          let batches ← setIndex state.batches lastIndex loop.currentId
          batchesLoop maxShareRate maxTimestamp left
            { state := { state with batches := batches }, currentId := loop.currentId + 1,
              prevRequest := request, prevRequestShareRate := batch.shareRate }
        else if state.batchesLength = MAX_BATCHES_LENGTH then return { loop with state := state }
        else do
          -- create a new batch
          let batches ← setIndex state.batches state.batchesLength loop.currentId
          let batchesLength ← checkedAdd 256 state.batchesLength 1
          batchesLoop maxShareRate maxTimestamp left
            { state := { state with batches := batches, batchesLength := batchesLength },
              currentId := loop.currentId + 1, prevRequest := request,
              prevRequestShareRate := batch.shareRate }

/-- What the local variables are before the loop. -/
def beginBatchesLoop (state : BatchesCalculationState) : Call QueueError BatchesLoop :=
  if state.batchesLength = 0 then do
    let currentId ← checkedAdd 256 q.lastFinalizedRequestId 1
    let prevRequestId ← checkedSub currentId 1
    return { state := state, currentId := currentId, prevRequest := q.queue prevRequestId,
             prevRequestShareRate := 0 }
  else do
    let lastIndex ← checkedSub state.batchesLength 1
    let lastHandledRequestId ← getIndex state.batches lastIndex
    let currentId ← checkedAdd 256 lastHandledRequestId 1
    let prevRequest := q.queue lastHandledRequestId
    let prevRequestId ← checkedSub lastHandledRequestId 1
    let batch ← calcBatch (q.queue prevRequestId) prevRequest
    return { state := state, currentId := currentId, prevRequest := prevRequest,
             prevRequestShareRate := batch.shareRate }

/-- `calculateFinalizationBatches` -/
def calculateFinalizationBatches (maxShareRate maxTimestamp maxRequestsPerCall : Nat)
    (state : BatchesCalculationState) : Call QueueError BatchesCalculationState := do
  require (state.finished = false ∧ state.remainingAceBudget ≠ 0) .invalidState
  let loop ← q.beginBatchesLoop state
  let nextCallRequestId ← checkedAdd 256 loop.currentId maxRequestsPerCall
  let queueLength ← checkedAdd 256 q.lastRequestId 1
  let loop ← q.batchesLoop maxShareRate maxTimestamp
    (min queueLength nextCallRequestId - loop.currentId) loop
  return { loop.state with
    finished := decide (loop.currentId = queueLength ∨ loop.currentId < nextCallRequestId) }

/-- The state that a calculation starts with: a budget and nothing else. -/
def startState (budget : Nat) : BatchesCalculationState :=
  { remainingAceBudget := budget, finished := false,
    batches := List.replicate MAX_BATCHES_LENGTH 0, batchesLength := 0 }

/-! ## The requests that are taken -/

section Prefix

variable (m T B : Nat)

/-- What a request is due at the rate `m` by itself. -/
def dueOf (id : Nat) : Nat :=
  due E27_PRECISION_BASE m (q.amountOfBACE id) (q.amountOfShares id)

/-- What the requests that are not finalized up to `c` are due one by one. -/
def spent (c : Nat) : Nat := ∑ id ∈ Finset.Ioc q.lastFinalizedRequestId c, q.dueOf m id

/-- The request was made under the same report as the one before, or is on the same side of `m`. -/
def Joined (id : Nat) : Prop :=
  (q.queue (id - 1)).reportTimestamp = (q.queue id).reportTimestamp ∨
    (q.shareRateOf (id - 1) ≤ m ∧ q.shareRateOf id ≤ m) ∨
    (q.shareRateOf (id - 1) > m ∧ q.shareRateOf id > m)

instance : DecidablePred (q.Joined m) := fun _ => inferInstanceAs (Decidable (_ ∨ _))

/-- The batches of the requests that are not finalized up to `c`. -/
def batchEnds (c : Nat) : List Nat :=
  ends (q.Joined m) q.lastFinalizedRequestId (c - q.lastFinalizedRequestId)

/-- The requests up to `c` are in time and fit into the budget and into the batches. -/
structure Finalizable (c : Nat) : Prop where
  finalized_le : q.lastFinalizedRequestId ≤ c
  le_last : c ≤ q.lastRequestId
  timestamp_le : ∀ id ∈ Finset.Ioc q.lastFinalizedRequestId c, (q.queue id).timestamp ≤ T
  spent_le : q.spent m c ≤ B
  length_le : (q.batchEnds m c).length ≤ MAX_BATCHES_LENGTH

/-- The longest prefix is followed by a request in time that the budget, but no batch, is left for. -/
def Overshoots (k : Nat) : Prop :=
  k < q.lastRequestId ∧ (q.queue (k + 1)).timestamp ≤ T ∧ q.spent m (k + 1) ≤ B

instance (k : Nat) : Decidable (q.Overshoots m T B k) := inferInstanceAs (Decidable (_ ∧ _))

/-- The last request that was deducted from the budget. -/
def lastDeducted (k : Nat) : Nat := if q.Overshoots m T B k then k + 1 else k

/-! ## The state between calls -/

/-- A list in an array of `MAX_BATCHES_LENGTH` numbers. -/
def padded (es : List Nat) : List Nat :=
  es ++ List.replicate (MAX_BATCHES_LENGTH - es.length) 0

/-- The state when the requests up to `c` have been handled. -/
def stateAt (c : Nat) (finished : Bool) : BatchesCalculationState :=
  { remainingAceBudget := B - q.spent m c, finished := finished,
    batches := padded (q.batchEnds m c), batchesLength := (q.batchEnds m c).length }

/-- The variables of the loop when the requests up to `c` have been handled. -/
def loopAt (c : Nat) : BatchesLoop :=
  { state := q.stateAt m B c false, currentId := c + 1, prevRequest := q.queue c,
    prevRequestShareRate := if c = q.lastFinalizedRequestId then 0 else q.shareRateOf c }

/-- The variables after a break of the loop at the longest prefix. -/
def brokenLoop (k : Nat) : BatchesLoop :=
  { q.loopAt m B k with
    state := { q.stateAt m B k false with
      remainingAceBudget := B - q.spent m (q.lastDeducted m T B k) } }

/-- The state when the calculation is finished. -/
def finalState (k : Nat) : BatchesCalculationState :=
  { q.stateAt m B k true with remainingAceBudget := B - q.spent m (q.lastDeducted m T B k) }

end Prefix

variable {q} {m T B a b c k left limit x : Nat} {es : List Nat}

/-! ## Arrays of batches -/

theorem set_padded (hlen : es.length < MAX_BATCHES_LENGTH) :
    (padded es).set es.length x = padded (es ++ [x]) := by
  obtain ⟨r, hr⟩ : ∃ r, MAX_BATCHES_LENGTH - es.length = r + 1 :=
    ⟨MAX_BATCHES_LENGTH - es.length - 1, by omega⟩
  have hrest : MAX_BATCHES_LENGTH - (es ++ [x]).length = r := by
    rw [List.length_append, List.length_singleton]
    omega
  unfold padded
  rw [hr, hrest, List.replicate_succ, List.set_append_right _ _ (Nat.le_refl _), Nat.sub_self,
    List.set_cons_zero, List.append_assoc]
  rfl

theorem set_padded_last (hne : es ≠ []) :
    (padded es).set (es.length - 1) x = padded (es.dropLast ++ [x]) := by
  have hsplit := List.dropLast_append_getLast hne
  have hlength : (es.dropLast ++ [x]).length = es.length := by
    have hpos := List.length_pos_iff.mpr hne
    rw [List.length_append, List.length_dropLast, List.length_singleton]
    omega
  unfold padded
  rw [hlength]
  generalize List.replicate (MAX_BATCHES_LENGTH - es.length) 0 = rest
  rw [← List.length_dropLast]
  conv_lhs => rw [← hsplit]
  rw [List.append_assoc, List.dropLast_concat, List.set_append_right _ _ (Nat.le_refl _),
    Nat.sub_self, List.append_assoc]
  rfl

theorem getElem?_padded_last (hne : es ≠ []) (d : Nat) :
    (padded es)[es.length - 1]? = some (es.getLastD d) := by
  have hpos := List.length_pos_iff.mpr hne
  unfold padded
  rw [List.getElem?_append_left (by omega), ← List.getLast?_eq_getElem?,
    List.getLast?_eq_some_getLast hne, List.getLastD_eq_getLast?, List.getLast?_eq_some_getLast hne]
  rfl

theorem length_padded (hlen : es.length ≤ MAX_BATCHES_LENGTH) :
    (padded es).length = MAX_BATCHES_LENGTH := by
  rw [padded, List.length_append, List.length_replicate]
  omega

/-! ## Prefixes -/

theorem spent_succ (hle : q.lastFinalizedRequestId ≤ c) :
    q.spent m (c + 1) = q.spent m c + q.dueOf m (c + 1) :=
  Finset.sum_Ioc_succ_top hle _

theorem batchEnds_joined (hlt : q.lastFinalizedRequestId < c) (h : q.Joined m (c + 1)) :
    q.batchEnds m (c + 1) = (q.batchEnds m c).dropLast ++ [c + 1] := by
  have hend : q.lastFinalizedRequestId + (c - q.lastFinalizedRequestId) = c := by omega
  have hjoined := ends_of_joined (a := q.lastFinalizedRequestId)
    (n := c - q.lastFinalizedRequestId) (by omega) (hend.symm ▸ h)
  rw [hend] at hjoined
  rw [batchEnds, Nat.sub_add_comm hlt.le, hjoined]
  rfl

theorem batchEnds_not_joined (hle : q.lastFinalizedRequestId ≤ c)
    (h : c = q.lastFinalizedRequestId ∨ ¬ q.Joined m (c + 1)) :
    q.batchEnds m (c + 1) = q.batchEnds m c ++ [c + 1] := by
  have hend : q.lastFinalizedRequestId + (c - q.lastFinalizedRequestId) = c := by omega
  have hnew := @ends_of_not_joined q.lastFinalizedRequestId (c - q.lastFinalizedRequestId)
    (q.Joined m) _ (h.imp (by omega) (by rw [hend]; exact id))
  rw [hend] at hnew
  rw [batchEnds, Nat.sub_add_comm hle, hnew]
  rfl

theorem getLastD_batchEnds (hle : q.lastFinalizedRequestId ≤ c) :
    (q.batchEnds m c).getLastD q.lastFinalizedRequestId = c := by
  rw [batchEnds, getLastD_ends]
  omega

theorem batchEnds_eq_nil_iff (hle : q.lastFinalizedRequestId ≤ c) :
    q.batchEnds m c = [] ↔ c = q.lastFinalizedRequestId := by
  rw [batchEnds, ends_eq_nil_iff]
  omega

theorem length_batchEnds_le_succ (hle : q.lastFinalizedRequestId ≤ c) :
    (q.batchEnds m c).length ≤ (q.batchEnds m (c + 1)).length := by
  rw [batchEnds, batchEnds, Nat.sub_add_comm hle]
  exact length_ends_le_succ _ _

/-- A shorter prefix. -/
theorem Finalizable.of_le (h : q.Finalizable m T B k) (hle : q.lastFinalizedRequestId ≤ c)
    (hck : c ≤ k) : q.Finalizable m T B c := by
  induction k, hck using Nat.le_induction with
  | base => exact h
  | succ k hck ih =>
    have hk := hle.trans hck
    refine ih ⟨hk, by have := h.le_last; omega, ?_, ?_, ?_⟩
    · intro id hid
      rw [Finset.mem_Ioc] at hid
      exact h.timestamp_le id (Finset.mem_Ioc.mpr (by omega))
    · have hspent := h.spent_le
      rw [spent_succ hk] at hspent
      omega
    · exact (length_batchEnds_le_succ hk).trans h.length_le

/-! ## A round of the loop -/

/-- `_calcBatch` divides by the shares. -/
theorem Represented.calcBatch_zero (hr : Represented q) (hab : a ≤ b) (hb : b ≤ q.lastRequestId)
    (h : q.batchShares a b = 0) :
    calcBatch (q.queue a) (q.queue b) = .error (.panic .divisionByZero) := by
  obtain ⟨hbACE, hshares⟩ := hr.sums_le hab hb
  have hbound := hr.bACE_bound b hb
  have hmul : ((q.queue b).cumulativeBACE - (q.queue a).cumulativeBACE) * E27_PRECISION_BASE
      < 2 ^ 256 := by
    unfold E27_PRECISION_BASE
    omega
  unfold calcBatch
  rw [checkedSub_of hbACE, ok_bind, checkedSub_of hshares, ok_bind, checkedMul_of hmul, ok_bind]
  unfold batchShares at h
  rw [checkedDiv, if_pos h]
  rfl

/-- The condition under which the loop extends the last batch. -/
theorem extends_iff (hle : q.lastFinalizedRequestId ≤ c) :
    ((q.batchEnds m c).length ≠ 0 ∧
      ((q.queue c).reportTimestamp = (q.queue (c + 1)).reportTimestamp ∨
        ((if c = q.lastFinalizedRequestId then 0 else q.shareRateOf c) ≤ m ∧
          q.shareRateOf (c + 1) ≤ m) ∨
        ((if c = q.lastFinalizedRequestId then 0 else q.shareRateOf c) > m ∧
          q.shareRateOf (c + 1) > m))) ↔
    c ≠ q.lastFinalizedRequestId ∧ q.Joined m (c + 1) := by
  rw [Ne, List.length_eq_zero_iff, batchEnds_eq_nil_iff hle]
  refine and_congr_right fun hne => ?_
  rw [if_neg hne]
  rfl

/-- The variables of the next round. -/
theorem loopAt_succ (hle : q.lastFinalizedRequestId ≤ c) :
    q.loopAt m B (c + 1) =
      { state := { remainingAceBudget := B - q.spent m (c + 1), finished := false,
                   batches := padded (q.batchEnds m (c + 1)),
                   batchesLength := (q.batchEnds m (c + 1)).length }
        currentId := c + 1 + 1, prevRequest := q.queue (c + 1),
        prevRequestShareRate := q.shareRateOf (c + 1) } := by
  unfold loopAt
  rw [if_neg (by omega)]
  rfl

/-- One round of the loop, with a case for each of its exits. -/
theorem batchesLoop_succ (hr : Represented q) (hle : q.lastFinalizedRequestId ≤ c)
    (hlt : c < q.lastRequestId) (hspent : q.spent m c ≤ B)
    (hlen : (q.batchEnds m c).length ≤ MAX_BATCHES_LENGTH) :
    q.batchesLoop m T (left + 1) (q.loopAt m B c) =
      if T < (q.queue (c + 1)).timestamp then .ok (q.loopAt m B c)
      else if q.amountOfShares (c + 1) = 0 then .error (.panic .divisionByZero)
      else if B < q.spent m (c + 1) then .ok (q.loopAt m B c)
      else if (q.batchEnds m (c + 1)).length ≤ MAX_BATCHES_LENGTH then
        q.batchesLoop m T left (q.loopAt m B (c + 1))
      else .ok { q.loopAt m B c with
        state := { q.stateAt m B c false with remainingAceBudget := B - q.spent m (c + 1) } } := by
  have hsucc := spent_succ (m := m) hle
  rw [batchesLoop]
  simp only [show (q.loopAt m B c).currentId = c + 1 from rfl,
    show (q.loopAt m B c).prevRequest = q.queue c from rfl]
  by_cases htime : T < (q.queue (c + 1)).timestamp
  · rw [if_pos htime, if_pos htime]
    rfl
  · rw [if_neg htime, if_neg htime]
    by_cases hshares : q.amountOfShares (c + 1) = 0
    · rw [if_pos hshares, hr.calcBatch_zero (Nat.le_succ c) hlt hshares]
      rfl
    · rw [if_neg hshares, hr.calcBatch_of ⟨Nat.lt_add_one c, Nat.pos_of_ne_zero hshares⟩ hlt,
        ok_bind, batchAce_of_bound m _ (hr.batchBACE_lt c hlt), ok_bind]
      have hdue : due E27_PRECISION_BASE m (q.batchBACE c (c + 1)) (q.batchShares c (c + 1))
          = q.dueOf m (c + 1) := rfl
      have hbudget : (q.loopAt m B c).state.remainingAceBudget = B - q.spent m c := rfl
      have hrate : rate E27_PRECISION_BASE (q.batchBACE c (c + 1)) (q.batchShares c (c + 1))
          = q.shareRateOf (c + 1) := rfl
      rw [hdue, hrate, hbudget]
      by_cases hover : B < q.spent m (c + 1)
      · rw [if_pos hover, if_pos (by omega)]
        rfl
      · have hrest : B - q.spent m c - q.dueOf m (c + 1) = B - q.spent m (c + 1) := by omega
        rw [if_neg hover, if_neg (by omega), checkedSub_of (by omega), ok_bind, hrest,
          loopAt_succ hle]
        simp only [loopAt, stateAt]
        by_cases hjoined : c ≠ q.lastFinalizedRequestId ∧ q.Joined m (c + 1)
        · -- the request extends the last batch
          have hne : q.batchEnds m c ≠ [] := fun hnil => hjoined.1 ((batchEnds_eq_nil_iff hle).mp hnil)
          have hpos := List.length_pos_iff.mpr hne
          have hends := batchEnds_joined (by omega) hjoined.2
          have hlength : (q.batchEnds m (c + 1)).length = (q.batchEnds m c).length := by
            rw [hends, List.length_append, List.length_dropLast, List.length_singleton]
            omega
          refine (if_pos ((extends_iff hle).mpr hjoined)).trans ?_
          rw [checkedSub_of hpos, ok_bind, setIndex, if_pos (by rw [length_padded hlen]; omega), ok_bind, set_padded_last hne,
            ← hends, hlength, if_pos hlen]
        · have hends := batchEnds_not_joined (m := m) hle (by tauto)
          have hlength : (q.batchEnds m (c + 1)).length = (q.batchEnds m c).length + 1 := by
            rw [hends, List.length_append, List.length_singleton]
          refine (if_neg (mt (extends_iff hle).mp hjoined)).trans ?_
          rw [hlength]
          by_cases hfull : (q.batchEnds m c).length = MAX_BATCHES_LENGTH
          · refine (if_pos hfull).trans ?_
            have hmore : ¬ (q.batchEnds m c).length + 1 ≤ MAX_BATCHES_LENGTH := by omega
            rw [if_neg hmore]
            rfl
          · have hroom : (q.batchEnds m c).length < MAX_BATCHES_LENGTH := by omega
            have hfits : (q.batchEnds m c).length + 1 < 2 ^ 256 := by
              unfold MAX_BATCHES_LENGTH at hroom
              omega
            refine (if_neg hfull).trans ?_
            rw [if_pos (Nat.succ_le_of_lt hroom), setIndex,
              if_pos (by rw [length_padded hlen]; exact hroom), ok_bind,
              set_padded hroom, ← hends, checkedAdd_of hfits, ok_bind]

/-! ## The loop and a call -/

/-- The request after the longest prefix is the one that the loop breaks at. -/
theorem length_of_overshoots (hk : IsGreatest {c | q.Finalizable m T B c} k)
    (h : q.Overshoots m T B k) : ¬ (q.batchEnds m (k + 1)).length ≤ MAX_BATCHES_LENGTH := by
  intro hlen
  obtain ⟨hlt, htime, hspent⟩ := h
  have hall := hk.1
  have hmore : q.Finalizable m T B (k + 1) := by
    refine ⟨hall.finalized_le.trans (Nat.le_succ k), hlt, ?_, hspent, hlen⟩
    intro id hid
    rw [Finset.mem_Ioc] at hid
    by_cases hnew : id = k + 1
    · rw [hnew]
      exact htime
    · exact hall.timestamp_le id (Finset.mem_Ioc.mpr ⟨hid.1, by omega⟩)
  have hle : k + 1 ≤ k := hk.2 hmore
  omega

theorem brokenLoop_of_overshoots (h : q.Overshoots m T B k) :
    q.brokenLoop m T B k = { q.loopAt m B k with
      state := { q.stateAt m B k false with remainingAceBudget := B - q.spent m (k + 1) } } := by
  rw [brokenLoop, lastDeducted, if_pos h]

theorem brokenLoop_of_not (h : ¬ q.Overshoots m T B k) : q.brokenLoop m T B k = q.loopAt m B k := by
  rw [brokenLoop, lastDeducted, if_neg h]
  rfl

/--
What the loop does from the request after `c` on. It either handles all requests that it may, or it
breaks at the longest prefix; it reverts exactly if it comes to a request without shares.
-/
theorem batchesLoop_eq_ok (hr : Represented q) (hk : IsGreatest {c | q.Finalizable m T B c} k)
    (hle : q.lastFinalizedRequestId ≤ c) (hck : c ≤ k) (hlast : c + left ≤ q.lastRequestId)
    {loop : BatchesLoop} :
    q.batchesLoop m T left (q.loopAt m B c) = .ok loop ↔
      (∀ id, c < id → id ≤ c + left → id ≤ k + 1 → (q.queue id).timestamp ≤ T →
        0 < q.amountOfShares id) ∧
      loop = if c + left ≤ k then q.loopAt m B (c + left) else q.brokenLoop m T B k := by
  induction left generalizing c with
  | zero =>
    rw [Nat.add_zero, if_pos hck, batchesLoop, pure_eq_ok]
    constructor
    · intro heq
      exact ⟨fun id _ _ _ => by omega, heq.symm⟩
    · rintro ⟨-, heq⟩
      exact heq.symm
  | succ left ih =>
    have hc := hk.1.of_le hle hck
    rw [batchesLoop_succ hr hle (by omega) hc.spent_le hc.length_le]
    rcases Nat.lt_or_ge c k with hlt | hge
    · -- the next request belongs to the longest prefix
      have hnext := hk.1.of_le (hle.trans (Nat.le_succ c)) (Nat.succ_le_of_lt hlt)
      have htime : (q.queue (c + 1)).timestamp ≤ T :=
        hnext.timestamp_le (c + 1) (Finset.mem_Ioc.mpr ⟨by omega, Nat.le_refl _⟩)
      rw [if_neg (Nat.not_lt.mpr htime)]
      by_cases hshares : q.amountOfShares (c + 1) = 0
      · rw [if_pos hshares]
        refine iff_of_false nofun ?_
        rintro ⟨hpos, -⟩
        have := hpos (c + 1) (by omega) (by omega) (by omega) htime
        omega
      · rw [if_neg hshares, if_neg (Nat.not_lt.mpr hnext.spent_le), if_pos hnext.length_le,
          ih (by omega) (by omega) (by omega), show c + 1 + left = c + (left + 1) by omega]
        refine and_congr_left fun _ => ⟨fun hpos id hid hidle => ?_, fun hpos id hid => hpos id (by omega)⟩
        rcases eq_or_ne id (c + 1) with rfl | hne
        · exact fun _ _ => Nat.pos_of_ne_zero hshares
        · exact hpos id (by omega) hidle
    · -- the longest prefix is complete: one of the four breaks
      obtain rfl : c = k := Nat.le_antisymm hck hge
      have hone : ∀ id, c < id → id ≤ c + 1 → id = c + 1 := fun id _ _ => by omega
      rw [if_neg (show ¬ c + (left + 1) ≤ c by omega)]
      by_cases htime : T < (q.queue (c + 1)).timestamp
      · rw [if_pos htime, brokenLoop_of_not fun hover => absurd hover.2.1 (Nat.not_le.mpr htime),
          Except.ok.injEq, eq_comm]
        refine (and_iff_right ?_).symm
        intro id hid _ hidle htimely
        rw [hone id hid hidle] at htimely
        exact absurd htimely (Nat.not_le.mpr htime)
      · rw [if_neg htime]
        by_cases hshares : q.amountOfShares (c + 1) = 0
        · rw [if_pos hshares]
          refine iff_of_false nofun ?_
          rintro ⟨hpos, -⟩
          have := hpos (c + 1) (by omega) (by omega) (by omega) (Nat.not_lt.mp htime)
          omega
        · have hpos : ∀ id, c < id → id ≤ c + (left + 1) → id ≤ c + 1 →
              (q.queue id).timestamp ≤ T → 0 < q.amountOfShares id := by
            intro id hid _ hidle _
            rw [hone id hid hidle]
            exact Nat.pos_of_ne_zero hshares
          rw [if_neg hshares, and_iff_right hpos, eq_comm (a := loop)]
          by_cases hspent : B < q.spent m (c + 1)
          · rw [if_pos hspent, Except.ok.injEq,
              brokenLoop_of_not fun hover => absurd hover.2.2 (Nat.not_le.mpr hspent)]
          · have hover : q.Overshoots m T B c := ⟨by omega, Nat.not_lt.mp htime, Nat.not_lt.mp hspent⟩
            rw [if_neg hspent, if_neg (length_of_overshoots hk hover), Except.ok.injEq,
              brokenLoop_of_overshoots hover]

/-- A call goes on from the state that the calls before it have led to. -/
theorem beginBatchesLoop_stateAt (hr : Represented q) (hbound : q.lastRequestId < 2 ^ 128)
    (hle : q.lastFinalizedRequestId ≤ c) (hlast : c ≤ q.lastRequestId)
    (hpos : q.lastFinalizedRequestId < c → 0 < q.amountOfShares c) :
    q.beginBatchesLoop (q.stateAt m B c false) = .ok (q.loopAt m B c) := by
  have hfits : c + 1 < 2 ^ 256 := by omega
  have hlength : (q.stateAt m B c false).batchesLength = (q.batchEnds m c).length := rfl
  have hbatches : (q.stateAt m B c false).batches = padded (q.batchEnds m c) := rfl
  unfold beginBatchesLoop
  rw [hlength, hbatches]
  by_cases heq : c = q.lastFinalizedRequestId
  · have hnil := (batchEnds_eq_nil_iff (m := m) hle).mpr heq
    rw [if_pos (by rw [hnil]; rfl), ← heq, checkedAdd_of hfits, ok_bind,
      checkedSub_of (Nat.le_add_left 1 c), ok_bind, Nat.add_sub_cancel]
    simp only [loopAt, if_pos heq]
    rfl
  · have hne : q.batchEnds m c ≠ [] := fun hnil => heq ((batchEnds_eq_nil_iff hle).mp hnil)
    have hlen := List.length_pos_iff.mpr hne
    have hlt : q.lastFinalizedRequestId < c := by omega
    have hshares : 0 < q.batchShares (c - 1) c := hpos hlt
    rw [if_neg hlen.ne', checkedSub_of hlen, ok_bind, getIndex_eq_ok.mpr (getElem?_padded_last hne _),
      ok_bind, getLastD_batchEnds hle, checkedAdd_of hfits, ok_bind, checkedSub_of (by omega), ok_bind,
      hr.calcBatch_of ⟨by omega, hshares⟩ hlast, ok_bind]
    simp only [loopAt, if_neg heq]
    rfl

theorem finalState_of_not (h : ¬ q.Overshoots m T B k) : q.finalState m T B k = q.stateAt m B k true := by
  rw [finalState, lastDeducted, if_neg h]
  rfl

/-- The state that a call returns, from the variables after the loop. -/
theorem stateAt_of_loop (hlast : k ≤ q.lastRequestId) {loop : BatchesLoop}
    (hloop : loop = if min q.lastRequestId (c + limit) ≤ k then
      q.loopAt m B (min q.lastRequestId (c + limit)) else q.brokenLoop m T B k) :
    { loop.state with
      finished := decide (loop.currentId = q.lastRequestId + 1 ∨ loop.currentId < c + 1 + limit) } =
    if c + limit ≤ k ∧ c + limit < q.lastRequestId then q.stateAt m B (c + limit) false
    else q.finalState m T B k := by
  by_cases hchunk : c + limit ≤ k ∧ c + limit < q.lastRequestId
  · -- the call has handled as many requests as it may
    rw [if_pos hchunk]
    rw [Nat.min_eq_right hchunk.2.le, if_pos hchunk.1] at hloop
    have hunfinished : ¬ (c + limit + 1 = q.lastRequestId + 1 ∨ c + limit + 1 < c + 1 + limit) := by
      omega
    rw [hloop]
    exact congrArg (q.stateAt m B (c + limit)) (decide_eq_false hunfinished)
  · rw [if_neg hchunk]
    by_cases hend : min q.lastRequestId (c + limit) ≤ k
    · -- the queue has ended
      have hqueue : min q.lastRequestId (c + limit) = k := by omega
      have hover : ¬ q.Overshoots m T B k := fun hover => by have := hover.1; omega
      have hfinished : k + 1 = q.lastRequestId + 1 ∨ k + 1 < c + 1 + limit := by omega
      rw [if_pos hend, hqueue] at hloop
      rw [finalState_of_not hover, hloop]
      exact congrArg (q.stateAt m B k) (decide_eq_true hfinished)
    · have hfinished : k + 1 = q.lastRequestId + 1 ∨ k + 1 < c + 1 + limit := by omega
      rw [if_neg hend] at hloop
      rw [hloop]
      exact congrArg (fun b => { q.finalState m T B k with finished := b })
        (decide_eq_true hfinished)

/--
**What a call makes of the state that it is given.** It reverts exactly if the budget is used up, if
the number of the request to stop at does not fit, or if it comes to a request without shares.
-/
theorem calculateFinalizationBatches_eq_ok (hc : Counted q)
    (hk : IsGreatest {c | q.Finalizable m T B c} k) (hle : q.lastFinalizedRequestId ≤ c)
    (hck : c ≤ k) (hpos : q.lastFinalizedRequestId < c → 0 < q.amountOfShares c)
    {state : BatchesCalculationState} :
    q.calculateFinalizationBatches m T limit (q.stateAt m B c false) = .ok state ↔
      q.spent m c ≠ B ∧ c + 1 + limit < 2 ^ 256 ∧
      (∀ id, c < id → id ≤ c + limit → id ≤ q.lastRequestId → id ≤ k + 1 →
        (q.queue id).timestamp ≤ T → 0 < q.amountOfShares id) ∧
      state = if c + limit ≤ k ∧ c + limit < q.lastRequestId then q.stateAt m B (c + limit) false
        else q.finalState m T B k := by
  have hr := hc.represented
  have hbound : q.lastRequestId < 2 ^ 128 :=
    hc.le_bACE.trans_lt (hr.bACE_bound q.lastRequestId (Nat.le_refl _))
  have hspent := (hk.1.of_le hle hck).spent_le
  have hlast := hk.1.le_last
  have hbudget : (q.stateAt m B c false).finished = false ∧
      (q.stateAt m B c false).remainingAceBudget ≠ 0 ↔ q.spent m c ≠ B := by
    simp only [stateAt, true_and]
    omega
  have hleft : c + (min (q.lastRequestId + 1) (c + 1 + limit) - (c + 1))
      = min q.lastRequestId (c + limit) := by omega
  have hrun := fun loop => @batchesLoop_eq_ok q m T B c k
    (min (q.lastRequestId + 1) (c + 1 + limit) - (c + 1)) hr hk hle hck (by omega) loop
  rw [hleft] at hrun
  have hfits : q.lastRequestId + 1 < 2 ^ 256 := by omega
  unfold calculateFinalizationBatches
  rw [beginBatchesLoop_stateAt hr hbound hle (hck.trans hlast) hpos]
  simp only [bind_eq_ok, require_eq_ok, exists_const, ok_bind, checkedAdd_eq_ok, pure_eq_ok, hbudget]
  refine and_congr_right fun _ => ?_
  constructor
  · rintro ⟨_, ⟨hlimit, rfl⟩, _, ⟨-, rfl⟩, loop, hloop, rfl⟩
    obtain ⟨hreads, rfl⟩ := (hrun loop).mp hloop
    refine ⟨hlimit, fun id hid hidle hidlast => hreads id hid (by omega), ?_⟩
    exact stateAt_of_loop hlast rfl
  · rintro ⟨hlimit, hreads, rfl⟩
    refine ⟨_, ⟨hlimit, rfl⟩, _, ⟨hfits, rfl⟩, _,
      (hrun _).mpr ⟨fun id hid hidle => hreads id hid (by omega) (by omega), rfl⟩, ?_⟩
    exact stateAt_of_loop hlast rfl

end WithdrawalQueue

end Catalist

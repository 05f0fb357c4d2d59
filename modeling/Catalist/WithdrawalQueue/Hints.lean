import Catalist.WithdrawalQueue.Representation

/-!
# The search for hints

`_findCheckpointHint` looks for the checkpoint of a finalized request in a range of indices. It finds
it if it is there, and `_calculateClaimableAce` accepts what it finds (`findCheckpointHint_exact`).

The queue only takes requests of a positive amount: `_checkWithdrawalRequestAmount` is called before
every `_enqueue`. So there are less than `2 ^ 128` requests, and the sums of two indices fit.
-/

namespace Catalist

open Solidity Transition

namespace WithdrawalQueue

variable {q q' : WithdrawalQueue} {env : Env} {id start last min max : Nat}

/-- The checkpoint is the last one that starts at or before the request. -/
def Covers (q : WithdrawalQueue) (id h : Nat) : Prop :=
  (q.checkpoints h).fromRequestId ≤ id ∧
    (h = q.lastCheckpointIndex ∨ id < (q.checkpoints (h + 1)).fromRequestId)

instance (q : WithdrawalQueue) (id h : Nat) : Decidable (q.Covers id h) :=
  inferInstanceAs (Decidable (_ ∧ _))

/-! ## The number of requests -/

/-- The sum of all amounts is at least the number of requests, and there are no more checkpoints. -/
structure Counted (q : WithdrawalQueue) : Prop where
  represented : Represented q
  le_bACE : q.lastRequestId ≤ (q.queue q.lastRequestId).cumulativeBACE
  le_finalized : q.lastCheckpointIndex ≤ q.lastFinalizedRequestId

theorem counted_initial (h : Initial q) : Counted q := by
  have hr := represented_initial h
  obtain ⟨q₀, env, h₀, rfl⟩ := h
  refine ⟨hr, ?_, ?_⟩
  · simp [initializeQueue, h₀.lastRequestId]
  · simp [initializeQueue, h₀.lastCheckpointIndex]

theorem Counted.step (hc : Counted q) (h : PositiveStep q q') : Counted q' := by
  have hle := hc.le_bACE
  have hsame := (frozen_of_step h.any).bACE q.lastRequestId (Nat.le_refl _)
  refine ⟨hc.represented.step h.any, ?_, ?_⟩
  · cases h with
    | @enqueue _ _ bACE _ _ _ hpos h =>
      have hpos : 0 < bACE := hpos
      obtain ⟨-, -, -, rfl⟩ := enqueue_ok_cases h
      simp
      omega
    | finalize _ h =>
      obtain ⟨-, -, rfl⟩ := finalize_ok_cases h
      exact hle
    | claim h =>
      obtain ⟨-, -, -, -, amount, -, -, -, -, rfl⟩ := claim_ok_cases h
      exact hle.trans hsame.ge
    | transfer h =>
      obtain ⟨-, -, -, -, -, rfl⟩ := transfer_ok_cases h
      exact hle.trans hsame.ge
    | other => exact hle
  · cases h with
    | enqueue _ h =>
      obtain ⟨-, -, -, rfl⟩ := enqueue_ok_cases h
      exact hc.le_finalized
    | finalize _ h =>
      have hgrown := hc.le_finalized
      obtain ⟨-, hlt, rfl⟩ := finalize_ok_cases h
      simp only
      omega
    | claim h =>
      obtain ⟨-, -, -, -, amount, -, -, -, -, rfl⟩ := claim_ok_cases h
      exact hc.le_finalized
    | transfer h =>
      obtain ⟨-, -, -, -, -, rfl⟩ := transfer_ok_cases h
      exact hc.le_finalized
    | other => exact hc.le_finalized

theorem counted_of_reachable (h : Reachable Initial PositiveStep q) : Counted q :=
  h.invariant (fun _ => counted_initial) fun _ _ hc hs => hc.step hs

theorem Counted.lastCheckpointIndex_lt (hc : Counted q) : q.lastCheckpointIndex < 2 ^ 128 := by
  have hle := hc.le_bACE
  have hbound := hc.represented.bACE_bound q.lastRequestId (Nat.le_refl _)
  have hfinal := hc.represented.finalized_le
  have hindex := hc.le_finalized
  omega

/-! ## The search -/

/-- The invariant of the loop: `min` starts at or before the request, and what follows `max` later. -/
theorem searchCheckpoint_spec (hbound : max < 2 ^ 128) (hpos : 0 < min) (hle : min ≤ max)
    (hmin : (q.checkpoints min).fromRequestId ≤ id)
    (hmax : id < (q.checkpoints (max + 1)).fromRequestId) :
    ∃ h, q.searchCheckpoint id min max = .ok h ∧ min ≤ h ∧ h ≤ max ∧
      (q.checkpoints h).fromRequestId ≤ id ∧ id < (q.checkpoints (h + 1)).fromRequestId := by
  induction hk : max - min using Nat.strong_induction_on generalizing min max with
  | _ k ih =>
    subst hk
    unfold searchCheckpoint
    by_cases hlt : min < max
    · rw [if_pos hlt, checkedAdd_of (by omega), ok_bind, checkedAdd_of (by omega), ok_bind]
      simp only
      by_cases hmid : (q.checkpoints ((max + min + 1) / 2)).fromRequestId ≤ id
      · rw [if_pos hmid]
        obtain ⟨h, hsearch, hge, hrest⟩ := ih (max - (max + min + 1) / 2) (by omega) hbound
          (by omega) (by omega) hmid hmax rfl
        exact ⟨h, hsearch, by omega, hrest⟩
      · rw [if_neg hmid, checkedSub_of (by omega), ok_bind]
        have hafter : (max + min + 1) / 2 - 1 + 1 = (max + min + 1) / 2 := by omega
        obtain ⟨h, hsearch, hge, hlast, hrest⟩ := ih ((max + min + 1) / 2 - 1 - min) (by omega)
          (by omega) hpos (by omega) hmin (by rw [hafter]; exact Nat.not_le.mp hmid) rfl
        exact ⟨h, hsearch, hge, by omega, hrest⟩
    · have heq : min = max := by omega
      subst heq
      rw [if_neg hlt]
      exact ⟨min, rfl, Nat.le_refl _, Nat.le_refl _, hmin, hmax⟩

/-- A valid hint is a checkpoint that covers the request. -/
theorem Covers.validHint {h : Nat} (hc : q.Covers id h) (hpos : 0 < h)
    (hle : h ≤ q.lastCheckpointIndex) : q.ValidHint id h := by
  obtain ⟨hfrom, hnext⟩ := hc
  refine ⟨hpos.ne', hle, hfrom, ?_⟩
  intro hlt
  rcases hnext with rfl | hnext
  · exact absurd hlt (Nat.lt_irrefl _)
  · exact hnext

theorem Represented.from_le_of_le (hr : Represented q) {g h : Nat} (hgh : g ≤ h)
    (hh : h ≤ q.lastCheckpointIndex) :
    (q.checkpoints g).fromRequestId ≤ (q.checkpoints h).fromRequestId := by
  rcases hgh.lt_or_eq with hlt | rfl
  · exact (hr.from_mono hlt hh).le
  · exact Nat.le_refl _

/-- What the search returns, for arguments that it accepts. -/
theorem Counted.findCheckpointHint_cases (hc : Counted q) (hid : 0 < id) (hidle : id ≤ q.lastRequestId)
    (hstart : 1 ≤ start) (hlast : last ≤ q.lastCheckpointIndex) :
    (∃ h, q.findCheckpointHint id start last = .ok h ∧ id ≤ q.lastFinalizedRequestId ∧ start ≤ h ∧
      h ≤ last ∧ q.Covers id h) ∨
    (q.findCheckpointHint id start last = .ok 0 ∧
      ¬ (id ≤ q.lastFinalizedRequestId ∧ ∃ h, start ≤ h ∧ h ≤ last ∧ q.Covers id h)) := by
  have hr := hc.represented
  have hbound := hc.lastCheckpointIndex_lt
  unfold findCheckpointHint
  rw [require_of ⟨hid.ne', hidle⟩, ok_bind, require_of ⟨by omega, hlast⟩, ok_bind]
  by_cases hnone : q.lastCheckpointIndex = 0 ∨ q.lastFinalizedRequestId < id ∨ last < start
  · -- no checkpoint, not finalized, or an empty range
    rw [if_pos hnone]
    refine .inr ⟨rfl, ?_⟩
    rintro ⟨hfinal, h, hge, hle, -⟩
    omega
  · rw [if_neg hnone]
    -- the right edge: the last checkpoint covers the rest, any other one ends at the next
    by_cases hright : (q.checkpoints last).fromRequestId ≤ id
    · rw [if_pos hright]
      by_cases heq : last = q.lastCheckpointIndex
      · rw [if_pos heq]
        exact .inl ⟨last, rfl, by omega, by omega, Nat.le_refl _, hright, .inl heq⟩
      · rw [if_neg heq]
        by_cases hnext : id < (q.checkpoints (last + 1)).fromRequestId
        · rw [if_pos hnext]
          exact .inl ⟨last, rfl, by omega, by omega, Nat.le_refl _, hright, .inr hnext⟩
        · rw [if_neg hnext]
          refine .inr ⟨rfl, ?_⟩
          rintro ⟨-, h, hge, hle, -, rfl | hafter⟩
          · omega
          · have hmono : (q.checkpoints (h + 1)).fromRequestId
                ≤ (q.checkpoints (last + 1)).fromRequestId := hr.from_le_of_le (by omega) (by omega)
            omega
    · rw [if_neg hright]
      -- the left edge: all checkpoints of the range come after the request
      by_cases hleft : id < (q.checkpoints start).fromRequestId
      · rw [if_pos hleft]
        refine .inr ⟨rfl, ?_⟩
        rintro ⟨-, h, hge, hle, hcover, -⟩
        have hmono := hr.from_le_of_le hge (hle.trans hlast)
        omega
      · rw [if_neg hleft, checkedSub_of (by omega), ok_bind]
        have hne : start ≠ last := by
          rintro rfl
          omega
        have hafter : last - 1 + 1 = last := by omega
        obtain ⟨h, hsearch, hge, hle, hcover, hnext⟩ := searchCheckpoint_spec (by omega) hstart
          (by omega : start ≤ last - 1) (Nat.not_lt.mp hleft) (by rw [hafter]; omega)
        exact .inl ⟨h, hsearch, by omega, hge, by omega, hcover, .inr hnext⟩

/--
**The search is exact.** It always ends, returns the one checkpoint of a finalized request if that
lies in the range, and zero otherwise, and what it returns is accepted as a hint: the claimable ace is
computed from the share rate of the checkpoint.
-/
theorem findCheckpointHint_exact (h : Reachable Initial PositiveStep q) (hid : 0 < id)
    (hidle : id ≤ q.lastRequestId) (hstart : 1 ≤ start) (hlast : last ≤ q.lastCheckpointIndex) :
    (∀ h, id ≤ q.lastFinalizedRequestId → start ≤ h → h ≤ last → q.Covers id h →
      q.findCheckpointHint id start last = .ok h ∧
      ∀ h', 1 ≤ h' → h' ≤ q.lastCheckpointIndex → q.Covers id h' → h' = h) ∧
    ((¬ ∃ h, id ≤ q.lastFinalizedRequestId ∧ start ≤ h ∧ h ≤ last ∧ q.Covers id h) →
      q.findCheckpointHint id start last = .ok 0) ∧
    ∃ h, q.findCheckpointHint id start last = .ok h ∧ (h ≠ 0 →
      (id ≤ q.lastFinalizedRequestId ∧ start ≤ h ∧ h ≤ last ∧ q.Covers id h) ∧
      q.calculateClaimableAce id h = (do
        let batch ← calcBatch (q.queue (id - 1)) (q.queue id)
        batchAce batch (q.checkpoints h).maxShareRate)) := by
  have hc := counted_of_reachable h
  have hr := hc.represented
  have hunique : ∀ h h', 1 ≤ h → h ≤ q.lastCheckpointIndex → q.Covers id h →
      1 ≤ h' → h' ≤ q.lastCheckpointIndex → q.Covers id h' → h' = h := by
    intro h h' hpos hle hcover hpos' hle' hcover'
    rw [hr.eq_hintOf (hcover.validHint hpos hle), hr.eq_hintOf (hcover'.validHint hpos' hle')]
  rcases hc.findCheckpointHint_cases hid hidle hstart hlast with
    ⟨h, hfound, hfinal, hge, hle, hcover⟩ | ⟨hzero, hnone⟩
  · refine ⟨?_, ?_, h, hfound, ?_⟩
    · intro h₁ _ hge₁ hle₁ hcover₁
      have heq : h = h₁ := hunique h₁ h (by omega) (by omega) hcover₁ (by omega) (by omega) hcover
      refine ⟨heq ▸ hfound, ?_⟩
      intro h' hpos' hle' hcover'
      exact hunique h₁ h' (by omega) (by omega) hcover₁ hpos' hle' hcover'
    · intro hnone
      exact absurd ⟨h, hfinal, hge, hle, hcover⟩ hnone
    · intro hpos
      obtain ⟨-, hlast, hfrom, hnext⟩ := hcover.validHint (by omega) (by omega)
      refine ⟨⟨hfinal, hge, hle, hcover⟩, ?_⟩
      unfold calculateClaimableAce
      simp only [require_of hpos, require_of hlast, require_of hfrom, require_of hnext, ok_bind,
        checkedSub_of (show 1 ≤ id from hid)]
  · refine ⟨?_, ?_, 0, hzero, ?_⟩
    · intro h hfinal hge hle hcover
      exact absurd ⟨hfinal, h, hge, hle, hcover⟩ hnone
    · intro _
      exact hzero
    · intro hne
      exact absurd rfl hne

/-! Two finalizations with one request each. -/

def exampleHintEnv (value : Nat) : Env := ⟨7, value, 1, Nat.one_pos⟩

def exampleUnhinted : WithdrawalQueue :=
  { queue := fun _ => ⟨0, 0, 0, 0, false, 0⟩, lastRequestId := 0, lastFinalizedRequestId := 0,
    checkpoints := fun _ => ⟨0, 0⟩, lastCheckpointIndex := 0, lockedAceAmount := 0,
    requestsByOwner := fun _ => ∅, lastReportTimestamp := 0, tokenApprovals := fun _ => 0,
    operatorApprovals := fun _ _ => false, resumeSinceTimestamp := 0,
    hasRole := fun _ _ => true, balance := 0 }

def exampleFirst : WithdrawalQueue × Nat :=
  result ((exampleUnhinted.initializeQueue (exampleHintEnv 0)).enqueue (exampleHintEnv 0) 100 90 7)
    (by decide +kernel)

def exampleOneHint : WithdrawalQueue :=
  result (exampleFirst.1.finalize (exampleHintEnv 100) 1 (10 ^ 27)) (by decide +kernel)

def exampleSecond : WithdrawalQueue × Nat :=
  result (exampleOneHint.enqueue (exampleHintEnv 0) 400 300 7) (by decide +kernel)

def exampleTwoHints : WithdrawalQueue :=
  result (exampleSecond.1.finalize (exampleHintEnv 400) 2 (10 ^ 27)) (by decide +kernel)

theorem reachable_exampleTwoHints : Reachable Initial PositiveStep exampleTwoHints := by
  have hinit : Initial (exampleUnhinted.initializeQueue (exampleHintEnv 0)) :=
    ⟨exampleUnhinted, exampleHintEnv 0, ⟨rfl, rfl, rfl, rfl, fun _ => rfl⟩, rfl⟩
  have hfirst : (exampleUnhinted.initializeQueue (exampleHintEnv 0)).enqueue (exampleHintEnv 0) 100
      90 7 = .ok exampleFirst := eq_ok_result _ (by decide +kernel)
  have hone : exampleFirst.1.finalize (exampleHintEnv 100) 1 (10 ^ 27) = .ok exampleOneHint :=
    eq_ok_result _ (by decide +kernel)
  have hsecond : exampleOneHint.enqueue (exampleHintEnv 0) 400 300 7 = .ok exampleSecond :=
    eq_ok_result _ (by decide +kernel)
  have htwo : exampleSecond.1.finalize (exampleHintEnv 400) 2 (10 ^ 27) = .ok exampleTwoHints :=
    eq_ok_result _ (by decide +kernel)
  rw [← Prod.mk.eta (p := exampleFirst)] at hfirst
  rw [← Prod.mk.eta (p := exampleSecond)] at hsecond
  have h₀ : Reachable Initial PositiveStep _ := .init hinit
  have h₁ := h₀.step (.enqueue (Nat.succ_pos _) hfirst)
  have h₂ := h₁.step (.finalize trivial hone)
  have h₃ := h₂.step (.enqueue (Nat.succ_pos _) hsecond)
  exact h₃.step (.finalize trivial htwo)

/-- The second request is in the range up to the second checkpoint, not in that up to the first. -/
theorem findCheckpointHint_exact_two_checkpoints :
    exampleTwoHints.findCheckpointHint 2 1 2 = .ok 2 ∧
      exampleTwoHints.findCheckpointHint 2 1 1 = .ok 0 := by
  obtain ⟨hfound, -, -⟩ := @findCheckpointHint_exact _ 2 1 2 reachable_exampleTwoHints (by decide)
    (by decide +kernel) (by decide) (by decide +kernel)
  obtain ⟨-, hnone, -⟩ := @findCheckpointHint_exact _ 2 1 1 reachable_exampleTwoHints (by decide)
    (by decide +kernel) (by decide) (by decide +kernel)
  refine ⟨?_, hnone ?_⟩
  · exact (hfound 2 (by decide +kernel) (by decide) (by decide) (by decide +kernel)).1
  · rintro ⟨h, -, hge, hle, hcover⟩
    obtain rfl : h = 1 := by omega
    exact absurd hcover (by decide +kernel)

end WithdrawalQueue

end Catalist

import Catalist.Pool.Accounting
import Catalist.Pool.BurnRequests
import Catalist.Pool.ReportErrors
import Catalist.Registry.Penalty

/-!
# The distribution of rewards

`_distributeRewards` of the registry, with `getRewardsDistribution`: the shares that the registry
holds are divided among the active operators by their active validators. A penalized operator gets
half of its part, and as much is requested to burn. Remainders stay with the registry.

Each operator has a payout and a part that is burnt, which add up to at most its share
(`payout_add_burnt_le`), and the shares add up to at most what is held (`sum_rewardShare_le`). So the
loop never runs out of shares, however many operators were paid before.
-/

namespace Catalist

open Solidity Transition Ledger

structure RewardsDistribution where
  recipients : List Address
  shares : List Nat
  penalized : List Bool
deriving DecidableEq, Repr

inductive DistributionError where
  | registry (e : RegistryError)
  | pool (e : PoolError)
deriving DecidableEq, Repr

namespace NodeOperatorsRegistry

variable (s : NodeOperatorsRegistry) (env : RegistryEnv)

/-- The first loop of `getRewardsDistribution`, over the operators that are left. -/
def activeValidatorsLoop : List Nat → RewardsDistribution → Nat → Nat →
    Call RegistryError (RewardsDistribution × Nat)
  | [], r, _, totalActiveValidatorsCount => return (r, totalActiveValidatorsCount)
  | operatorId :: ids, r, idx, totalActiveValidatorsCount =>
    if (s.operators operatorId).active = false then
      activeValidatorsLoop ids r idx totalActiveValidatorsCount
    else do
      let signingKeysStats := (s.operators operatorId).signingKeysStats
      let totalExitedValidators := signingKeysStats.get TOTAL_EXITED_KEYS_COUNT_OFFSET
      let totalDepositedValidators := signingKeysStats.get TOTAL_DEPOSITED_KEYS_COUNT_OFFSET
      ensure (totalExitedValidators ≤ totalDepositedValidators)
      let activeValidatorsCount := totalDepositedValidators - totalExitedValidators
      let totalActiveValidatorsCount :=
        uncheckedAdd totalActiveValidatorsCount activeValidatorsCount
      let recipients ← setIndex r.recipients idx (s.operators operatorId).rewardAddress
      -- prefilled with the 'key share' of the recipient
      let shares ← setIndex r.shares idx activeValidatorsCount
      let penalized ← setIndex r.penalized idx (s.isOperatorPenalized env operatorId)
      activeValidatorsLoop ids ⟨recipients, shares, penalized⟩ (idx + 1) totalActiveValidatorsCount

/-- The second loop of `getRewardsDistribution`, from position `idx` on. -/
def sharesLoop (totalRewardShares totalActiveValidatorsCount : Nat) :
    Nat → Nat → List Nat → Call RegistryError (List Nat)
  | 0, _, shares => return shares
  | left + 1, idx, shares => do
    let share ← getIndex shares idx
    let product ← safeMul share totalRewardShares
    let shares ← setIndex shares idx (product / totalActiveValidatorsCount)
    sharesLoop totalRewardShares totalActiveValidatorsCount left (idx + 1) shares

def getRewardsDistribution (totalRewardShares : Nat) : Call RegistryError RewardsDistribution := do
  let activeCount := s.activeOperatorsCount
  let (r, totalActiveValidatorsCount) ← s.activeValidatorsLoop env (List.range s.totalOperatorsCount)
    ⟨List.replicate activeCount 0, List.replicate activeCount 0, List.replicate activeCount false⟩ 0 0
  if totalActiveValidatorsCount = 0 then return r
  else do
    let shares ← sharesLoop totalRewardShares totalActiveValidatorsCount activeCount 0 r.shares
    return { r with shares := shares }

/-- What is to burn after an entry of `share`, which was halved for a penalized operator. -/
def addToBurn (isPenalized : Bool) (toBurn share : Nat) : Call DistributionError Nat :=
  if isPenalized then within .registry (safeAdd toBurn share) else return toBurn

/-- The loop of `_distributeRewards`, from position `idx` on. -/
def payLoop (self : Address) (r : RewardsDistribution) :
    Nat → Nat → Pool → Nat → Nat → Call DistributionError (Pool × Nat × Nat)
  | 0, _, p, toBurn, distributed => return (p, toBurn, distributed)
  | left + 1, idx, p, toBurn, distributed => do
    let share ← getIndex r.shares idx
    if share < 2 then payLoop self r left (idx + 1) p toBurn distributed
    else do
      let isPenalized ← getIndex r.penalized idx
      -- the entry of a penalized operator is halved, and not read again
      let share := if isPenalized then share >>> 1 else share
      let toBurn ← addToBurn isPenalized toBurn share
      let recipient ← getIndex r.recipients idx
      let (token, _) ← within .pool
        (p.token.transferShares p.getTotalPooledAce self recipient share)
      let distributed ← within .registry (safeAdd distributed share)
      payLoop self r left (idx + 1) { p with token := token } toBurn distributed

/-- `_distributeRewards`, of the registry at the address `self`; it also returns what it distributed. -/
def distributeRewards (self : Address) (p : Pool) : Call DistributionError (Pool × Nat) := do
  let sharesToDistribute := p.token.sharesOf self
  if sharesToDistribute = 0 then return (p, 0)
  else do
    let r ← within .registry (s.getRewardsDistribution env sharesToDistribute)
    let (p, toBurn, distributed) ← payLoop self r r.recipients.length 0 p 0 0
    if 0 < toBurn then do
      let p ← within .pool (p.requestBurnShares self self toBurn)
      return (p, distributed)
    else return (p, distributed)

/-! ## The parts of the operators -/

/-- The operators of a list that are active. -/
def activeAmong (ids : List Nat) : List Nat := ids.filter fun id => (s.operators id).active

/-- The active operators, in order. -/
def activeIds : List Nat := s.activeAmong (List.range s.totalOperatorsCount)

/-- The active validators of an operator. -/
def activeValidators (id : Nat) : Nat := (s.operators id).deposited - (s.operators id).exited

def totalActiveValidators : Nat := (s.activeIds.map s.activeValidators).sum

/-- The share of an operator in `T` shares. -/
def rewardShare (T id : Nat) : Nat := s.activeValidators id * T / s.totalActiveValidators

/-- What an operator receives. -/
def payout (T id : Nat) : Nat :=
  if s.rewardShare T id < 2 then 0
  else if s.isOperatorPenalized env id then s.rewardShare T id / 2
  else s.rewardShare T id

/-- What is burnt for an operator. -/
def burnt (T id : Nat) : Nat :=
  if s.rewardShare T id < 2 then 0
  else if s.isOperatorPenalized env id then s.rewardShare T id / 2
  else 0

variable {s env} {T id : Nat} {getKeyOffset : Nat → Nat → BitVec 256}
  {allowed : Revert RegistryError → Prop}

theorem payout_add_burnt_le : s.payout env T id + s.burnt env T id ≤ s.rewardShare T id := by
  unfold payout burnt
  split
  · exact Nat.zero_le _
  · split
    · omega
    · exact Nat.le_refl _

/-- Rounding down, the shares of all operators are at most what is divided. -/
theorem sum_rewardShare_le (s : NodeOperatorsRegistry) (T : Nat) :
    (s.activeIds.map (s.rewardShare T)).sum ≤ T := by
  have hsum : (s.activeIds.map fun id => s.activeValidators id * T).sum
      = s.totalActiveValidators * T := List.sum_map_mul_right ..
  calc (s.activeIds.map (s.rewardShare T)).sum
      ≤ s.totalActiveValidators * T / s.totalActiveValidators := hsum ▸ sum_map_div_le _ _ _
    _ ≤ T := Nat.div_le_of_le_mul (Nat.le_refl _)

/-- The payouts and what is burnt are at most what is divided. -/
theorem sum_payout_add_sum_burnt_le (s : NodeOperatorsRegistry) (env : RegistryEnv) (T : Nat) :
    (s.activeIds.map (s.payout env T)).sum + (s.activeIds.map (s.burnt env T)).sum ≤ T := by
  rw [← List.sum_map_add]
  exact (List.sum_le_sum fun id _ => payout_add_burnt_le).trans (s.sum_rewardShare_le T)

/-! ## The shares -/

/-- The arrays for a list of active operators, with `f` for their shares. -/
def distributionOf (s : NodeOperatorsRegistry) (env : RegistryEnv) (f : Nat → Nat) (ids : List Nat) :
    RewardsDistribution where
  recipients := ids.map fun id => (s.operators id).rewardAddress
  shares := ids.map f
  penalized := ids.map fun id => s.isOperatorPenalized env id

/-- The arrays with room for `k` more operators. -/
def partialDistribution (s : NodeOperatorsRegistry) (env : RegistryEnv) (done : List Nat) (k : Nat) :
    RewardsDistribution where
  recipients := (done.map fun id => (s.operators id).rewardAddress) ++ List.replicate k 0
  shares := done.map s.activeValidators ++ List.replicate k 0
  penalized := (done.map fun id => s.isOperatorPenalized env id) ++ List.replicate k false

theorem activeAmong_cons {ids : List Nat} (h : (s.operators id).active = true) :
    s.activeAmong (id :: ids) = id :: s.activeAmong ids :=
  List.filter_cons_of_pos h

theorem activeAmong_cons_of_inactive {ids : List Nat} (h : (s.operators id).active = false) :
    s.activeAmong (id :: ids) = s.activeAmong ids :=
  List.filter_cons_of_neg (by simp [h])

/-- The next entry of an array is written. -/
theorem setIndex_next {α ε : Type} (done : List Nat) (id k : Nat) (f : Nat → α) (d : α) :
    (setIndex (done.map f ++ List.replicate (k + 1) d) done.length (f id) : Call ε (List α))
      = .ok ((done ++ [id]).map f ++ List.replicate k d) := by
  have hsplit := @setIndex_split ε α (done.map f) (List.replicate k d) d (f id)
  rw [List.length_map] at hsplit
  rw [List.replicate_succ, hsplit, List.map_append, List.append_assoc]
  rfl

/-- The induction is over the operators that are left; there is room for the active ones. -/
theorem activeValidatorsLoop_eq {done ids : List Nat} {total : Nat} (h : Invariant s)
    (hfits : total + ((s.activeAmong ids).map s.activeValidators).sum < 2 ^ 256) :
    s.activeValidatorsLoop env ids (s.partialDistribution env done (s.activeAmong ids).length)
        done.length total
      = .ok (s.distributionOf env s.activeValidators (done ++ s.activeAmong ids),
        total + ((s.activeAmong ids).map s.activeValidators).sum) := by
  induction ids generalizing done total with
  | nil =>
    simp [activeValidatorsLoop, activeAmong, partialDistribution, distributionOf, pure, Except.pure]
  | cons id ids ih =>
    cases hactive : (s.operators id).active with
    | false =>
      rw [activeAmong_cons_of_inactive hactive] at hfits ⊢
      rw [activeValidatorsLoop, if_pos hactive]
      exact ih hfits
    | true =>
      rw [activeAmong_cons hactive, List.map_cons, List.sum_cons, ← Nat.add_assoc] at hfits ⊢
      have hnot : ¬ (s.operators id).active = false := by simp [hactive]
      have hadd : uncheckedAdd total (s.activeValidators id) = total + s.activeValidators id :=
        uncheckedAdd_of_lt (by omega)
      have hexited : (s.operators id).signingKeysStats.get TOTAL_EXITED_KEYS_COUNT_OFFSET
          ≤ (s.operators id).signingKeysStats.get TOTAL_DEPOSITED_KEYS_COUNT_OFFSET :=
        (h.wellFormed id).exited_le_deposited
      have hvalidators : (s.operators id).signingKeysStats.get TOTAL_DEPOSITED_KEYS_COUNT_OFFSET
          - (s.operators id).signingKeysStats.get TOTAL_EXITED_KEYS_COUNT_OFFSET
          = s.activeValidators id := rfl
      have hrest := @ih (done ++ [id]) (total + s.activeValidators id) hfits
      rw [List.length_append, List.append_assoc] at hrest
      rw [activeValidatorsLoop, if_neg hnot, List.length_cons]
      simp only [partialDistribution]
      rw [ensure_of hexited, ok_bind, hvalidators, hadd,
        setIndex_next done id _ (fun id => (s.operators id).rewardAddress), ok_bind,
        setIndex_next done id _ s.activeValidators, ok_bind,
        setIndex_next done id _ (fun id => s.isOperatorPenalized env id), ok_bind]
      exact hrest

/-- The shares, from the validators; the induction is over the entries that are left. -/
theorem ensures_sharesLoop {V : Nat} {done left : List Nat} :
    Ensures (· = .error .mathMulOverflow) (sharesLoop T V left.length done.length (done ++ left))
      fun shares => shares = done ++ left.map fun v => v * T / V := by
  induction left generalizing done with
  | nil => exact ensures_pure (by simp)
  | cons v left ih =>
    rw [List.length_cons, sharesLoop, getIndex_split, ok_bind]
    have hmul : Ensures (· = .error .mathMulOverflow) (safeMul v T) fun product => product = v * T := by
      refine (ensures_require ?_).bind fun _ _ => ensures_pure ?_
      · rfl
      · rfl
    refine hmul.bind ?_
    rintro _ rfl
    have hrest := @ih (done ++ [v * T / V])
    rw [List.length_append, List.append_assoc, List.append_assoc] at hrest
    rw [setIndex_split, ok_bind]
    exact hrest

/-- The active operators are counted. -/
theorem activeOperatorsCount_eq (h : Invariant s) :
    s.activeOperatorsCount = s.activeIds.length := by
  have hcount : ∀ ids : List Nat,
      (ids.map fun id => (s.operators id).activity).sum = (s.activeAmong ids).length := by
    intro ids
    induction ids with
    | nil => rfl
    | cons id ids ih =>
      rw [List.map_cons, List.sum_cons, ih]
      cases hactive : (s.operators id).active with
      | false =>
        rw [activeAmong_cons_of_inactive hactive, NodeOperator.activity, hactive]
        exact Nat.zero_add _
      | true =>
        rw [activeAmong_cons hactive, NodeOperator.activity, hactive, List.length_cons]
        exact Nat.add_comm _ _
  exact h.active.trans (hcount (List.range s.totalOperatorsCount))

/-- All active validators together have 64 bits. -/
theorem totalActiveValidators_le (h : Invariant s) : s.totalActiveValidators ≤ UINT64_MAX := by
  calc s.totalActiveValidators
      ≤ ((List.range s.totalOperatorsCount).map s.activeValidators).sum :=
        (List.filter_sublist.map _).sum_le_sum fun _ _ => Nat.zero_le _
    _ = s.sumOver fun op => op.deposited - op.exited := rfl
    _ ≤ UINT64_MAX := h.sumOver_le_max fun id =>
        (Nat.sub_le _ _).trans (h.wellFormed id).deposited_le_total

/-- The distribution is proportional to the active validators. -/
theorem ensures_getRewardsDistribution (h : Invariant s) (T : Nat) :
    Ensures (· = .error .mathMulOverflow) (s.getRewardsDistribution env T) fun r =>
      r = s.distributionOf env (s.rewardShare T) s.activeIds := by
  have hfits : 0 + s.totalActiveValidators < 2 ^ 256 := by
    have hle := totalActiveValidators_le h
    unfold UINT64_MAX at hle
    omega
  have hloop := @activeValidatorsLoop_eq s env [] (List.range s.totalOperatorsCount) 0 h hfits
  unfold getRewardsDistribution
  simp only [activeOperatorsCount_eq h]
  have hstart : s.partialDistribution env [] (s.activeAmong (List.range s.totalOperatorsCount)).length
      = ⟨List.replicate s.activeIds.length 0, List.replicate s.activeIds.length 0,
        List.replicate s.activeIds.length false⟩ := rfl
  rw [hstart, List.length_nil, List.nil_append, Nat.zero_add] at hloop
  rw [hloop, ok_bind]
  change Ensures _ (if s.totalActiveValidators = 0 then _ else _) _
  split
  · next hzero =>
    refine ensures_pure (congrArg (RewardsDistribution.mk _ · _) (List.map_congr_left fun id hid => ?_))
    -- nobody has active validators, and the shares are zero as they are
    have hnone : s.activeValidators id = 0 :=
      List.sum_eq_zero_iff.mp hzero _ (List.mem_map_of_mem hid)
    rw [rewardShare, hzero, hnone, Nat.div_zero]
  · have hshares := @ensures_sharesLoop T s.totalActiveValidators [] (s.activeIds.map s.activeValidators)
    rw [List.length_map, List.length_nil, List.nil_append] at hshares
    refine hshares.bind ?_
    rintro _ rfl
    rw [List.nil_append, List.map_map]
    exact ensures_pure rfl

end NodeOperatorsRegistry

/-! ## Transfers of shares that are there -/

/-- The error of the check of the balance in shares. -/
def PoolError.short : PoolError → Bool
  | .balanceExceeded => true
  | _ => false

/-- A revert of anything but this check. -/
def NotShort : Revert PoolError → Prop
  | .panic _ => True
  | .error e => e.short = false

theorem notShort_panic (p : Panic) : NotShort (.panic p) := trivial

namespace BACE

variable {t : BACE} {pooled : Call PoolError Nat} {caller sender recipient : Address} {n : Nat}

theorem ensures_notShort {c : Prop} [Decidable c] {e : PoolError} (h : e.short = false) :
    Ensures NotShort (require c e) fun _ => True :=
  Ensures.mono (ensures_require h) fun _ _ => trivial

theorem notShort_transferSharesInternal (hle : n ≤ t.shares sender) :
    Ensures NotShort (t.transferSharesInternal sender recipient n) fun t' =>
      t' = t.withShares (move t.shares sender recipient n) := by
  have herrors : Ensures NotShort (t.transferSharesInternal sender recipient n) fun _ => True := by
    refine (ensures_notShort rfl).bind fun _ _ => ?_
    refine (ensures_notShort rfl).bind fun _ _ => ?_
    refine (ensures_notShort rfl).bind fun _ _ => ?_
    refine (ensures_notShort rfl).bind fun _ _ => ?_
    refine (ensures_require_of hle).bind fun _ _ => ?_
    refine (ensures_sub notShort_panic).bind fun _ _ => ?_
    exact (ensures_add notShort_panic).bind fun _ _ => ensures_pure trivial
  exact ⟨fun heq => (transferSharesInternal_ok_cases heq).2.2.2.2.2, herrors.of_error⟩

theorem notShort_transferShares (hpooled : Ensures NotShort pooled fun _ => True)
    (hle : n ≤ t.shares sender) :
    Ensures NotShort (t.transferShares pooled sender recipient n) fun r =>
      r.1 = t.withShares (move t.shares sender recipient n) := by
  refine (notShort_transferSharesInternal hle).bind ?_
  rintro _ rfl
  exact (ensures_getPooledAceByShares _ _ notShort_panic hpooled).bind fun _ _ => ensures_pure rfl

theorem notShort_spendAllowance :
    Ensures NotShort (t.spendAllowance sender caller n) fun t' => t'.shares = t.shares := by
  have herrors : Ensures NotShort (t.spendAllowance sender caller n) fun _ => True := by
    unfold spendAllowance
    simp only
    split
    · refine (ensures_notShort rfl).bind fun _ _ => ?_
      refine (ensures_notShort rfl).bind fun _ _ => ?_
      exact (ensures_notShort rfl).bind fun _ _ => ensures_pure trivial
    · exact ensures_pure trivial
  refine ⟨fun heq => ?_, herrors.of_error⟩
  obtain ⟨allowances, rfl⟩ := spendAllowance_shares heq
  rfl

end BACE

namespace Pool

variable {p : Pool} {self : Address} {n : Nat}

/-- The pool with other shares. -/
def withShares (p : Pool) (shares : Address → Nat) : Pool :=
  { p with token := p.token.withShares shares }

/-- Shares that are there are moved to the burner, which counts them as requested. -/
theorem notShort_requestBurnShares (hle : n ≤ p.token.shares self) :
    Ensures NotShort (p.requestBurnShares self self n) fun p' =>
      p.BurnRequested p' false self n := by
  have herrors : Ensures NotShort (p.requestBurnShares self self n) fun _ => True := by
    refine (BACE.ensures_notShort rfl).bind fun _ _ => ?_
    refine @Ensures.bind _ _ _ _ _ (fun _ => True) _ _ ?_ fun _ _ => ?_
    · refine (BACE.ensures_getPooledAceByShares _ _ notShort_panic
        (ensures_getTotalPooledAce p notShort_panic)).bind fun tokens _ => ?_
      refine BACE.notShort_spendAllowance.bind fun t ht => ?_
      exact (BACE.notShort_transferSharesInternal (ht ▸ hle)).bind fun _ _ => ensures_pure trivial
    · refine (BACE.ensures_notShort rfl).bind fun _ _ => ?_
      exact (ensures_add notShort_panic).bind fun _ _ => ensures_pure trivial
  exact ⟨fun heq => requestBurnSharesFor_ok_cases heq, herrors.of_error⟩

end Pool

namespace NodeOperatorsRegistry

variable {s : NodeOperatorsRegistry} {env : RegistryEnv} {self : Address} {T : Nat}
  {getKeyOffset : Nat → Nat → BitVec 256} {p p' p'' : Pool}

/-! ## Paying -/

/-- A revert of anything but the check of the balance in shares. -/
def Funded : Revert DistributionError → Prop
  | .panic _ => True
  | .error (.registry _) => True
  | .error (.pool e) => e.short = false

theorem funded_of_pool (r : Revert PoolError) (h : NotShort r) : Funded (r.map .pool) := by
  cases r with
  | panic p => trivial
  | error e => exact h

theorem ensures_funded_safeAdd {a b : Nat} :
    Ensures Funded (within .registry (safeAdd a b)) fun c => c = a + b := by
  refine @Ensures.within _ _ (fun _ => True) _ _ _ _ _ ?_ fun r _ => ?_
  · exact (ensures_require trivial).bind fun _ _ => ensures_pure rfl
  · cases r with
    | panic p => trivial
    | error e => trivial

/-- What an account receives as the recipient of operators. -/
def received (s : NodeOperatorsRegistry) (env : RegistryEnv) (T : Nat) (ids : List Nat) (a : Address) :
    Nat :=
  (ids.map fun id => if a = (s.operators id).rewardAddress then s.payout env T id else 0).sum

/-- An account makes the payouts for some operators. -/
structure Paid (s : NodeOperatorsRegistry) (env : RegistryEnv) (T : Nat) (account : Address)
    (ids : List Nat) (p p' : Pool) : Prop where
  pool : p' = p.withShares p'.token.shares
  shares : ∀ a, p'.token.shares a + (if a = account then (ids.map (s.payout env T)).sum else 0)
    = p.token.shares a + s.received env T ids a

theorem Paid.nil : Paid s env T self [] p p := ⟨rfl, fun a => by simp [received]⟩

/-- The next operator, who may have nothing to receive. -/
theorem Paid.cons {id : Nat} {ids : List Nat} (hle : s.payout env T id ≤ p.token.shares self)
    (h : Paid s env T self ids
      (p.withShares (move p.token.shares self (s.operators id).rewardAddress (s.payout env T id)))
      p') :
    Paid s env T self (id :: ids) p p' := by
  refine ⟨by rw [h.pool]; rfl, fun a => ?_⟩
  have hmove := move_add (b := (s.operators id).rewardAddress) hle a
  have hrest := h.shares a
  change _ = move p.token.shares self (s.operators id).rewardAddress (s.payout env T id) a + _ at hrest
  rw [received, List.map_cons, List.sum_cons, List.map_cons, List.sum_cons]
  change _ = _ + (_ + s.received env T ids a)
  split_ifs at hmove hrest ⊢ <;> omega

theorem getIndex_next {α ε : Type} (done left : List Nat) (id : Nat) (f : Nat → α) :
    (getIndex ((done ++ id :: left).map f) done.length : Call ε α) = .ok (f id) := by
  have hsplit := @getIndex_split ε α (done.map f) (left.map f) (f id)
  rw [List.length_map] at hsplit
  rw [List.map_append, List.map_cons]
  exact hsplit

/--
The loop pays out and collects what is to burn. The induction is over the operators that are left; the
account holds their payouts, what is burnt for them, and what is to burn already.
-/
theorem ensures_payLoop {done left : List Nat} {toBurn distributed : Nat}
    (hfunds : toBurn + (left.map (s.payout env T)).sum + (left.map (s.burnt env T)).sum
      ≤ p.token.shares self) :
    Ensures Funded
      (payLoop self (s.distributionOf env (s.rewardShare T) (done ++ left)) left.length done.length p
        toBurn distributed)
      fun r => Paid s env T self left p r.1 ∧ r.2.1 = toBurn + (left.map (s.burnt env T)).sum ∧
        r.2.2 = distributed + (left.map (s.payout env T)).sum := by
  induction left generalizing done p toBurn distributed with
  | nil => exact ensures_pure ⟨.nil, rfl, rfl⟩
  | cons id left ih =>
    have hdone : done ++ id :: left = (done ++ [id]) ++ left := by rw [List.append_assoc]; rfl
    rw [List.map_cons, List.sum_cons, List.map_cons, List.sum_cons] at hfunds
    simp only [List.map_cons, List.sum_cons, List.length_cons]
    rw [payLoop, distributionOf, getIndex_next, ok_bind]
    by_cases hsmall : s.rewardShare T id < 2
    · have hpayout : s.payout env T id = 0 := if_pos hsmall
      have hburnt : s.burnt env T id = 0 := if_pos hsmall
      rw [hpayout, hburnt] at hfunds
      have hrest := @ih p (done ++ [id]) toBurn distributed (by omega)
      rw [List.length_append, ← hdone] at hrest
      rw [if_pos hsmall, hburnt, hpayout, Nat.zero_add, Nat.zero_add]
      refine hrest.mono fun r hr => ⟨.cons (by omega) ?_, hr.2⟩
      rw [hpayout, move_zero]
      exact hr.1
    · have hhalf : s.rewardShare T id >>> 1 = s.rewardShare T id / 2 := Nat.shiftRight_one _
      have hpayout : (if s.isOperatorPenalized env id then s.rewardShare T id >>> 1
          else s.rewardShare T id) = s.payout env T id := by
        rw [payout, if_neg hsmall, hhalf]
      have hburnt : Ensures Funded
          (addToBurn (s.isOperatorPenalized env id) toBurn (s.payout env T id))
          fun b => b = toBurn + s.burnt env T id := by
        rw [burnt, if_neg hsmall, addToBurn]
        split
        · next hpenalized =>
          rw [payout, if_neg hsmall, if_pos hpenalized]
          exact ensures_funded_safeAdd
        · exact ensures_pure rfl
      have hpay : s.payout env T id ≤ p.token.shares self := by omega
      rw [if_neg hsmall, getIndex_next, ok_bind]
      simp only [hpayout]
      refine hburnt.bind ?_
      rintro _ rfl
      rw [getIndex_next, ok_bind]
      refine (Ensures.within (BACE.notShort_transferShares
        (Pool.ensures_getTotalPooledAce p notShort_panic) hpay) funded_of_pool).bind ?_
      rintro ⟨token, _⟩ rfl
      refine ensures_funded_safeAdd.bind ?_
      rintro _ rfl
      have hmove := @move_add _ _ _ _ (s.operators id).rewardAddress _ hpay self
      rw [if_pos rfl] at hmove
      have hrest := @ih
        (p.withShares (move p.token.shares self (s.operators id).rewardAddress (s.payout env T id)))
        (done ++ [id]) (toBurn + s.burnt env T id) (distributed + s.payout env T id) (by
          change _ ≤ move p.token.shares self (s.operators id).rewardAddress (s.payout env T id) self
          omega)
      rw [List.length_append, ← hdone] at hrest
      refine hrest.mono fun r hr => ⟨.cons hpay hr.1, ?_, ?_⟩
      · rw [hr.2.1, Nat.add_assoc]
      · rw [hr.2.2, Nat.add_assoc]

/-! ## The whole distribution -/

/-- The shares are divided among the active operators, and some of them are requested to burn. -/
structure Distributed (s : NodeOperatorsRegistry) (env : RegistryEnv) (account : Address)
    (p p' : Pool) (distributed : Nat) : Prop where
  distributed : distributed = (s.activeIds.map (s.payout env (p.token.shares account))).sum
  shares : ∀ a, p'.token.shares a
      + (if a = account then (s.activeIds.map (s.payout env (p.token.shares account))).sum
        + (s.activeIds.map (s.burnt env (p.token.shares account))).sum else 0)
    = p.token.shares a + s.received env (p.token.shares account) s.activeIds a
      + (if a = p.locator.burner then (s.activeIds.map (s.burnt env (p.token.shares account))).sum
        else 0)
  burner : p'.burner = { p.burner with
    nonCoverSharesBurnRequested := p.burner.nonCoverSharesBurnRequested
      + (s.activeIds.map (s.burnt env (p.token.shares account))).sum }
  totalShares : p'.token.totalShares = p.token.totalShares

theorem distributionOf_recipients_length (f : Nat → Nat) (ids : List Nat) :
    (s.distributionOf env f ids).recipients.length = ids.length :=
  List.length_map _

theorem ensures_distributeRewards (h : Invariant s) :
    Ensures Funded (s.distributeRewards env self p) fun r =>
      Distributed s env self p r.1 r.2 := by
  have hbound := s.sum_payout_add_sum_burnt_le env (p.token.shares self)
  unfold distributeRewards
  simp only
  by_cases hzero : p.token.sharesOf self = 0
  · rw [if_pos hzero]
    replace hzero : p.token.shares self = 0 := hzero
    -- nothing is held, and no operator has a share
    have hshare : ∀ id, s.rewardShare 0 id = 0 := fun id => by
      rw [rewardShare, Nat.mul_zero, Nat.zero_div]
    have hpayout : s.payout env 0 = fun _ => 0 := funext fun id => if_pos (by rw [hshare]; decide)
    have hburnt : s.burnt env 0 = fun _ => 0 := funext fun id => if_pos (by rw [hshare]; decide)
    refine ensures_pure ⟨?_, fun a => ?_, ?_, rfl⟩
    · simp [hzero, hpayout]
    · simp [hzero, hpayout, hburnt, received]
    · simp [hzero, hburnt]
  · rw [if_neg hzero, BACE.sharesOf]
    refine Ensures.bind (Ensures.within (ensures_getRewardsDistribution h _) fun r hr => ?_) ?_
    · rw [hr]
      trivial
    rintro _ rfl
    rw [distributionOf_recipients_length]
    have hpaid := @ensures_payLoop s env self (p.token.shares self) p [] s.activeIds 0 0 (by omega)
    rw [List.nil_append, List.length_nil, Nat.zero_add, Nat.zero_add] at hpaid
    refine hpaid.bind ?_
    rintro ⟨p₁, toBurn, distributed⟩ ⟨hp₁, rfl, rfl⟩
    replace hp₁ : Paid s env (p.token.shares self) self s.activeIds p p₁ := hp₁
    have hlocator : p₁.locator = p.locator := by rw [hp₁.pool]; rfl
    have hburner : p₁.burner = p.burner := by rw [hp₁.pool]; rfl
    have htotal : p₁.token.totalShares = p.token.totalShares := by rw [hp₁.pool]; rfl
    simp only
    by_cases hburn : 0 < (s.activeIds.map (s.burnt env (p.token.shares self))).sum
    · rw [if_pos hburn]
      have hself := hp₁.shares self
      rw [if_pos rfl] at hself
      have hle : (s.activeIds.map (s.burnt env (p.token.shares self))).sum ≤ p₁.token.shares self := by
        omega
      refine Ensures.bind (Ensures.within (Pool.notShort_requestBurnShares hle) funded_of_pool) ?_
      rintro p₂ ⟨allowances, -, rfl⟩
      refine ensures_pure ⟨rfl, fun a => ?_, ?_, htotal⟩
      · have hmove := @move_add _ _ _ _ p₁.locator.burner _ hle a
        have hpaidTo := hp₁.shares a
        rw [hlocator] at hmove
        change move p₁.token.shares self p₁.locator.burner _ a + _ = _
        rw [hlocator]
        split_ifs at hmove hpaidTo ⊢ <;> omega
      · change p₁.burner.requested false _ = _
        rw [hburner]
        rfl
    · rw [if_neg hburn]
      have hnone : (s.activeIds.map (s.burnt env (p.token.shares self))).sum = 0 := by omega
      refine ensures_pure ⟨rfl, fun a => ?_, ?_, htotal⟩
      · rw [hnone, Nat.add_zero, ite_self, Nat.add_zero]
        exact hp₁.shares a
      · rw [hnone, hburner]
        rfl

/--
**Rewards distribution is exact and funded.** Whatever number of shares the registry holds, it never
lacks shares for a payout or for what is to burn. Every active operator receives its payout, what is
burnt is added to the burn requests, and both together are at most what the registry holds.
-/
theorem distributeRewards_exact (hreach : Reachable Initial (Step getKeyOffset) s) (env : RegistryEnv)
    (self : Address) (p : Pool) :
    (∀ r, s.distributeRewards env self p = .error r → r ≠ .error (.pool .balanceExceeded)) ∧
    (∀ p' distributed, s.distributeRewards env self p = .ok (p', distributed) →
      Distributed s env self p p' distributed) ∧
    (s.activeIds.map (s.payout env (p.token.shares self))).sum
      + (s.activeIds.map (s.burnt env (p.token.shares self))).sum ≤ p.token.shares self := by
  have hensures := @ensures_distributeRewards s env self p (invariant_of_reachable hreach)
  refine ⟨fun r hr heq => ?_, fun p' distributed hok => hensures.of_ok hok,
    s.sum_payout_add_sum_burnt_le env _⟩
  subst heq
  exact Bool.noConfusion (hensures.of_error hr)

/-- One key of each operator is deposited, and the validator of the second operator is stuck. -/
def exampleRewardsRegistry : NodeOperatorsRegistry :=
  result (exampleRegistry.runAll exampleKeyOffset
    [(exampleRegistryEnv, .obtainDepositData 2),
      (exampleRegistryEnv, .unsafeUpdateValidatorsCount 1 0 1)]) (by decide +kernel)

/-- A pool in which the registry, at the address 5, holds 101 shares and may request to burn them. -/
def exampleRewardsPool : Pool :=
  { Pool.exampleStart with
    token := { Pool.exampleStart.token with
      shares := Function.update Pool.exampleStart.token.shares 5 101
      allowances := fun _ _ => INFINITE_ALLOWANCE
      active := true }
    burner := { Pool.exampleStart.burner with requestBurnSharesRole := fun _ => true } }

/-- The operators have the shares 50 and 50. The second one is penalized. -/
theorem distributeRewards_exact_penalized :
    ∃ p', exampleRewardsRegistry.distributeRewards exampleRegistryEnv 5 exampleRewardsPool
        = .ok (p', 75) ∧
      p'.burner.nonCoverSharesBurnRequested
        = exampleRewardsPool.burner.nonCoverSharesBurnRequested + 25 := by
  have hreach : Reachable Initial (Step exampleKeyOffset) exampleRewardsRegistry :=
    reachable_runAll (reachable_runAll (.init initial_exampleInitialRegistry) runAll_exampleRegistry)
      (eq_ok_result _ (by decide +kernel))
  obtain ⟨⟨p', distributed⟩, hrun⟩ :
      ∃ r, exampleRewardsRegistry.distributeRewards exampleRegistryEnv 5 exampleRewardsPool = .ok r :=
    ⟨_, eq_ok_result _ (by decide +kernel)⟩
  have hdone := (distributeRewards_exact hreach exampleRegistryEnv 5 exampleRewardsPool).2.1 _ _ hrun
  have hpaid := hdone.distributed
  have hburnt := hdone.burner
  have hpayout : (exampleRewardsRegistry.activeIds.map (exampleRewardsRegistry.payout
      exampleRegistryEnv (exampleRewardsPool.token.shares 5))).sum = 75 := by decide +kernel
  have hsum : (exampleRewardsRegistry.activeIds.map (exampleRewardsRegistry.burnt
      exampleRegistryEnv (exampleRewardsPool.token.shares 5))).sum = 25 := by decide +kernel
  rw [hpayout] at hpaid
  rw [hsum] at hburnt
  refine ⟨p', ?_, congrArg Burner.nonCoverSharesBurnRequested hburnt⟩
  rw [← hpaid]
  exact hrun

end NodeOperatorsRegistry

end Catalist

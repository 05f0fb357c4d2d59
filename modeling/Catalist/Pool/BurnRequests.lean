import Catalist.Pool.Effects

/-!
# Burn requests

The functions of `Burner.sol` that are not part of a report: shares are requested to burn, by
amounts of tokens or of shares, to cover losses or not, and the shares that nobody requested to
burn are recovered. `isCover` tells the two kinds of requests apart; `requestBurn` and
`requestBurnShares` are the functions for the kind that does not cover losses.
-/

namespace Catalist

open Solidity Ledger

namespace Burner

variable (b : Burner)

/-- The shares requested to burn, of one kind. -/
def sharesBurnRequested (isCover : Bool) : Nat :=
  if isCover = true then b.coverSharesBurnRequested else b.nonCoverSharesBurnRequested

/-- The shares burnt so far, of one kind. -/
def totalSharesBurnt (isCover : Bool) : Nat :=
  if isCover = true then b.totalCoverSharesBurnt else b.totalNonCoverSharesBurnt

/-- All shares requested to burn. -/
def allSharesRequested : Nat := b.coverSharesBurnRequested + b.nonCoverSharesBurnRequested

/-- The burner after a request. -/
def requested (isCover : Bool) (n : Nat) : Burner :=
  if isCover = true then { b with coverSharesBurnRequested := b.coverSharesBurnRequested + n }
  else { b with nonCoverSharesBurnRequested := b.nonCoverSharesBurnRequested + n }

/-- The shares of `n` that are burnt to cover losses: all of them, if that many are requested. -/
def coverPart (n : Nat) : Nat := min n b.coverSharesBurnRequested

/-- The burner after `n` shares are committed to be burnt. -/
def committed (n : Nat) : Burner :=
  { b with
    coverSharesBurnRequested := b.coverSharesBurnRequested - b.coverPart n
    nonCoverSharesBurnRequested := b.nonCoverSharesBurnRequested - (n - b.coverPart n)
    totalCoverSharesBurnt := b.totalCoverSharesBurnt + b.coverPart n
    totalNonCoverSharesBurnt := b.totalNonCoverSharesBurnt + (n - b.coverPart n) }

end Burner

namespace Pool

variable (s : Pool)

/-- `_requestBurn` -/
def requestBurnFor (isCover : Bool) (sharesAmount : Nat) : Call PoolError Pool := do
  require (sharesAmount ≠ 0) .zeroBurnAmount
  if isCover = true then do
    let requested ← checkedAdd 256 s.burner.coverSharesBurnRequested sharesAmount
    return { s with burner := { s.burner with coverSharesBurnRequested := requested } }
  else do
    let requested ← checkedAdd 256 s.burner.nonCoverSharesBurnRequested sharesAmount
    return { s with burner := { s.burner with nonCoverSharesBurnRequested := requested } }

/--
Requests the burning of an amount of the caller, whose role is answered by `hasRole`; it also
returns the shares of the request.
-/
def requestBurnMyBACEFor (isCover hasRole : Bool) (caller : Address) (bACEAmountToBurn : Nat) :
    Call PoolError (Pool × Nat) := do
  require (hasRole = true) (.missingRequestBurnMyBACERole caller)
  let token ← s.token.transferFrom s.getTotalPooledAce s.locator.burner caller s.locator.burner
    bACEAmountToBurn
  let s := { s with token := token }
  let sharesAmount ← s.token.getSharesByPooledAce s.getTotalPooledAce bACEAmountToBurn
  let s ← s.requestBurnFor isCover sharesAmount
  return (s, sharesAmount)

def requestBurnMyBACEForCover := s.requestBurnMyBACEFor true

def requestBurnMyBACE := s.requestBurnMyBACEFor false

/-- Requests the burning of shares of `fromAddr`. -/
def requestBurnSharesFor (isCover : Bool) (caller fromAddr : Address) (sharesAmountToBurn : Nat) :
    Call PoolError Pool := do
  require (s.burner.requestBurnSharesRole caller = true) (.missingRequestBurnSharesRole caller)
  let (token, _) ← s.token.transferSharesFrom s.getTotalPooledAce s.locator.burner fromAddr
    s.locator.burner sharesAmountToBurn
  let s := { s with token := token }
  s.requestBurnFor isCover sharesAmountToBurn

def requestBurnSharesForCover := s.requestBurnSharesFor true

theorem requestBurnSharesFor_false : s.requestBurnSharesFor false = s.requestBurnShares := rfl

/-- `_getExcessBACEShares` -/
def getExcessBACEShares : Call PoolError Nat := do
  let sharesBurnRequested ←
    checkedAdd 256 s.burner.coverSharesBurnRequested s.burner.nonCoverSharesBurnRequested
  let totalShares := s.token.sharesOf s.locator.burner
  if totalShares ≤ sharesBurnRequested then return 0
  else return totalShares - sharesBurnRequested

def getExcessBACE : Call PoolError Nat := do
  let excessShares ← s.getExcessBACEShares
  s.token.getPooledAceByShares s.getTotalPooledAce excessShares

/-- `recoverExcessBACE`; `treasury` is what the burner was constructed with. -/
def recoverExcessBACE (treasury : Address) : Call PoolError Pool := do
  let excessBACE ← s.getExcessBACE
  if 0 < excessBACE then do
    let _excessSharesAmount ← s.token.getSharesByPooledAce s.getTotalPooledAce excessBACE
    let token ← s.token.transfer s.getTotalPooledAce s.locator.burner treasury excessBACE
    return { s with token := token }
  else return s

/-! ## Effects -/

variable {s} {s' : Pool} {isCover hasRole : Bool} {caller fromAddr treasury : Address} {n : Nat}

theorem requestBurnFor_ok_cases (h : s.requestBurnFor isCover n = .ok s') :
    s' = { s with burner := s.burner.requested isCover n } := by
  simp only [requestBurnFor, bind_eq_ok, require_eq_ok] at h
  obtain ⟨_, -, h⟩ := h
  unfold Burner.requested
  split at h
  · next hcover =>
    simp only [bind_eq_ok, checkedAdd_eq_ok, pure_eq_ok] at h
    obtain ⟨_, ⟨-, rfl⟩, rfl⟩ := h
    rw [if_pos hcover]
  · next hcover =>
    simp only [bind_eq_ok, checkedAdd_eq_ok, pure_eq_ok] at h
    obtain ⟨_, ⟨-, rfl⟩, rfl⟩ := h
    rw [if_neg hcover]

/-- `n` shares of `fromAddr` went to the burner, and their burning is requested. -/
def BurnRequested (s s' : Pool) (isCover : Bool) (fromAddr : Address) (n : Nat) : Prop :=
  ∃ allowances, n ≤ s.token.shares fromAddr ∧
    s' = { s with
      token := { s.token with
        shares := move s.token.shares fromAddr s.locator.burner n
        allowances := allowances }
      burner := s.burner.requested isCover n }

/-- The amount is turned into shares twice, at the same rate. -/
theorem requestBurnMyBACEFor_ok_cases {amount : Nat}
    (h : s.requestBurnMyBACEFor isCover hasRole caller amount = .ok (s', n)) :
    s.BurnRequested s' isCover caller n := by
  simp only [requestBurnMyBACEFor, BACE.transferFrom, BACE.transferInternal, bind_eq_ok,
    require_eq_ok, pure_eq_ok, Prod.mk.injEq, BACE.getSharesByPooledAce_eq_ok] at h
  obtain ⟨_, -, token, ⟨_, hspend, _, ⟨-, P, hP, -, rfl⟩, htransfer⟩, _, ⟨-, P', hP', -, rfl⟩, s₁,
    hrequest, rfl, rfl⟩ := h
  obtain ⟨allowances, rfl⟩ := BACE.spendAllowance_shares hspend
  obtain ⟨-, -, -, -, hle, rfl⟩ := BACE.transferSharesInternal_ok_cases htransfer
  obtain rfl := requestBurnFor_ok_cases hrequest
  obtain rfl : P = P' := Except.ok.inj (hP.symm.trans hP')
  exact ⟨allowances, hle, rfl⟩

theorem requestBurnSharesFor_ok_cases
    (h : s.requestBurnSharesFor isCover caller fromAddr n = .ok s') :
    s.BurnRequested s' isCover fromAddr n := by
  simp only [requestBurnSharesFor, BACE.transferSharesFrom, bind_eq_ok, require_eq_ok,
    pure_eq_ok] at h
  obtain ⟨_, -, ⟨token, tokens⟩, ⟨_, -, _, hspend, _, htransfer, heq⟩, hrequest⟩ := h
  obtain ⟨rfl, rfl⟩ := Prod.mk.inj heq
  obtain ⟨allowances, rfl⟩ := BACE.spendAllowance_shares hspend
  obtain ⟨-, -, -, -, hle, rfl⟩ := BACE.transferSharesInternal_ok_cases htransfer
  obtain rfl := requestBurnFor_ok_cases hrequest
  exact ⟨allowances, hle, rfl⟩

/-- Turning shares into an amount and back does not make them more. -/
theorem mul_div_mul_div_le {e P T : Nat} : e * P / T * T / P ≤ e := by
  rcases Nat.eq_zero_or_pos P with rfl | hP
  · rw [Nat.div_zero]
    exact Nat.zero_le _
  · refine Nat.div_le_of_le_mul ?_
    rw [Nat.mul_comm P e]
    exact Nat.div_mul_le_self (e * P) T

theorem getExcessBACEShares_ok_cases (h : s.getExcessBACEShares = .ok n) :
    n = s.token.shares s.locator.burner - s.burner.allSharesRequested := by
  simp only [getExcessBACEShares, bind_eq_ok, checkedAdd_eq_ok] at h
  obtain ⟨_, ⟨-, rfl⟩, h⟩ := h
  unfold Burner.allSharesRequested
  split at h
  · next hle =>
    unfold BACE.sharesOf at hle
    cases h
    omega
  · cases h
    rfl

/-- At most the shares that nobody requested to burn leave the burner. -/
theorem recoverExcessBACE_ok_cases (h : s.recoverExcessBACE treasury = .ok s') :
    ∃ n, n ≤ s.token.shares s.locator.burner - s.burner.allSharesRequested ∧
      s' = { s with
        token := { s.token with shares := move s.token.shares s.locator.burner treasury n } } := by
  simp only [recoverExcessBACE, getExcessBACE, bind_eq_ok] at h
  obtain ⟨excessBACE, ⟨excess, hexcess, hvalue⟩, h⟩ := h
  obtain rfl := getExcessBACEShares_ok_cases hexcess
  obtain ⟨P, hP, -, -, rfl⟩ := BACE.getPooledAceByShares_eq_ok.mp hvalue
  split at h
  · simp only [BACE.transfer, BACE.transferInternal, bind_eq_ok, pure_eq_ok,
      BACE.getSharesByPooledAce_eq_ok] at h
    obtain ⟨_, -, token, ⟨_, ⟨-, P', hP', -, rfl⟩, htransfer⟩, rfl⟩ := h
    obtain rfl : P = P' := Except.ok.inj (hP.symm.trans hP')
    obtain ⟨-, -, -, -, -, rfl⟩ := BACE.transferSharesInternal_ok_cases htransfer
    exact ⟨_, mul_div_mul_div_le, rfl⟩
  · cases h
    refine ⟨0, Nat.zero_le _, ?_⟩
    rw [move_zero]

end Pool

end Catalist

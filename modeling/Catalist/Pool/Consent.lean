import Catalist.Pool.BACE
import Catalist.Lib.Transition

/-!
# Consent

Shares should leave an account only through its own calls, or through those of an account that it
has given an allowance. Allowances are in tokens, and `transferSharesFrom` asks for the value of
the shares in tokens, rounded down. After a loss a share can be worth less than one token; the
value of a few shares is then zero, and no allowance is needed to move them.

`transferFrom` has no such gap: it rounds the shares that it moves down as well.
-/

namespace Catalist

open Solidity Ledger Transition

namespace BACE

variable {t t' : BACE} {P n amount : Nat} {a caller sender recipient spender : Address} {op : TokenOp}

/-- Steps made by accounts other than `a`, with any total pooled ace. -/
inductive OthersStep (Guard : TokenOp → BACE → Nat → Prop) (a : Address) : BACE → BACE → Prop where
  | call {t t' : BACE} {op : TokenOp} {P : Nat} {caller : Address} :
      caller ≠ a → Guard op t P → op.run t (.ok P) caller = .ok t' → OthersStep Guard a t t'

/-- Shares of `a` are only moved by `transferSharesFrom` if they are worth a token. -/
def WorthAToken (a : Address) (op : TokenOp) (t : BACE) (P : Nat) : Prop :=
  ∀ recipient n, op = .transferSharesFrom a recipient n → n = 0 ∨ t.totalShares ≤ n * P

/-- `a` has given no allowance to another account. -/
def Reserved (t : BACE) (a : Address) : Prop := ∀ x, x ≠ a → t.allowances a x = 0

theorem reserved_of_approveInternal (hres : Reserved t a) (hsender : sender ≠ a)
    (h : t.approveInternal sender spender amount = .ok t') : Reserved t' a := by
  obtain rfl := approveInternal_ok_cases h
  intro x hx
  simp only [Function.update_of_ne hsender.symm]
  exact hres x hx

/-- Whatever is spent of no allowance is zero. -/
theorem reserved_of_spendAllowance (hres : Reserved t a) (hcaller : caller ≠ a)
    (h : t.spendAllowance sender caller amount = .ok t') :
    Reserved t' a ∧ (sender = a → amount = 0) := by
  rcases spendAllowance_ok_cases h with ⟨hinf, rfl⟩ | ⟨hle, rfl⟩
  · refine ⟨hres, ?_⟩
    rintro rfl
    rw [hres caller hcaller] at hinf
    exact absurd hinf (by decide)
  · rcases eq_or_ne a sender with rfl | hne
    · have hzero := hres caller hcaller
      refine ⟨fun x hx => ?_, fun _ => by omega⟩
      simp only [Function.update_self]
      rcases eq_or_ne x caller with rfl | hx'
      · rw [Function.update_self, hzero, Nat.zero_sub]
      · rw [Function.update_of_ne hx']
        exact hres x hx
    · refine ⟨fun x hx => ?_, fun heq => absurd heq.symm hne⟩
      simp only [Function.update_of_ne hne]
      exact hres x hx

theorem reserved_of_transferSharesInternal (hres : Reserved t a)
    (h : t.transferSharesInternal sender recipient n = .ok t') :
    Reserved t' a ∧ (a ≠ sender ∨ n = 0 → t.shares a ≤ t'.shares a) := by
  obtain ⟨-, -, -, -, -, rfl⟩ := transferSharesInternal_ok_cases h
  refine ⟨hres, ?_⟩
  rintro (hne | rfl)
  · exact le_move hne
  · simp only [withShares, move_zero]
    exact Nat.le_refl _

/-- A transfer of tokens moves no shares of `a`: an amount of zero is zero shares. -/
theorem reserved_of_transferInternal (hres : Reserved t a)
    (h : t.transferInternal (.ok P) sender recipient amount = .ok t')
    (hamount : a ≠ sender ∨ amount = 0) : Reserved t' a ∧ t.shares a ≤ t'.shares a := by
  simp only [transferInternal, bind_eq_ok] at h
  obtain ⟨n, hn, h⟩ := h
  obtain ⟨hres', hle⟩ := reserved_of_transferSharesInternal hres h
  refine ⟨hres', hle ?_⟩
  rcases hamount with hne | rfl
  · exact .inl hne
  · obtain ⟨-, _, -, -, rfl⟩ := getSharesByPooledAce_eq_ok.mp hn
    exact .inr (by rw [Nat.zero_mul, Nat.zero_div])

theorem spendAllowance_shares_eq (h : t.spendAllowance sender caller amount = .ok t') (x : Address) :
    t'.shares x = t.shares x := by
  obtain ⟨_, rfl⟩ := spendAllowance_shares h
  rfl

/-- One call of another account. -/
theorem reserved_of_run (hres : Reserved t a) (hcaller : caller ≠ a) (hworth : WorthAToken a op t P)
    (h : op.run t (.ok P) caller = .ok t') : Reserved t' a ∧ t.shares a ≤ t'.shares a := by
  cases op with
  | transfer recipient amount => exact reserved_of_transferInternal hres h (.inl hcaller.symm)
  | transferFrom sender recipient amount =>
    simp only [TokenOp.run, transferFrom, bind_eq_ok] at h
    obtain ⟨t₁, hspend, h⟩ := h
    obtain ⟨hres₁, hzero⟩ := reserved_of_spendAllowance hres hcaller hspend
    rw [← spendAllowance_shares_eq hspend a]
    refine reserved_of_transferInternal hres₁ h ?_
    rcases eq_or_ne a sender with rfl | hne
    · exact .inr (hzero rfl)
    · exact .inl hne
  | transferShares recipient sharesAmount =>
    obtain ⟨⟨t₁, tokens⟩, hrun, rfl⟩ := map_eq_ok.mp h
    simp only [transferShares, bind_eq_ok, pure_eq_ok, Prod.mk.injEq] at hrun
    obtain ⟨t₁, hmove, _, _, rfl, _⟩ := hrun
    obtain ⟨hres', hle⟩ := reserved_of_transferSharesInternal hres hmove
    exact ⟨hres', hle (.inl hcaller.symm)⟩
  | transferSharesFrom sender recipient sharesAmount =>
    obtain ⟨⟨t₂, tokens⟩, hrun, rfl⟩ := map_eq_ok.mp h
    simp only [transferSharesFrom, bind_eq_ok, pure_eq_ok, Prod.mk.injEq] at hrun
    obtain ⟨tokens, htokens, t₁, hspend, t₂, hmove, rfl, _⟩ := hrun
    obtain ⟨hres₁, hzero⟩ := reserved_of_spendAllowance hres hcaller hspend
    obtain ⟨hres', hle⟩ := reserved_of_transferSharesInternal hres₁ hmove
    rw [← spendAllowance_shares_eq hspend a]
    refine ⟨hres', hle ?_⟩
    rcases eq_or_ne a sender with rfl | hne
    · -- the shares are worth zero tokens, so there are none
      obtain ⟨P', hP, -, hne, hdiv⟩ := getPooledAceByShares_eq_ok.mp htokens
      obtain rfl : P = P' := by simpa using hP
      rw [hzero rfl] at hdiv
      rcases hworth recipient sharesAmount rfl with hn | hle
      · exact .inr hn
      · have hpos := Nat.div_pos hle (Nat.pos_of_ne_zero hne)
        omega
    · exact .inl hne
  | approve spender amount =>
    have hres' := reserved_of_approveInternal hres hcaller h
    obtain rfl := approveInternal_ok_cases h
    exact ⟨hres', Nat.le_refl _⟩
  | increaseAllowance spender addedValue =>
    obtain ⟨_, h⟩ := increaseAllowance_ok_cases h
    have hres' := reserved_of_approveInternal hres hcaller h
    obtain rfl := approveInternal_ok_cases h
    exact ⟨hres', Nat.le_refl _⟩
  | decreaseAllowance spender subtractedValue =>
    obtain ⟨_, h⟩ := decreaseAllowance_ok_cases h
    have hres' := reserved_of_approveInternal hres hcaller h
    obtain rfl := approveInternal_ok_cases h
    exact ⟨hres', Nat.le_refl _⟩

/--
**Consent.** From any state in which `a` has given no allowance, calls of other accounts never
decrease the shares of `a`, as long as `transferSharesFrom` is not called for shares of `a` that
are worth less than a token.
-/
theorem shares_le_of_others {t₀ : BACE} (hzero : ∀ x, x ≠ a → t₀.allowances a x = 0)
    (hreach : Reachable (fun t => t = t₀) (OthersStep (WorthAToken a) a) t) :
    t₀.shares a ≤ t.shares a := by
  have hinv : Reserved t a ∧ t₀.shares a ≤ t.shares a := by
    refine @Reachable.invariant _ _ _ (fun t => Reserved t a ∧ t₀.shares a ≤ t.shares a) ?_ ?_ _
      hreach
    · rintro t rfl
      exact ⟨hzero, Nat.le_refl _⟩
    · rintro t t' ⟨hres, hle⟩ ⟨hcaller, hworth, h⟩
      obtain ⟨hres', hle'⟩ := reserved_of_run hres hcaller hworth h
      exact ⟨hres', hle.trans hle'⟩
  exact hinv.2

/-- Account 1 holds all shares, each worth less than a token, and has given no allowance. -/
def exampleHolder : BACE where
  self := 9
  shares := fun x => if x = 1 then 10 ^ 18 else 0
  allowances := fun _ _ => 0
  totalShares := 10 ^ 18
  active := true

/-- A call of another account that moves nothing of account 1. -/
theorem shares_le_of_others_approve : ∃ t,
    Reachable (fun t => t = exampleHolder) (OthersStep (WorthAToken 1) 1) t ∧
    t.allowances 3 4 = 5 ∧ exampleHolder.shares 1 ≤ t.shares 1 := by
  have h₀ : Reachable (fun t => t = exampleHolder) (OthersStep (WorthAToken 1) 1) exampleHolder :=
    .init rfl
  have h₁ := h₀.step (@OthersStep.call _ _ _ _ (.approve 4 5) (9 * 10 ^ 17) 3 (by decide)
    (fun _ _ heq => by cases heq) (eq_ok_result _ (by decide +kernel)))
  exact ⟨_, h₁, by decide +kernel, shares_le_of_others (fun _ _ => rfl) h₁⟩

/-- At nine tokens for ten shares, one share is worth zero tokens, and anyone can take it. -/
theorem not_consent_below_a_token : ∃ t,
    (∀ x, x ≠ 1 → exampleHolder.allowances 1 x = 0) ∧
    Reachable (fun t => t = exampleHolder) (OthersStep (fun _ _ _ => True) 1) t ∧
    t.shares 1 < exampleHolder.shares 1 := by
  have h₀ : Reachable (fun t => t = exampleHolder) (OthersStep (fun _ _ _ => True) 1) exampleHolder :=
    .init rfl
  have h₁ := h₀.step (@OthersStep.call _ _ _ _ (.transferSharesFrom 1 3 1) (9 * 10 ^ 17) 3
    (by decide) trivial (eq_ok_result _ (by decide +kernel)))
  exact ⟨_, fun _ _ => rfl, h₁, by decide +kernel⟩

end BACE

end Catalist

import Mathlib.Data.List.Nodup
import Mathlib.Data.List.Forall2
import Mathlib.Data.Set.Function

/-!
# Quorum certificates

A certificate is a list of signatures of one hash. The accounts that they recover to are in
ascending order, so each account counts once. Of a signature it is only assumed that the account
signed something with this hash; if the hashes of the strings that are hashed differ, it signed the
message itself.
-/

namespace Certificate

variable {κ μ η ς : Type*}

/-- The signatures recover to the accounts, which ascend. -/
structure Certifies [LT κ] (recovers : ς → κ → Prop) (sigs : List ς) (signers : List κ) : Prop where
  recovered : List.Forall₂ recovers sigs signers
  ascending : signers.Pairwise (· < ·)

/-- No signature is forged for one of the accounts: the account signed something with the hash. -/
def Unforged (recovers : ς → κ → Prop) (accounts : Set κ) (signed : κ → μ → Prop) (digest : μ → η)
    (hash : η) (sigs : List ς) : Prop :=
  ∀ sig ∈ sigs, ∀ a ∈ accounts, recovers sig a → ∃ m, signed a m ∧ digest m = hash

/-- Two different strings have the same hash. -/
def Collides (digest : μ → η) (hashed : Set μ) : Prop :=
  ∃ s ∈ hashed, ∃ t ∈ hashed, s ≠ t ∧ digest s = digest t

/-- A hash tells the strings apart, or two of them collide. -/
theorem injOn_or_collides (digest : μ → η) (hashed : Set μ) :
    Set.InjOn digest hashed ∨ Collides digest hashed := by
  by_cases h : Collides digest hashed
  · exact .inr h
  · refine .inl fun s hs t ht heq => ?_
    by_contra hne
    exact h ⟨s, hs, t, ht, hne, heq⟩

variable [LT κ] {recovers : ς → κ → Prop} {sig : ς} {sigs : List ς} {a : κ} {signers : List κ}

theorem Certifies.nil : Certifies recovers [] ([] : List κ) :=
  ⟨.nil, .nil⟩

/-- One more signature, of an account before all others. -/
theorem Certifies.cons (h : Certifies recovers sigs signers) (hrecovers : recovers sig a)
    (hbefore : ∀ b ∈ signers, a < b) : Certifies recovers (sig :: sigs) (a :: signers) :=
  ⟨.cons hrecovers h.recovered, .cons hbefore h.ascending⟩

theorem Certifies.length_eq (h : Certifies recovers sigs signers) : signers.length = sigs.length :=
  h.recovered.length_eq.symm

/-- No account signs twice. -/
theorem Certifies.nodup [Std.Irrefl fun a b : κ => a < b] (h : Certifies recovers sigs signers) :
    signers.Nodup := by
  refine h.ascending.imp ?_
  rintro a b hlt rfl
  exact Std.Irrefl.irrefl (r := fun a b : κ => a < b) a hlt

theorem Certifies.exists_sig (h : Certifies recovers sigs signers) (ha : a ∈ signers) :
    ∃ sig ∈ sigs, recovers sig a := by
  obtain ⟨i, hi, rfl⟩ := List.getElem_of_mem ha
  have hsig : i < sigs.length := by
    rw [← h.length_eq]
    exact hi
  exact ⟨sigs[i], List.getElem_mem hsig, h.recovered.get hsig hi⟩

/-- **The accounts signed the message**, when no signature is forged and no two strings collide. -/
theorem Certifies.signed {accounts : Set κ} {signed : κ → μ → Prop} {digest : μ → η}
    {hashed : Set μ} {message : μ} (h : Certifies recovers sigs signers)
    (hunforged : Unforged recovers accounts signed digest (digest message) sigs)
    (hinjective : Set.InjOn digest hashed) (hmessage : message ∈ hashed)
    (hhashed : ∀ a m, signed a m → m ∈ hashed) (ha : a ∈ signers) (haccount : a ∈ accounts) :
    signed a message := by
  obtain ⟨sig, hsig, hrecovers⟩ := h.exists_sig ha
  obtain ⟨m, hm, hdigest⟩ := hunforged sig hsig a haccount hrecovers
  have hsame : m = message := hinjective (hhashed a m hm) hmessage hdigest
  exact hsame ▸ hm

end Certificate

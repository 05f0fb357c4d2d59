import Catalist.Registry.DepositOnce
import Catalist.Registry.KeyLists

/-!
# Unused keys

The keys of an operator behind the deposited ones. A call makes no key unused but those that it adds,
and `obtainDepositData` hands out nothing but unused keys. So what was unused at a moment and is no
longer, or is unused only since, can be told from the calls.
-/

namespace Catalist

open Solidity ByteBuffer SigningKeys IndexTable Transition

/-- The keys that a call adds to the operator `id`. -/
def RegistryAction.added (action : RegistryAction) (id : Nat) : List SigningKey :=
  match action with
  | .addSigningKeys id' keysCount publicKeys signatures
  | .addSigningKeysOperatorBH id' keysCount publicKeys signatures =>
    if id = id' then readSigningKeys publicKeys signatures keysCount else []
  | _ => []

namespace NodeOperatorsRegistry

variable {s s' : NodeOperatorsRegistry} {env : RegistryEnv} {id n : Nat}
  {getKeyOffset : Nat → Nat → BitVec 256} {key : SigningKey}

def unusedKeys (s : NodeOperatorsRegistry) (getKeyOffset : Nat → Nat → BitVec 256) (id : Nat) :
    List SigningKey :=
  (s.signingKeysOf getKeyOffset id).drop (s.operators id).deposited

theorem deposited_le_length (h : Invariant s) (id : Nat) :
    (s.operators id).deposited ≤ (s.signingKeysOf getKeyOffset id).length := by
  rw [signingKeysOf, length_keyList]
  exact (h.wellFormed id).deposited_le_total

/-- Keys are added at the end, and only unused ones are removed. -/
theorem mem_drop_of_run (hsep : Separate getKeyOffset) (h : Invariant s) {action : RegistryAction}
    (hrun : action.run getKeyOffset env s = .ok s')
    (hkey : key ∈ (s'.signingKeysOf getKeyOffset id).drop (s.operators id).deposited) :
    key ∈ s.unusedKeys getKeyOffset id ∨ key ∈ action.added id := by
  have hlist := signingKeysOf_of_run hsep h hrun id
  have hadd : ∀ {id' m : Nat} {publicKeys signatures : Bytes},
      s'.signingKeysOf getKeyOffset id = (if id = id'
        then s.signingKeysOf getKeyOffset id ++ readSigningKeys publicKeys signatures m
        else s.signingKeysOf getKeyOffset id) →
      key ∈ s.unusedKeys getKeyOffset id ∨
        key ∈ if id = id' then readSigningKeys publicKeys signatures m else [] := by
    intro id' m publicKeys signatures hadded
    rw [hadded] at hkey
    split at hkey
    · next heq =>
      rw [List.drop_append_of_le_length (deposited_le_length h id)] at hkey
      rw [if_pos heq]
      exact List.mem_append.mp hkey
    · exact .inl hkey
  have hremove : ∀ {id' fromIndex count : Nat},
      s.removeSigningKeys getKeyOffset env id' fromIndex count = .ok s' →
      key ∈ s.unusedKeys getKeyOffset id := by
    intro id' fromIndex count hx
    simp only [removeSigningKeys, bind_eq_ok] at hx
    obtain ⟨_, -, hx⟩ := hx
    obtain ⟨hunused, hremoved⟩ := signingKeysOf_of_removeUnused hsep h hx
    rw [hremoved id] at hkey
    split at hkey
    · next heq =>
      subst heq
      rcases hunused with rfl | ⟨hfrom, hend⟩
      · exact hkey
      · exact drop_removeRange_subset hend hfrom hkey
    · exact hkey
  cases action with
  | addSigningKeys id' keysCount publicKeys signatures => exact hadd hlist
  | addSigningKeysOperatorBH id' keysCount publicKeys signatures => exact hadd hlist
  | removeSigningKey id' index => exact .inl (hremove hrun)
  | removeSigningKeys id' fromIndex keysCount => exact .inl (hremove hrun)
  | removeSigningKeyOperatorBH id' index => exact .inl (hremove hrun)
  | removeSigningKeysOperatorBH id' fromIndex keysCount => exact .inl (hremove hrun)
  | invalidateReadyToDepositKeysRange indexFrom indexTo =>
    -- of a list that is cut off behind the deposited keys, nothing is unused
    rw [hlist, RegistryAction.editKeys] at hkey
    split at hkey
    · rw [List.drop_take_self] at hkey
      cases hkey
    · exact .inl hkey
  | onWithdrawalCredentialsChanged =>
    rw [hlist, RegistryAction.editKeys, List.drop_take_self] at hkey
    cases hkey
  | _ =>
    rw [hlist] at hkey
    exact .inl hkey

/-- **A call makes no key unused but those that it adds.** -/
theorem mem_unusedKeys_of_run (hsep : Separate getKeyOffset) (h : Invariant s)
    {action : RegistryAction} (hrun : action.run getKeyOffset env s = .ok s')
    (hkey : key ∈ s'.unusedKeys getKeyOffset id) :
    key ∈ s.unusedKeys getKeyOffset id ∨ key ∈ action.added id := by
  have hgrown := (ensures_run h).of_ok hrun
  exact mem_drop_of_run hsep h hrun (List.drop_subset_drop_left _ (hgrown.deposited_le id) hkey)

/-- After the credentials have changed, no key is unused. -/
theorem unusedKeys_of_onWithdrawalCredentialsChanged (h : Invariant s)
    (hrun : s.onWithdrawalCredentialsChanged env = .ok s') (id : Nat) :
    s'.unusedKeys getKeyOffset id = [] := by
  have hcall : RegistryAction.run .onWithdrawalCredentialsChanged getKeyOffset env s = .ok s' := hrun
  have hgrown := (ensures_run h).of_ok hcall
  rw [unusedKeys, signingKeysOf_of_onWithdrawalCredentialsChanged h hrun]
  refine List.drop_eq_nil_of_le ?_
  rw [List.length_take]
  exact (Nat.min_le_left _ _).trans (hgrown.deposited_le id)

/-! ## Handing out -/

/-- What is handed out was unused. -/
theorem unused_of_obtainDepositData (h : Invariant s) {publicKeys signatures : Bytes}
    (hobtain : s.obtainDepositData getKeyOffset env n = .ok (s', publicKeys, signatures)) :
    ∃ keys : List SigningKey, keys.length = n ∧ publicKeys = keys.flatMap SigningKey.pubkey ∧
      signatures = keys.flatMap SigningKey.signature ∧
      ∀ key ∈ keys, ∃ id, key ∈ s.unusedKeys getKeyOffset id := by
  have hensures : Ensures (fun _ => True) (s.obtainDepositData getKeyOffset env n) _ :=
    ensures_obtainDepositData h (.inr trivial) (.inr trivial)
  have hexact := (hensures.of_ok hobtain).1.exact h
  refine ⟨(returnedBy s s' (List.range s.totalOperatorsCount)).map fun place =>
    storedSigningKey s.signingKeys getKeyOffset place.1 place.2, ?_, ?_, ?_, ?_⟩
  · rw [List.length_map]
    exact hexact.length
  · rw [List.flatMap_map]
    exact hexact.publicKeys
  · rw [List.flatMap_map]
    exact hexact.signatures
  · intro key hkey
    obtain ⟨⟨id, index⟩, hplace, rfl⟩ := List.mem_map.mp hkey
    obtain ⟨-, hlow, hhigh⟩ := mem_returnedBy.mp hplace
    have htotal : index < (s.operators id).total :=
      calc index < (s'.operators id).deposited := hhigh
        _ ≤ (s.operators id).maxValidators := (hexact.deposited_le_max id).1
        _ ≤ (s.operators id).vetted := (hexact.max_le_vetted id).1
        _ ≤ (s.operators id).total := (h.wellFormed id).vetted_le_total
    refine ⟨id, List.mem_iff_getElem?.mpr ⟨index - (s.operators id).deposited, ?_⟩⟩
    rw [unusedKeys, List.getElem?_drop, Nat.add_sub_cancel' hlow, signingKeysOf, getElem?_keyList,
      if_pos htotal]

end NodeOperatorsRegistry

end Catalist

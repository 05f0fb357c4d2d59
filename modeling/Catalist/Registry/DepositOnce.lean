import Catalist.Registry.Steps

/-!
# Every key is deposited once

`obtainDepositData` succeeds for as many keys as the summary says there are and for no more, and
returns, for each operator, the keys from its deposited count on. The deposited counts never
decrease, so over a whole run no key is returned twice.
-/

namespace Catalist

open Solidity ByteBuffer SigningKeys Transition

variable {getKeyOffset : Nat → Nat → BitVec 256}

/-- The operators and indices of the keys that the call returns when it leads from `s` to `s'`. -/
def RegistryAction.returned (action : RegistryAction) (s s' : NodeOperatorsRegistry) :
    List (Nat × Nat) :=
  match action with
  | .obtainDepositData _ => s.returnedBy s' (List.range s.totalOperatorsCount)
  | _ => []

namespace NodeOperatorsRegistry

variable {s s' : NodeOperatorsRegistry} {w w' : RegistryLog} {id : Nat}

/-- The operators and indices of all keys that the calls have returned. -/
def returnedKeys (history : List RegistryCall) : List (Nat × Nat) :=
  history.flatMap fun m => m.action.2.returned m.before m.after

theorem returnedKeys_record (call : RegistryEnv × RegistryAction) :
    returnedKeys (w.record call s').history
      = returnedKeys w.history ++ call.2.returned w.state s' := by
  unfold returnedKeys Recorded.record
  rw [List.flatMap_append, List.flatMap_singleton]

/-! ## No key twice -/

theorem mem_returnedBy {ids : List Nat} {key : Nat × Nat} :
    key ∈ returnedBy s s' ids ↔ key.1 ∈ ids ∧ (s.operators key.1).deposited ≤ key.2 ∧
      key.2 < (s'.operators key.1).deposited := by
  obtain ⟨id, index⟩ := key
  simp only [returnedBy, newlyDeposited, List.mem_flatMap, List.mem_map, List.mem_range'_1,
    Prod.mk.injEq]
  constructor
  · rintro ⟨_, hid, _, hindex, rfl, rfl⟩
    exact ⟨hid, by omega, by omega⟩
  · rintro ⟨hid, hlow, hhigh⟩
    exact ⟨id, hid, index, by omega, rfl, rfl⟩

theorem nodup_returnedBy {ids : List Nat} (hids : ids.Nodup) : (returnedBy s s' ids).Nodup := by
  refine List.nodup_flatMap.mpr ⟨fun id _ => ?_, hids.imp fun {id id'} hne => ?_⟩
  · exact List.Nodup.map (fun _ _ heq => (Prod.mk.inj heq).2) (List.nodup_range' ..)
  · intro key hkey hkey'
    obtain ⟨_, _, rfl⟩ := List.mem_map.mp hkey
    obtain ⟨_, _, heq⟩ := List.mem_map.mp hkey'
    exact hne (Prod.mk.inj heq).1.symm

theorem nodup_returned (action : RegistryAction) : (action.returned s s').Nodup := by
  unfold RegistryAction.returned
  split
  · exact nodup_returnedBy List.nodup_range
  · exact List.nodup_nil

/-- A returned key was not deposited before the call, and is after it. -/
theorem bounds_of_mem_returned {action : RegistryAction} {key : Nat × Nat}
    (h : key ∈ action.returned s s') :
    (s.operators key.1).deposited ≤ key.2 ∧ key.2 < (s'.operators key.1).deposited := by
  unfold RegistryAction.returned at h
  split at h
  · exact (mem_returnedBy.mp h).2
  · cases h

/-- No key was returned twice, and the returned keys are deposited. -/
structure ReturnedOnce (w : RegistryLog) : Prop where
  invariant : Invariant w.state
  nodup : (returnedKeys w.history).Nodup
  deposited : ∀ key ∈ returnedKeys w.history, key.2 < (w.state.operators key.1).deposited

/-- The deposited counts separate the keys that were returned from those that a call returns. -/
theorem ReturnedOnce.step (h : ReturnedOnce w)
    (hs : Recorded.Acts (Calls getKeyOffset) w w') : ReturnedOnce w' := by
  obtain ⟨hcall⟩ := hs
  have hgrown := (ensures_run h.invariant).of_ok hcall
  refine ⟨hgrown.invariant, ?_, ?_⟩
  · rw [returnedKeys_record]
    refine h.nodup.append (nodup_returned _) fun key hold hnew => ?_
    have hlt := h.deposited key hold
    have hge := (bounds_of_mem_returned hnew).1
    omega
  · intro key hkey
    rw [returnedKeys_record, List.mem_append] at hkey
    rcases hkey with hold | hnew
    · exact Nat.lt_of_lt_of_le (h.deposited key hold) (hgrown.deposited_le key.1)
    · exact (bounds_of_mem_returned hnew).2

theorem returnedOnce_of_log (h : LogRun getKeyOffset w) : ReturnedOnce w := by
  refine h.invariant (fun w hinit => ?_) fun _ _ hw hs => hw.step hs
  refine ⟨invariant_of_initial hinit.1, ?_, ?_⟩
  · rw [hinit.2]
    exact List.nodup_nil
  · rw [hinit.2]
    exact fun key hkey => absurd hkey List.not_mem_nil

/-! ## As many keys as there are -/

theorem getStakingModuleSummary_eq (h : Invariant s) :
    s.getStakingModuleSummary
      = .ok (s.summarySigningKeysStats.get SUMMARY_EXITED_KEYS_COUNT_OFFSET,
          s.summarySigningKeysStats.get SUMMARY_DEPOSITED_KEYS_COUNT_OFFSET,
          s.sumOver depositable) := by
  have hle : s.summarySigningKeysStats.get SUMMARY_DEPOSITED_KEYS_COUNT_OFFSET
      ≤ s.summarySigningKeysStats.get SUMMARY_MAX_VALIDATORS_COUNT_OFFSET := by
    have hdeposited := h.deposited
    rw [h.max]
    exact hdeposited.le.trans (sumOver_le h.deposited_le_max)
  rw [sumOver_depositable h]
  unfold getStakingModuleSummary safeSub
  simp only
  rw [require_of hle]
  rfl

theorem length_keysOf (returned : List (Nat × Nat)) :
    (s.keysOf getKeyOffset returned).length = returned.length * PUBKEY_LENGTH := by
  induction returned with
  | nil => simp [keysOf]
  | cons key returned ih =>
    rw [keysOf, List.flatMap_cons, List.length_append, length_storedKey, List.length_cons,
      Nat.succ_mul, Nat.add_comm]
    exact congrArg (· + _) ih

theorem length_signaturesOf (returned : List (Nat × Nat)) :
    (s.signaturesOf getKeyOffset returned).length = returned.length * SIGNATURE_LENGTH := by
  induction returned with
  | nil => simp [signaturesOf]
  | cons key returned ih =>
    rw [signaturesOf, List.flatMap_cons, List.length_append, length_storedSignature,
      List.length_cons, Nat.succ_mul, Nat.add_comm]
    exact congrArg (· + _) ih

/-- What a call of `obtainDepositData` for `n` keys returns and changes. -/
structure Exact (s s' : NodeOperatorsRegistry) (getKeyOffset : Nat → Nat → BitVec 256) (n : Nat)
    (publicKeys signatures : Bytes) : Prop where
  /-- `n` keys and signatures -/
  length : (returnedBy s s' (List.range s.totalOperatorsCount)).length = n
  length_publicKeys : publicKeys.length = n * PUBKEY_LENGTH
  length_signatures : signatures.length = n * SIGNATURE_LENGTH
  /-- They are, for each operator, those from the old deposited count up to the new one. -/
  publicKeys : publicKeys
    = s.keysOf getKeyOffset (returnedBy s s' (List.range s.totalOperatorsCount))
  signatures : signatures
    = s.signaturesOf getKeyOffset (returnedBy s s' (List.range s.totalOperatorsCount))
  deposited_le : ∀ id, (s.operators id).deposited ≤ (s'.operators id).deposited
  deposited_le_max : ∀ id, (s'.operators id).deposited ≤ (s.operators id).maxValidators ∧
    (s'.operators id).deposited ≤ (s'.operators id).maxValidators
  max_le_vetted : ∀ id, (s.operators id).maxValidators ≤ (s.operators id).vetted ∧
    (s'.operators id).maxValidators ≤ (s'.operators id).vetted

theorem HandsOut.exact {n : Nat} {publicKeys signatures : Bytes} (h : Invariant s)
    (hs : HandsOut s s' getKeyOffset n publicKeys signatures) :
    Exact s s' getKeyOffset n publicKeys signatures where
  length := hs.length
  length_publicKeys := by rw [hs.publicKeys, length_keysOf, hs.length]
  length_signatures := by rw [hs.signatures, length_signaturesOf, hs.length]
  publicKeys := hs.publicKeys
  signatures := hs.signatures
  deposited_le := hs.deposited.deposited_le
  deposited_le_max id := by
    refine ⟨?_, hs.invariant.deposited_le_max id⟩
    by_cases hmem : id ∈ s.ready (List.range s.totalOperatorsCount)
    · exact hs.deposited.le_max id hmem
    · rw [hs.deposited.other id hmem]
      exact h.deposited_le_max id
  max_le_vetted id := ⟨h.max_le_vetted id, hs.invariant.max_le_vetted id⟩

/--
**Depositing keys is exact and never repeats.** The staking router can have as many keys as the
summary says may be deposited, and gets exactly the next stored keys of each operator; nobody can
have more, and over a whole run no key is returned twice.
-/
theorem deposits_exact (h : Reachable Initial (Step getKeyOffset) s) :
    (∃ exited deposited depositable,
      s.getStakingModuleSummary = .ok (exited, deposited, depositable) ∧
      (∀ (env : RegistryEnv) (n : Nat), env.canPerform env.sender .stakingRouter = true →
        n ≤ depositable → ∃ s' publicKeys signatures,
          s.obtainDepositData getKeyOffset env n = .ok (s', publicKeys, signatures) ∧
          Exact s s' getKeyOffset n publicKeys signatures) ∧
      (∀ (env : RegistryEnv) (n : Nat), depositable < n →
        ∃ r, s.obtainDepositData getKeyOffset env n = .error r)) ∧
    (∃ history, LogRun getKeyOffset ⟨s, history⟩) ∧
    ∀ history, LogRun getKeyOffset ⟨s, history⟩ → (returnedKeys history).Nodup := by
  have hinvariant := invariant_of_reachable h
  refine ⟨⟨_, _, _, getStakingModuleSummary_eq hinvariant, ?_, ?_⟩, exists_log h, ?_⟩
  · intro env n hauth hn
    obtain ⟨⟨s', publicKeys, signatures⟩, hok, hs, -⟩ :=
      (ensures_obtainDepositData hinvariant (.inl hauth) (.inl hn)).exists_ok
    exact ⟨s', publicKeys, signatures, hok, hs.exact hinvariant⟩
  · intro env n hn
    cases hcall : s.obtainDepositData getKeyOffset env n with
    | error r => exact ⟨r, rfl⟩
    | ok r =>
      have hensures : Ensures (fun _ => True) (s.obtainDepositData getKeyOffset env n) _ :=
        ensures_obtainDepositData hinvariant (.inr trivial) (.inr trivial)
      have hle := (hensures.of_ok hcall).2.2
      omega
  · intro history hlog
    exact (returnedOnce_of_log hlog).nodup

/-- Two of the three keys that are vetted are deposited. -/
def exampleLog : RegistryLog :=
  result (recordAll exampleKeyOffset
    (exampleCalls ++ [(exampleRegistryEnv, .obtainDepositData 2)])
    { state := exampleInitialRegistry, history := [] }) (by decide +kernel)

theorem log_exampleLog : LogRun exampleKeyOffset exampleLog :=
  log_of_recordAll (.init ⟨initial_exampleInitialRegistry, rfl⟩) (eq_ok_result _ (by decide +kernel))

/-- One key of each operator was deposited, and the third key can be. -/
theorem deposits_exact_third_key :
    returnedKeys exampleLog.history = [(0, 0), (1, 0)] ∧
      (returnedKeys exampleLog.history).Nodup ∧
      ∃ s' publicKeys signatures,
        exampleLog.state.obtainDepositData exampleKeyOffset exampleRegistryEnv 1
          = .ok (s', publicKeys, signatures) ∧
        Exact exampleLog.state s' exampleKeyOffset 1 publicKeys signatures := by
  have hlog := log_exampleLog
  have hreturned : returnedKeys exampleLog.history = [(0, 0), (1, 0)] := by decide +kernel
  have hleft : exampleLog.state.getStakingModuleSummary = .ok (0, 2, 1) := by decide +kernel
  generalize exampleLog = w at *
  obtain ⟨⟨exited, deposited, depositable, hsummary, hobtain, -⟩, -, hnodup⟩ :=
    deposits_exact (reachable_of_log hlog)
  rw [hleft] at hsummary
  cases hsummary
  exact ⟨hreturned, hnodup _ hlog, hobtain exampleRegistryEnv 1 rfl (Nat.le_refl 1)⟩

end NodeOperatorsRegistry

end Catalist

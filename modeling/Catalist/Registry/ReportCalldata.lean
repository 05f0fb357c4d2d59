import Catalist.Lib.CallEncoding
import Catalist.Registry.Penalty
import Catalist.Router.ExitedCounts

/-!
# Reports, read from the calldata

The two functions that take a report about many operators check the lengths of their arguments and
then read the calldata themselves: they load words at offsets that they compute from the heads, and
shift them. `updateStuckValidatorsCountFrom` and `updateExitedValidatorsCountFrom` are the functions
as they run on their calldata.

For the standard encoding of a call they do what the encoded report says: one update after the
other, for the ids and counts as they were written. The report is refused exactly if one of its
entries is not valid when its turn comes.
-/

namespace Catalist

open Solidity ByteBuffer CallEncoding Transition

namespace NodeOperatorsRegistry

/-! ## The functions on calldata -/

section calldata

variable (s : NodeOperatorsRegistry)

/-- The length of the byte string whose head is at `head`, as the compiler decodes it. -/
def argumentLength (calldata : Bytes) (head : Nat) : Nat :=
  (mload calldata (Yul.add 4 (mload calldata head).toNat)).toNat

/-- The loop over a report, as assembly reads it: `i` counts the entries that were read. -/
def reportLoopFrom
    (update : NodeOperatorsRegistry → Nat → Nat → Call RegistryError NodeOperatorsRegistry)
    (totalNodeOperatorsCount : Nat) (calldata : Bytes)
    (nodeOperatorIdsOffset validatorsCountsOffset : Nat) :
    Nat → Nat → NodeOperatorsRegistry → Call RegistryError NodeOperatorsRegistry
  | 0, _, s => return s
  | left + 1, i, s => do
    let nodeOperatorId :=
      (mload calldata (Yul.add nodeOperatorIdsOffset (Yul.mul i 8)) >>> 192).toNat
    let validatorsCount :=
      (mload calldata (Yul.add validatorsCountsOffset (Yul.mul i 16)) >>> 128).toNat
    let i := Yul.add i 1
    require (nodeOperatorId < totalNodeOperatorsCount) .outOfRange
    let s ← update s nodeOperatorId validatorsCount
    reportLoopFrom update totalNodeOperatorsCount calldata nodeOperatorIdsOffset
      validatorsCountsOffset left i s

/-- The two functions below, which differ in the update of an operator. -/
def reportFrom
    (update : NodeOperatorsRegistry → Nat → Nat → Call RegistryError NodeOperatorsRegistry)
    (env : RegistryEnv) (calldata : Bytes) : Call RegistryError NodeOperatorsRegistry := do
  auth env .stakingRouter
  let nodeOperatorsCount ←
    checkReportPayload (argumentLength calldata 4) (argumentLength calldata 36)
  let nodeOperatorIdsOffset := Yul.add (mload calldata 4).toNat 36
  let validatorsCountsOffset := Yul.add (mload calldata 36).toNat 36
  let s ← reportLoopFrom update s.totalOperatorsCount calldata nodeOperatorIdsOffset
    validatorsCountsOffset nodeOperatorsCount 0 s
  return s.increaseValidatorsKeysNonce

/-- `updateStuckValidatorsCount` -/
def updateStuckValidatorsCountFrom (env : RegistryEnv) (calldata : Bytes) :
    Call RegistryError NodeOperatorsRegistry :=
  s.reportFrom (fun s id count => s.updateStuckValidatorsCountInternal env id count) env calldata

/-- `updateExitedValidatorsCount` -/
def updateExitedValidatorsCountFrom (env : RegistryEnv) (calldata : Bytes) :
    Call RegistryError NodeOperatorsRegistry :=
  s.reportFrom (fun s id count => s.updateExitedValidatorsCountInternal env id count false) env
    calldata

end calldata

/-! ## What a report says -/

/-- The `i`-th id and the `i`-th count. -/
def reportEntry (ids counts : Bytes) (i : Nat) : Nat × Nat :=
  (natOfBytes ((ids.drop (8 * i)).take 8), natOfBytes ((counts.drop (16 * i)).take 16))

def reportEntries (ids counts : Bytes) : List (Nat × Nat) :=
  (List.range (ids.length / 8)).map (reportEntry ids counts)

/-- An update of an operator that there is. -/
def applyEntry
    (update : NodeOperatorsRegistry → Nat → Nat → Call RegistryError NodeOperatorsRegistry)
    (s : NodeOperatorsRegistry) (entry : Nat × Nat) : Call RegistryError NodeOperatorsRegistry := do
  require (entry.1 < s.totalOperatorsCount) .outOfRange
  update s entry.1 entry.2

/-- The operator can have so many stuck validators. -/
structure StuckEntry (s : NodeOperatorsRegistry) (entry : Nat × Nat) : Prop where
  exists_operator : entry.1 < s.totalOperatorsCount
  exited_add_le : (s.operators entry.1).exited + entry.2 ≤ (s.operators entry.1).deposited

/-- The operator can have so many exited validators, and had no more. -/
structure ExitedEntry (s : NodeOperatorsRegistry) (entry : Nat × Nat) : Prop where
  exists_operator : entry.1 < s.totalOperatorsCount
  exited_le : (s.operators entry.1).exited ≤ entry.2
  add_stuck_le : entry.2 + (s.operators entry.1).stuck ≤ (s.operators entry.1).deposited

theorem not_exitedEntry {s : NodeOperatorsRegistry} {id n : Nat} (h : n < (s.operators id).exited) :
    ¬ ExitedEntry s (id, n) := fun hvalid => Nat.not_le.mpr h hvalid.exited_le

/-- The storage after a transaction: that of a call that reverts is taken back. -/
def afterCall (s : NodeOperatorsRegistry) (call : Call RegistryError NodeOperatorsRegistry) :
    NodeOperatorsRegistry :=
  match call with
  | .ok s' => s'
  | .error _ => s

variable {s s' : NodeOperatorsRegistry} {env : RegistryEnv} {ids counts : Bytes}
  {selector : BitVec 32} {id n : Nat}
  {update : NodeOperatorsRegistry → Nat → Nat → Call RegistryError NodeOperatorsRegistry}

/-! ## The words that are loaded -/

section words

variable (hfits : (encodeCall selector [ids, counts]).length < 2 ^ 256)
include hfits

theorem calldata_offset {arg : Bytes} {i : Nat} (h : [ids, counts][i]? = some arg) :
    Yul.add (mload (encodeCall selector [ids, counts]) (4 + 32 * i)).toNat 36
      = tailOffset [ids, counts] i + 36 := by
  have htail := tail_inside h selector
  rw [toNat_mload_head h hfits]
  exact Yul.add_of_lt (by omega)

theorem argumentLength_encodeCall {arg : Bytes} {i : Nat} (h : [ids, counts][i]? = some arg) :
    argumentLength (encodeCall selector [ids, counts]) (4 + 32 * i) = arg.length := by
  have htail := tail_inside h selector
  rw [argumentLength, toNat_mload_head h hfits, Yul.add_of_lt (by omega),
    toNat_mload_length h hfits]

/-- The number in the first `k` bytes of the word that is loaded for the `i`-th entry. -/
theorem calldata_entry {arg : Bytes} {j i k l : Nat} (h : [ids, counts][j]? = some arg)
    (hword : k + l = 32) (hinside : k * (i + 1) ≤ arg.length) :
    (mload (encodeCall selector [ids, counts])
        (Yul.add (tailOffset [ids, counts] j + 36) (Yul.mul i k)) >>> (8 * l)).toNat
      = natOfBytes ((arg.drop (k * i)).take k) := by
  have htail := tail_inside h selector
  rw [Nat.mul_succ] at hinside
  have hmul : Yul.mul i k = k * i := by
    rw [Nat.mul_comm k i]
    exact Yul.mul_of_lt (by rw [Nat.mul_comm i k]; omega)
  rw [hmul, Yul.add_of_lt (by omega)]
  exact toNat_field h hword hinside

theorem calldata_id {i : Nat} (hinside : 8 * (i + 1) ≤ ids.length) :
    (mload (encodeCall selector [ids, counts])
        (Yul.add (tailOffset [ids, counts] 0 + 36) (Yul.mul i 8)) >>> 192).toNat
      = (reportEntry ids counts i).1 :=
  calldata_entry (j := 0) (k := 8) (l := 24) hfits rfl rfl hinside

theorem calldata_count {i : Nat} (hinside : 16 * (i + 1) ≤ counts.length) :
    (mload (encodeCall selector [ids, counts])
        (Yul.add (tailOffset [ids, counts] 1 + 36) (Yul.mul i 16)) >>> 128).toNat
      = (reportEntry ids counts i).2 :=
  calldata_entry (j := 1) (k := 16) (l := 16) hfits rfl rfl hinside

end words

theorem argument_id {i : Nat} (hinside : 8 * (i + 1) ≤ ids.length) :
    (mload ids (i * 8) >>> 192).toNat = (reportEntry ids counts i).1 := by
  rw [Nat.mul_comm i 8]
  exact toNat_mload_shift ids (8 * i) (k := 8) (l := 24) rfl (by omega)

theorem argument_count {i : Nat} (hinside : 16 * (i + 1) ≤ counts.length) :
    (mload counts (i * 16) >>> 128).toNat = (reportEntry ids counts i).2 := by
  rw [Nat.mul_comm i 16]
  exact toNat_mload_shift counts (16 * i) (k := 16) (l := 16) rfl (by omega)

/-! ## The arguments -/

/-- Assembly reads the ids and counts that the compiler would have found. -/
theorem reportLoopFrom_eq (hfits : (encodeCall selector [ids, counts]).length < 2 ^ 256)
    {total left i : Nat} (hids : 8 * (i + left) ≤ ids.length)
    (hcounts : 16 * (i + left) ≤ counts.length) (s : NodeOperatorsRegistry) :
    reportLoopFrom update total (encodeCall selector [ids, counts])
        (tailOffset [ids, counts] 0 + 36) (tailOffset [ids, counts] 1 + 36) left i s
      = reportLoop update total ids counts left i s := by
  induction left generalizing i s with
  | zero => rfl
  | succ left ih =>
    have hsucc : Yul.add i 1 = i + 1 := by
      have htail := tail_inside (show [ids, counts][0]? = some ids from rfl) selector
      exact Yul.add_of_lt (by omega)
    have hrest : ∀ s, reportLoopFrom update total (encodeCall selector [ids, counts])
        (tailOffset [ids, counts] 0 + 36) (tailOffset [ids, counts] 1 + 36) left (i + 1) s
        = reportLoop update total ids counts left (i + 1) s :=
      fun s => ih (by omega) (by omega) s
    have hid : (mload ids (i * 8) >>> 192).toNat = (reportEntry ids counts i).1 :=
      argument_id (by omega)
    have hcount : (mload counts (i * 16) >>> 128).toNat = (reportEntry ids counts i).2 :=
      argument_count (by omega)
    have hid' := calldata_id (i := i) hfits (by omega)
    have hcount' := calldata_count (i := i) hfits (by omega)
    rw [reportLoopFrom, reportLoop]
    simp only [hid, hcount, hid', hcount', hsucc, hrest]

/-- The two functions on calldata are the functions on their arguments. -/
theorem reportFrom_eq (hfits : (encodeCall selector [ids, counts]).length < 2 ^ 256) :
    s.reportFrom update env (encodeCall selector [ids, counts]) = do
      auth env .stakingRouter
      let nodeOperatorsCount ← checkReportPayload ids.length counts.length
      let s ← reportLoop update s.totalOperatorsCount ids counts nodeOperatorsCount 0 s
      return s.increaseValidatorsKeysNonce := by
  have hids : argumentLength (encodeCall selector [ids, counts]) 4 = ids.length :=
    argumentLength_encodeCall (i := 0) hfits rfl
  have hcounts : argumentLength (encodeCall selector [ids, counts]) 36 = counts.length :=
    argumentLength_encodeCall (i := 1) hfits rfl
  have hoffset₀ : Yul.add (mload (encodeCall selector [ids, counts]) 4).toNat 36
      = tailOffset [ids, counts] 0 + 36 := calldata_offset (i := 0) hfits rfl
  have hoffset₁ : Yul.add (mload (encodeCall selector [ids, counts]) 36).toNat 36
      = tailOffset [ids, counts] 1 + 36 := calldata_offset (i := 1) hfits rfl
  unfold reportFrom
  simp only [hids, hcounts, hoffset₀, hoffset₁]
  cases hpayload : checkReportPayload ids.length counts.length with
  | error r => rfl
  | ok count =>
    simp only [checkReportPayload, bind_eq_ok, require_eq_ok, pure_eq_ok] at hpayload
    obtain ⟨_, ⟨hsame, -, -⟩, rfl⟩ := hpayload
    simp only [ok_bind]
    rw [reportLoopFrom_eq hfits (by omega) (by omega)]

theorem updateStuckValidatorsCountFrom_eq
    (hfits : (encodeCall selector [ids, counts]).length < 2 ^ 256) :
    s.updateStuckValidatorsCountFrom env (encodeCall selector [ids, counts])
      = s.updateStuckValidatorsCount env ids counts := reportFrom_eq hfits

theorem updateExitedValidatorsCountFrom_eq
    (hfits : (encodeCall selector [ids, counts]).length < 2 ^ 256) :
    s.updateExitedValidatorsCountFrom env (encodeCall selector [ids, counts])
      = s.updateExitedValidatorsCount env ids counts := reportFrom_eq hfits

/-! ## The loop -/

/-- An update of an existing operator keeps the invariant and the number of operators. -/
def UpdateKeeps
    (update : NodeOperatorsRegistry → Nat → Nat → Call RegistryError NodeOperatorsRegistry) : Prop :=
  ∀ {s s' id n}, Invariant s → id < s.totalOperatorsCount → update s id n = .ok s' →
    Invariant s' ∧ SameDeposits s s'

theorem applyEntry_of (entry : Nat × Nat) (h : entry.1 < s.totalOperatorsCount) :
    applyEntry update s entry = update s entry.1 entry.2 := by
  rw [applyEntry, require_of h, ok_bind]

theorem applyEntry_of_not (entry : Nat × Nat) (h : ¬ entry.1 < s.totalOperatorsCount) :
    applyEntry update s entry = .error (.error .outOfRange) := by
  rw [applyEntry, require, if_neg h]
  rfl

/-- The entries that are left, one after the other. -/
theorem reportLoop_eq (hupdate : UpdateKeeps update) (h : Invariant s) {left i : Nat}
    (hids : 8 * (i + left) ≤ ids.length) (hcounts : 16 * (i + left) ≤ counts.length) :
    reportLoop update s.totalOperatorsCount ids counts left i s
      = ((List.range' i left).map (reportEntry ids counts)).foldlM (applyEntry update) s := by
  induction left generalizing i s with
  | zero => rfl
  | succ left ih =>
    have hid : (mload ids (i * 8) >>> 192).toNat = (reportEntry ids counts i).1 :=
      argument_id (by omega)
    have hcount : (mload counts (i * 16) >>> 128).toNat = (reportEntry ids counts i).2 :=
      argument_count (by omega)
    rw [List.range'_succ, List.map_cons, List.foldlM_cons, reportLoop]
    simp only [hid, hcount]
    by_cases hexists : (reportEntry ids counts i).1 < s.totalOperatorsCount
    · rw [require_of hexists, ok_bind, applyEntry_of _ hexists]
      cases hfirst : update s (reportEntry ids counts i).1 (reportEntry ids counts i).2 with
      | error r => rfl
      | ok s₁ =>
        obtain ⟨h₁, hsame⟩ := hupdate h hexists hfirst
        rw [ok_bind, ok_bind, ← hsame.totalOperatorsCount]
        exact ih h₁ (by omega) (by omega)
    · rw [require, if_neg hexists, applyEntry_of_not _ hexists]
      rfl

/-! ## When an entry goes through -/

section internal

variable {allowed : Revert RegistryError → Prop} (hallowed : ∀ r, Internal r → allowed r)
include hallowed

/-- A packed counter only fails in ways that are internal. -/
theorem ensures_packed {α : Type} (x : Call PackedError α) :
    Ensures allowed (within RegistryError.packed x) fun _ => True := by
  have hany : Ensures (fun _ => True) x fun _ => True := ⟨fun _ => trivial, fun _ => trivial⟩
  refine hany.within ?_
  intro r _
  cases r with
  | panic p => exact hallowed _ trivial
  | error e => exact hallowed _ trivial

theorem ensures_summary {offset : Fin 4} {oldCount newCount : Nat} :
    Ensures allowed (s.updateSummary offset oldCount newCount) fun _ => True := by
  unfold updateSummary
  split
  · exact ensures_packed hallowed _
  · exact ensures_packed hallowed _

theorem ensures_limitsApplied :
    Ensures allowed (s.updateSummaryMaxValidatorsCount env id) fun _ => True := by
  have hlimits : Ensures allowed (s.applyNodeOperatorLimits env id) fun _ => True := by
    unfold applyNodeOperatorLimits
    simp only
    split
    · exact (ensures_packed hallowed _).bind fun _ _ => ensures_pure trivial
    · exact ensures_pure trivial
  refine hlimits.bind fun r _ => ?_
  simp only
  split
  · exact ensures_pure trivial
  · exact (ensures_summary hallowed).bind fun _ _ => ensures_pure trivial

end internal

/-- An update fails internally, or because the operator cannot have so many exited validators. -/
theorem ensures_exitedEntry (hwf : (s.operators id).WellFormed) :
    Ensures
      (fun r => Internal r ∨ ¬ ((s.operators id).exited ≤ n ∧
        n + (s.operators id).stuck ≤ (s.operators id).deposited))
      (s.updateExitedValidatorsCountInternal env id n false)
      fun _ => (s.operators id).exited ≤ n ∧
        n + (s.operators id).stuck ≤ (s.operators id).deposited := by
  have hsum := hwf.exited_add_stuck_le
  have hstuck := hwf.stuck_le_deposited
  unfold updateExitedValidatorsCountInternal
  simp only
  split
  · next heq =>
    have heq : n = (s.operators id).exited := heq
    exact ensures_pure ⟨heq.ge, heq ▸ hsum⟩
  · next hne =>
    have hne : n ≠ (s.operators id).exited := hne
    refine (ensures_require_unless ?_).bind fun _ hlt => ?_
    · intro hnot
      exact .inr fun hvalid => hnot (.inr (Nat.lt_of_le_of_ne hvalid.1 hne.symm))
    have hlt : (s.operators id).exited < n := hlt.resolve_left (by decide)
    refine (ensures_ensure hstuck).bind fun _ _ => ?_
    refine (ensures_require_unless ?_).bind fun _ hle => ?_
    · intro hnot
      exact .inr fun hvalid => hnot (Nat.le_sub_of_add_le hvalid.2)
    have hle : n ≤ (s.operators id).deposited - (s.operators id).stuck := hle
    refine (ensures_packed (fun _ => .inl) _).bind fun stats _ => ?_
    refine (ensures_summary fun _ => .inl).bind fun summary _ => ?_
    exact (ensures_limitsApplied fun _ => .inl).mono fun _ _ => ⟨hlt.le, by omega⟩

/-- An update fails internally, or because the operator cannot have so many stuck validators. -/
theorem ensures_stuckEntry (hwf : (s.operators id).WellFormed) :
    Ensures
      (fun r => Internal r ∨ ¬ (s.operators id).exited + n ≤ (s.operators id).deposited)
      (s.updateStuckValidatorsCountInternal env id n)
      fun _ => (s.operators id).exited + n ≤ (s.operators id).deposited := by
  have hsum := hwf.exited_add_stuck_le
  have hexited := hwf.exited_le_deposited
  unfold updateStuckValidatorsCountInternal
  simp only
  split
  · next heq =>
    have heq : n = (s.operators id).stuck := heq
    exact ensures_pure (heq ▸ hsum)
  · refine (ensures_ensure hexited).bind fun _ _ => ?_
    refine (ensures_require_unless ?_).bind fun _ hle => ?_
    · intro hnot
      refine .inr fun hvalid => hnot (Nat.le_sub_of_add_le ?_)
      rw [Nat.add_comm]
      exact hvalid
    have hle : n ≤ (s.operators id).deposited - (s.operators id).exited := hle
    have hend : ∀ (stats : Packed) (resolved : Prop) [Decidable resolved],
        Ensures (fun r => Internal r ∨ ¬ (s.operators id).exited + n ≤ (s.operators id).deposited)
          (s.updateStuckPenaltyEnd env stats resolved) fun _ => True := by
      intro stats resolved _
      unfold updateStuckPenaltyEnd
      split
      · exact ensures_packed (fun _ => .inl) _
      · exact ensures_pure trivial
    refine (hend _ _).bind fun stats _ => ?_
    refine (ensures_packed (fun _ => .inl) _).bind fun stats _ => ?_
    exact (ensures_limitsApplied fun _ => .inl).mono fun _ _ => by omega

theorem applyEntry_ok_iff {entry : Nat × Nat} {P : Prop} {parts : List RegistryPart}
    (hensures : Ensures (fun r => Internal r ∨ ¬ P) (update s entry.1 entry.2) fun _ => P)
    (hkeeps : entry.1 < s.totalOperatorsCount → Keeps s True parts (update s entry.1 entry.2)) :
    (∃ s', applyEntry update s entry = .ok s') ↔ entry.1 < s.totalOperatorsCount ∧ P := by
  by_cases hexists : entry.1 < s.totalOperatorsCount
  · rw [applyEntry_of entry hexists]
    constructor
    · rintro ⟨s', hs'⟩
      exact ⟨hexists, hensures.of_ok hs'⟩
    · rintro ⟨-, hP⟩
      cases hupdate : update s entry.1 entry.2 with
      | ok s' => exact ⟨s', rfl⟩
      | error r =>
        rcases hensures.of_error hupdate with hinternal | hnot
        · exact absurd hinternal ((hkeeps hexists).of_error hupdate trivial)
        · exact absurd hP hnot
  · rw [applyEntry_of_not entry hexists]
    constructor
    · rintro ⟨s', hs'⟩
      cases hs'
    · rintro ⟨hcon, -⟩
      exact absurd hcon hexists

theorem stuckEntry_iff {entry : Nat × Nat} (h : Invariant s)
    (hfits : env.timestamp + s.stuckPenaltyDelay < 2 ^ 64) :
    (∃ s', applyEntry (fun s id count => s.updateStuckValidatorsCountInternal env id count) s entry
      = .ok s') ↔ StuckEntry s entry := by
  have hle : env.timestamp + s.stuckPenaltyDelay ≤ UINT64_MAX := Nat.le_of_lt_succ hfits
  rw [applyEntry_ok_iff (ensures_stuckEntry (h.wellFormed entry.1)) fun hid =>
    keeps_updateStuckValidatorsCountInternal h hid fun _ => hle]
  exact ⟨fun hboth => ⟨hboth.1, hboth.2⟩, fun hentry => ⟨hentry.1, hentry.2⟩⟩

theorem exitedEntry_iff {entry : Nat × Nat} (h : Invariant s) :
    (∃ s', applyEntry (fun s id count => s.updateExitedValidatorsCountInternal env id count false) s
      entry = .ok s') ↔ ExitedEntry s entry := by
  rw [applyEntry_ok_iff (ensures_exitedEntry (h.wellFormed entry.1)) fun hid =>
    keeps_updateExitedValidatorsCountInternal h hid]
  exact ⟨fun hboth => ⟨hboth.1, hboth.2.1, hboth.2.2⟩,
    fun hentry => ⟨hentry.1, hentry.2, hentry.3⟩⟩

/-! ## The report as a whole -/

/--
A call does what its entries say: it applies them in order, it reverts exactly if one of them is not
valid at its turn, and then nothing has changed.
-/
structure Applies (s : NodeOperatorsRegistry)
    (update : NodeOperatorsRegistry → Nat → Nat → Call RegistryError NodeOperatorsRegistry)
    (Valid : NodeOperatorsRegistry → Nat × Nat → Prop) (entries : List (Nat × Nat))
    (call : Call RegistryError NodeOperatorsRegistry) : Prop where
  effect : call = do
    let s ← entries.foldlM (applyEntry update) s
    return s.increaseValidatorsKeysNonce
  reverts_iff : (∃ r, call = .error r) ↔
    ∃ i s' entry, entries[i]? = some entry ∧
      (entries.take i).foldlM (applyEntry update) s = .ok s' ∧ ¬ Valid s' entry
  unchanged : (∃ r, call = .error r) → s.afterCall call = s

theorem checkReportPayload_of {ε : Type}
    (hcheck : (StakingRouter.checkValidatorsByNodeOperatorReportData ids counts :
      Call (RouterError ε) Unit) = .ok ()) :
    checkReportPayload ids.length counts.length = .ok (ids.length / 8) ∧
      ids.length = 8 * (ids.length / 8) ∧ counts.length = 16 * (ids.length / 8) := by
  simp only [StakingRouter.checkValidatorsByNodeOperatorReportData, bind_eq_ok, require_eq_ok] at hcheck
  obtain ⟨_, ⟨hids, hcounts⟩, _, hsame, -⟩ := hcheck
  refine ⟨?_, by omega, by omega⟩
  rw [checkReportPayload, require_of ⟨hsame, hids, hcounts⟩]
  rfl

/-- What the two functions have in common; `Kept` is what the entries before have kept. -/
theorem applies_reportFrom {ε : Type} {Kept : NodeOperatorsRegistry → Prop}
    {Valid : NodeOperatorsRegistry → Nat × Nat → Prop} (h : Invariant s)
    (hauth : env.canPerform env.sender .stakingRouter = true)
    (hcheck : (StakingRouter.checkValidatorsByNodeOperatorReportData ids counts :
      Call (RouterError ε) Unit) = .ok ())
    (hfits : (encodeCall selector [ids, counts]).length < 2 ^ 256)
    (hupdate : UpdateKeeps update) (hkept : Kept s)
    (hsame : ∀ {s s'}, Kept s → SameDeposits s s' → Kept s')
    (hvalid : ∀ {s entry}, Invariant s → Kept s →
      ((∃ s', applyEntry update s entry = .ok s') ↔ Valid s entry)) :
    Applies s update Valid (reportEntries ids counts)
      (s.reportFrom update env (encodeCall selector [ids, counts])) := by
  obtain ⟨hpayload, hids, hcounts⟩ := checkReportPayload_of hcheck
  have heffect : s.reportFrom update env (encodeCall selector [ids, counts]) = do
      let s ← (reportEntries ids counts).foldlM (applyEntry update) s
      return s.increaseValidatorsKeysNonce := by
    rw [reportFrom_eq hfits, auth, require_of hauth, ok_bind, hpayload, ok_bind,
      reportLoop_eq hupdate h (by omega) (by omega), ← List.range_eq_range']
    rfl
  refine ⟨heffect, ?_, ?_⟩
  · have hstep : ∀ s entry, Invariant s ∧ Kept s →
        ((∃ s', applyEntry update s entry = .ok s') ↔ Valid s entry) :=
      fun s entry hs => hvalid hs.1 hs.2
    have hstays : ∀ s entry s', Invariant s ∧ Kept s → applyEntry update s entry = .ok s' →
        Invariant s' ∧ Kept s' := by
      rintro s entry s' ⟨hs, hskept⟩ hentry
      simp only [applyEntry, bind_eq_ok, require_eq_ok] at hentry
      obtain ⟨_, hid, hentry⟩ := hentry
      obtain ⟨hs', hdeposits⟩ := hupdate hs hid hentry
      exact ⟨hs', hsame hskept hdeposits⟩
    rw [← foldlM_fails_iff hstep hstays ⟨h, hkept⟩ (reportEntries ids counts), heffect]
    cases (reportEntries ids counts).foldlM (applyEntry update) s with
    | ok s' => simp [pure, Except.pure]
    | error r => exact iff_of_true ⟨r, rfl⟩ ⟨r, rfl⟩
  · rintro ⟨r, hr⟩
    rw [hr]
    rfl

theorem updateKeeps_stuck : UpdateKeeps fun s id count =>
    s.updateStuckValidatorsCountInternal env id count := by
  intro s s' id n h hid hs
  have hkeeps : Keeps s False [.ready, .penalties] (s.updateStuckValidatorsCountInternal env id n) :=
    keeps_updateStuckValidatorsCountInternal h hid False.elim
  exact ⟨(hkeeps.of_ok hs).invariant, (hkeeps.of_ok hs).toSameDeposits⟩

theorem updateKeeps_exited : UpdateKeeps fun s id count =>
    s.updateExitedValidatorsCountInternal env id count false := by
  intro s s' id n h hid hs
  have hkeeps : Keeps s False [.ready] (s.updateExitedValidatorsCountInternal env id n false) :=
    keeps_updateExitedValidatorsCountInternal h hid
  exact ⟨(hkeeps.of_ok hs).invariant, (hkeeps.of_ok hs).toSameDeposits⟩

/--
**Reports are decoded as they were encoded.** The calldata of a report that the router lets through
is applied entry by entry, and the call reverts exactly if an entry is not valid at its turn.
-/
theorem reports_decoded {ε : Type} {getKeyOffset : Nat → Nat → BitVec 256}
    (hreach : Reachable Initial (Step getKeyOffset) s)
    (hauth : env.canPerform env.sender .stakingRouter = true)
    (htime : env.timestamp + s.stuckPenaltyDelay < 2 ^ 64)
    (hcheck : (StakingRouter.checkValidatorsByNodeOperatorReportData ids counts :
      Call (RouterError ε) Unit) = .ok ())
    (hfits : (encodeCall selector [ids, counts]).length < 2 ^ 256) :
    Applies s (fun s id count => s.updateStuckValidatorsCountInternal env id count) StuckEntry
        (reportEntries ids counts)
        (s.updateStuckValidatorsCountFrom env (encodeCall selector [ids, counts])) ∧
      Applies s (fun s id count => s.updateExitedValidatorsCountInternal env id count false)
        ExitedEntry (reportEntries ids counts)
        (s.updateExitedValidatorsCountFrom env (encodeCall selector [ids, counts])) := by
  have h := invariant_of_reachable hreach
  constructor
  · refine applies_reportFrom h hauth hcheck hfits updateKeeps_stuck htime ?_
      fun hs hkept => stuckEntry_iff hs hkept
    intro s s' hkept hsame
    rw [hsame.stuckPenaltyDelay]
    exact hkept
  · exact applies_reportFrom h hauth hcheck hfits updateKeeps_exited trivial (fun _ _ => trivial)
      fun hs _ => exitedEntry_iff hs

/-- The ids and counts of two entries about the second operator: first one validator, then none. -/
def exampleIds : Bytes := bytesOfNat 8 1 ++ bytesOfNat 8 1

def exampleCounts : Bytes := bytesOfNat 16 1 ++ bytesOfNat 16 0

/-- After the first entry of a report of exited validators. -/
def exampleFirstEntry : NodeOperatorsRegistry :=
  result (((reportEntries exampleIds exampleCounts).take 1).foldlM
    (applyEntry fun s id count =>
      s.updateExitedValidatorsCountInternal exampleRegistryEnv id count false)
    exampleDepositedRegistry) (by decide +kernel)

/--
As a report of exited validators the second entry takes back the first one, and the report is
refused; as a report of stuck validators it is accepted.
-/
theorem reports_decoded_twice :
    reportEntries exampleIds exampleCounts = [(1, 1), (1, 0)] ∧
    (∃ s', exampleDepositedRegistry.updateStuckValidatorsCountFrom exampleRegistryEnv
      (encodeCall 1 [exampleIds, exampleCounts]) = .ok s') ∧
    (∃ r, exampleDepositedRegistry.updateExitedValidatorsCountFrom exampleRegistryEnv
      (encodeCall 1 [exampleIds, exampleCounts]) = .error r) := by
  have hreach : Reachable Initial (Step exampleKeyOffset) exampleDepositedRegistry :=
    reachable_runAll
      (reachable_runAll (.init initial_exampleInitialRegistry) runAll_exampleRegistry)
      (eq_ok_result _ (by decide +kernel))
  have hcheck : (StakingRouter.checkValidatorsByNodeOperatorReportData exampleIds exampleCounts :
      Call (RouterError Unit) Unit) = .ok () := rfl
  have hentries : reportEntries exampleIds exampleCounts = [(1, 1), (1, 0)] := by decide +kernel
  obtain ⟨hstuck, hexited⟩ := @reports_decoded exampleDepositedRegistry exampleRegistryEnv
    exampleIds exampleCounts 1 Unit exampleKeyOffset hreach rfl (by decide +kernel) hcheck
    (by decide +kernel)
  refine ⟨hentries, ?_, hexited.reverts_iff.mpr ?_⟩
  · rw [hstuck.effect]
    exact ⟨_, eq_ok_result _ (by decide +kernel)⟩
  · refine ⟨1, exampleFirstEntry, (1, 0), by rw [hentries]; rfl, eq_ok_result _ _, ?_⟩
    exact not_exitedEntry (by decide +kernel)

end NodeOperatorsRegistry

end Catalist

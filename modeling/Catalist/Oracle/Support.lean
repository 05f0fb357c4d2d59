import Catalist.Oracle.Effects
import Catalist.Lib.Majority
import Mathlib.Tactic.Common

/-!
# Support counters

`HashConsensus` never counts its members' reports; it keeps a counter for each report variant and
updates it whenever a report comes in or a member leaves. `WellKept` is what holds of the tables
at any time. `InSync` says that the counters are right and that a recorded consensus has its
quorum; it holds as long as the attached processor has not started on the current slot.

The lemmas here are about the contract alone. Each of them takes one change of the storage from
well-kept and synchronised tables to such tables again.
-/

namespace Catalist

open Solidity IndexTable

namespace HashConsensus

variable {c c' : HashConsensus} {r : Nat}

/-- The variant that a member stands behind for the slot. -/
def vote (r : Nat) (m : MemberState) : Option Nat :=
  if m.lastReportRefSlot = r then some m.lastReportVariantIndex else none

/-- How many members stand behind a variant for the slot. -/
def supportOf (c : HashConsensus) (r i : Nat) : Nat := Majority.votes (vote r) c.memberStates i

@[simp] theorem vote_eq_some {m : MemberState} {i : Nat} :
    vote r m = some i ↔ m.lastReportRefSlot = r ∧ m.lastReportVariantIndex = i := by
  unfold vote
  split <;> simp [*]

theorem lt_variantsLengthFor {i : Nat} :
    i < c.variantsLengthFor r ↔
      c.reportingState.lastReportRefSlot = r ∧ i < c.reportVariantsLength := by
  unfold variantsLengthFor
  split <;> simp_all

/-- The quorum is a majority, or it was never set and there is nothing to count. -/
def Majoritarian (c : HashConsensus) : Prop :=
  c.memberStates.length < 2 * c.quorum ∨
    (c.quorum = 0 ∧ c.memberStates = [] ∧ c.reportVariantsLength = 0)

/-- What the tables satisfy at any time; `r` is the current reference slot. -/
structure WellKept (c : HashConsensus) (r : Nat) : Prop where
  indexed : Indexed c.memberAddresses c.memberIndices1b
  lengths : c.memberStates.length = c.memberAddresses.length
  report_le : c.reportingState.lastReportRefSlot ≤ r
  consensus_le : c.reportingState.lastConsensusRefSlot ≤ r
  member_le : ∀ m ∈ c.memberStates, m.lastReportRefSlot ≤ r
  length_le : c.reportVariantsLength ≤ 2 ^ 64
  variant_lt : 0 < r → ∀ m ∈ c.memberStates, m.lastReportRefSlot = r →
    m.lastReportVariantIndex < c.variantsLengthFor r
  hash_ne : ∀ i < c.variantsLengthFor r, (c.reportVariants i).hash ≠ ZERO_HASH
  hash_inj : ∀ i < c.variantsLengthFor r, ∀ j < c.variantsLengthFor r,
    (c.reportVariants i).hash = (c.reportVariants j).hash → i = j
  consensus_lt : 0 < r → c.reportingState.lastConsensusRefSlot = r →
    c.reportingState.lastConsensusVariantIndex < c.variantsLengthFor r

/-- The counters are the members' reports. -/
def Counted (c : HashConsensus) (r : Nat) : Prop :=
  ∀ i < c.variantsLengthFor r, (c.reportVariants i).support = c.supportOf r i

/-- A recorded consensus has its quorum. -/
def Recorded (c : HashConsensus) (r : Nat) : Prop :=
  c.reportingState.lastConsensusRefSlot = r →
    c.quorum ≤ (c.reportVariants c.reportingState.lastConsensusVariantIndex).support

/-- A variant with a quorum is recorded. -/
def Reached (c : HashConsensus) (r : Nat) : Prop :=
  ∀ i < c.variantsLengthFor r, c.quorum ≤ (c.reportVariants i).support →
    c.reportingState.lastConsensusRefSlot = r

/-- The counters are right, and so is the record of the consensus. -/
structure InSync (c : HashConsensus) (r : Nat) : Prop where
  counted : Counted c r
  recorded : Recorded c r

/-- No member has reported yet. -/
structure Early (c : HashConsensus) : Prop where
  report : c.reportingState.lastReportRefSlot = 0
  consensus : c.reportingState.lastConsensusRefSlot = 0
  member : ∀ m ∈ c.memberStates, m.lastReportRefSlot = 0
  length : c.reportVariantsLength = 0

/-! ## Slots without reports -/

/-- For a slot that no report has come in for, there is nothing to be wrong about. -/
theorem variantsLengthFor_of_lt (h : c.reportingState.lastReportRefSlot < r) :
    c.variantsLengthFor r = 0 := by
  unfold variantsLengthFor
  rw [if_pos h.ne]

theorem inSync_of_lt (hreport : c.reportingState.lastReportRefSlot < r)
    (hconsensus : c.reportingState.lastConsensusRefSlot < r) : InSync c r where
  counted i hi := by
    rw [variantsLengthFor_of_lt hreport] at hi
    omega
  recorded heq := absurd heq hconsensus.ne

theorem reached_of_lt (hreport : c.reportingState.lastReportRefSlot < r) : Reached c r := by
  intro i hi
  rw [variantsLengthFor_of_lt hreport] at hi
  omega

theorem Early.inSync (h : Early c) (hr : 0 < r) : InSync c r :=
  inSync_of_lt (h.report ▸ hr) (h.consensus ▸ hr)

theorem Early.reached (h : Early c) (hr : 0 < r) : Reached c r := reached_of_lt (h.report ▸ hr)

/-- The tables stay well kept when a new slot begins. -/
theorem WellKept.advance (h : WellKept c r) {r' : Nat} (hr : r < r') : WellKept c r' := by
  have hlength := variantsLengthFor_of_lt (Nat.lt_of_le_of_lt h.report_le hr)
  refine ⟨h.indexed, h.lengths, h.report_le.trans hr.le, h.consensus_le.trans hr.le,
    fun m hm => (h.member_le m hm).trans hr.le, h.length_le, ?_, ?_, ?_, ?_⟩
  · intro _ m hm heq
    have := h.member_le m hm
    omega
  · intro i hi
    omega
  · intro i hi
    omega
  · intro _ heq
    have := h.consensus_le
    omega

theorem WellKept.inSync_advance (h : WellKept c r) {r' : Nat} (hr : r < r') : InSync c r' :=
  inSync_of_lt (Nat.lt_of_le_of_lt h.report_le hr) (Nat.lt_of_le_of_lt h.consensus_le hr)

/-- Before the first report any slot will do. -/
theorem WellKept.of_early (h : WellKept c r) (hearly : Early c) (r' : Nat) : WellKept c r' := by
  have hlength : c.variantsLengthFor r' = 0 := by
    unfold variantsLengthFor
    split
    · rfl
    · exact hearly.length
  refine ⟨h.indexed, h.lengths, hearly.report ▸ Nat.zero_le _, hearly.consensus ▸ Nat.zero_le _,
    fun m hm => hearly.member m hm ▸ Nat.zero_le _, h.length_le, ?_, ?_, ?_, ?_⟩
  · intro hr m hm heq
    have := hearly.member m hm
    omega
  · intro i hi
    omega
  · intro i hi
    omega
  · intro hr heq
    have := hearly.consensus
    omega

/-! ## The record of the consensus -/

theorem WellKept.withConsensus (h : WellKept c r) {refSlot i : Nat} (hle : refSlot ≤ r)
    (hi : 0 < r → refSlot = r → i < c.variantsLengthFor r) : WellKept (c.withConsensus refSlot i) r :=
  { h with consensus_le := hle, consensus_lt := hi }

theorem WellKept.withQuorum (h : WellKept c r) (quorum : Nat) : WellKept { c with quorum := quorum } r :=
  { h with }

/-- The members behind a variant are the ones that `supporters` lists. -/
theorem WellKept.vote_iff (h : WellKept c r) (hr : 0 < r) {i : Nat} (hi : i < c.variantsLengthFor r)
    {m : MemberState} (hm : m ∈ c.memberStates) :
    c.memberReport r m = (c.reportVariants i).hash ↔ vote r m = some i := by
  rw [vote_eq_some]
  unfold memberReport
  split
  · next heq =>
    constructor
    · intro hhash
      exact ⟨heq, h.hash_inj _ (h.variant_lt hr m hm heq) i hi hhash⟩
    · rintro ⟨-, rfl⟩
      rfl
  · next hne =>
    constructor
    · intro hhash
      exact absurd hhash.symm (h.hash_ne i hi)
    · rintro ⟨heq, -⟩
      exact absurd heq hne

theorem length_supporters (hlengths : c.memberStates.length = c.memberAddresses.length) (r : Nat)
    (report : Hash) :
    (c.supporters r report).length = c.memberStates.countP fun m => c.memberReport r m = report := by
  have hmap : (c.memberAddresses.zip c.memberStates).map Prod.snd = c.memberStates :=
    List.map_snd_zip hlengths.le
  unfold supporters
  rw [List.length_map, ← List.countP_eq_length_filter]
  conv_rhs => rw [← hmap, List.countP_map]
  rfl

theorem WellKept.length_supporters (h : WellKept c r) (hr : 0 < r) {i : Nat}
    (hi : i < c.variantsLengthFor r) :
    (c.supporters r (c.reportVariants i).hash).length = c.supportOf r i := by
  rw [HashConsensus.length_supporters h.lengths]
  exact List.countP_congr fun m hm => by
    simpa only [decide_eq_true_eq] using h.vote_iff hr hi hm

/-- A member is listed once. -/
theorem WellKept.nodup_supporters (h : WellKept c r) (report : Hash) :
    (c.supporters r report).Nodup := by
  have hmap : (c.memberAddresses.zip c.memberStates).map Prod.fst = c.memberAddresses :=
    List.map_fst_zip h.lengths.ge
  refine List.Nodup.sublist (List.Sublist.map Prod.fst List.filter_sublist) ?_
  rw [hmap]
  exact h.indexed.nodup

/-! ## Members -/

theorem WellKept.addMember (h : WellKept c r) {addr : Address} (hnew : c.memberIndices1b addr = 0) :
    WellKept { c with
      memberStates := c.memberStates ++ [{ lastReportRefSlot := 0, lastReportVariantIndex := 0 }]
      memberAddresses := c.memberAddresses ++ [addr]
      memberIndices1b :=
        Function.update c.memberIndices1b addr (c.memberStates.length + 1) } r := by
  have hmem : ∀ m ∈ c.memberStates ++ [{ lastReportRefSlot := 0, lastReportVariantIndex := 0 }],
      m ∈ c.memberStates ∨ m.lastReportRefSlot = 0 := by
    intro m hm
    rcases List.mem_append.mp hm with hm | hm
    · exact .inl hm
    · rw [List.mem_singleton] at hm
      exact .inr (hm ▸ rfl)
  refine { h with indexed := ?_, lengths := ?_, member_le := ?_, variant_lt := ?_ }
  · rw [h.lengths]
    exact h.indexed.push hnew
  · simp [h.lengths]
  · intro m hm
    rcases hmem m hm with hm | hm
    · exact h.member_le m hm
    · exact hm ▸ Nat.zero_le r
  · intro hr m hm heq
    rcases hmem m hm with hm | hm
    · exact h.variant_lt hr m hm heq
    · omega

/-- A new member has not reported. -/
theorem Counted.addMember (h : Counted c r) (hr : 0 < r) (addr : Address) (index1b : Address → Nat) :
    Counted { c with
      memberStates := c.memberStates ++ [{ lastReportRefSlot := 0, lastReportVariantIndex := 0 }]
      memberAddresses := c.memberAddresses ++ [addr]
      memberIndices1b := index1b } r := by
  intro i hi
  rw [h i hi]
  simp [supportOf, Majority.votes, hr.ne]

/-- The two tables of the members are as long as each other after one is taken out of both. -/
theorem lengths_withoutMember (h : c.memberStates.length = c.memberAddresses.length)
    {addr last : Address} {index : Nat} (hindex : index < c.memberAddresses.length) :
    (c.withoutMember addr last index).memberStates.length
      = (c.withoutMember addr last index).memberAddresses.length := by
  simp only [HashConsensus.withoutMember]
  rw [length_swapRemove hindex, length_swapRemove (h ▸ hindex), h]

theorem WellKept.withoutMember (h : WellKept c r) {addr last : Address} {index : Nat}
    (haddr : c.memberAddresses[index]? = some addr)
    (hlast : c.memberAddresses[c.memberAddresses.length - 1]? = some last) :
    WellKept (c.withoutMember addr last index) r := by
  have hindex := (List.getElem?_eq_some_iff.mp haddr).1
  have hmem : ∀ m ∈ swapRemove c.memberStates index, m ∈ c.memberStates := fun m hm =>
    mem_of_mem_swapRemove (h.lengths ▸ hindex) hm
  refine { h with indexed := ?_, lengths := ?_, member_le := ?_, variant_lt := ?_ }
  · exact h.indexed.swapRemove haddr hlast
  · exact lengths_withoutMember h.lengths hindex
  · exact fun m hm => h.member_le m (hmem m hm)
  · exact fun hr m hm heq => h.variant_lt hr m (hmem m hm) heq

theorem hash_withoutSupport (c : HashConsensus) (index i : Nat) :
    ((c.withoutSupport index).reportVariants i).hash = (c.reportVariants i).hash := by
  simp only [withoutSupport]
  rcases eq_or_ne i index with rfl | hi
  · simp
  · simp [hi]

theorem WellKept.withoutSupport (h : WellKept c r) (index : Nat) :
    WellKept (c.withoutSupport index) r where
  indexed := h.indexed
  lengths := h.lengths
  report_le := h.report_le
  consensus_le := h.consensus_le
  member_le := h.member_le
  length_le := h.length_le
  variant_lt := h.variant_lt
  hash_ne i hi := by
    rw [hash_withoutSupport]
    exact h.hash_ne i hi
  hash_inj i hi j hj := by
    rw [hash_withoutSupport, hash_withoutSupport]
    exact h.hash_inj i hi j hj
  consensus_lt := h.consensus_lt

/-- Removing a member that has not reported for the slot keeps the counters right. -/
theorem Counted.withoutMember (h : Counted c r) {addr last : Address} {index : Nat} {m : MemberState}
    (hm : c.memberStates[index]? = some m) (hother : m.lastReportRefSlot ≠ r) :
    Counted (c.withoutMember addr last index) r := by
  intro i hi
  have hcount := countP_swapRemove (fun m => decide (vote r m = some i)) hm
  have hvote : vote r m ≠ some i := by
    rw [Ne, vote_eq_some]
    exact fun hcon => hother hcon.1
  simp only [decide_eq_true_eq, if_neg hvote, Nat.add_zero] at hcount
  exact (h i hi).trans hcount.symm

/-- Removing a member that has reported takes its support away. -/
theorem Counted.withoutMember_withoutSupport (h : Counted c r) {addr last : Address} {index : Nat}
    {m : MemberState} (hm : c.memberStates[index]? = some m) (hsame : m.lastReportRefSlot = r) :
    Counted ((c.withoutMember addr last index).withoutSupport m.lastReportVariantIndex) r := by
  intro i hi
  have hcount := countP_swapRemove (fun m => decide (vote r m = some i)) hm
  have hold := h i hi
  simp only [decide_eq_true_eq, vote_eq_some, hsame, true_and] at hcount
  simp only [HashConsensus.withoutSupport, HashConsensus.withoutMember, supportOf,
    Majority.votes, vote_eq_some] at hcount hold ⊢
  rcases eq_or_ne i m.lastReportVariantIndex with rfl | hi'
  · simp only [Function.update_self, if_true] at hcount ⊢
    omega
  · simp only [Function.update_of_ne hi', if_neg hi'.symm] at hcount ⊢
    omega

theorem Early.addMember (h : Early c) (addr : Address) (index1b : Address → Nat) :
    Early { c with
      memberStates := c.memberStates ++ [{ lastReportRefSlot := 0, lastReportVariantIndex := 0 }]
      memberAddresses := c.memberAddresses ++ [addr]
      memberIndices1b := index1b } := by
  refine { h with member := ?_ }
  intro m hm
  rcases List.mem_append.mp hm with hm | hm
  · exact h.member m hm
  · rw [List.mem_singleton.mp hm]

theorem Early.withoutMember (h : Early c) {addr last : Address} {index : Nat}
    (hindex : index < c.memberStates.length) : Early (c.withoutMember addr last index) :=
  { h with member := fun m hm => h.member m (mem_of_mem_swapRemove hindex hm) }

/-! ## Reports -/

section report

variable {k v : Nat} {m : MemberState} {newHash : Hash}

theorem ReportCounted.reportingState (h : ReportCounted c c' r k v m newHash) :
    c'.reportingState = { c.reportingState with lastReportRefSlot := r } := by
  rw [h.tables]

theorem ReportCounted.memberStates (h : ReportCounted c c' r k v m newHash) :
    c'.memberStates
      = c.memberStates.set k { lastReportRefSlot := r, lastReportVariantIndex := v } := by
  rw [h.tables]

theorem ReportCounted.quorum (h : ReportCounted c c' r k v m newHash) : c'.quorum = c.quorum := by
  rw [h.tables]

theorem ReportCounted.variantsLengthFor (h : ReportCounted c c' r k v m newHash) :
    c'.variantsLengthFor r = max (c.variantsLengthFor r) (v + 1) := by
  rw [← h.length]
  unfold HashConsensus.variantsLengthFor
  rw [if_neg]
  simp [h.reportingState]

/-- A variant is an old one or the reported one. -/
theorem ReportCounted.cases (h : ReportCounted c c' r k v m newHash)
    (hle : v ≤ c.variantsLengthFor r) {i : Nat} (hi : i < c'.variantsLengthFor r) :
    i < c.variantsLengthFor r ∨ (i = v ∧ c.variantsLengthFor r ≤ v) := by
  rw [h.variantsLengthFor] at hi
  omega

theorem WellKept.report (hk : WellKept c r) (h : ReportCounted c c' r k v m newHash) (hv : v < 2 ^ 64)
    (hle : v ≤ c.variantsLengthFor r) (hnew : ∀ i < v, (c.reportVariants i).hash ≠ newHash)
    (hreport : newHash ≠ ZERO_HASH) : WellKept c' r := by
  have hlength := h.variantsLengthFor
  have hmem : ∀ m' ∈ c'.memberStates, m' ∈ c.memberStates ∨
      m' = { lastReportRefSlot := r, lastReportVariantIndex := v } := fun m' hm' => by
    rw [h.memberStates] at hm'
    exact List.mem_or_eq_of_mem_set hm'
  have hold : c.variantsLengthFor r ≤ 2 ^ 64 := by
    unfold HashConsensus.variantsLengthFor
    split
    · exact Nat.zero_le _
    · exact hk.length_le
  -- a variant of `c'` is one of `c` or the one that has just been counted
  refine ⟨?_, ?_, ?_, ?_, ?_, ?_, ?_, ?_, ?_, ?_⟩
  · rw [h.tables]
    exact hk.indexed
  · rw [h.tables]
    simpa using hk.lengths
  · simp [h.reportingState]
  · simpa [h.reportingState] using hk.consensus_le
  · intro m' hm'
    rcases hmem m' hm' with hm' | rfl
    · exact hk.member_le m' hm'
    · exact Nat.le_refl r
  · rw [h.length]
    omega
  · intro hr m' hm' heq
    rcases hmem m' hm' with hm' | rfl
    · have := hk.variant_lt hr m' hm' heq
      omega
    · simp only
      omega
  · intro i hi
    rcases h.cases hle hi with hi | ⟨rfl, -⟩
    · rw [h.hash_old i hi]
      exact hk.hash_ne i hi
    · rw [h.hash_self]
      exact hreport
  · intro i hi j hj heq
    rcases h.cases hle hi with hi | ⟨rfl, hge⟩
    · rcases h.cases hle hj with hj | ⟨rfl, hge⟩
      · rw [h.hash_old i hi, h.hash_old j hj] at heq
        exact hk.hash_inj i hi j hj heq
      · rw [h.hash_old i hi, h.hash_self] at heq
        exact absurd heq (hnew i (by omega))
    · rcases h.cases hle hj with hj | ⟨rfl, -⟩
      · rw [h.hash_old j hj, h.hash_self] at heq
        exact absurd heq.symm (hnew j (by omega))
      · rfl
  · intro hr heq
    rw [h.reportingState] at heq ⊢
    have := hk.consensus_lt hr heq
    simp only
    omega

/-- Counting a report keeps the counters right. -/
theorem Counted.report (hcounted : Counted c r) (hk : WellKept c r) (hr : 0 < r)
    (h : ReportCounted c c' r k v m newHash) (hm : c.memberStates[k]? = some m)
    (hle : v ≤ c.variantsLengthFor r) : Counted c' r := by
  intro i hi
  have hset : Majority.votes (vote r)
        (c.memberStates.set k { lastReportRefSlot := r, lastReportVariantIndex := v }) i
      + (if vote r m = some i then 1 else 0)
    = Majority.votes (vote r) c.memberStates i
      + (if vote r { lastReportRefSlot := r, lastReportVariantIndex := v } = some i then 1 else 0) :=
    Majority.votes_set hm i
  rw [← h.memberStates] at hset
  simp only [vote_eq_some, true_and] at hset
  rcases h.cases hle hi with hi | ⟨rfl, hge⟩
  · have hsupport := h.support i hi
    have hold := hcounted i hi
    simp only [supportOf, eq_comm (a := v)] at hset hold ⊢
    omega
  · -- nobody stood behind a variant that did not exist
    have hnone : ∀ m' ∈ c.memberStates, ¬ (m'.lastReportRefSlot = r ∧ m'.lastReportVariantIndex = i) := by
      rintro m' hm' ⟨heq, rfl⟩
      have := hk.variant_lt hr m' hm' heq
      omega
    have hzero : Majority.votes (vote r) c.memberStates i = 0 :=
      List.countP_eq_zero.mpr fun m' hm' => by
        simpa only [decide_eq_true_eq, vote_eq_some] using hnone m' hm'
    rw [if_neg (hnone m (List.mem_of_getElem? hm)), hzero, if_pos rfl] at hset
    rw [h.support_new hge, supportOf]
    omega

/--
If the member's previous variant had exactly the quorum and the new one has not reached it, no
variant has it: two majorities would share a member.
-/
theorem ReportCounted.lost (h : ReportCounted c c' r k v m newHash) (hcounted : Counted c r)
    (hmajority : c.memberStates.length < 2 * c.quorum) (hle : v ≤ c.variantsLengthFor r)
    (hm : m.lastReportRefSlot = r) (hlt : m.lastReportVariantIndex < c.variantsLengthFor r)
    (hquorum : (c.reportVariants m.lastReportVariantIndex).support = c.quorum)
    (hnew : (c'.reportVariants v).support < c'.quorum) :
    ∀ i < c'.variantsLengthFor r, (c'.reportVariants i).support < c'.quorum := by
  intro i hi
  rcases eq_or_ne i v with rfl | hiv
  · exact hnew
  · rcases h.cases hle hi with hi | ⟨rfl, -⟩
    · have hsupport := h.support i hi
      rw [if_neg hiv] at hsupport
      rw [h.quorum]
      by_contra hge
      rcases eq_or_ne m.lastReportVariantIndex i with hsame | hother
      · rw [if_pos ⟨hm, hsame⟩] at hsupport
        rw [hsame] at hquorum
        omega
      · refine hother (Majority.unique hmajority (hquorum.ge.trans (hcounted _ hlt).le) ?_)
        rw [if_neg (fun hcon => hother hcon.2)] at hsupport
        have hold := hcounted i hi
        simp only [supportOf] at hold
        omega
    · exact absurd rfl hiv

/-- If no quorum was lost and none was reached, the record of the consensus still stands. -/
theorem Recorded.report (hrecorded : Recorded c r) (hk : WellKept c r) (hr : 0 < r)
    (h : ReportCounted c c' r k v m newHash)
    (hkept : m.lastReportRefSlot = r →
      (c.reportVariants m.lastReportVariantIndex).support ≠ c.quorum) : Recorded c' r := by
  intro heq
  rw [h.reportingState] at heq
  simp only at heq
  have hold := hrecorded heq
  have hsupport := h.support _ (hk.consensus_lt hr heq)
  rw [h.reportingState, h.quorum]
  simp only
  by_cases hmember : m.lastReportRefSlot = r ∧
      m.lastReportVariantIndex = c.reportingState.lastConsensusVariantIndex
  · have hne := hkept hmember.1
    rw [hmember.2] at hne
    rw [if_pos hmember] at hsupport
    omega
  · rw [if_neg hmember] at hsupport
    omega

theorem Reached.report (hreached : Reached c r) (h : ReportCounted c c' r k v m newHash)
    (hle : v ≤ c.variantsLengthFor r) (hnew : (c'.reportVariants v).support < c'.quorum) :
    Reached c' r := by
  intro i hi hquorum
  have hiv : i ≠ v := by
    rintro rfl
    omega
  rcases h.cases hle hi with hi | ⟨rfl, -⟩
  · have hsupport := h.support i hi
    rw [if_neg hiv] at hsupport
    rw [h.quorum] at hquorum
    rw [h.reportingState]
    exact hreached i hi (by omega)
  · exact absurd rfl hiv

end report

end HashConsensus

end Catalist

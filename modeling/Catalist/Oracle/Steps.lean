import Catalist.Oracle.Support

/-!
# Steps of the consensus system

Every function of `HashConsensus` that touches members, quorum or reports first changes its
tables and then settles the consensus: it submits a supported report, drops one that lost its
quorum, or leaves the record as it is. `Resolved` is what settling guarantees; `Advances` is what
a whole call guarantees, for the contract and for the processor it is attached to. There is one
lemma for each function, and the theorems about runs are put together from them.
-/

namespace Catalist

open Solidity IndexTable HashConsensus

/-- The processor's stored report is the recorded consensus. -/
structure Agrees (c : HashConsensus) (p : BaseOracle) (r : Nat) : Prop where
  submitted : (p.consensusReport.refSlot = r ∧ p.consensusReport.hash ≠ ZERO_HASH) ↔
    c.reportingState.lastConsensusRefSlot = r
  hash : c.reportingState.lastConsensusRefSlot = r →
    p.consensusReport.hash
      = (c.reportVariants c.reportingState.lastConsensusVariantIndex).hash

/-- What `HashConsensus` cannot change about a processor. -/
structure ProcessorKept (p p' : BaseOracle) (r : Nat) : Prop where
  lastProcessingRefSlot : p'.lastProcessingRefSlot = p.lastProcessingRefSlot
  contractVersion : p'.contractVersion = p.contractVersion
  consensusContract : p'.consensusContract = p.consensusContract
  refSlot : p'.consensusReport.refSlot = p.consensusReport.refSlot ∨ p'.consensusReport.refSlot = r

/-- A submission that a quorum of different members stands behind. -/
structure Backed (e : Submission) : Prop where
  quorum_le : e.quorum ≤ e.supporters.length
  nodup : e.supporters.Nodup

namespace ConsensusSystem

variable {s s' : ConsensusSystem} {env : Env} {frame : ConsensusFrame} {r : Nat}

/-! ## Settling the consensus -/

/-- What settling the consensus for slot `r` guarantees. -/
structure Resolved (s s' : ConsensusSystem) (r : Nat) : Prop where
  self : s'.self = s.self
  consensus : ∃ refSlot i, s'.consensus = s.consensus.withConsensus refSlot i
  kept : WellKept s'.consensus r
  sync : InSync s'.consensus r
  backed : (∀ e ∈ s.submissions, Backed e) → ∀ e ∈ s'.submissions, Backed e
  agrees : Agrees s.consensus s.processor r → Agrees s'.consensus s'.processor r
  processor : ProcessorKept s.processor s'.processor r
  /-- Only a processor that accepts calls from this contract is changed. -/
  accepted : s'.processor = s.processor ∨ s.self = s.processor.consensusContract

theorem ProcessorKept.refl (p : BaseOracle) (r : Nat) : ProcessorKept p p r :=
  ⟨rfl, rfl, rfl, .inl rfl⟩

/-- Nothing is left to settle. -/
theorem resolved_self (hk : WellKept s.consensus r) (hsync : InSync s.consensus r) :
    Resolved s s r where
  self := rfl
  consensus := ⟨_, _, rfl⟩
  kept := hk
  sync := hsync
  backed := id
  agrees := id
  processor := ProcessorKept.refl _ _
  accepted := .inl rfl

/-- Submitting the report of a variant that has the quorum. -/
theorem resolved_of_consensusReached {i : Nat} {report : Hash} (hr : 0 < r) (hr64 : r < 2 ^ 64)
    (hframe : frame.refSlot = r) (hk : WellKept s.consensus r) (hcounted : Counted s.consensus r)
    (hi : i < s.consensus.variantsLengthFor r)
    (hquorum : s.consensus.quorum ≤ (s.consensus.reportVariants i).support)
    (hreport : (s.consensus.reportVariants i).hash = report)
    (h : s.consensusReached env frame report i = .ok s') :
    Resolved s s' r ∧ Reached s'.consensus r := by
  subst hframe hreport
  have hi64 : i < 2 ^ 64 := (lt_variantsLengthFor.mp hi).2.trans_le hk.length_le
  rcases consensusReached_ok_cases h with ⟨hrecorded, hsame, rfl⟩ | ⟨deadline, p, hp, rfl⟩
  · exact ⟨resolved_self hk ⟨hcounted, fun _ => hsame ▸ hquorum⟩, fun _ _ _ => hrecorded⟩
  · obtain ⟨hsender, hprocessing, hhash, rfl⟩ := BaseOracle.submitConsensusReport_ok_cases hp
    rw [Nat.mod_eq_of_lt hr64, Nat.mod_eq_of_lt hi64]
    refine ⟨⟨rfl, ⟨_, _, rfl⟩, hk.withConsensus (Nat.le_refl _) fun _ _ => hi,
      ⟨hcounted, fun _ => hquorum⟩, ?_, ?_, ?_, .inr hsender⟩, fun _ _ _ => rfl⟩
    · intro hold e he
      rcases List.mem_append.mp he with he | he
      · exact hold e he
      · rw [List.mem_singleton.mp he]
        refine ⟨?_, hk.nodup_supporters _⟩
        have hlength := hk.length_supporters hr hi
        rw [← hcounted i hi] at hlength
        exact hquorum.trans hlength.ge
    · intro _
      refine ⟨⟨fun _ => rfl, fun _ => ?_⟩, fun _ => ?_⟩ <;>
        simp [processor, submitted, HashConsensus.withConsensus, hhash]
    · refine ⟨?_, ?_, ?_, .inr ?_⟩ <;>
        simp [processor, submitted, HashConsensus.withConsensus]

/-- Dropping the record of a consensus that no variant has the quorum for. -/
theorem resolved_of_consensusNotReached (hr : 0 < r) (hframe : frame.refSlot = r)
    (hk : WellKept s.consensus r) (hcounted : Counted s.consensus r)
    (hnone : ∀ i < s.consensus.variantsLengthFor r,
      (s.consensus.reportVariants i).support < s.consensus.quorum)
    (h : s.consensusNotReached env frame = .ok s') :
    Resolved s s' r ∧ Reached s'.consensus r := by
  subst hframe
  have hreached : Reached s.consensus frame.refSlot := fun i hi hquorum =>
    absurd hquorum (Nat.not_le.mpr (hnone i hi))
  rcases consensusNotReached_ok_cases h with ⟨hne, rfl⟩ | ⟨heq, p, hp, rfl⟩
  · exact ⟨resolved_self hk ⟨hcounted, fun heq => absurd heq hne⟩, hreached⟩
  · obtain ⟨hsender, hcases⟩ := BaseOracle.discardConsensusReport_ok_cases hp
    refine ⟨⟨rfl, ⟨_, _, rfl⟩, hk.withConsensus (Nat.zero_le _) fun _ hzero => absurd hzero hr.ne,
      ⟨hcounted, fun hzero => absurd hzero hr.ne⟩, id, ?_, ?_, .inr hsender⟩,
      fun i hi hquorum => absurd hquorum (Nat.not_le.mpr (hnone i hi))⟩
    · intro hagrees
      obtain ⟨hslot, -⟩ := hagrees.submitted.mpr heq
      rcases hcases with ⟨hlt, -⟩ | ⟨-, rfl⟩
      · omega
      · refine ⟨⟨fun hsub => ?_, fun hzero => absurd hzero hr.ne⟩, fun hzero => absurd hzero hr.ne⟩
        simp [processor, HashConsensus.withConsensus] at hsub
    · rcases hcases with ⟨-, rfl⟩ | ⟨hslot, rfl⟩
      · refine ⟨?_, ?_, ?_, .inl ?_⟩ <;> simp [processor, HashConsensus.withConsensus]
      · refine ⟨?_, ?_, ?_, .inl ?_⟩ <;> simp [processor, HashConsensus.withConsensus]

/-- `_checkConsensus` settles the consensus unless the slot is being processed. -/
theorem resolved_of_checkConsensus (hfit : s.consensus.SlotsFit env.timestamp)
    (hr : s.consensus.currentRefSlot env.timestamp = r) (hk : WellKept s.consensus r)
    (hcounted : s.lastProcessingRefSlot < r → Counted s.consensus r)
    (h : s.checkConsensus env s.consensus.quorum = .ok s') :
    s.consensus.frameConfig.initialEpoch ≤ epochAt s.consensus.chain env.timestamp ∧
      ((r ≤ s.lastProcessingRefSlot ∧ s' = s) ∨
        (s.lastProcessingRefSlot < r ∧ Resolved s s' r ∧ Reached s'.consensus r)) := by
  obtain ⟨frame, hframe, hcases⟩ := checkConsensus_ok_cases hfit h
  obtain ⟨harrived, hrefSlot, hbound, -⟩ := getCurrentFrame_ok_cases hfit hframe
  obtain rfl : frame.refSlot = r := hrefSlot.trans hr
  refine ⟨harrived, ?_⟩
  rcases hcases with ⟨hle, rfl⟩ | ⟨hlt, ⟨i, hreport, hi, hquorum, h⟩ | ⟨hnone, h⟩⟩
  · exact .inl ⟨hle, rfl⟩
  · exact .inr ⟨hlt, resolved_of_consensusReached (by omega) hbound rfl hk (hcounted hlt)
      (lt_variantsLengthFor.mpr ⟨hreport, hi⟩) hquorum rfl h⟩
  · refine .inr ⟨hlt, resolved_of_consensusNotReached (by omega) rfl hk (hcounted hlt) ?_ h⟩
    intro i hi
    rw [lt_variantsLengthFor] at hi
    exact hnone hi.1 i hi.2

/-! ## The invariant -/

/-- What holds of the consensus system in every run; `now` is the current time. -/
structure Inv (s : ConsensusSystem) (now : Nat) : Prop where
  kept : WellKept s.consensus (s.consensus.currentRefSlot now)
  majoritarian : Majoritarian s.consensus
  early : epochAt s.consensus.chain now < s.consensus.frameConfig.initialEpoch → Early s.consensus
  /-- As long as the current slot is not being processed, the counters are right. -/
  sync : s.lastProcessingRefSlot < s.consensus.currentRefSlot now →
    InSync s.consensus (s.consensus.currentRefSlot now)
  backed : ∀ e ∈ s.submissions, Backed e

/-- What a call of the contract guarantees, when it starts from the invariant. -/
structure Advances (s s' : ConsensusSystem) (now : Nat) : Prop where
  inv : Inv s' now
  self : s'.self = s.self
  refSlot : s'.consensus.currentRefSlot now = s.consensus.currentRefSlot now
  reportProcessor : s'.consensus.reportProcessor = s.consensus.reportProcessor
  processor : ProcessorKept s.processor s'.processor (s.consensus.currentRefSlot now)
  accepted : s'.processor = s.processor ∨ s.self = s.processor.consensusContract
  early : epochAt s.consensus.chain now < s.consensus.frameConfig.initialEpoch →
    s'.processor = s.processor
  config : s'.consensus.chain = s.consensus.chain ∧
    s'.consensus.frameConfig = s.consensus.frameConfig
  /-- If the processor agreed with the recorded consensus before, it does so afterwards. -/
  agrees : s.lastProcessingRefSlot < s.consensus.currentRefSlot now →
    Reached s.consensus (s.consensus.currentRefSlot now) →
    Agrees s.consensus s.processor (s.consensus.currentRefSlot now) →
    Reached s'.consensus (s.consensus.currentRefSlot now) ∧
      Agrees s'.consensus s'.processor (s.consensus.currentRefSlot now)

theorem majoritarian_withQuorum {quorum : Nat}
    (h : s.consensus.memberStates.length / 2 < quorum) :
    Majoritarian (s.withQuorum quorum).consensus := by
  refine .inl ?_
  simp only [withQuorum]
  omega

/-- A change of the tables that leaves the processor and its report alone. -/
structure Prepared (s s₁ : ConsensusSystem) (now : Nat) : Prop where
  self : s₁.self = s.self
  frameConfig : s₁.consensus.frameConfig = s.consensus.frameConfig
  chain : s₁.consensus.chain = s.consensus.chain
  reportProcessor : s₁.consensus.reportProcessor = s.consensus.reportProcessor
  processor : s₁.processor = s.processor
  submissions : s₁.submissions = s.submissions
  kept : WellKept s₁.consensus (s.consensus.currentRefSlot now)
  early : epochAt s.consensus.chain now < s.consensus.frameConfig.initialEpoch →
    Early s.consensus → Early s₁.consensus
  counted : s.lastProcessingRefSlot < s.consensus.currentRefSlot now →
    Counted s₁.consensus (s.consensus.currentRefSlot now)
  agrees : Agrees s.consensus s.processor (s.consensus.currentRefSlot now) →
    Agrees s₁.consensus s.processor (s.consensus.currentRefSlot now)

theorem Prepared.currentRefSlot {s₁ : ConsensusSystem} {now : Nat} (h : Prepared s s₁ now) :
    s₁.consensus.currentRefSlot now = s.consensus.currentRefSlot now := by
  simp only [HashConsensus.currentRefSlot, h.frameConfig, h.chain]

theorem Prepared.refl {now : Nat} (hinv : Inv s now) : Prepared s s now where
  self := rfl
  frameConfig := rfl
  chain := rfl
  reportProcessor := rfl
  processor := rfl
  submissions := rfl
  kept := hinv.kept
  early _ := id
  counted hr := (hinv.sync hr).counted
  agrees := id

theorem Prepared.withQuorum {s₁ : ConsensusSystem} {now : Nat} (h : Prepared s s₁ now)
    (quorum : Nat) : Prepared s (s₁.withQuorum quorum) now :=
  { h with
    kept := h.kept.withQuorum quorum
    early := fun hyet he => { h.early hyet he with }
    agrees := fun ha => { h.agrees ha with } }

/-- Settling the consensus after the tables were changed. -/
theorem Advances.of_resolved {s₁ : ConsensusSystem} {now : Nat} (hinv : Inv s now)
    (hprep : Prepared s s₁ now) (hmajority : Majoritarian s₁.consensus)
    (harrived : s.consensus.frameConfig.initialEpoch ≤ epochAt s.consensus.chain now)
    (h : Resolved s₁ s' (s.consensus.currentRefSlot now))
    (hreached : Reached s.consensus (s.consensus.currentRefSlot now) →
      Reached s'.consensus (s.consensus.currentRefSlot now)) : Advances s s' now := by
  -- settling writes the reporting state only
  obtain ⟨refSlot, i, hconsensus⟩ := h.consensus
  have hconfig : s'.consensus.chain = s.consensus.chain ∧
      s'.consensus.frameConfig = s.consensus.frameConfig := by
    rw [hconsensus]
    exact ⟨hprep.chain, hprep.frameConfig⟩
  have hsame : s'.consensus.currentRefSlot now = s.consensus.currentRefSlot now := by
    simp only [HashConsensus.currentRefSlot, hconfig]
  refine ⟨⟨?_, ?_, ?_, ?_, ?_⟩, ?_, hsame, ?_, ?_, ?_, ?_, hconfig, ?_⟩
  · rw [hsame]
    exact h.kept
  · rw [hconsensus]
    exact hmajority
  · intro hyet
    rw [hconfig.1, hconfig.2] at hyet
    omega
  · intro _
    rw [hsame]
    exact h.sync
  · exact h.backed (hprep.submissions ▸ hinv.backed)
  · rw [h.self, hprep.self]
  · rw [hconsensus]
    exact hprep.reportProcessor
  · rw [← hprep.processor]
    exact h.processor
  · rw [← hprep.processor, ← hprep.self]
    exact h.accepted
  · intro hyet
    omega
  · intro _ hbefore hagrees
    refine ⟨hreached hbefore, h.agrees ?_⟩
    rw [hprep.processor]
    exact hprep.agrees hagrees

/-- Changing the tables when there is no consensus to settle. -/
theorem Advances.of_unsettled {now : Nat} (hinv : Inv s now) (hprep : Prepared s s' now)
    (hmajority : Majoritarian s'.consensus)
    (h : s.consensus.currentRefSlot now ≤ s.lastProcessingRefSlot ∨
      epochAt s.consensus.chain now < s.consensus.frameConfig.initialEpoch) : Advances s s' now := by
  have hsame := hprep.currentRefSlot
  have hprocessing : s'.lastProcessingRefSlot = s.lastProcessingRefSlot := by
    simp only [lastProcessingRefSlot, hprep.processor]
  refine ⟨⟨?_, hmajority, ?_, ?_, ?_⟩, hprep.self, hsame, hprep.reportProcessor, ?_,
    .inl hprep.processor, fun _ => hprep.processor, ⟨hprep.chain, hprep.frameConfig⟩, ?_⟩
  · rw [hsame]
    exact hprep.kept
  · intro hyet
    rw [hprep.chain, hprep.frameConfig] at hyet
    exact hprep.early hyet (hinv.early hyet)
  · intro hlt
    rw [hprocessing, hsame] at hlt
    rw [hsame]
    rcases h with hle | hyet
    · omega
    · exact (hprep.early hyet (hinv.early hyet)).inSync (by omega)
  · rw [hprep.submissions]
    exact hinv.backed
  · rw [hprep.processor]
    exact ProcessorKept.refl _ _
  · intro hlt _ hagrees
    rcases h with hle | hyet
    · omega
    · rw [hprep.processor]
      exact ⟨(hprep.early hyet (hinv.early hyet)).reached (by omega), hprep.agrees hagrees⟩

/-! ## One lemma for each function -/

theorem advances_of_setQuorumAndCheckConsensus {s₁ : ConsensusSystem} {quorum totalMembers : Nat}
    (hinv : Inv s env.timestamp) (hprep : Prepared s s₁ env.timestamp)
    (hfit : s.consensus.SlotsFit env.timestamp)
    (h : s₁.setQuorumAndCheckConsensus env quorum totalMembers = .ok s')
    (htotal : totalMembers = s₁.consensus.memberStates.length) :
    Advances s s' env.timestamp := by
  subst htotal
  obtain ⟨hquorum, hcases⟩ := setQuorumAndCheckConsensus_ok_cases h
  have hprep' := hprep.withQuorum quorum
  have hmajority := majoritarian_withQuorum hquorum
  have hprocessing : (s₁.withQuorum quorum).lastProcessingRefSlot = s.lastProcessingRefSlot := by
    simp only [lastProcessingRefSlot, hprep'.processor]
  rcases hcases with ⟨hyet, rfl⟩ | hcheck
  · rw [hprep.chain, hprep.frameConfig] at hyet
    exact Advances.of_unsettled hinv hprep' hmajority (.inr hyet)
  · have hfit' : (s₁.withQuorum quorum).consensus.SlotsFit env.timestamp := by
      simpa only [SlotsFit, hprep'.chain, hprep'.frameConfig] using hfit
    obtain ⟨harrived, hcases⟩ := resolved_of_checkConsensus hfit' hprep'.currentRefSlot hprep'.kept
      (fun hlt => hprep'.counted (hprocessing ▸ hlt)) hcheck
    rw [hprep'.chain, hprep'.frameConfig] at harrived
    rcases hcases with ⟨hle, rfl⟩ | ⟨-, hresolved, hreached⟩
    · rw [hprocessing] at hle
      exact Advances.of_unsettled hinv hprep' hmajority (.inl hle)
    · exact Advances.of_resolved hinv hprep' hmajority harrived hresolved fun _ => hreached

theorem advances_of_setQuorum {quorum : Nat} (hinv : Inv s env.timestamp)
    (hfit : s.consensus.SlotsFit env.timestamp) (h : s.setQuorum env quorum = .ok s') :
    Advances s s' env.timestamp :=
  advances_of_setQuorumAndCheckConsensus hinv (Prepared.refl hinv) hfit h rfl

theorem advances_of_disableConsensus (hinv : Inv s env.timestamp)
    (hfit : s.consensus.SlotsFit env.timestamp) (h : s.disableConsensus env = .ok s') :
    Advances s s' env.timestamp :=
  advances_of_setQuorumAndCheckConsensus hinv (Prepared.refl hinv) hfit h rfl

theorem advances_of_addMember {addr : Address} {quorum : Nat} (hinv : Inv s env.timestamp)
    (hfit : s.consensus.SlotsFit env.timestamp) (h : s.addMember env addr quorum = .ok s') :
    Advances s s' env.timestamp := by
  obtain ⟨hnew, h⟩ := addMember_ok_cases h
  refine advances_of_setQuorumAndCheckConsensus hinv ?_ hfit h (by simp)
  exact { Prepared.refl hinv with
    kept := hinv.kept.addMember hnew
    early := fun _ he => he.addMember _ _
    counted := fun hr => (hinv.sync hr).counted.addMember (by omega) _ _
    agrees := fun ha => { ha with } }

/-- Removing a member, with or without its support, leaves the processor's report alone. -/
theorem prepared_of_cancelMemberReport {s₁ : ConsensusSystem} {addr last : Address} {index : Nat}
    {m : MemberState} (hinv : Inv s env.timestamp) (hfit : s.consensus.SlotsFit env.timestamp)
    (haddr : s.consensus.memberAddresses[index]? = some addr)
    (hlast : s.consensus.memberAddresses[s.consensus.memberAddresses.length - 1]? = some last)
    (hm : s.consensus.memberStates[index]? = some m)
    (h : cancelMemberReport { s with consensus := s.consensus.withoutMember addr last index } env m
      = .ok s₁) : Prepared s s₁ env.timestamp := by
  have hindex := (List.getElem?_eq_some_iff.mp hm).1
  have hkept := hinv.kept.withoutMember haddr hlast
  -- a member without a vote for the current slot only leaves the tables of members
  have hprep : (s.lastProcessingRefSlot < s.consensus.currentRefSlot env.timestamp →
      m.lastReportRefSlot ≠ s.consensus.currentRefSlot env.timestamp) →
      Prepared s { s with consensus := s.consensus.withoutMember addr last index } env.timestamp :=
    fun hother => { Prepared.refl hinv with
      kept := hkept
      early := fun _ he => he.withoutMember hindex
      counted := fun hr => (hinv.sync hr).counted.withoutMember hm (hother hr)
      agrees := fun ha => { ha with } }
  rcases cancelMemberReport_ok_cases h with
    ⟨hzero, rfl⟩ | ⟨frame, hframe, ⟨hsame, -, -, rfl⟩ | ⟨hother, rfl⟩⟩
  · exact hprep fun hlt => by omega
  · obtain ⟨-, hrefSlot, -⟩ := getCurrentFrame_ok_cases hfit hframe
    have hsame : m.lastReportRefSlot = s.consensus.currentRefSlot env.timestamp :=
      hsame.trans hrefSlot
    exact { Prepared.refl hinv with
      kept := hkept.withoutSupport _
      early := fun _ he => { @Early.withoutMember _ he addr last _ hindex with }
      counted := fun hr => (hinv.sync hr).counted.withoutMember_withoutSupport hm hsame
      agrees := fun ha =>
        { submitted := ha.submitted
          hash := fun heq => (ha.hash heq).trans (hash_withoutSupport _ _ _).symm } }
  · obtain ⟨-, hrefSlot, -⟩ := getCurrentFrame_ok_cases hfit hframe
    refine hprep fun hlt => ?_
    have hrefSlot : frame.refSlot = s.consensus.currentRefSlot env.timestamp := hrefSlot
    rcases hother with hne | hle
    · rwa [← hrefSlot]
    · have hle : frame.refSlot ≤ s.lastProcessingRefSlot := hle
      omega

theorem memberStates_cancelMemberReport {m : MemberState} {s₁ : ConsensusSystem}
    (h : s.cancelMemberReport env m = .ok s₁) :
    s₁.consensus.memberStates = s.consensus.memberStates := by
  rcases cancelMemberReport_ok_cases h with
    ⟨-, rfl⟩ | ⟨frame, -, ⟨-, -, -, rfl⟩ | ⟨-, rfl⟩⟩ <;> rfl

theorem advances_of_removeMember {addr : Address} {quorum : Nat} (hinv : Inv s env.timestamp)
    (hfit : s.consensus.SlotsFit env.timestamp) (h : s.removeMember env addr quorum = .ok s') :
    Advances s s' env.timestamp := by
  obtain ⟨index, last, m, s₁, haddr, hlast, hm, hcancel, hcheck⟩ :=
    removeMember_ok_cases hinv.kept.lengths hinv.kept.indexed h
  refine advances_of_setQuorumAndCheckConsensus hinv
    (prepared_of_cancelMemberReport hinv hfit haddr hlast hm hcancel) hfit hcheck ?_
  rw [memberStates_cancelMemberReport hcancel]
  exact (length_swapRemove (List.getElem?_eq_some_iff.mp hm).1).symm

theorem advances_of_submitReport {slot version : Nat} {report : Hash} (hinv : Inv s env.timestamp)
    (hfit : s.consensus.SlotsFit env.timestamp)
    (h : s.submitReport env slot report version = .ok s') : Advances s s' env.timestamp := by
  obtain ⟨frame, hframe, rfl, hcases⟩ := submitReport_ok_cases h
  obtain ⟨harrived, hrefSlot, hbound, -⟩ := getCurrentFrame_ok_cases hfit hframe
  rcases hcases with ⟨hle, rfl⟩ | ⟨hlt, hreport, k, m, v, c', hm, hv, hvle, hnew, hprev, hcount, hcases⟩
  · -- the first report of a member for a slot that is being processed does nothing
    exact Advances.of_unsettled hinv (Prepared.refl hinv) hinv.majoritarian (.inl (hrefSlot ▸ hle))
  · have hr : 0 < frame.refSlot := by omega
    have hkept := hinv.kept
    have hsync := hinv.sync (hrefSlot ▸ hlt)
    rw [← hrefSlot] at hkept hsync
    -- the sender is a member, so the quorum has been set
    have hmajority : s.consensus.memberStates.length < 2 * s.consensus.quorum := by
      rcases hinv.majoritarian with hmajority | ⟨-, hnone, -⟩
      · exact hmajority
      · rw [hnone] at hm
        cases hm
    have hkept' := hkept.report hcount hv hvle hnew hreport
    have hcounted' := hsync.counted.report hkept hr hcount hm hvle
    have hi : v < c'.variantsLengthFor frame.refSlot := by
      rw [hcount.variantsLengthFor]
      omega
    have hprep : Prepared s { s with consensus := c' } env.timestamp := {
      self := rfl
      frameConfig := by
        simp only
        rw [hcount.tables]
      chain := by
        simp only
        rw [hcount.tables]
      reportProcessor := by
        simp only
        rw [hcount.tables]
      processor := by
        simp only [processor]
        rw [hcount.tables]
      submissions := rfl
      kept := hrefSlot ▸ hkept'
      early := fun hyet => absurd harrived (Nat.not_le.mpr hyet)
      counted := fun _ => hrefSlot ▸ hcounted'
      agrees := by
        intro ha
        rw [← hrefSlot] at ha ⊢
        refine ⟨?_, fun heq => ?_⟩
        · rw [hcount.reportingState]
          exact ha.submitted
        · rw [hcount.reportingState] at heq ⊢
          exact (ha.hash heq).trans (hcount.hash_old _ (hkept.consensus_lt hr heq)).symm }
    have hmajority' : Majoritarian c' := by
      refine .inl ?_
      rw [hcount.memberStates, hcount.quorum, List.length_set]
      exact hmajority
    have hresolved : Resolved { s with consensus := c' } s' frame.refSlot ∧
        (Reached s.consensus frame.refSlot → Reached s'.consensus frame.refSlot) := by
      -- a quorum is reached, or the member left it, or the report leaves the consensus as it is
      rcases hcases with ⟨hquorum, h⟩ | ⟨hless, ⟨hmember, hat, h⟩ | ⟨hstill, rfl⟩⟩
      · obtain ⟨hres, hreached⟩ := resolved_of_consensusReached hr hbound rfl hkept' hcounted' hi
          hquorum hcount.hash_self h
        exact ⟨hres, fun _ => hreached⟩
      · obtain ⟨hres, hreached⟩ := resolved_of_consensusNotReached hr rfl hkept' hcounted'
          (hcount.lost hsync.counted hmajority hvle hmember (hprev hmember).1 hat hless) h
        exact ⟨hres, fun _ => hreached⟩
      · exact ⟨resolved_self hkept' ⟨hcounted', hsync.recorded.report hkept hr hcount hstill⟩,
          fun hreached => hreached.report hcount hvle hless⟩
    rw [hrefSlot] at hresolved
    exact Advances.of_resolved hinv hprep hmajority' harrived hresolved.1 hresolved.2

/-- A call of the contract that concerns members, quorum or reports. -/
inductive ContractCall (env : Env) : ConsensusSystem → ConsensusSystem → Prop where
  | addMember {s s' : ConsensusSystem} {addr : Address} {quorum : Nat} :
      s.addMember env addr quorum = .ok s' → ContractCall env s s'
  | removeMember {s s' : ConsensusSystem} {addr : Address} {quorum : Nat} :
      s.removeMember env addr quorum = .ok s' → ContractCall env s s'
  | setQuorum {s s' : ConsensusSystem} {quorum : Nat} :
      s.setQuorum env quorum = .ok s' → ContractCall env s s'
  | disableConsensus {s s' : ConsensusSystem} :
      s.disableConsensus env = .ok s' → ContractCall env s s'
  | submitReport {s s' : ConsensusSystem} {slot version : Nat} {report : Hash} :
      s.submitReport env slot report version = .ok s' → ContractCall env s s'

theorem ContractCall.advances (hinv : Inv s env.timestamp)
    (hfit : s.consensus.SlotsFit env.timestamp) (h : ContractCall env s s') :
    Advances s s' env.timestamp := by
  cases h with
  | addMember h => exact advances_of_addMember hinv hfit h
  | removeMember h => exact advances_of_removeMember hinv hfit h
  | setQuorum h => exact advances_of_setQuorum hinv hfit h
  | disableConsensus h => exact advances_of_disableConsensus hinv hfit h
  | submitReport h => exact advances_of_submitReport hinv hfit h

/-! ## Frames -/

/-- A call of the contract that concerns its configuration, or a change of roles. -/
inductive ConfigCall (env : Env) : ConsensusSystem → ConsensusSystem → Prop where
  | setFrameConfig {s s' : ConsensusSystem} {epochsPerFrame fast : Nat} :
      s.setFrameConfig env epochsPerFrame fast = .ok s' → ConfigCall env s s'
  | setFastLaneLengthSlots {s s' : ConsensusSystem} {fast : Nat} :
      s.setFastLaneLengthSlots env fast = .ok s' → ConfigCall env s s'
  | updateInitialEpoch {s s' : ConsensusSystem} {initialEpoch : Nat} :
      s.updateInitialEpoch env initialEpoch = .ok s' → ConfigCall env s s'
  | setRoles {s : ConsensusSystem} (hasRole : ConsensusRole → Address → Bool) :
      ConfigCall env s { s with consensus := { s.consensus with hasRole := hasRole } }

/-- The frame configuration or the time changes, and nothing else that matters here. -/
structure Reframed (s s' : ConsensusSystem) (now now' : Nat) : Prop where
  self : s'.self = s.self
  processors : s'.processors = s.processors
  submissions : s'.submissions = s.submissions
  consensus : ∃ config hasRole,
    s'.consensus = { s.consensus with frameConfig := config, hasRole := hasRole }
  refSlot_le : s.consensus.frameConfig.initialEpoch ≤ epochAt s.consensus.chain now →
    s.consensus.currentRefSlot now ≤ s'.consensus.currentRefSlot now'
  early : epochAt s'.consensus.chain now' < s'.consensus.frameConfig.initialEpoch →
    epochAt s.consensus.chain now < s.consensus.frameConfig.initialEpoch
  /-- The initial frame may only be moved to before the processed slot. -/
  processing_le : s.lastProcessingRefSlot ≤ s.consensus.currentRefSlot now →
    s.lastProcessingRefSlot ≤ s'.consensus.currentRefSlot now'

theorem reframed_tick {now now' : Nat} (h : now ≤ now') : Reframed s s now now' where
  self := rfl
  processors := rfl
  submissions := rfl
  consensus := ⟨_, _, rfl⟩
  refSlot_le _ := refSlotAt_mono _ _ h
  early hyet := Nat.lt_of_le_of_lt (epochAt_mono _ h) hyet
  processing_le hle := hle.trans (refSlotAt_mono _ _ h)

theorem ConfigCall.reframed (h : ConfigCall env s s') :
    Reframed s s' env.timestamp env.timestamp := by
  cases h with
  | setFrameConfig h =>
    obtain ⟨harrived, rfl⟩ := setFrameConfig_ok_cases h
    refine ⟨rfl, rfl, rfl, ⟨_, _, rfl⟩, fun _ => refSlotAt_le_of_start rfl, ?_,
      fun hle => hle.trans (refSlotAt_le_of_start rfl)⟩
    intro hyet
    exact absurd (frameStartEpochAt_le harrived) (Nat.not_le.mpr hyet)
  | setFastLaneLengthSlots h =>
    obtain rfl := setFastLaneLengthSlots_ok_cases h
    exact ⟨rfl, rfl, rfl, ⟨_, _, rfl⟩, fun _ => Nat.le_refl _, id, id⟩
  | updateInitialEpoch h =>
    obtain ⟨hyet, rfl, frame, hframe, hle⟩ := updateInitialEpoch_ok_cases h
    refine ⟨rfl, rfl, rfl, ⟨_, _, rfl⟩, fun harrived => absurd harrived (Nat.not_le.mpr hyet),
      fun _ => hyet, fun _ => hle.trans (getInitialFrame_ok_le hframe env.timestamp)⟩
  | setRoles hasRole => exact ⟨rfl, rfl, rfl, ⟨_, _, rfl⟩, fun _ => Nat.le_refl _, id, id⟩

/-- The configuration changes or time passes, and `Guard` holds afterwards. -/
inductive ClockStep (Guard : HashConsensus → Nat → Prop) :
    ConsensusSystem × Nat → ConsensusSystem × Nat → Prop where
  | configure {s s' : ConsensusSystem} {env : Env} :
      ConfigCall env s s' → Guard s'.consensus env.timestamp →
      ClockStep Guard (s, env.timestamp) (s', env.timestamp)
  | tick {s : ConsensusSystem} {now now' : Nat} :
      now ≤ now' → Guard s.consensus now' → ClockStep Guard (s, now) (s, now')

namespace ClockStep

variable {Guard : HashConsensus → Nat → Prop} {x y : ConsensusSystem × Nat}

theorem reframed (h : ClockStep Guard x y) : Reframed x.1 y.1 x.2 y.2 := by
  cases h with
  | configure hcall _ => exact hcall.reframed
  | tick hle _ => exact reframed_tick hle

theorem guard (h : ClockStep Guard x y) : Guard y.1.consensus y.2 := by
  cases h with
  | configure _ hguard => exact hguard
  | tick _ hguard => exact hguard

theorem le (h : ClockStep Guard x y) : x.2 ≤ y.2 := by
  cases h with
  | configure _ _ => exact Nat.le_refl _
  | tick hle _ => exact hle

end ClockStep

/-- Either the slot stays, or a new one begins, or the initial epoch is yet to arrive. -/
theorem Reframed.cases {now now' : Nat} (h : Reframed s s' now now') :
    s'.consensus.currentRefSlot now' = s.consensus.currentRefSlot now ∨
    s.consensus.currentRefSlot now < s'.consensus.currentRefSlot now' ∨
    epochAt s.consensus.chain now < s.consensus.frameConfig.initialEpoch := by
  rcases Nat.lt_or_ge (epochAt s.consensus.chain now) s.consensus.frameConfig.initialEpoch with
    hyet | harrived
  · exact .inr (.inr hyet)
  · rcases Nat.eq_or_lt_of_le (h.refSlot_le harrived) with heq | hlt
    · exact .inl heq.symm
    · exact .inr (.inl hlt)

theorem Reframed.processor {now now' : Nat} (h : Reframed s s' now now') :
    s'.processor = s.processor := by
  obtain ⟨config, hasRole, hconsensus⟩ := h.consensus
  simp only [ConsensusSystem.processor, h.processors, hconsensus]

theorem Reframed.inv {now now' : Nat} (h : Reframed s s' now now') (hinv : Inv s now) :
    Inv s' now' := by
  have hcases := h.cases
  have hprocessor := h.processor
  obtain ⟨config, hasRole, hconsensus⟩ := h.consensus
  have hkept : ∀ {r}, WellKept s.consensus r → WellKept s'.consensus r := fun hk => by
    rw [hconsensus]
    exact { hk with }
  have hsync : ∀ {r}, InSync s.consensus r → InSync s'.consensus r := fun hs => by
    rw [hconsensus]
    exact { hs with }
  refine ⟨?_, ?_, ?_, ?_, ?_⟩
  · rcases hcases with heq | hlt | hyet
    · rw [heq]
      exact hkept hinv.kept
    · exact hkept (hinv.kept.advance hlt)
    · exact hkept (hinv.kept.of_early (hinv.early hyet) _)
  · rw [hconsensus]
    exact hinv.majoritarian
  · intro hyet
    have hearly := hinv.early (h.early hyet)
    rw [hconsensus]
    exact { hearly with }
  · intro hlt
    simp only [lastProcessingRefSlot, hprocessor] at hlt
    rcases hcases with heq | hnew | hyet
    · rw [heq] at hlt ⊢
      exact hsync (hinv.sync hlt)
    · exact hsync (hinv.kept.inSync_advance hnew)
    · exact hsync ((hinv.early hyet).inSync (by omega))
  · rw [h.submissions]
    exact hinv.backed

/-! ## Deployment -/

/-- A contract right after its constructor. -/
theorem inv_of_deploy {chain : ChainConfig} {epochsPerFrame fast : Nat}
    {admin reportProcessor : Address} {c : HashConsensus} (self : Address)
    (processors : Address → BaseOracle) (now : Nat)
    (h : HashConsensus.deploy chain epochsPerFrame fast admin reportProcessor = .ok c) :
    Inv { self := self, consensus := c, processors := processors, submissions := [] } now ∧
      Early c ∧ c.reportProcessor = reportProcessor := by
  simp only [HashConsensus.deploy, bind_eq_ok, require_eq_ok, computeEpochAtTimestamp_eq_ok] at h
  obtain ⟨_, _, _, _, _, ⟨_, rfl⟩, h⟩ := h
  have hearly : Early (initialStorage chain admin reportProcessor) :=
    ⟨rfl, rfl, by simp [initialStorage], rfl⟩
  have hkept : WellKept (initialStorage chain admin reportProcessor) 0 := by
    refine ⟨Indexed.nil, rfl, Nat.le_refl _, Nat.le_refl _, by simp [initialStorage],
      Nat.zero_le _, fun hr => absurd hr (Nat.lt_irrefl 0), ?_, ?_,
      fun hr => absurd hr (Nat.lt_irrefl 0)⟩
    · intro i hi
      simp [variantsLengthFor, initialStorage] at hi
    · intro i hi
      simp [variantsLengthFor, initialStorage] at hi
  obtain rfl := setFrameConfigInternal_ok_cases h
  have hearly' : Early { initialStorage chain admin reportProcessor with
      frameConfig :=
        { initialEpoch := epochAt chain (2 ^ 64 - 1), epochsPerFrame := epochsPerFrame,
          fastLaneLengthSlots := fast } } := { hearly with }
  refine ⟨⟨?_, .inr ⟨rfl, rfl, rfl⟩, fun _ => hearly', fun hlt => hearly'.inSync (by omega),
    by simp⟩, hearly', rfl⟩
  exact { hkept.of_early hearly _ with }

end ConsensusSystem

end Catalist

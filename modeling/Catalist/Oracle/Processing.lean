import Catalist.Oracle.NestedCalls

/-!
# The history of a report processor

A processor is told about reports by its consensus contract, and reports are processed by anyone
who has the data. The history of a run is the sequence of these events. Every slot is processed at
most once, in time, and with the data of the report that was last submitted for it.

The nested call that a call of the consensus contract makes is recovered from its effect on the
processor (`ContractCall.delivers`).
-/

namespace Catalist

open Solidity HashConsensus Transition

/-- A call that the consensus contract makes to its processor. -/
inductive Delivery where
  | submitted (hash : Hash) (refSlot deadline : Nat)
  | discarded (refSlot : Nat)
deriving DecidableEq, Repr

def Delivery.run (p : BaseOracle) (env : Env) : Delivery → Call OracleError BaseOracle
  | .submitted hash refSlot deadline => p.submitConsensusReport env hash refSlot deadline
  | .discarded refSlot => p.discardConsensusReport env refSlot

theorem Delivery.run_ok_cases {p p' : BaseOracle} {env : Env} {d : Delivery}
    (h : d.run p env = .ok p') : ∃ report, p' = { p with consensusReport := report } := by
  cases d with
  | submitted hash refSlot deadline =>
    obtain ⟨-, -, -, rfl⟩ := BaseOracle.submitConsensusReport_ok_cases h
    exact ⟨_, rfl⟩
  | discarded refSlot =>
    obtain ⟨-, ⟨-, rfl⟩ | ⟨-, rfl⟩⟩ := BaseOracle.discardConsensusReport_ok_cases h
    · exact ⟨_, rfl⟩
    · exact ⟨_, rfl⟩

/-- The processor takes calls from its consensus contract only. -/
theorem Delivery.sender_of_run {p p' : BaseOracle} {env : Env} {d : Delivery}
    (h : d.run p env = .ok p') : env.sender = p.consensusContract := by
  cases d with
  | submitted hash refSlot deadline => exact (BaseOracle.submitConsensusReport_ok_cases h).1
  | discarded refSlot => exact (BaseOracle.discardConsensusReport_ok_cases h).1

namespace ConsensusSystem

variable {s s' : ConsensusSystem} {env : Env} {frame : ConsensusFrame} {now : Nat}

/-- A call made at most one call to the processor, and this is what it did. -/
inductive Delivers (s : ConsensusSystem) (env : Env) (p : BaseOracle) : List Delivery → Prop where
  | none : p = s.processor → Delivers s env p []
  | one {d : Delivery} : d.run s.processor (s.nested env) = .ok p → Delivers s env p [d]

theorem Delivers.kept {p : BaseOracle} {ds : List Delivery} (h : Delivers s env p ds) :
    ∃ report, p = { s.processor with consensusReport := report } := by
  cases h with
  | none heq => exact ⟨s.processor.consensusReport, heq⟩
  | one hrun => exact Delivery.run_ok_cases hrun

theorem consensusReached_delivers {i : Nat} {report : Hash}
    (h : s.consensusReached env frame report i = .ok s') :
    ∃ ds, Delivers s env s'.processor ds := by
  rcases consensusReached_ok_cases h with ⟨-, -, rfl⟩ | ⟨deadline, p, hp, rfl⟩
  · exact ⟨[], .none rfl⟩
  · refine ⟨[.submitted report frame.refSlot deadline], .one ?_⟩
    rw [Delivery.run, hp]
    simp [processor, submitted, HashConsensus.withConsensus]

theorem consensusNotReached_delivers (h : s.consensusNotReached env frame = .ok s') :
    ∃ ds, Delivers s env s'.processor ds := by
  rcases consensusNotReached_ok_cases h with ⟨-, rfl⟩ | ⟨-, p, hp, rfl⟩
  · exact ⟨[], .none rfl⟩
  · refine ⟨[.discarded frame.refSlot], .one ?_⟩
    rw [Delivery.run, hp]
    simp [processor, HashConsensus.withConsensus]

/-- Only the processor and the address of the contract matter. -/
theorem Delivers.of_eq {s₁ : ConsensusSystem} {p : BaseOracle} {ds : List Delivery}
    (h : Delivers s₁ env p ds) (hself : s₁.self = s.self) (hprocessor : s₁.processor = s.processor) :
    Delivers s env p ds := by
  have hnested : s₁.nested env = s.nested env := by
    simp only [nested, hself]
  cases h with
  | none heq => exact .none (heq.trans hprocessor)
  | one hrun =>
    rw [hnested, hprocessor] at hrun
    exact .one hrun

theorem checkConsensus_delivers {quorum : Nat} (hfit : s.consensus.SlotsFit env.timestamp)
    (h : s.checkConsensus env quorum = .ok s') : ∃ ds, Delivers s env s'.processor ds := by
  obtain ⟨frame, -, ⟨-, rfl⟩ | ⟨-, ⟨i, -, -, -, hreached⟩ | ⟨-, hlost⟩⟩⟩ :=
    checkConsensus_ok_cases hfit h
  · exact ⟨[], .none rfl⟩
  · exact consensusReached_delivers hreached
  · exact consensusNotReached_delivers hlost

theorem setQuorumAndCheckConsensus_delivers {quorum totalMembers : Nat}
    (hfit : s.consensus.SlotsFit env.timestamp)
    (h : s.setQuorumAndCheckConsensus env quorum totalMembers = .ok s') :
    ∃ ds, Delivers s env s'.processor ds := by
  obtain ⟨-, ⟨-, rfl⟩ | hcheck⟩ := setQuorumAndCheckConsensus_ok_cases h
  · exact ⟨[], .none rfl⟩
  · obtain ⟨ds, hds⟩ := checkConsensus_delivers (s := s.withQuorum quorum) hfit hcheck
    exact ⟨ds, hds.of_eq rfl rfl⟩

/-- Every call of the consensus contract makes at most one call to the processor. -/
theorem ContractCall.delivers (hinv : Inv s env.timestamp)
    (hfit : s.consensus.SlotsFit env.timestamp) (h : ContractCall env s s') :
    ∃ ds, Delivers s env s'.processor ds := by
  cases h with
  | addMember h =>
    obtain ⟨-, hcheck⟩ := addMember_ok_cases h
    obtain ⟨ds, hds⟩ := setQuorumAndCheckConsensus_delivers (by exact hfit) hcheck
    exact ⟨ds, hds.of_eq rfl rfl⟩
  | removeMember h =>
    obtain ⟨index, last, m, s₁, haddr, hlast, hm, hcancel, hcheck⟩ :=
      removeMember_ok_cases hinv.kept.lengths hinv.kept.indexed h
    have hprep := prepared_of_cancelMemberReport hinv hfit haddr hlast hm hcancel
    have hfit₁ : s₁.consensus.SlotsFit env.timestamp := by
      simpa only [SlotsFit, hprep.chain, hprep.frameConfig] using hfit
    obtain ⟨ds, hds⟩ := setQuorumAndCheckConsensus_delivers hfit₁ hcheck
    exact ⟨ds, hds.of_eq hprep.self hprep.processor⟩
  | setQuorum h => exact setQuorumAndCheckConsensus_delivers hfit h
  | disableConsensus h => exact setQuorumAndCheckConsensus_delivers hfit h
  | submitReport h =>
    obtain ⟨frame, -, -, ⟨-, rfl⟩ | ⟨-, -, k, m, v, c', -, -, -, -, -, hcount, hcases⟩⟩ :=
      submitReport_ok_cases h
    · exact ⟨[], .none rfl⟩
    · have hprocessor : processor { s with consensus := c' } = s.processor := by
        simp only [processor]
        rw [hcount.tables]
      rcases hcases with ⟨-, h⟩ | ⟨-, ⟨-, -, h⟩ | ⟨-, rfl⟩⟩
      · obtain ⟨ds, hds⟩ := consensusReached_delivers h
        exact ⟨ds, hds.of_eq rfl hprocessor⟩
      · obtain ⟨ds, hds⟩ := consensusNotReached_delivers h
        exact ⟨ds, hds.of_eq rfl hprocessor⟩
      · exact ⟨[], .none hprocessor⟩

/-! ## The attached processor -/

/-- The processor knows its consensus contract, and both have the same clock. -/
structure Paired (s : ConsensusSystem) : Prop where
  contract : s.processor.contractVersion ≠ 0 → s.processor.consensusContract = s.self
  secondsPerSlot : s.processor.secondsPerSlot = s.consensus.chain.secondsPerSlot
  genesisTime : s.processor.genesisTime = s.consensus.chain.genesisTime

theorem paired_of_deployed {x : ConsensusSystem × Nat} (h : Deployed x) : Paired x.1 := by
  obtain ⟨chain, epochsPerFrame, fast, admin, reportProcessor, c, hdeploy, hconsensus, -, -, hblank,
    -⟩ := h
  have hchain : x.1.consensus.chain = chain := by
    simp only [HashConsensus.deploy, bind_eq_ok, require_eq_ok] at hdeploy
    obtain ⟨_, _, _, _, _, _, hconfig⟩ := hdeploy
    rw [hconsensus, setFrameConfigInternal_ok_cases hconfig]
    rfl
  rw [← hchain] at hblank
  refine ⟨fun hversion => ?_, ?_, ?_⟩
  · rw [hblank] at hversion
    exact absurd rfl hversion
  · rw [hblank]
    rfl
  · rw [hblank]
    rfl

/-- A call of the processor changes neither its clock nor, once it is initialized, its contract. -/
theorem Paired.withProcessor {p : BaseOracle} (h : Paired s)
    (hcontract : p.contractVersion ≠ 0 → p.consensusContract = s.self)
    (hseconds : p.secondsPerSlot = s.processor.secondsPerSlot)
    (hgenesis : p.genesisTime = s.processor.genesisTime) : Paired (s.withProcessor p) := by
  refine ⟨fun hversion => ?_, ?_, ?_⟩
  · rw [processor_withProcessor] at hversion ⊢
    exact hcontract hversion
  · rw [processor_withProcessor]
    exact hseconds.trans h.secondsPerSlot
  · rw [processor_withProcessor]
    exact hgenesis.trans h.genesisTime

theorem Paired.step {x y : ConsensusSystem × Nat} (h : Paired x.1) (ha : Agreement x.1 x.2)
    (hs : AttachedStep x y) : Paired y.1 := by
  cases hs with
  | call hcall =>
    obtain ⟨ds, hds⟩ := hcall.delivers ha.inv ha.fits
    obtain ⟨report, hprocessor⟩ := hds.kept
    have hadvances := hcall.advances ha.inv ha.fits
    refine ⟨fun hversion => ?_, ?_, ?_⟩
    · rw [hprocessor] at hversion ⊢
      exact (h.contract hversion).trans hadvances.self.symm
    · rw [hprocessor, hadvances.config.1]
      exact h.secondsPerSlot
    · rw [hprocessor, hadvances.config.1]
      exact h.genesisTime
  | clock hclock =>
    have hreframed := hclock.reframed
    have hprocessor := hreframed.processor
    obtain ⟨config, hasRole, hconsensus⟩ := hreframed.consensus
    refine ⟨fun hversion => ?_, ?_, ?_⟩
    · rw [hprocessor] at hversion ⊢
      exact (h.contract hversion).trans hreframed.self.symm
    · rw [hprocessor, hconsensus]
      exact h.secondsPerSlot
    · rw [hprocessor, hconsensus]
      exact h.genesisTime
  | setup hsetup =>
    cases hsetup with
    | initializeOracle hp =>
      obtain ⟨-, -, rfl⟩ := BaseOracle.initializeOracle_ok_cases hp
      exact h.withProcessor (fun _ => rfl) rfl rfl
    | setConsensusVersion hp =>
      obtain rfl := BaseOracle.setConsensusVersion_ok_cases hp
      exact h.withProcessor h.contract rfl rfl
  | startProcessing hp =>
    obtain ⟨-, rfl⟩ := BaseOracle.startProcessing_ok_cases hp
    exact h.withProcessor h.contract rfl rfl

theorem paired_of_reachable {x : ConsensusSystem × Nat}
    (h : Reachable Deployed AttachedStep x) : Paired x.1 := by
  induction h with
  | init hdeployed => exact paired_of_deployed hdeployed
  | step hreach hs ih => exact ih.step (agreement_of_reachable hreach) hs

/-- An initialized processor takes the reports of its consensus contract. -/
theorem receptive_of_reachable (h : Reachable Deployed AttachedStep (s, env.timestamp))
    (hversion : s.processor.contractVersion ≠ 0)
    (hstart : AtSlotStart s.consensus.chain env.timestamp)
    (htimes : s.consensus.TimesFit env.timestamp) :
    Receptive s env ∧ HashesKept s env.timestamp := by
  have hagreement : Agreement s env.timestamp := agreement_of_reachable h
  have hpaired : Paired s := paired_of_reachable h
  exact ⟨⟨hpaired.contract hversion, hagreement.report_le, hagreement.fits, htimes, hstart⟩,
    hagreement.inv.kept.hash_ne⟩

end ConsensusSystem

/-! ## Histories -/

/-- What happens to a processor. -/
inductive ProcessorEvent where
  | delivered (d : Delivery)
  /-- the processing of data with this hash and slot starts -/
  | processed (hash : Hash) (refSlot time : Nat)
deriving DecidableEq, Repr

namespace ProcessorEvent

/-- The event changes the report for a slot. -/
def concerns (refSlot : Nat) : ProcessorEvent → Bool
  | .delivered (.submitted _ r _) => r = refSlot
  | .delivered (.discarded r) => r = refSlot
  | .processed _ _ _ => false

def processedSlot : ProcessorEvent → Option Nat
  | .delivered _ => none
  | .processed _ refSlot _ => some refSlot

end ProcessorEvent

/-- The last submission or discard for a slot. -/
def lastReport (history : List ProcessorEvent) (refSlot : Nat) : Option ProcessorEvent :=
  history.reverse.find? (ProcessorEvent.concerns refSlot)

/-- The slots whose processing was started, in order. -/
def processedSlots (history : List ProcessorEvent) : List Nat :=
  history.filterMap ProcessorEvent.processedSlot

/--
The processing of a report started before its deadline, with data that has the hash which was last
submitted for the slot and not discarded since.
-/
def Timely (history : List ProcessorEvent) : Prop :=
  ∀ n hash refSlot time, history[n]? = some (.processed hash refSlot time) →
    ∃ deadline, time ≤ deadline ∧ lastReport (history.take n) refSlot
      = some (.delivered (.submitted hash refSlot deadline))

section histories

variable {history : List ProcessorEvent} {e : ProcessorEvent} {p p' : BaseOracle} {env : Env}

theorem lastReport_append_of_concerns {refSlot : Nat} (h : e.concerns refSlot = true) :
    lastReport (history ++ [e]) refSlot = some e := by
  rw [lastReport, List.reverse_append, List.reverse_singleton, List.singleton_append]
  exact List.find?_cons_of_pos h

theorem lastReport_append_of_not {refSlot : Nat} (h : e.concerns refSlot = false) :
    lastReport (history ++ [e]) refSlot = lastReport history refSlot := by
  rw [lastReport, List.reverse_append, List.reverse_singleton, List.singleton_append]
  exact List.find?_cons_of_neg (by rw [h]; decide)

theorem Timely.append (h : Timely history)
    (he : ∀ hash refSlot time, e = .processed hash refSlot time →
      ∃ deadline, time ≤ deadline ∧
        lastReport history refSlot = some (.delivered (.submitted hash refSlot deadline))) :
    Timely (history ++ [e]) := by
  intro n hash refSlot time hn
  rcases Nat.lt_trichotomy n history.length with hlt | rfl | hgt
  · rw [List.getElem?_append_left hlt] at hn
    rw [List.take_append_of_le_length hlt.le]
    exact h n hash refSlot time hn
  · rw [List.getElem?_append_right (Nat.le_refl _), Nat.sub_self] at hn
    rw [List.take_left]
    exact he hash refSlot time (Option.some.inj hn)
  · rw [List.getElem?_eq_none (by rw [List.length_append, List.length_singleton]; omega)] at hn
    cases hn

/-- The processor's storage is what its history leads to. -/
structure Remembers (p : BaseOracle) (history : List ProcessorEvent) : Prop where
  stored : p.consensusReport.hash ≠ ZERO_HASH →
    lastReport history p.consensusReport.refSlot = some (.delivered
      (.submitted p.consensusReport.hash p.consensusReport.refSlot
        p.consensusReport.processingDeadlineTime))
  processed_le : ∀ r ∈ processedSlots history, r ≤ p.lastProcessingRefSlot
  increasing : (processedSlots history).Pairwise (· < ·)
  timely : Timely history

theorem remembers_nil (hhash : p.consensusReport.hash = ZERO_HASH) : Remembers p [] where
  stored hne := absurd hhash hne
  processed_le _ hr := absurd hr List.not_mem_nil
  increasing := List.Pairwise.nil
  timely := by
    intro n hash refSlot time hn
    rw [List.getElem?_nil] at hn
    cases hn

theorem processedSlots_append_delivered (history : List ProcessorEvent) (d : Delivery) :
    processedSlots (history ++ [.delivered d]) = processedSlots history := by
  rw [processedSlots, List.filterMap_append]
  exact List.append_nil _

theorem processedSlots_append_processed (history : List ProcessorEvent) (hash : Hash)
    (refSlot time : Nat) :
    processedSlots (history ++ [.processed hash refSlot time])
      = processedSlots history ++ [refSlot] := by
  rw [processedSlots, List.filterMap_append]
  rfl

theorem Remembers.deliver {d : Delivery} (h : Remembers p history) (hrun : d.run p env = .ok p') :
    Remembers p' (history ++ [.delivered d]) := by
  have htimely : Timely (history ++ [.delivered d]) := h.timely.append nofun
  have hslots := processedSlots_append_delivered history d
  obtain ⟨report, hkept⟩ := Delivery.run_ok_cases hrun
  refine ⟨?_, ?_, ?_, htimely⟩
  · cases d with
    | submitted hash refSlot deadline =>
      obtain ⟨-, -, -, rfl⟩ := BaseOracle.submitConsensusReport_ok_cases hrun
      intro _
      exact lastReport_append_of_concerns (decide_eq_true rfl)
    | discarded refSlot =>
      obtain ⟨-, ⟨hlt, rfl⟩ | ⟨-, rfl⟩⟩ := BaseOracle.discardConsensusReport_ok_cases hrun
      · intro hne
        -- the report of an earlier slot stays
        rw [lastReport_append_of_not]
        · exact h.stored hne
        · exact decide_eq_false hlt.ne'
      · intro hne
        exact absurd rfl hne
  · rw [hslots, hkept]
    exact h.processed_le
  · rw [hslots]
    exact h.increasing

theorem Remembers.process {refSlot version prev : Nat} {hash : Hash} (h : Remembers p history)
    (hle : p.lastProcessingRefSlot ≤ p.consensusReport.refSlot)
    (hcheck : p.checkConsensusData refSlot version hash = .ok ())
    (hstart : p.startProcessing env = .ok (p', prev)) :
    Remembers p' (history ++ [.processed hash refSlot env.timestamp]) := by
  simp only [BaseOracle.checkConsensusData, bind_eq_ok, require_eq_ok] at hcheck
  obtain ⟨_, rfl, _, -, rfl⟩ := hcheck
  simp only [BaseOracle.startProcessing, bind_eq_ok, require_eq_ok, pure_eq_ok,
    Prod.mk.injEq] at hstart
  obtain ⟨_, hhash, _, htime, _, hne, rfl, rfl⟩ := hstart
  have hlt : p.lastProcessingRefSlot < p.consensusReport.refSlot := Nat.lt_of_le_of_ne hle hne
  refine ⟨fun _ => ?_, ?_, ?_, h.timely.append ?_⟩
  · rw [lastReport_append_of_not rfl]
    exact h.stored hhash
  · intro r hr
    rw [processedSlots_append_processed] at hr
    rcases List.mem_append.mp hr with hr | hr
    · exact (h.processed_le r hr).trans hle
    · exact (List.mem_singleton.mp hr).le
  · rw [processedSlots_append_processed]
    refine List.pairwise_append.mpr ⟨h.increasing, List.pairwise_singleton _ _, ?_⟩
    intro r hr r' hr'
    rw [List.mem_singleton.mp hr']
    exact (h.processed_le r hr).trans_lt hlt
  · intro hash refSlot time heq
    cases heq
    exact ⟨_, htime, h.stored hhash⟩

/-- Another processor with the same report and the same processed slot. -/
theorem Remembers.of_eq (h : Remembers p history) (hreport : p'.consensusReport = p.consensusReport)
    (hprocessing : p'.lastProcessingRefSlot = p.lastProcessingRefSlot) : Remembers p' history where
  stored := by
    rw [hreport]
    exact h.stored
  processed_le := by
    rw [hprocessing]
    exact h.processed_le
  increasing := h.increasing
  timely := h.timely

end histories

/-! ## Runs with their histories -/

/-- An attached system with the history of its processor. -/
structure RecordedSystem where
  system : ConsensusSystem
  now : Nat
  history : List ProcessorEvent

namespace RecordedSystem

open ConsensusSystem

/-- A deployed system has no history. -/
def Deployed (x : RecordedSystem) : Prop :=
  ConsensusSystem.Deployed (x.system, x.now) ∧ x.history = []

inductive Step : RecordedSystem → RecordedSystem → Prop where
  | call {s s' : ConsensusSystem} {env : Env} {history : List ProcessorEvent} {ds : List Delivery} :
      ContractCall env s s' → Delivers s env s'.processor ds →
      Step ⟨s, env.timestamp, history⟩
        ⟨s', env.timestamp, history ++ ds.map ProcessorEvent.delivered⟩
  | clock {s s' : ConsensusSystem} {now now' : Nat} {history : List ProcessorEvent} :
      ClockStep HashConsensus.SlotsFit (s, now) (s', now') → Step ⟨s, now, history⟩ ⟨s', now', history⟩
  | setup {s : ConsensusSystem} {p : BaseOracle} {now : Nat} {history : List ProcessorEvent} :
      SetupCall s p → Step ⟨s, now, history⟩ ⟨s.withProcessor p, now, history⟩
  /-- data with a hash is submitted for a slot -/
  | process {s : ConsensusSystem} {p : BaseOracle} {env : Env} {refSlot version prev : Nat}
      {hash : Hash} {history : List ProcessorEvent} :
      s.processor.checkConsensusData refSlot version hash = .ok () →
      s.processor.startProcessing env = .ok (p, prev) →
      Step ⟨s, env.timestamp, history⟩
        ⟨s.withProcessor p, env.timestamp, history ++ [.processed hash refSlot env.timestamp]⟩

variable {x y : RecordedSystem}

theorem Step.attached (h : Step x y) : AttachedStep (x.system, x.now) (y.system, y.now) := by
  cases h with
  | call hcall _ => exact .call hcall
  | clock hclock => exact .clock hclock
  | setup hsetup => exact .setup hsetup
  | process _ hstart => exact .startProcessing hstart

theorem reachable_attached (h : Reachable Deployed Step x) :
    Reachable ConsensusSystem.Deployed AttachedStep (x.system, x.now) := by
  induction h with
  | init hdeployed => exact .init hdeployed.1
  | step _ hs ih => exact ih.step hs.attached

/-- The data of the stored report is accepted. -/
theorem checkConsensusData_self (p : BaseOracle) :
    p.checkConsensusData p.consensusReport.refSlot p.consensusVersion p.consensusReport.hash
      = .ok () := by
  simp [BaseOracle.checkConsensusData]

/-- Every run has a history. -/
theorem exists_reachable {s : ConsensusSystem} {now : Nat}
    (h : Reachable ConsensusSystem.Deployed AttachedStep (s, now)) :
    ∃ history, Reachable Deployed Step ⟨s, now, history⟩ := by
  generalize hx : (s, now) = y at h
  induction h generalizing s now with
  | init hdeployed =>
    subst hx
    exact ⟨[], .init ⟨hdeployed, rfl⟩⟩
  | step hreach hs ih =>
    subst hx
    have hagreement := agreement_of_reachable hreach
    cases hs with
    | call hcall =>
      obtain ⟨history, hrun⟩ := ih rfl
      obtain ⟨ds, hds⟩ := hcall.delivers hagreement.inv hagreement.fits
      exact ⟨_, hrun.step (.call hcall hds)⟩
    | clock hclock =>
      obtain ⟨history, hrun⟩ := ih rfl
      exact ⟨_, hrun.step (.clock hclock)⟩
    | setup hsetup =>
      obtain ⟨history, hrun⟩ := ih rfl
      exact ⟨_, hrun.step (.setup hsetup)⟩
    | startProcessing hp =>
      obtain ⟨history, hrun⟩ := ih rfl
      exact ⟨_, hrun.step (.process (checkConsensusData_self _) hp)⟩

/-- What holds of every history. -/
structure Kept (x : RecordedSystem) : Prop where
  remembers : Remembers x.system.processor x.history
  /-- nothing happens to a processor before its initialization -/
  blank : x.system.processor.contractVersion = 0 → x.history = []

theorem kept_of_deployed (h : Deployed x) : Kept x := by
  obtain ⟨hdeployed, hhistory⟩ := h
  have hagreement : Agreement x.system x.now := agreement_of_deployed hdeployed
  obtain ⟨_, _, _, _, _, _, -, -, -, -, hblank, -⟩ := hdeployed
  have hversion : x.system.processor.contractVersion = 0 := by
    have hblank : x.system.processor = _ := hblank
    rw [hblank]
    rfl
  refine ⟨?_, fun _ => hhistory⟩
  rw [hhistory]
  exact remembers_nil (hagreement.blank hversion).2.1

theorem Kept.step (h : Kept x) (ha : Agreement x.system x.now) (hs : Step x y) : Kept y := by
  cases hs with
  | call hcall hds =>
    cases hds with
    | none heq =>
      rw [List.map_nil, List.append_nil]
      exact ⟨heq ▸ h.remembers, fun hversion => h.blank (heq ▸ hversion)⟩
    | one hrun =>
      refine ⟨h.remembers.deliver hrun, fun hversion => ?_⟩
      obtain ⟨report, hkept⟩ := Delivery.run_ok_cases hrun
      rw [hkept] at hversion
      -- such a processor takes no calls from the contract
      have hcontract := (ha.blank hversion).1
      have hsender := Delivery.sender_of_run hrun
      exact absurd (hsender.trans hcontract) ha.self_ne
  | clock hclock =>
    have hprocessor := hclock.reframed.processor
    refine ⟨?_, ?_⟩
    · rw [hprocessor]
      exact h.remembers
    · rw [hprocessor]
      exact h.blank
  | setup hsetup =>
    cases hsetup with
    | initializeOracle hp =>
      obtain ⟨hversion, -, rfl⟩ := BaseOracle.initializeOracle_ok_cases hp
      have hhistory := h.blank hversion
      refine ⟨?_, fun _ => hhistory⟩
      simp only at hhistory
      rw [hhistory, processor_withProcessor]
      exact remembers_nil (ha.blank hversion).2.1
    | setConsensusVersion hp =>
      obtain rfl := BaseOracle.setConsensusVersion_ok_cases hp
      refine ⟨?_, ?_⟩
      · rw [processor_withProcessor]
        exact h.remembers.of_eq rfl rfl
      · rw [processor_withProcessor]
        exact h.blank
  | process hcheck hstart =>
    refine ⟨?_, ?_⟩
    · rw [processor_withProcessor]
      exact h.remembers.process ha.processing_le hcheck hstart
    · rw [processor_withProcessor]
      intro hversion
      obtain ⟨hhash, rfl⟩ := BaseOracle.startProcessing_ok_cases hstart
      exact absurd (ha.blank hversion).2.1 hhash

theorem kept_of_reachable (h : Reachable Deployed Step x) : Kept x := by
  induction h with
  | init hdeployed => exact kept_of_deployed hdeployed
  | step hreach hs ih => exact ih.step (agreement_of_reachable (reachable_attached hreach)) hs

end RecordedSystem

end Catalist

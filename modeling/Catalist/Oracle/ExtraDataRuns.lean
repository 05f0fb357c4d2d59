import Catalist.Lib.History
import Catalist.Oracle.ExtraDataSubmission
import Catalist.Pool.Accounting

/-!
# Extra data over the runs of the accounting oracle

The main data of a report commits the oracle to the extra data of that report: to its format, its
hash and the number of its items. What the oracle has stored of this is a record of its own, beside
the consensus report. `Stage` says how the two fit together at any moment of a run: no report was
accepted yet, or the extra data of the last one is awaited, or it has been applied.
-/

namespace Catalist

open Solidity ByteBuffer Transition ExtraData

/-! ## Runs -/

/-- The contracts that the accounting oracle calls. -/
structure AccountingCallees (ρ : Type) where
  report : ReportCallees ρ
  extraData : ExtraDataCallees ρ

/-- The oracle, and the contracts that it calls. -/
structure AccountingSystem (ρ : Type) where
  oracle : AccountingOracle
  router : ρ
  pool : Pool

inductive AccountingAction where
  | submitConsensusReport (env : Env) (reportHash : Hash) (refSlot deadline : Nat)
  | discardConsensusReport (env : Env) (refSlot : Nat)
  | setConsensusContract (consensus : HashConsensus) (addr : Address)
  | setConsensusVersion (version : Nat)
  | submitReportData (env : AccountingReportEnv) (data : AccountingReportData)
      (contractVersion : Nat)
  | submitReportExtraDataEmpty (env : AccountingEnv)
  | submitReportExtraDataList (env : AccountingEnv) (items : CalldataBytes)
  /-- calls of the other contracts -/
  | others

namespace AccountingAction

/-- Extra data is applied. -/
def applies : AccountingAction → Bool
  | .submitReportExtraDataEmpty _ => true
  | .submitReportExtraDataList _ _ => true
  | _ => false

/-- The main data that is accepted. -/
def accepted : AccountingAction → Option AccountingReportData
  | .submitReportData _ data _ => some data
  | _ => none

/-- The slot of a consensus report that is submitted. -/
def submittedSlot : AccountingAction → Option Nat
  | .submitConsensusReport _ _ refSlot _ => some refSlot
  | _ => none

end AccountingAction

namespace AccountingSystem

open AccountingOracle

variable {ρ : Type} {callees : AccountingCallees ρ} {x x' : AccountingSystem ρ}
  {action : AccountingAction}

/-- An oracle right after `initialize`; nothing was reported yet. -/
def Initial (x : AccountingSystem ρ) : Prop :=
  (∃ secondsPerSlot genesisTime consensus addr version lastProcessingRefSlot,
    (BaseOracle.blank secondsPerSlot genesisTime).initializeOracle consensus addr version
      lastProcessingRefSlot = .ok x.oracle.base) ∧
  x.oracle.extraData = ⟨0, 0, false, 0, 0, 0, ZERO_HASH⟩

/-- The calls that go through. Every call may come from any sender, at any time. -/
inductive Performs (callees : AccountingCallees ρ) :
    AccountingSystem ρ → AccountingAction → AccountingSystem ρ → Prop where
  | submitConsensusReport {x : AccountingSystem ρ} {env : Env} {reportHash : Hash}
      {refSlot deadline : Nat} {base : BaseOracle} :
      x.oracle.base.submitConsensusReport env reportHash refSlot deadline = .ok base →
      Performs callees x (.submitConsensusReport env reportHash refSlot deadline)
        { x with oracle := { x.oracle with base := base } }
  | discardConsensusReport {x : AccountingSystem ρ} {env : Env} {refSlot : Nat}
      {base : BaseOracle} :
      x.oracle.base.discardConsensusReport env refSlot = .ok base →
      Performs callees x (.discardConsensusReport env refSlot)
        { x with oracle := { x.oracle with base := base } }
  | setConsensusContract {x : AccountingSystem ρ} {consensus : HashConsensus} {addr : Address}
      {base : BaseOracle} :
      x.oracle.base.setConsensusContract consensus addr x.oracle.base.lastProcessingRefSlot
        = .ok base →
      Performs callees x (.setConsensusContract consensus addr)
        { x with oracle := { x.oracle with base := base } }
  | setConsensusVersion {x : AccountingSystem ρ} {version : Nat} {base : BaseOracle} :
      x.oracle.base.setConsensusVersion version = .ok base →
      Performs callees x (.setConsensusVersion version)
        { x with oracle := { x.oracle with base := base } }
  | submitReportData {x : AccountingSystem ρ} {env : AccountingReportEnv}
      {data : AccountingReportData} {contractVersion : Nat} {oracle : AccountingOracle} {router : ρ}
      {pool : Pool} :
      x.oracle.submitReportData callees.report data contractVersion env x.router x.pool
        = .ok (oracle, router, pool) →
      Performs callees x (.submitReportData env data contractVersion) ⟨oracle, router, pool⟩
  | submitReportExtraDataEmpty {x : AccountingSystem ρ} {env : AccountingEnv}
      {oracle : AccountingOracle} {router : ρ} :
      x.oracle.submitReportExtraDataEmpty callees.extraData env x.router = .ok (oracle, router) →
      Performs callees x (.submitReportExtraDataEmpty env) ⟨oracle, router, x.pool⟩
  | submitReportExtraDataList {x : AccountingSystem ρ} {env : AccountingEnv}
      {items : CalldataBytes} {rounds : Nat} {oracle : AccountingOracle} {router : ρ} :
      x.oracle.submitReportExtraDataList callees.extraData items env rounds x.router
        = some (.ok (oracle, router)) →
      Performs callees x (.submitReportExtraDataList env items) ⟨oracle, router, x.pool⟩
  | others {x : AccountingSystem ρ} {router : ρ} {pool : Pool} :
      Performs callees x .others { x with router := router, pool := pool }

/-! ## Calls of the consensus contract -/

/--
What the calls of the consensus contract, and those that manage it, leave of the processor: a report
is only changed while the slot of the new one is not processed.
-/
structure Moved (p p' : BaseOracle) : Prop where
  lastProcessingRefSlot : p'.lastProcessingRefSlot = p.lastProcessingRefSlot
  refSlot_le : p.consensusReport.refSlot ≤ p'.consensusReport.refSlot
  report : p'.consensusReport = p.consensusReport ∨
    p.lastProcessingRefSlot < p'.consensusReport.refSlot

section moved

variable {p p' : BaseOracle} {env : Env}

theorem Moved.refl (p : BaseOracle) : Moved p p := ⟨rfl, Nat.le_refl _, .inl rfl⟩

theorem moved_submitConsensusReport {hash : Hash} {refSlot deadline : Nat}
    (h : p.submitConsensusReport env hash refSlot deadline = .ok p') :
    Moved p p' ∧ p'.consensusReport.refSlot = refSlot := by
  simp only [BaseOracle.submitConsensusReport, toUint64, bind_eq_ok, require_eq_ok,
    pure_eq_ok] at h
  obtain ⟨_, -, _, hle, _, hlt, _, -, _, -, _, ⟨_, -, rfl⟩, _, ⟨_, -, rfl⟩, rfl⟩ := h
  exact ⟨⟨rfl, hle, .inr hlt⟩, rfl⟩

/-- A report that is being processed cannot be discarded. -/
theorem moved_discardConsensusReport {refSlot : Nat}
    (h : p.discardConsensusReport env refSlot = .ok p') : Moved p p' := by
  simp only [BaseOracle.discardConsensusReport, bind_eq_ok, require_eq_ok] at h
  obtain ⟨_, -, h⟩ := h
  by_cases hearlier : refSlot < p.consensusReport.refSlot
  · rw [if_pos hearlier] at h
    cases h
  · rw [if_neg hearlier] at h
    by_cases hlater : p.consensusReport.refSlot < refSlot
    · rw [if_pos hlater] at h
      cases h
      exact .refl p
    · rw [if_neg hlater] at h
      simp only [bind_eq_ok, require_eq_ok, pure_eq_ok] at h
      obtain ⟨_, hlt, rfl⟩ := h
      have hsame : refSlot = p.consensusReport.refSlot := by omega
      subst hsame
      exact ⟨rfl, Nat.le_refl _, .inr hlt⟩

theorem moved_setConsensusContract {consensus : HashConsensus} {addr : Address} {last : Nat}
    (h : p.setConsensusContract consensus addr last = .ok p') : Moved p p' := by
  simp only [BaseOracle.setConsensusContract, bind_eq_ok, pure_eq_ok] at h
  obtain ⟨_, -, _, -, _, -, _, -, _, -, rfl⟩ := h
  exact ⟨rfl, Nat.le_refl _, .inl rfl⟩

theorem moved_setConsensusVersion {version : Nat}
    (h : p.setConsensusVersion version = .ok p') : Moved p p' := by
  obtain rfl := BaseOracle.setConsensusVersion_ok_cases h
  exact ⟨rfl, Nat.le_refl _, .inl rfl⟩

end moved

/-! ## The stages of a report -/

variable {data : AccountingReportData} {report : ConsensusReport}

/-- A moment of a run of the oracle. -/
abbrev OracleMoment (ρ : Type) : Type := Moment (AccountingSystem ρ) AccountingAction

/-- The main data was accepted, for this consensus report. -/
structure Accepts (data : AccountingReportData) (report : ConsensusReport) (m : OracleMoment ρ) :
    Prop where
  action : ∃ env version, m.action = .submitReportData env data version ∧
    report.hash = env.hashOf data
  before : m.before.oracle.base.consensusReport = report
  refSlot : report.refSlot = data.refSlot

/-- Neither main data nor extra data was accepted. -/
def Quiet (m : OracleMoment ρ) : Prop :=
  m.action.accepted = none ∧ m.action.applies = false

/-- The slots whose main data was accepted, in order. -/
def acceptedSlots (history : List (OracleMoment ρ)) : List Nat :=
  history.filterMap fun m => m.action.accepted.map AccountingReportData.refSlot

/-- The slots whose extra data was applied, in order. -/
def appliedSlots (history : List (OracleMoment ρ)) : List Nat :=
  history.filterMap fun m =>
    if m.action.applies then some m.before.oracle.extraData.refSlot else none

/-- The main data that was accepted last, and its consensus report. -/
structure Accepted (o : AccountingOracle) (data : AccountingReportData)
    (report : ConsensusReport) : Prop where
  coherent : Coherent data
  lastProcessingRefSlot : o.base.lastProcessingRefSlot = data.refSlot
  report : o.base.consensusReport.refSlot = data.refSlot → o.base.consensusReport = report

/-- How far the oracle is with the extra data. -/
inductive Stage (w : Recorded (AccountingSystem ρ) AccountingAction) : Prop where
  | fresh : w.state.oracle.extraData.refSlot = 0 →
      (w.state.oracle.base.consensusReport.hash = ZERO_HASH ∨
        0 < w.state.oracle.base.consensusReport.refSlot) →
      appliedSlots w.history = [] → Stage w
  | awaited {data : AccountingReportData} {report : ConsensusReport} :
      Accepted w.state.oracle data report → w.state.oracle.extraData = committed data →
      Since (Accepts data report) Quiet w.history →
      (∀ r ∈ appliedSlots w.history, r < data.refSlot) → Stage w
  | applied {data : AccountingReportData} {report : ConsensusReport} :
      Accepted w.state.oracle data report → w.state.oracle.extraData.refSlot = data.refSlot →
      w.state.oracle.extraData.submitted = true →
      w.state.oracle.extraData.itemsProcessed = w.state.oracle.extraData.itemsCount →
      (∀ r ∈ appliedSlots w.history, r ≤ data.refSlot) → Stage w

/-- What is kept over a run. -/
structure Kept (w : Recorded (AccountingSystem ρ) AccountingAction) : Prop where
  processing_le : w.state.oracle.base.lastProcessingRefSlot
    ≤ w.state.oracle.base.consensusReport.refSlot
  submitted_le : ∀ m ∈ w.history, ∀ r ∈ m.action.submittedSlot,
    r ≤ w.state.oracle.base.consensusReport.refSlot
  accepted_le : ∀ r ∈ acceptedSlots w.history, r ≤ w.state.oracle.base.lastProcessingRefSlot
  accepted : (acceptedSlots w.history).Pairwise (· < ·)
  applied : (appliedSlots w.history).Pairwise (· < ·)
  stage : Stage w

variable {w : Recorded (AccountingSystem ρ) AccountingAction} {history : List (OracleMoment ρ)}
  {m : OracleMoment ρ}

theorem acceptedSlots_append_none (h : m.action.accepted = none) :
    acceptedSlots (history ++ [m]) = acceptedSlots history := by
  simp [acceptedSlots, h]

theorem acceptedSlots_append_some (h : m.action.accepted = some data) :
    acceptedSlots (history ++ [m]) = acceptedSlots history ++ [data.refSlot] := by
  simp [acceptedSlots, h]

theorem appliedSlots_append_false (h : m.action.applies = false) :
    appliedSlots (history ++ [m]) = appliedSlots history := by
  simp [appliedSlots, h]

theorem appliedSlots_append_true (h : m.action.applies = true) :
    appliedSlots (history ++ [m]) = appliedSlots history ++ [m.before.oracle.extraData.refSlot] := by
  simp [appliedSlots, h]

/-- A list that increases goes on increasing with something larger. -/
theorem pairwise_append_of_lt {rs : List Nat} {r : Nat} (h : rs.Pairwise (· < ·))
    (hr : ∀ a ∈ rs, a < r) : (rs ++ [r]).Pairwise (· < ·) := by
  refine List.pairwise_append.mpr ⟨h, List.pairwise_singleton _ _, fun a ha b hb => ?_⟩
  rw [List.mem_singleton.mp hb]
  exact hr a ha

theorem kept_of_initial (h : Recorded.Starts Initial w) : Kept w := by
  obtain ⟨⟨⟨_, _, consensus, addr, version, last, hinit⟩, hextra⟩, hhistory⟩ := h
  obtain ⟨-, -, hbase⟩ := BaseOracle.initializeOracle_ok_cases hinit
  have hprocessing : w.state.oracle.base.lastProcessingRefSlot
      = w.state.oracle.base.consensusReport.refSlot := by rw [hbase]
  have hhash : w.state.oracle.base.consensusReport.hash = ZERO_HASH := by
    rw [hbase]
    rfl
  have haccepted : acceptedSlots w.history = [] := by rw [hhistory]; rfl
  have happlied : appliedSlots w.history = [] := by rw [hhistory]; rfl
  refine ⟨hprocessing.le, ?_, ?_, ?_, ?_, .fresh ?_ (.inl hhash) happlied⟩
  · rw [hhistory]
    intro m hm
    cases hm
  · rw [haccepted]
    intro r hr
    cases hr
  · rw [haccepted]
    exact List.Pairwise.nil
  · rw [happlied]
    exact List.Pairwise.nil
  · rw [hextra]

/-! ## What the steps do -/

theorem Accepted.moved {o : AccountingOracle} {base : BaseOracle} (h : Accepted o data report)
    (hmoved : Moved o.base base) : Accepted { o with base := base } data report := by
  refine ⟨h.coherent, hmoved.lastProcessingRefSlot.trans h.lastProcessingRefSlot, fun heq => ?_⟩
  rcases hmoved.report with hsame | hlt
  · exact hsame.trans (h.report (hsame ▸ heq))
  · -- a new report is for a slot that comes after the one of the data
    have hlast := h.lastProcessingRefSlot
    change base.consensusReport.refSlot = data.refSlot at heq
    omega

/-- A step by which neither main data nor extra data is accepted. -/
theorem Kept.moved (h : Kept w) {x' : AccountingSystem ρ} {base : BaseOracle}
    (hquiet : action.accepted = none ∧ action.applies = false)
    (horacle : x'.oracle = { w.state.oracle with base := base })
    (hmoved : Moved w.state.oracle.base base)
    (hsubmitted : ∀ r ∈ action.submittedSlot, r = base.consensusReport.refSlot) :
    Kept (w.record action x') := by
  obtain ⟨haccepts, happlies⟩ := hquiet
  have hle := hmoved.refSlot_le
  have hlast := hmoved.lastProcessingRefSlot
  -- nothing is added to the two lists of slots, so what is known of them stays
  have hacceptedSlots : acceptedSlots (w.record action x').history = acceptedSlots w.history :=
    acceptedSlots_append_none haccepts
  have happliedSlots : appliedSlots (w.record action x').history = appliedSlots w.history :=
    appliedSlots_append_false happlies
  have hbase : x'.oracle.base = base := by rw [horacle]
  have hextra : x'.oracle.extraData = w.state.oracle.extraData := by rw [horacle]
  refine ⟨?_, ?_, ?_, ?_, ?_, ?_⟩
  · show x'.oracle.base.lastProcessingRefSlot ≤ x'.oracle.base.consensusReport.refSlot
    rw [hbase, hlast]
    exact h.processing_le.trans hle
  · intro m hm r hr
    show r ≤ x'.oracle.base.consensusReport.refSlot
    rw [hbase]
    rcases List.mem_append.mp hm with hm | hm
    · exact (h.submitted_le m hm r hr).trans hle
    · rw [List.mem_singleton.mp hm] at hr
      exact (hsubmitted r hr).le
  · intro r hr
    show r ≤ x'.oracle.base.lastProcessingRefSlot
    rw [hbase, hlast]
    exact h.accepted_le r (hacceptedSlots ▸ hr)
  · rw [hacceptedSlots]
    exact h.accepted
  · rw [happliedSlots]
    exact h.applied
  · cases h.stage with
    | fresh hslot hreport hnone =>
      refine .fresh ?_ ?_ (happliedSlots.trans hnone)
      · show x'.oracle.extraData.refSlot = 0
        rw [hextra]
        exact hslot
      · show x'.oracle.base.consensusReport.hash = ZERO_HASH ∨
          0 < x'.oracle.base.consensusReport.refSlot
        rw [hbase]
        rcases hmoved.report with hsame | hlt
        · rw [hsame]
          exact hreport
        · exact .inr (Nat.zero_lt_of_lt hlt)
    | @awaited data report haccepted hcommitted hsince hslots =>
      have haccepted' : Accepted x'.oracle data report := by
        rw [horacle]
        exact haccepted.moved hmoved
      refine .awaited haccepted' (hextra.trans hcommitted)
        (hsince.append ⟨haccepts, happlies⟩) ?_
      rw [happliedSlots]
      exact hslots
    | @applied data report haccepted hslot hsubmitted hitems hslots =>
      have haccepted' : Accepted x'.oracle data report := by
        rw [horacle]
        exact haccepted.moved hmoved
      refine .applied haccepted' ?_ ?_ ?_ ?_
      · show x'.oracle.extraData.refSlot = data.refSlot
        rw [hextra]
        exact hslot
      · show x'.oracle.extraData.submitted = true
        rw [hextra]
        exact hsubmitted
      · show x'.oracle.extraData.itemsProcessed = x'.oracle.extraData.itemsCount
        rw [hextra]
        exact hitems
      · rw [happliedSlots]
        exact hslots

/-- Main data is accepted: its extra data is awaited from then on. -/
theorem Kept.accept (h : Kept w) {env : AccountingReportEnv} {version : Nat}
    {oracle : AccountingOracle} {router : ρ} {pool : Pool}
    (hcall : w.state.oracle.submitReportData callees.report data version env w.state.router
      w.state.pool = .ok (oracle, router, pool)) :
    Kept (w.record (.submitReportData env data version) ⟨oracle, router, pool⟩) := by
  obtain ⟨hhash, hrefSlot, -, hprev, hcoherent, rfl⟩ := submitReportData_ok_cases hcall
  have hprocessing := h.processing_le
  have hacceptedSlots : acceptedSlots (w.record (.submitReportData env data version)
      ⟨⟨{ w.state.oracle.base with lastProcessingRefSlot := data.refSlot }, committed data⟩,
        router, pool⟩).history = acceptedSlots w.history ++ [data.refSlot] :=
    acceptedSlots_append_some rfl
  have happliedSlots : appliedSlots (w.record (.submitReportData env data version)
      ⟨⟨{ w.state.oracle.base with lastProcessingRefSlot := data.refSlot }, committed data⟩,
        router, pool⟩).history = appliedSlots w.history :=
    appliedSlots_append_false rfl
  -- every slot of the past is at most the one that was processed before
  have hpast : ∀ r ∈ appliedSlots w.history, r < data.refSlot := by
    intro r hr
    cases h.stage with
    | fresh _ _ hnone =>
      rw [hnone] at hr
      cases hr
    | awaited haccepted _ _ hslots =>
      have hlt := hslots r hr
      have hlast := haccepted.lastProcessingRefSlot
      omega
    | applied haccepted _ _ _ hslots =>
      have hle := hslots r hr
      have hlast := haccepted.lastProcessingRefSlot
      omega
  refine ⟨?_, ?_, ?_, ?_, ?_, ?_⟩
  · show data.refSlot ≤ w.state.oracle.base.consensusReport.refSlot
    exact hrefSlot.ge
  · intro m hm r hr
    show r ≤ w.state.oracle.base.consensusReport.refSlot
    rcases List.mem_append.mp hm with hm | hm
    · exact h.submitted_le m hm r hr
    · rw [List.mem_singleton.mp hm] at hr
      cases hr
  · intro r hr
    show r ≤ data.refSlot
    rw [hacceptedSlots] at hr
    rcases List.mem_append.mp hr with hr | hr
    · have hle := h.accepted_le r hr
      omega
    · exact (List.mem_singleton.mp hr).le
  · rw [hacceptedSlots]
    refine pairwise_append_of_lt h.accepted fun r hr => ?_
    have hle := h.accepted_le r hr
    omega
  · rw [happliedSlots]
    exact h.applied
  · have haccepts : Accepts data w.state.oracle.base.consensusReport
        ⟨w.state, .submitReportData env data version, ⟨⟨{ w.state.oracle.base with
          lastProcessingRefSlot := data.refSlot }, committed data⟩, router, pool⟩⟩ :=
      ⟨⟨env, version, rfl, hhash⟩, rfl, hrefSlot⟩
    exact .awaited ⟨hcoherent, rfl, fun _ => rfl⟩ rfl (since_append_self haccepts)
      (happliedSlots ▸ hpast)

/-- Extra data is only accepted while it is awaited, and for the report that is there. -/
theorem Kept.awaited (h : Kept w) {env : AccountingEnv} {format : Nat}
    (hexpected : Expected w.state.oracle env format)
    (hopen : w.state.oracle.extraData.submitted = false ∨
      w.state.oracle.extraData.itemsProcessed ≠ w.state.oracle.extraData.itemsCount) :
    ∃ data, Accepted w.state.oracle data w.state.oracle.base.consensusReport ∧
      w.state.oracle.extraData = committed data ∧
      Since (Accepts data w.state.oracle.base.consensusReport) Quiet w.history ∧
      ∀ r ∈ appliedSlots w.history, r < data.refSlot := by
  cases h.stage with
  | fresh hslot hreport _ =>
    have hrefSlot := hexpected.refSlot
    rcases hreport with hhash | hpos
    · exact absurd hhash hexpected.report
    · omega
  | @awaited data report haccepted hcommitted hsince hslots =>
    have hrefSlot : w.state.oracle.base.consensusReport.refSlot = data.refSlot := by
      rw [← hexpected.refSlot, hcommitted]
      rfl
    have hreport := haccepted.report hrefSlot
    subst hreport
    exact ⟨data, haccepted, hcommitted, hsince, hslots⟩
  | applied _ _ hsubmitted hitems _ =>
    rcases hopen with hfalse | hne
    · rw [hsubmitted] at hfalse
      cases hfalse
    · exact absurd hitems hne

/-- Extra data is applied: none is awaited any more. -/
theorem Kept.apply (h : Kept w) {o' : AccountingOracle} {router : ρ}
    (haction : action.applies = true) (haccepts : action.accepted = none)
    (hsubmitted : action.submittedSlot = none)
    (haccepted : Accepted w.state.oracle data w.state.oracle.base.consensusReport)
    (hcommitted : w.state.oracle.extraData = committed data)
    (hslots : ∀ r ∈ appliedSlots w.history, r < data.refSlot)
    (hbase : o'.base = w.state.oracle.base) (hslot : o'.extraData.refSlot = data.refSlot)
    (hdone : o'.extraData.submitted = true)
    (hitems : o'.extraData.itemsProcessed = o'.extraData.itemsCount) :
    Kept (w.record action ⟨o', router, w.state.pool⟩) := by
  have hacceptedSlots : acceptedSlots (w.record action ⟨o', router, w.state.pool⟩).history
      = acceptedSlots w.history := acceptedSlots_append_none haccepts
  have happliedSlots : appliedSlots (w.record action ⟨o', router, w.state.pool⟩).history
      = appliedSlots w.history ++ [data.refSlot] := by
    refine (appliedSlots_append_true haction).trans ?_
    show _ ++ [w.state.oracle.extraData.refSlot] = _
    rw [hcommitted]
    rfl
  refine ⟨?_, ?_, ?_, ?_, ?_, ?_⟩
  · show o'.base.lastProcessingRefSlot ≤ o'.base.consensusReport.refSlot
    rw [hbase]
    exact h.processing_le
  · intro m hm r hr
    show r ≤ o'.base.consensusReport.refSlot
    rw [hbase]
    rcases List.mem_append.mp hm with hm | hm
    · exact h.submitted_le m hm r hr
    · rw [List.mem_singleton.mp hm, hsubmitted] at hr
      cases hr
  · intro r hr
    show r ≤ o'.base.lastProcessingRefSlot
    rw [hbase]
    exact h.accepted_le r (hacceptedSlots ▸ hr)
  · rw [hacceptedSlots]
    exact h.accepted
  · rw [happliedSlots]
    exact pairwise_append_of_lt h.applied hslots
  · have haccepted' : Accepted o' data w.state.oracle.base.consensusReport := by
      refine ⟨haccepted.coherent, ?_, fun _ => ?_⟩
      · rw [hbase]
        exact haccepted.lastProcessingRefSlot
      · rw [hbase]
    refine .applied haccepted' hslot hdone hitems fun r hr => ?_
    rw [happliedSlots] at hr
    rcases List.mem_append.mp hr with hr | hr
    · exact (hslots r hr).le
    · exact (List.mem_singleton.mp hr).le

/-- Before the deadline, what the main data has committed to is applied, and nothing else. -/
inductive AppliesAs (callees : AccountingCallees ρ) (data : AccountingReportData) (deadline : Nat)
    (m : OracleMoment ρ) : Prop where
  | empty {env : AccountingEnv} : m.action = .submitReportExtraDataEmpty env →
      data.extraDataFormat = EXTRA_DATA_FORMAT_EMPTY → data.extraDataHash = ZERO_HASH →
      data.extraDataItemsCount = 0 → env.timestamp ≤ deadline →
      callees.extraData.router .reportingFinished m.before.router = .ok m.after.router →
      AppliesAs callees data deadline m
  | list {env : AccountingEnv} {bytes : CalldataBytes} {items : List ExtraDataItem} :
      m.action = .submitReportExtraDataList env bytes →
      data.extraDataFormat = EXTRA_DATA_FORMAT_LIST →
      env.keccak256 bytes.bytes = data.extraDataHash → Encodes bytes.bytes items →
      items.length = data.extraDataItemsCount → env.timestamp ≤ deadline →
      routeAll callees.extraData (reports items ++ [.reportingFinished]) m.before.router
        = .ok m.after.router →
      AppliesAs callees data deadline m

/-- What is applied is awaited, and then it is not any more. -/
theorem Kept.applies (h : Kept w) (hperforms : Performs callees w.state action x')
    (happlies : action.applies = true) :
    Kept (w.record action x') ∧
    ∃ data, Since (Accepts data w.state.oracle.base.consensusReport) Quiet w.history ∧
      w.state.oracle.extraData.refSlot = data.refSlot ∧
      w.state.oracle.base.consensusReport.refSlot = data.refSlot ∧
      AppliesAs callees data w.state.oracle.base.consensusReport.processingDeadlineTime
        ⟨w.state, action, x'⟩ := by
  cases hperforms with
  | submitReportExtraDataEmpty hcall =>
    obtain ⟨hexpected, hsubmitted, hrouter, rfl⟩ := submitReportExtraDataEmpty_ok_cases hcall
    obtain ⟨data, haccepted, hcommitted, hsince, hslots⟩ := h.awaited hexpected (.inl hsubmitted)
    have hslot : w.state.oracle.extraData.refSlot = data.refSlot := by
      rw [hcommitted]
      rfl
    have hformat : data.extraDataFormat = EXTRA_DATA_FORMAT_EMPTY := by
      rw [← hexpected.dataFormat, hcommitted]
      rfl
    obtain ⟨hhash, hcount⟩ := haccepted.coherent hformat
    have hitems : w.state.oracle.extraData.itemsProcessed = w.state.oracle.extraData.itemsCount := by
      rw [hcommitted]
      exact hcount.symm
    refine ⟨h.apply rfl rfl rfl haccepted hcommitted hslots rfl hslot rfl hitems, data, hsince,
      hslot, hexpected.refSlot.symm.trans hslot, ?_⟩
    exact .empty rfl hformat hhash hcount hexpected.deadline hrouter
  | submitReportExtraDataList hcall =>
    obtain ⟨hlist, items, lastSortingKey, hencodes, hcount, hrouter, rfl⟩ :=
      submitReportExtraDataList_ok_cases hcall
    have hexpected := expected_of_listExpected hlist
    have hne : w.state.oracle.extraData.itemsProcessed ≠ w.state.oracle.extraData.itemsCount := by
      rw [hlist.itemsProcessed]
      exact hlist.itemsCount.symm
    obtain ⟨data, haccepted, hcommitted, hsince, hslots⟩ := h.awaited hexpected (.inr hne)
    have hslot : w.state.oracle.extraData.refSlot = data.refSlot := by
      rw [hcommitted]
      rfl
    -- the count of the loop is a word, but an item takes bytes of calldata, so it does not wrap
    have hsmall : items.length < 2 ^ 64 := by
      have hlength := hencodes.length_le
      omega
    have hitems : items.length % 2 ^ 64 = w.state.oracle.extraData.itemsCount := by
      rw [Nat.mod_eq_of_lt hsmall, hcount]
    refine ⟨h.apply rfl rfl rfl haccepted hcommitted hslots rfl hslot rfl hitems, data, hsince,
      hslot, hexpected.refSlot.symm.trans hslot, ?_⟩
    have hformat := hexpected.dataFormat
    have hhash := hlist.dataHash
    rw [hcommitted] at hformat hhash hcount
    exact .list rfl hformat hhash hencodes hcount hexpected.deadline hrouter
  -- no other call applies extra data
  | submitConsensusReport => cases happlies
  | discardConsensusReport => cases happlies
  | setConsensusContract => cases happlies
  | setConsensusVersion => cases happlies
  | submitReportData => cases happlies
  | others => cases happlies

/-- **Every step keeps the stages**, one case for each call. -/
theorem Kept.step (h : Kept w) (hperforms : Performs callees w.state action x') :
    Kept (w.record action x') := by
  have hnone : ∀ {base : BaseOracle} {r : Nat}, r ∈ (none : Option Nat) →
      r = base.consensusReport.refSlot := fun hr => by cases hr
  cases hperforms with
  | submitConsensusReport hcall =>
    obtain ⟨hmoved, hslot⟩ := moved_submitConsensusReport hcall
    refine h.moved ⟨rfl, rfl⟩ rfl hmoved fun r hr => ?_
    cases hr
    exact hslot.symm
  | discardConsensusReport hcall =>
    exact h.moved ⟨rfl, rfl⟩ rfl (moved_discardConsensusReport hcall) fun _ => hnone
  | setConsensusContract hcall =>
    exact h.moved ⟨rfl, rfl⟩ rfl (moved_setConsensusContract hcall) fun _ => hnone
  | setConsensusVersion hcall =>
    exact h.moved ⟨rfl, rfl⟩ rfl (moved_setConsensusVersion hcall) fun _ => hnone
  | submitReportData hcall => exact h.accept hcall
  | submitReportExtraDataEmpty hcall => exact (h.applies (.submitReportExtraDataEmpty hcall) rfl).1
  | submitReportExtraDataList hcall => exact (h.applies (.submitReportExtraDataList hcall) rfl).1
  | others => exact h.moved ⟨rfl, rfl⟩ rfl (.refl _) fun _ => hnone

theorem kept_of_reachable
    (h : Reachable (Recorded.Starts Initial) (Recorded.Acts (Performs callees)) w) : Kept w := by
  induction h with
  | init hstarts => exact kept_of_initial hstarts
  | step _ hs ih =>
    obtain ⟨hperforms⟩ := hs
    exact ih.step hperforms

/--
**Extra data is applied at most once, and only for its report.** In every run from the initialization
on, whenever extra data is applied:

* main data was accepted before, for the consensus report that is still the last one, and neither
  main data nor extra data has been accepted since;
* it is extra data of the format, with the hash and of as many items as that main data says, and
  exactly these items reach the staking router;
* the deadline of that consensus report is not over, and no consensus report for a later slot was
  ever submitted.

The slots of the extra data that is applied increase from one time to the next, and so do those of
the main data that is accepted: no slot comes twice.
-/
theorem extra_data_applied_once
    (h : Reachable (Recorded.Starts Initial) (Recorded.Acts (Performs callees)) w) :
    (∀ (past later : List (OracleMoment ρ)) (m : OracleMoment ρ),
      w.history = past ++ m :: later → m.action.applies = true →
      ∃ data report, Since (Accepts data report) Quiet past ∧
        m.before.oracle.extraData.refSlot = data.refSlot ∧
        AppliesAs callees data report.processingDeadlineTime m ∧
        ∀ m' ∈ past, ∀ r ∈ m'.action.submittedSlot, r ≤ data.refSlot) ∧
    (appliedSlots w.history).Pairwise (· < ·) ∧ (acceptedSlots w.history).Pairwise (· < ·) := by
  have hkept := kept_of_reachable h
  refine ⟨fun past later m hhistory happlies => ?_, hkept.applied, hkept.accepted⟩
  have hstarts : ∀ w₀ : Recorded (AccountingSystem ρ) AccountingAction,
      Recorded.Starts Initial w₀ → w₀.history.length ≤ past.length := by
    intro w₀ h₀
    rw [h₀.2]
    exact Nat.zero_le _
  obtain ⟨hbefore, hperforms, -⟩ := h.cut hstarts hhistory
  have hpast := kept_of_reachable hbefore
  obtain ⟨-, data, hsince, hslot, hreport, happliesAs⟩ := hpast.applies hperforms happlies
  refine ⟨data, _, hsince, hslot, happliesAs, fun m' hm' r hr => ?_⟩
  exact (hpast.submitted_le m' hm' r hr).trans hreport.le

/-! A report with two items of extra data. -/

def exampleAccountingCallees : AccountingCallees (List RouterCall) where
  report := {
    checkAccountingExtraDataListItemsCount := fun _ => some ()
    handleConsensusLayerReport := fun _ _ _ router => some router
    updateExitedValidatorsCountByStakingModule := fun _ _ router => some (0, router)
    checkExitedValidatorsRatePerDay := fun _ => some ()
    getStakingRewardsDistribution := fun _ => Pool.exampleDistribution }
  extraData := exampleCallees

def exampleMainData : AccountingReportData where
  consensusVersion := 1
  refSlot := 31
  numValidators := 0
  clBalanceGwei := 0
  stakingModuleIdsWithNewlyExitedValidators := []
  numExitedValidatorsByStakingModule := []
  withdrawalVaultBalance := 0
  elRewardsVaultBalance := 0
  sharesRequestedToBurn := 0
  withdrawalFinalizationBatches := []
  simulatedShareRate := 0
  isBunkerMode := false
  extraDataFormat := EXTRA_DATA_FORMAT_LIST
  extraDataHash := 6
  extraDataItemsCount := 2

def exampleMainEnv : AccountingReportEnv where
  toAccountingEnv := { exampleEnv with
    timestamp := 384
    timestamp_pos := ConsensusSystem.exampleReportTime_pos }
  self := 10
  hashOf := fun _ => 7
  hasOracleRole := fun _ => true

/-- The consensus contract at 9. -/
def exampleConsensusEnv : Env := ⟨9, 0, 384, ConsensusSystem.exampleReportTime_pos⟩

def exampleInitialized (base : BaseOracle) : AccountingSystem (List RouterCall) :=
  ⟨⟨base, ⟨0, 0, false, 0, 0, 0, ZERO_HASH⟩⟩, [], Pool.exampleStart⟩

/-- The three moments of the example. -/
def exampleHistory (base reported : BaseOracle)
    (accepted : AccountingOracle × List RouterCall × Pool)
    (applied : AccountingOracle × List RouterCall) : List (OracleMoment (List RouterCall)) :=
  [⟨exampleInitialized base, .submitConsensusReport exampleConsensusEnv 7 31 1000,
      exampleInitialized reported⟩,
    ⟨exampleInitialized reported, .submitReportData exampleMainEnv exampleMainData 1,
      ⟨accepted.1, accepted.2.1, accepted.2.2⟩⟩,
    ⟨⟨accepted.1, accepted.2.1, accepted.2.2⟩,
      .submitReportExtraDataList exampleMainEnv.toAccountingEnv exampleData,
      ⟨applied.1, applied.2, accepted.2.2⟩⟩]

theorem reachable_exampleHistory {base reported : BaseOracle}
    {accepted : AccountingOracle × List RouterCall × Pool}
    {applied : AccountingOracle × List RouterCall}
    (hinit : ConsensusSystem.exampleScheduled.processor.initializeOracle
      ConsensusSystem.exampleScheduled.consensus 9 1 0 = .ok base)
    (hreport : base.submitConsensusReport exampleConsensusEnv 7 31 1000 = .ok reported)
    (haccept : (exampleInitialized reported).oracle.submitReportData
      exampleAccountingCallees.report exampleMainData 1 exampleMainEnv [] Pool.exampleStart
      = .ok accepted)
    (happly : accepted.1.submitReportExtraDataList exampleAccountingCallees.extraData exampleData
      exampleMainEnv.toAccountingEnv 105 accepted.2.1 = some (.ok applied)) :
    Reachable (Recorded.Starts Initial) (Recorded.Acts (Performs exampleAccountingCallees))
      ⟨⟨applied.1, applied.2, accepted.2.2⟩, exampleHistory base reported accepted applied⟩ := by
  have hstarts : Recorded.Starts Initial
      (⟨exampleInitialized base, []⟩ :
        Recorded (AccountingSystem (List RouterCall)) AccountingAction) :=
    ⟨⟨⟨12, 0, _, 9, 1, 0, hinit⟩, rfl⟩, rfl⟩
  have h₁ : Performs exampleAccountingCallees (exampleInitialized base)
      (.submitConsensusReport exampleConsensusEnv 7 31 1000) (exampleInitialized reported) :=
    .submitConsensusReport hreport
  have h₂ : Performs exampleAccountingCallees (exampleInitialized reported)
      (.submitReportData exampleMainEnv exampleMainData 1)
      ⟨accepted.1, accepted.2.1, accepted.2.2⟩ :=
    .submitReportData haccept
  have h₃ : Performs exampleAccountingCallees ⟨accepted.1, accepted.2.1, accepted.2.2⟩
      (.submitReportExtraDataList exampleMainEnv.toAccountingEnv exampleData)
      ⟨applied.1, applied.2, accepted.2.2⟩ :=
    .submitReportExtraDataList happly
  have hreported := (Reachable.init hstarts).step (Recorded.Acts.act h₁)
  have haccepted := hreported.step (Recorded.Acts.act h₂)
  exact haccepted.step (Recorded.Acts.act h₃)

def exampleBase : BaseOracle :=
  result (ConsensusSystem.exampleScheduled.processor.initializeOracle
    ConsensusSystem.exampleScheduled.consensus 9 1 0) ConsensusSystem.isOk_initializeOracle

def exampleReportedBase : BaseOracle :=
  result (exampleBase.submitConsensusReport exampleConsensusEnv 7 31 1000) (by decide +kernel)

def exampleAccepted : AccountingOracle × List RouterCall × Pool :=
  result ((exampleInitialized exampleReportedBase).oracle.submitReportData
    exampleAccountingCallees.report exampleMainData 1 exampleMainEnv [] Pool.exampleStart)
    (by decide +kernel)

theorem exists_exampleApplied : ∃ applied, exampleAccepted.1.submitReportExtraDataList
    exampleAccountingCallees.extraData exampleData exampleMainEnv.toAccountingEnv 105
    exampleAccepted.2.1 = some (.ok applied) := by
  have hok : (exampleAccepted.1.submitReportExtraDataList exampleAccountingCallees.extraData
      exampleData exampleMainEnv.toAccountingEnv 105 exampleAccepted.2.1).map Except.isOk
      = some true := by
    decide +kernel
  obtain ⟨call, hcall, hcallOk⟩ := Option.map_eq_some_iff.mp hok
  exact ⟨_, hcall.trans (congrArg some (eq_ok_result call hcallOk))⟩

/-- The items go to the router before the deadline of its report. -/
theorem extra_data_applied_once_two_items :
    ∃ (w : Recorded (AccountingSystem (List RouterCall)) AccountingAction)
      (m : OracleMoment (List RouterCall)) (data : AccountingReportData) (report : ConsensusReport),
      Reachable (Recorded.Starts Initial) (Recorded.Acts (Performs exampleAccountingCallees)) w ∧
      m ∈ w.history ∧ AppliesAs exampleAccountingCallees data report.processingDeadlineTime m ∧
      m.before.oracle.extraData.refSlot = data.refSlot := by
  obtain ⟨applied, happly⟩ := exists_exampleApplied
  have hinit := eq_ok_result _ ConsensusSystem.isOk_initializeOracle
  have hreport := eq_ok_result (exampleBase.submitConsensusReport exampleConsensusEnv 7 31 1000)
    (by decide +kernel)
  have haccept : (exampleInitialized exampleReportedBase).oracle.submitReportData
      exampleAccountingCallees.report exampleMainData 1 exampleMainEnv [] Pool.exampleStart
      = .ok exampleAccepted := eq_ok_result _ (by decide +kernel)
  have hrun := reachable_exampleHistory hinit hreport haccept happly
  obtain ⟨happlies, -, -⟩ := extra_data_applied_once hrun
  obtain ⟨data, report, -, hslot, happliesAs, -⟩ := happlies [_, _] [] _ rfl rfl
  exact ⟨_, _, data, report, hrun, by simp [exampleHistory], happliesAs, hslot⟩

end AccountingSystem

end Catalist

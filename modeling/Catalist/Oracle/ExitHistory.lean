import Catalist.Lib.History
import Catalist.Oracle.ExitRequests

/-!
# The history of exit requests

Over any sequence of reports, the exit of a validator is requested at most once, and the requests
for the validators of a node operator have increasing indexes.
-/

namespace Catalist

open Solidity ByteBuffer Transition

namespace ValidatorExitRequest

/-- The requests are for validators of one node operator. -/
def SameOperator (e e' : ValidatorExitRequest) : Prop :=
  e.stakingModuleId = e'.stakingModuleId ∧ e.nodeOperatorId = e'.nodeOperatorId

def nodeOpKey (e : ValidatorExitRequest) : Nat :=
  computeNodeOpKey e.stakingModuleId e.nodeOperatorId

end ValidatorExitRequest

namespace ValidatorsExitBusOracle

variable {stored : LastRequestedValidatorIndices} {history : List ValidatorExitRequest}
  {r : ExitRequest} {requests : List ExitRequest} {timestamp last : Nat}

/-- The mapping bounds the requests that were emitted, and these increase. -/
structure Requested (stored : LastRequestedValidatorIndices)
    (history : List ValidatorExitRequest) : Prop where
  nodeOperatorId_lt : ∀ e ∈ history, e.nodeOperatorId < 2 ^ 40
  requested : ∀ e ∈ history, (stored e.nodeOpKey).requested = true
  index_le : ∀ e ∈ history, e.validatorIndex ≤ (stored e.nodeOpKey).index
  increasing : history.Pairwise fun e e' => e.SameOperator e' → e.validatorIndex < e'.validatorIndex

/-- One request. -/
theorem Requested.request (timestamp : Nat) (h : Requested stored history)
    (hindex : (stored r.nodeOpKey).requested = true →
      (stored r.nodeOpKey).index < r.validatorIndex) :
    Requested (Function.update stored r.nodeOpKey r.requested) (history ++ [r.event timestamp]) := by
  -- by the stored index, the request comes after all earlier ones of its operator
  have hstored : ∀ e ∈ history, e.nodeOpKey = r.nodeOpKey →
      e.validatorIndex < r.validatorIndex := by
    intro e he hkey
    have hle := h.index_le e he
    have hreq := h.requested e he
    rw [hkey] at hle hreq
    exact hle.trans_lt (hindex hreq)
  refine ⟨?_, ?_, ?_, ?_⟩
  · intro e he
    rcases List.mem_append.mp he with he | he
    · exact h.nodeOperatorId_lt e he
    · rw [List.mem_singleton.mp he]
      exact r.nodeOpId_lt
  · intro e he
    by_cases hkey : e.nodeOpKey = r.nodeOpKey
    · rw [hkey, Function.update_self]
      rfl
    · rw [Function.update_of_ne hkey]
      rcases List.mem_append.mp he with he | he
      · exact h.requested e he
      · rw [List.mem_singleton.mp he] at hkey
        exact absurd rfl hkey
  · intro e he
    by_cases hkey : e.nodeOpKey = r.nodeOpKey
    · rw [hkey, Function.update_self]
      rcases List.mem_append.mp he with he | he
      · exact (hstored e he hkey).le
      · rw [List.mem_singleton.mp he]
        exact Nat.le_refl _
    · rw [Function.update_of_ne hkey]
      rcases List.mem_append.mp he with he | he
      · exact h.index_le e he
      · rw [List.mem_singleton.mp he] at hkey
        exact absurd rfl hkey
  · refine List.pairwise_append.mpr ⟨h.increasing, List.pairwise_singleton _ _, ?_⟩
    intro e he e' he' hsame
    rw [List.mem_singleton.mp he'] at hsame ⊢
    refine hstored e he ?_
    rw [ValidatorExitRequest.nodeOpKey, hsame.1, hsame.2]
    rfl

/-- The requests of a report. -/
theorem Requested.requestAll (h : Requested stored history)
    (haccepts : AcceptsFrom last stored requests) :
    Requested (requestAll stored requests)
      (history ++ requests.map (ExitRequest.event timestamp)) := by
  induction requests generalizing last stored history with
  | nil =>
    rw [List.map_nil, List.append_nil]
    exact h
  | cons r requests ih =>
    obtain ⟨-, -, hindex, haccepts⟩ := haccepts
    have hrest := ih (h.request timestamp hindex) haccepts
    rwa [List.append_assoc] at hrest

/-! ## Reports -/

variable {o o' : ValidatorsExitBusOracle} {report : ExitBusReportData} {version rounds : Nat}
  {env : ExitBusEnv} {emitted : List ValidatorExitRequest}

theorem processExitRequestsList_mono {data : CalldataBytes} {n m : Nat}
    {outcome : Call ExitBusError (LastRequestedValidatorIndices × List ValidatorExitRequest)}
    (h : processExitRequestsList data timestamp stored n = some outcome) (hle : n ≤ m) :
    processExitRequestsList data timestamp stored m = some outcome := by
  obtain ⟨result, hloop, rfl⟩ := Option.map_eq_some_iff.mp h
  exact Option.map_eq_some_iff.mpr ⟨result, whileLoop_mono hloop hle, rfl⟩

/-- What a report does. -/
theorem submitReportData_ok_cases
    (h : o.submitReportData report version env rounds = some (.ok (o', emitted))) :
    ∃ requests : List ExitRequest, report.data.bytes = requests.flatMap ExitRequest.encode ∧
      Accepted o.lastRequestedValidatorIndices requests ∧
      emitted = requests.map (ExitRequest.event env.timestamp) ∧
      o'.lastRequestedValidatorIndices = requestAll o.lastRequestedValidatorIndices requests ∧
      o'.totalRequestsProcessed = o.totalRequestsProcessed + requests.length := by
  unfold submitReportData at h
  cases hstart : o.startReportData report version env with
  | error r =>
    rw [hstart] at h
    cases h
  | ok o₁ =>
    rw [hstart] at h
    obtain ⟨outcome, hprocess, hfinish⟩ := Option.map_eq_some_iff.mp h
    simp only [startReportData, checkReportData, bind_eq_ok, require_eq_ok, pure_eq_ok] at hstart
    obtain ⟨_, -, _, -, _, -, _, -, ⟨base, _⟩, -, _, ⟨_, -, _, hmod, _, -, hcount⟩, rfl⟩ := hstart
    obtain ⟨requests, hbytes⟩ := exists_requests report.data.bytes
      (by rw [report.data.length_bytes]; exact hmod)
    have hlength : requests.length = report.requestsCount := by
      have hbytesLength := congrArg List.length hbytes
      rw [report.data.length_bytes, ExitRequest.length_flatMap_encode] at hbytesLength
      rw [← hcount, hbytesLength]
      exact (Nat.mul_div_cancel_left _ (by decide)).symm
    obtain ⟨outcome', hrounds, haccepted, heffect⟩ := exists_processExitRequestsList report.data
      env.timestamp o.lastRequestedValidatorIndices hbytes
    have hmax := hrounds (max (report.data.length + 1) rounds) (by omega)
    rw [processExitRequestsList_mono hprocess (Nat.le_max_right _ _)] at hmax
    cases hmax
    obtain ⟨processed, hok, hfinish⟩ := bind_eq_ok.mp hfinish
    refine ⟨requests, hbytes, haccepted.mp ⟨processed, hok⟩, ?_⟩
    cases heffect processed hok
    simp only [finishReportData, bind_eq_ok] at hfinish
    obtain ⟨_, -, _, -, hfinish⟩ := hfinish
    by_cases hzero : report.requestsCount = 0
    · rw [if_pos hzero] at hfinish
      cases hfinish
      rw [hlength, hzero]
      exact ⟨rfl, rfl, rfl⟩
    · rw [if_neg hzero] at hfinish
      simp only [bind_eq_ok, checkedAdd_eq_ok, pure_eq_ok] at hfinish
      obtain ⟨_, ⟨-, rfl⟩, heq⟩ := hfinish
      cases heq
      rw [hlength]
      exact ⟨rfl, rfl, rfl⟩

/-- The oracle before its first report. -/
def Unused (o : ValidatorsExitBusOracle) : Prop :=
  o.totalRequestsProcessed = 0 ∧ ∀ key, o.lastRequestedValidatorIndices key = ⟨false, 0⟩

/-- A call, with the requests that it emits. -/
inductive ExitBusAction where
  | submitReportData (report : ExitBusReportData) (version : Nat) (env : ExitBusEnv) (rounds : Nat)
      (emitted : List ValidatorExitRequest)
  /-- consensus reports, pausing and resuming -/
  | other

def ExitBusAction.events : ExitBusAction → List ValidatorExitRequest
  | .submitReportData _ _ _ _ emitted => emitted
  | .other => []

inductive Performs : ValidatorsExitBusOracle → ExitBusAction → ValidatorsExitBusOracle → Prop where
  | submitReportData {report : ExitBusReportData} {version : Nat} {env : ExitBusEnv} {rounds : Nat}
      {o o' : ValidatorsExitBusOracle} {emitted : List ValidatorExitRequest} :
      o.submitReportData report version env rounds = some (.ok (o', emitted)) →
      Performs o (.submitReportData report version env rounds emitted) o'
  | other {o : ValidatorsExitBusOracle} (base : BaseOracle) (resumeSinceTimestamp : Nat) :
      Performs o .other { o with base := base, resumeSinceTimestamp := resumeSinceTimestamp }

/-- The oracle with all its calls. -/
abbrev ExitBusLog := Recorded ValidatorsExitBusOracle ExitBusAction

abbrev ExitBusRun (w : ExitBusLog) : Prop :=
  Reachable (Recorded.Starts Unused) (Recorded.Acts Performs) w

/-- All requests that were emitted. -/
def exitRequests (history : List (Moment ValidatorsExitBusOracle ExitBusAction)) :
    List ValidatorExitRequest :=
  history.flatMap fun m => m.action.events

theorem exitRequests_record {w : ExitBusLog} (action : ExitBusAction) :
    exitRequests (w.record action o').history = exitRequests w.history ++ action.events := by
  unfold exitRequests Recorded.record
  rw [List.flatMap_append, List.flatMap_singleton]

/-- What holds in every run. -/
structure HistoryKept (w : ExitBusLog) : Prop where
  requested : Requested w.state.lastRequestedValidatorIndices (exitRequests w.history)
  total : w.state.totalRequestsProcessed = (exitRequests w.history).length

theorem historyKept_of_starts {w : ExitBusLog} (h : Recorded.Starts Unused w) :
    HistoryKept w := by
  obtain ⟨⟨htotal, -⟩, hhistory⟩ := h
  have hnone : exitRequests w.history = [] := by rw [hhistory]; rfl
  refine ⟨⟨?_, ?_, ?_, ?_⟩, ?_⟩
  · simp [hnone]
  · simp [hnone]
  · simp [hnone]
  · simp [hnone]
  · rw [htotal, hnone]
    rfl

theorem HistoryKept.step {w w' : ExitBusLog} (h : HistoryKept w)
    (hs : Recorded.Acts Performs w w') : HistoryKept w' := by
  obtain ⟨hperforms⟩ := hs
  cases hperforms with
  | submitReportData hsubmit =>
    obtain ⟨requests, -, haccepted, rfl, hstored, htotal⟩ := submitReportData_ok_cases hsubmit
    constructor
    · rw [exitRequests_record, Recorded.state_record, hstored]
      exact h.requested.requestAll (accepted_iff.mp haccepted)
    · rw [exitRequests_record, Recorded.state_record, htotal, h.total, List.length_append]
      exact congrArg (_ + ·) (List.length_map _).symm
  | other base resumeSinceTimestamp =>
    constructor
    · rw [exitRequests_record, ExitBusAction.events, List.append_nil]
      exact h.requested
    · rw [exitRequests_record, ExitBusAction.events, List.append_nil]
      exact h.total

theorem historyKept {w : ExitBusLog} (h : ExitBusRun w) : HistoryKept w :=
  h.invariant (fun _ hw => historyKept_of_starts hw) fun _ _ hw hs => hw.step hs

/-! ## Exit requests are never repeated -/

/-- What processing a list of requests leaves behind. -/
structure RequestsProcessed (stored : LastRequestedValidatorIndices) (requests : List ExitRequest)
    (timestamp : Nat) (stored' : LastRequestedValidatorIndices)
    (emitted : List ValidatorExitRequest) : Prop where
  emitted : emitted = requests.map (ExitRequest.event timestamp)
  /-- the last request of a node operator -/
  last : ∀ moduleId nodeOpId r,
    requests.reverse.find? (fun r => r.moduleId = moduleId ∧ r.nodeOpId = nodeOpId) = some r →
    stored' (computeNodeOpKey moduleId nodeOpId) = ⟨true, r.validatorIndex⟩
  other : ∀ key, (∀ r ∈ requests, computeNodeOpKey r.moduleId r.nodeOpId ≠ key) →
    stored' key = stored key

theorem requestsProcessed_requestAll (stored : LastRequestedValidatorIndices)
    (requests : List ExitRequest) (timestamp : Nat) :
    RequestsProcessed stored requests timestamp (requestAll stored requests)
      (requests.map (ExitRequest.event timestamp)) := by
  refine ⟨rfl, fun moduleId nodeOpId r hfind => ?_, fun key hother => ?_⟩
  · have hfound := List.find?_some hfind
    have hlt : nodeOpId < 2 ^ 40 := (of_decide_eq_true hfound).2 ▸ r.nodeOpId_lt
    rw [requestAll_eq, find_nodeOpKey _ hlt, hfind]
    rfl
  · rw [requestAll_eq, List.find?_eq_none.mpr]
    intro r hr
    rw [decide_eq_true_eq]
    exact hother r (List.mem_reverse.mp hr)

/--
**Exit requests are never repeated.** A list of requests is accepted exactly if the requests are
sorted, name a module and go on after the stored indexes; the last request of every node operator
is then stored. Over every run the requests of a node operator increase, none is repeated, and the
total counts them.
-/
theorem exitRequests_never_repeated :
    (∀ (data : CalldataBytes) (timestamp : Nat) (stored : LastRequestedValidatorIndices),
      data.length % 64 = 0 →
      ∃ requests : List ExitRequest, data.bytes = requests.flatMap ExitRequest.encode ∧
      ∃ outcome, (∀ rounds, data.length < rounds →
          processExitRequestsList data timestamp stored rounds = some outcome) ∧
        ((∃ result, outcome = .ok result) ↔ Accepted stored requests) ∧
        ∀ stored' emitted, outcome = .ok (stored', emitted) →
          RequestsProcessed stored requests timestamp stored' emitted) ∧
    ∀ w, ExitBusRun w →
      (∀ moduleId nodeOpId, (((exitRequests w.history).filter fun e =>
          e.stakingModuleId = moduleId ∧ e.nodeOperatorId = nodeOpId).map
            ValidatorExitRequest.validatorIndex).Pairwise (· < ·)) ∧
      ((exitRequests w.history).Pairwise
        fun e e' => ¬ (e.SameOperator e' ∧ e.validatorIndex = e'.validatorIndex)) ∧
      w.state.totalRequestsProcessed = (exitRequests w.history).length := by
  refine ⟨fun data timestamp stored hlength => ?_, fun w hw => ?_⟩
  · obtain ⟨requests, hbytes⟩ := exists_requests data.bytes
      (by rw [data.length_bytes]; exact hlength)
    obtain ⟨outcome, hrounds, haccepted, heffect⟩ :=
      exists_processExitRequestsList data timestamp stored hbytes
    refine ⟨requests, hbytes, outcome, hrounds, haccepted, fun stored' emitted hok => ?_⟩
    cases heffect _ hok
    exact requestsProcessed_requestAll stored requests timestamp
  · have hkept := historyKept hw
    have hincreasing := hkept.requested.increasing
    refine ⟨fun moduleId nodeOpId => ?_, ?_, hkept.total⟩
    · rw [List.pairwise_map]
      refine (hincreasing.filter _).imp_of_mem fun {e e'} he he' hlt => hlt ?_
      have hsame := of_decide_eq_true (List.mem_filter.mp he).2
      have hsame' := of_decide_eq_true (List.mem_filter.mp he').2
      exact ⟨hsame.1.trans hsame'.1.symm, hsame.2.trans hsame'.2.symm⟩
    · exact hincreasing.imp fun hlt ⟨hsame, heq⟩ => absurd heq (hlt hsame).ne

/-! Two reports that request exits of node operators 7 and 8 of module 1, first of the validators 3
and 2, then of the validator 5 of node operator 7. -/

/-- A record without its key, which is 48 zeros. -/
def exampleRequestBytes (nodeOpId validatorIndex : Nat) : Bytes :=
  bytesOfNat 3 1 ++ bytesOfNat 5 nodeOpId ++ bytesOfNat 8 validatorIndex ++ zeros 48

def exampleEvent (nodeOpId validatorIndex : Nat) : ValidatorExitRequest :=
  ⟨1, nodeOpId, validatorIndex, zeros 48, 1⟩

theorem exampleData_offset_lt : 0 < 2 ^ 65 := Nat.two_pow_pos 65

def exampleData : CalldataBytes where
  calldata := exampleRequestBytes 7 3 ++ exampleRequestBytes 8 2
  offset := 0
  length := 128
  inside := Nat.le_refl 128
  offset_lt := exampleData_offset_lt
  length_lt := by decide

def exampleLaterData : CalldataBytes where
  calldata := exampleRequestBytes 7 5
  offset := 0
  length := 64
  inside := Nat.le_refl 64
  offset_lt := exampleData_offset_lt
  length_lt := lt_two_pow_of_le (Nat.le_add_left 64 0)

def exampleReport : ExitBusReportData := ⟨1, 383, 2, EXIT_BUS_DATA_FORMAT_LIST, exampleData⟩

def exampleLaterReport : ExitBusReportData :=
  ⟨1, 415, 1, EXIT_BUS_DATA_FORMAT_LIST, exampleLaterData⟩

/-- The hash of a report is its slot. -/
def exampleEnv : ExitBusEnv where
  sender := 11
  value := 0
  timestamp := 1
  timestamp_pos := Nat.one_pos
  hasSubmitDataRole := fun _ => false
  isConsensusMember := fun sender => sender = 11
  hashOf := fun report => report.refSlot
  maxValidatorExitRequestsPerReport := 100

/-- The oracle at the report for this slot. -/
def exampleBase (refSlot lastProcessingRefSlot : Nat) : BaseOracle :=
  { BaseOracle.blank 12 0 with
    contractVersion := 1
    consensusVersion := 1
    lastProcessingRefSlot := lastProcessingRefSlot
    consensusReport := { hash := refSlot, refSlot := refSlot, processingDeadlineTime := 9204 } }

def exampleBus : ValidatorsExitBusOracle where
  base := exampleBase 383 0
  resumeSinceTimestamp := 0
  totalRequestsProcessed := 0
  lastRequestedValidatorIndices := fun _ => ⟨false, 0⟩
  dataProcessingState := ⟨0, 0, 0, 0⟩

theorem isSome_exampleFirst :
    (exampleBus.submitReportData exampleReport 1 exampleEnv 129).isSome = true := by decide +kernel

theorem isOk_exampleFirst :
    ((exampleBus.submitReportData exampleReport 1 exampleEnv 129).get isSome_exampleFirst).isOk
      = true := by
  decide +kernel

def exampleFirst : ValidatorsExitBusOracle × List ValidatorExitRequest :=
  result _ isOk_exampleFirst

/-- The oracle at the next report. -/
def exampleLaterBus : ValidatorsExitBusOracle :=
  { exampleFirst.1 with base := exampleBase 415 383, resumeSinceTimestamp := 0 }

theorem isSome_exampleSecond :
    (exampleLaterBus.submitReportData exampleLaterReport 1 exampleEnv 65).isSome = true := by
  decide +kernel

theorem isOk_exampleSecond :
    ((exampleLaterBus.submitReportData exampleLaterReport 1 exampleEnv 65).get
      isSome_exampleSecond).isOk = true := by
  decide +kernel

def exampleSecond : ValidatorsExitBusOracle × List ValidatorExitRequest :=
  result _ isOk_exampleSecond

theorem submitReportData_exampleFirst :
    exampleBus.submitReportData exampleReport 1 exampleEnv 129
      = some (.ok (exampleFirst.1, [exampleEvent 7 3, exampleEvent 8 2])) := by
  have hemitted : exampleFirst.2 = [exampleEvent 7 3, exampleEvent 8 2] := by decide +kernel
  rw [← hemitted]
  exact (Option.some_get isSome_exampleFirst).symm.trans
    (congrArg some (eq_ok_result _ isOk_exampleFirst))

theorem submitReportData_exampleSecond :
    exampleLaterBus.submitReportData exampleLaterReport 1 exampleEnv 65
      = some (.ok (exampleSecond.1, [exampleEvent 7 5])) := by
  have hemitted : exampleSecond.2 = [exampleEvent 7 5] := by decide +kernel
  rw [← hemitted]
  exact (Option.some_get isSome_exampleSecond).symm.trans
    (congrArg some (eq_ok_result _ isOk_exampleSecond))

/-- The two records of the first report are accepted, and the three requests of both reports are
in order. -/
theorem exitRequests_never_repeated_two_reports :
    (∃ requests : List ExitRequest, exampleData.bytes = requests.flatMap ExitRequest.encode ∧
      Accepted exampleBus.lastRequestedValidatorIndices requests) ∧
    ∃ w, ExitBusRun w ∧
      exitRequests w.history = [exampleEvent 7 3, exampleEvent 8 2, exampleEvent 7 5] ∧
      w.state.totalRequestsProcessed = 3 := by
  constructor
  · obtain ⟨requests, hbytes, outcome, hrounds, haccepted, -⟩ := exitRequests_never_repeated.1
      exampleData 1 exampleBus.lastRequestedValidatorIndices rfl
    have hok : ((processExitRequestsList exampleData 1 exampleBus.lastRequestedValidatorIndices
        129).map Except.isOk) = some true := by decide +kernel
    rw [hrounds 129 (Nat.lt_succ_self 128), Option.map_some, Option.some.injEq] at hok
    refine ⟨requests, hbytes, haccepted.mp ?_⟩
    cases outcome with
    | ok result => exact ⟨result, rfl⟩
    | error r => cases hok
  · have hfirst : ExitBusRun _ := (Reachable.init ⟨⟨rfl, fun _ => rfl⟩, rfl⟩).step
      (.act (w := ⟨exampleBus, []⟩) (.submitReportData submitReportData_exampleFirst))
    have hrun : ExitBusRun _ := (hfirst.step (.act (.other (exampleBase 415 383) 0))).step
      (.act (.submitReportData submitReportData_exampleSecond))
    exact ⟨_, hrun, rfl, (exitRequests_never_repeated.2 _ hrun).2.2⟩

end ValidatorsExitBusOracle

end Catalist

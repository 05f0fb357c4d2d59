import Catalist.Oracle.ValidatorsExitBus
import Mathlib.Data.List.Induction
import Mathlib.Data.List.Pairwise
import Mathlib.Data.Prod.Lex
import Mathlib.Order.Nat

/-!
# Exit requests

Which lists of exit requests `ValidatorsExitBusOracle` accepts, and what it keeps of them.

## Approach

The loop writes the mapping late: when it goes on with another node operator and after the last
request. `ExitRequestsLoop.flushed` is the mapping with the late write done. On it a round writes
the request that it reads (`processExitRequest_eq_ok`), so the loop is an induction over the
requests with the plain mapping.
-/

namespace Catalist

open Solidity ByteBuffer

theorem computeNodeOpKey_eq {m op : Nat} (h : op < 2 ^ 40) :
    computeNodeOpKey m op = m * 2 ^ 40 + op := by
  rw [computeNodeOpKey, ← Nat.shiftLeft_add_eq_or_of_lt h, Nat.shiftLeft_eq]

theorem computeNodeOpKey_inj {m op m' op' : Nat} (h : op < 2 ^ 40) (h' : op' < 2 ^ 40) :
    computeNodeOpKey m op = computeNodeOpKey m' op' ↔ m = m' ∧ op = op' := by
  rw [computeNodeOpKey_eq h, computeNodeOpKey_eq h']
  omega

/-- A validator exit request, as the documented format has it. -/
structure ExitRequest where
  moduleId : Nat
  nodeOpId : Nat
  validatorIndex : Nat
  validatorPubkey : Bytes
  moduleId_lt : moduleId < 2 ^ 24
  nodeOpId_lt : nodeOpId < 2 ^ 40
  validatorIndex_lt : validatorIndex < 2 ^ 64
  length_validatorPubkey : validatorPubkey.length = 48

namespace ExitRequest

/-- `| moduleId | nodeOpId | validatorIndex | validatorPubkey |` -/
def encode (r : ExitRequest) : Bytes :=
  bytesOfNat 3 r.moduleId ++ bytesOfNat 5 r.nodeOpId ++ bytesOfNat 8 r.validatorIndex ++
    r.validatorPubkey

/-- The requests are sorted by module, node operator and validator. -/
def key (r : ExitRequest) : Nat ×ₗ Nat ×ₗ Nat :=
  toLex (r.moduleId, toLex (r.nodeOpId, r.validatorIndex))

def nodeOpKey (r : ExitRequest) : Nat := computeNodeOpKey r.moduleId r.nodeOpId

/-- The event of the request. -/
def event (timestamp : Nat) (r : ExitRequest) : ValidatorExitRequest :=
  ⟨r.moduleId, r.nodeOpId, r.validatorIndex, r.validatorPubkey, timestamp⟩

/-- What is stored for the node operator of the request. -/
def requested (r : ExitRequest) : RequestedValidator := ⟨true, r.validatorIndex⟩

/-- The key in one word, as the loop compares it. -/
def word (r : ExitRequest) : Nat :=
  r.moduleId * 2 ^ 104 + r.nodeOpId * 2 ^ 64 + r.validatorIndex

variable (r r' : ExitRequest)

theorem word_lt_iff : r.word < r'.word ↔ r.key < r'.key := by
  have := r.nodeOpId_lt
  have := r.validatorIndex_lt
  have := r'.nodeOpId_lt
  have := r'.validatorIndex_lt
  simp only [word, key, Prod.Lex.toLex_lt_toLex]
  omega

theorem word_eq : r.word = r.nodeOpKey * 2 ^ 64 + r.validatorIndex := by
  have hkey : r.nodeOpKey = r.moduleId * 2 ^ 40 + r.nodeOpId := computeNodeOpKey_eq r.nodeOpId_lt
  rw [word, hkey]
  omega

theorem word_mod : r.word % 2 ^ 64 = r.validatorIndex := by
  have := r.validatorIndex_lt
  unfold word
  omega

theorem word_nodeOpId : (r.word >>> 64) % 2 ^ 40 = r.nodeOpId := by
  have := r.nodeOpId_lt
  have := r.validatorIndex_lt
  rw [Nat.shiftRight_eq_div_pow]
  unfold word
  omega

theorem word_moduleId : (r.word >>> (64 + 40)) % 2 ^ 24 = r.moduleId := by
  have := r.moduleId_lt
  have := r.nodeOpId_lt
  have := r.validatorIndex_lt
  rw [Nat.shiftRight_eq_div_pow]
  unfold word
  omega

@[simp] theorem length_encode : r.encode.length = 64 := by
  simp [encode, r.length_validatorPubkey]

theorem length_flatMap_encode (requests : List ExitRequest) :
    (requests.flatMap encode).length = 64 * requests.length := by
  rw [List.length_flatMap, List.map_congr_left (g := fun _ => 64) fun r _ => r.length_encode]
  simp [Nat.mul_comm]

/-- The first sixteen bytes of a request are its key. -/
theorem natOfBytes_encode :
    natOfBytes (bytesOfNat 3 r.moduleId ++ bytesOfNat 5 r.nodeOpId ++
      bytesOfNat 8 r.validatorIndex) = r.word := by
  rw [natOfBytes_append, natOfBytes_append, length_bytesOfNat, length_bytesOfNat,
    natOfBytes_bytesOfNat r.moduleId_lt, natOfBytes_bytesOfNat r.nodeOpId_lt,
    natOfBytes_bytesOfNat r.validatorIndex_lt]
  unfold word
  omega

end ExitRequest

theorem ExitRequest.nodeOpKey_ne {r : ExitRequest} (h : r.moduleId ≠ 0) : r.nodeOpKey ≠ 0 := by
  rw [nodeOpKey, computeNodeOpKey_eq r.nodeOpId_lt]
  omega

/-- A byte string of the right length is a list of requests. -/
theorem exists_requests (bs : Bytes) (h : bs.length % 64 = 0) :
    ∃ requests : List ExitRequest, bs = requests.flatMap ExitRequest.encode := by
  induction hn : bs.length / 64 generalizing bs with
  | zero =>
    refine ⟨[], ?_⟩
    rw [List.flatMap_nil]
    exact List.eq_nil_of_length_eq_zero (by omega)
  | succ n ih =>
    have hdrop : (bs.drop 64).length = bs.length - 64 := List.length_drop
    obtain ⟨requests, hrequests⟩ := ih _ (show (bs.drop 64).length % 64 = 0 by omega) (by omega)
    have hlength : ∀ {a k}, a + k ≤ 64 → ((bs.drop a).take k).length = k :=
      fun hle => length_take_drop (by omega)
    have hlt : ∀ {a k}, a + k ≤ 64 → natOfBytes ((bs.drop a).take k) < 256 ^ k := by
      intro a k hle
      have := natOfBytes_lt ((bs.drop a).take k)
      rwa [hlength hle] at this
    let r : ExitRequest := {
      moduleId := natOfBytes ((bs.drop 0).take 3)
      nodeOpId := natOfBytes ((bs.drop 3).take 5)
      validatorIndex := natOfBytes ((bs.drop 8).take 8)
      validatorPubkey := (bs.drop 16).take 48
      moduleId_lt := hlt (by decide)
      nodeOpId_lt := hlt (by decide)
      validatorIndex_lt := hlt (by decide)
      length_validatorPubkey := hlength (by decide) }
    refine ⟨r :: requests, ?_⟩
    rw [List.flatMap_cons, ← hrequests]
    show bs = bytesOfNat 3 (natOfBytes ((bs.drop 0).take 3)) ++
      bytesOfNat 5 (natOfBytes ((bs.drop 3).take 5)) ++
      bytesOfNat 8 (natOfBytes ((bs.drop 8).take 8)) ++ (bs.drop 16).take 48 ++
      bs.drop 64
    rw [bytesOfNat_natOfBytes (hlength (by decide)), bytesOfNat_natOfBytes (hlength (by decide)),
      bytesOfNat_natOfBytes (hlength (by decide)), List.append_assoc, List.append_assoc,
      List.append_assoc, ← drop_eq_take_append bs 16 48, ← drop_eq_take_append bs 8 8,
      ← drop_eq_take_append bs 3 5, ← drop_eq_take_append bs 0 3, List.drop_zero]

/-! ## The late write -/

namespace ExitRequestsLoop

variable {loop : ExitRequestsLoop} {nodeOpKey : Nat}

theorem flushed_select (h : nodeOpKey ≠ 0) : (loop.select nodeOpKey).flushed = loop.flushed := by
  by_cases heq : nodeOpKey = loop.lastNodeOpKey
  · simp [select, heq]
  · rw [select, if_pos heq]
    show (if nodeOpKey ≠ 0 then
      Function.update loop.flushed nodeOpKey (loop.flushed nodeOpKey) else _) = _
    rw [if_pos h, Function.update_eq_self]

theorem lastRequestedVal_select (h : nodeOpKey ≠ 0) :
    (loop.select nodeOpKey).lastRequestedVal = loop.flushed nodeOpKey := by
  by_cases heq : nodeOpKey = loop.lastNodeOpKey
  · subst heq
    simp [select, flushed, h]
  · rw [select, if_pos heq]

theorem lastNodeOpKey_select : (loop.select nodeOpKey).lastNodeOpKey = nodeOpKey := by
  by_cases heq : nodeOpKey = loop.lastNodeOpKey
  · simp [select, heq]
  · rw [select, if_pos heq]

theorem emitted_select : (loop.select nodeOpKey).emitted = loop.emitted := by
  unfold select
  split <;> rfl

/-- The variables after a request. -/
def after (loop : ExitRequestsLoop) (timestamp : Nat) (r : ExitRequest) : ExitRequestsLoop where
  offset := loop.offset + 64
  lastDataWithoutPubkey := r.word
  lastNodeOpKey := r.nodeOpKey
  lastRequestedVal := r.requested
  stored := (loop.select r.nodeOpKey).stored
  emitted := loop.emitted ++ [r.event timestamp]

/-- With the late write done, a round writes its request. -/
theorem flushed_after (loop : ExitRequestsLoop) (timestamp : Nat) {r : ExitRequest}
    (h : r.moduleId ≠ 0) :
    (loop.after timestamp r).flushed = Function.update loop.flushed r.nodeOpKey r.requested := by
  have hkey := ExitRequest.nodeOpKey_ne h
  have hselect : loop.flushed = Function.update (loop.select r.nodeOpKey).stored r.nodeOpKey
      (loop.select r.nodeOpKey).lastRequestedVal := by
    rw [← flushed_select hkey, flushed, lastNodeOpKey_select, if_pos hkey]
  rw [hselect, Function.update_idem]
  exact if_pos hkey

end ExitRequestsLoop

/-! ## One round -/

namespace ValidatorsExitBusOracle

variable {data : CalldataBytes} {timestamp o : Nat} {loop loop' : ExitRequestsLoop}
  {r : ExitRequest} {requests : List ExitRequest}

/-- Where a request is encoded, it is read. -/
theorem read_of_encode {tail : Bytes} (h : data.bytes.drop o = r.encode ++ tail) :
    o + 64 ≤ data.length ∧
    (mload data.calldata (data.offset + o) >>> 128).toNat = r.word ∧
    data.slice (data.offset + (o + 16)) 48 = r.validatorPubkey ∧
    data.bytes.drop (o + 64) = tail := by
  have htail := drop_of_append h r.length_encode
  have hfits : o + 64 ≤ data.length := by
    have hlength := congrArg List.length h
    rw [List.length_drop, List.length_append, r.length_encode, data.length_bytes] at hlength
    omega
  rw [ExitRequest.encode, List.append_assoc] at h
  have hkey : (bytesOfNat 3 r.moduleId ++ bytesOfNat 5 r.nodeOpId ++
      bytesOfNat 8 r.validatorIndex).length = 16 := by
    simp
  refine ⟨hfits, ?_, ?_, htail⟩
  · rw [CalldataBytes.toNat_shift (k := 16) (l := 16) rfl (by omega), CalldataBytes.number,
      take_of_append h hkey, r.natOfBytes_encode]
  · rw [CalldataBytes.slice_eq (by omega),
      take_of_append (drop_of_append h hkey) r.length_validatorPubkey]

/-- A round succeeds exactly if the request that it reads is acceptable. -/
theorem processExitRequest_eq_ok {tail : Bytes} (ho : loop.offset = data.offset + o)
    (h : data.bytes.drop o = r.encode ++ tail) :
    processExitRequest data timestamp loop = .ok loop' ↔
      loop.lastDataWithoutPubkey < r.word ∧ r.moduleId ≠ 0 ∧
      ((loop.flushed r.nodeOpKey).requested = true →
        (loop.flushed r.nodeOpKey).index < r.validatorIndex) ∧
      loop' = loop.after timestamp r := by
  obtain ⟨hfits, hword, hpubkey, -⟩ := read_of_encode h
  have hlength := data.length_lt
  have hoffset := data.offset_lt
  have hpubkeyOffset : Yul.add (data.offset + o) 16 = data.offset + (o + 16) :=
    Yul.add_of_lt (by omega)
  have hnext : Yul.add (data.offset + o) 64 = data.offset + o + 64 := Yul.add_of_lt (by omega)
  have hkey : computeNodeOpKey r.moduleId r.nodeOpId = r.nodeOpKey := rfl
  simp only [processExitRequest, ho, hpubkeyOffset, hpubkey, hnext, hword, r.word_mod,
    r.word_nodeOpId, r.word_moduleId, hkey, bind_eq_ok, require_eq_ok, pure_eq_ok,
    ExitRequestsLoop.lastNodeOpKey_select, ExitRequestsLoop.emitted_select]
  constructor
  · rintro ⟨_, hsorted, _, hmodule, _, hindex, rfl⟩
    rw [ExitRequestsLoop.lastRequestedVal_select (ExitRequest.nodeOpKey_ne hmodule)] at hindex
    refine ⟨hsorted, hmodule, hindex, ?_⟩
    rw [ExitRequestsLoop.after, ho]
    rfl
  · rintro ⟨hsorted, hmodule, hindex, rfl⟩
    rw [ExitRequestsLoop.lastRequestedVal_select (ExitRequest.nodeOpKey_ne hmodule)]
    refine ⟨(), hsorted, (), hmodule, (), hindex, ?_⟩
    rw [ExitRequestsLoop.after, ho]
    rfl

/-! ## All rounds -/

/-- The requests are acceptable one after the other, each for the mapping that it finds. -/
def AcceptsFrom : Nat → LastRequestedValidatorIndices → List ExitRequest → Prop
  | _, _, [] => True
  | last, stored, r :: requests =>
    last < r.word ∧ r.moduleId ≠ 0 ∧
    ((stored r.nodeOpKey).requested = true → (stored r.nodeOpKey).index < r.validatorIndex) ∧
    AcceptsFrom r.word (Function.update stored r.nodeOpKey r.requested) requests

/-- The mapping after some requests. -/
def requestAll (stored : LastRequestedValidatorIndices) (requests : List ExitRequest) :
    LastRequestedValidatorIndices :=
  requests.foldl (fun stored r => Function.update stored r.nodeOpKey r.requested) stored

/-- The loop is at a place of the data from which the requests follow. -/
structure AtRequests (data : CalldataBytes) (loop : ExitRequestsLoop)
    (requests : List ExitRequest) : Prop where
  le : data.offset ≤ loop.offset
  bytes : data.bytes.drop (loop.offset - data.offset) = requests.flatMap ExitRequest.encode

theorem AtRequests.offset_eq (h : AtRequests data loop requests)
    (hle : loop.offset ≤ data.offset + data.length) :
    loop.offset + 64 * requests.length = data.offset + data.length := by
  have hlength := congrArg List.length h.bytes
  have hle' := h.le
  rw [List.length_drop, data.length_bytes, ExitRequest.length_flatMap_encode] at hlength
  omega

theorem AtRequests.after (h : AtRequests data loop (r :: requests)) :
    AtRequests data (loop.after timestamp r) requests where
  le := Nat.le_add_right_of_le h.le
  bytes := by
    have hbytes := h.bytes
    rw [List.flatMap_cons] at hbytes
    have htail := (read_of_encode hbytes).2.2.2
    have hle := h.le
    rw [← htail]
    congr 1
    show loop.offset + 64 - data.offset = _
    omega

/-- What the loop has done with the requests. -/
structure Processed (timestamp : Nat) (requests : List ExitRequest)
    (loop loop' : ExitRequestsLoop) : Prop where
  flushed : loop'.flushed = requestAll loop.flushed requests
  emitted : loop'.emitted = loop.emitted ++ requests.map (ExitRequest.event timestamp)

/-- The condition of the loop. -/
abbrev BeforeEnd (data : CalldataBytes) (loop : ExitRequestsLoop) : Prop :=
  loop.offset < Yul.add data.offset data.length

theorem beforeEnd_iff : BeforeEnd data loop ↔ loop.offset < data.offset + data.length := by
  have hlength := data.length_lt
  have hoffset := data.offset_lt
  rw [BeforeEnd, Yul.add_of_lt (by omega)]

theorem AtRequests.beforeEnd (h : AtRequests data loop requests)
    (hle : loop.offset ≤ data.offset + data.length) : BeforeEnd data loop ↔ requests ≠ [] := by
  have hoffset := h.offset_eq hle
  rw [beforeEnd_iff, ← List.length_pos_iff]
  omega

/-- A loop that ends without a revert has accepted the requests, and has processed them. -/
theorem accepts_of_runs (h : AtRequests data loop requests)
    (hle : loop.offset ≤ data.offset + data.length)
    (hruns : Runs (BeforeEnd data) (processExitRequest data timestamp) loop loop') :
    AcceptsFrom loop.lastDataWithoutPubkey loop.flushed requests ∧
      Processed timestamp requests loop loop' := by
  induction requests generalizing loop with
  | nil =>
    cases hruns with
    | done _ => exact ⟨trivial, rfl, (List.append_nil _).symm⟩
    | round hcond _ _ => exact absurd rfl ((h.beforeEnd hle).mp hcond)
  | cons r requests ih =>
    cases hruns with
    | done hcond => exact absurd ((h.beforeEnd hle).mpr (List.cons_ne_nil _ _)) hcond
    | round _ hbody hruns =>
      have hbytes := h.bytes
      rw [List.flatMap_cons] at hbytes
      have hend := h.offset_eq hle
      obtain ⟨hsorted, hmodule, hindex, rfl⟩ :=
        (processExitRequest_eq_ok (by have := h.le; omega) hbytes).mp hbody
      have hflushed := ExitRequestsLoop.flushed_after loop timestamp hmodule
      rw [List.length_cons] at hend
      obtain ⟨haccepts, hprocessed⟩ := ih h.after
        (by show loop.offset + 64 ≤ data.offset + data.length; omega) hruns
      rw [hflushed] at haccepts
      refine ⟨⟨hsorted, hmodule, hindex, haccepts⟩, ?_, ?_⟩
      · rw [hprocessed.flushed, hflushed]
        rfl
      · rw [hprocessed.emitted, List.map_cons]
        exact List.append_assoc _ _ _

/-- Acceptable requests are processed to the end. -/
theorem exists_runs_of_accepts (h : AtRequests data loop requests)
    (hle : loop.offset ≤ data.offset + data.length)
    (haccepts : AcceptsFrom loop.lastDataWithoutPubkey loop.flushed requests) :
    ∃ loop', Runs (BeforeEnd data) (processExitRequest data timestamp) loop loop' := by
  induction requests generalizing loop with
  | nil => exact ⟨loop, .done fun hcond => absurd rfl ((h.beforeEnd hle).mp hcond)⟩
  | cons r requests ih =>
    obtain ⟨hsorted, hmodule, hindex, haccepts⟩ := haccepts
    have hbytes := h.bytes
    rw [List.flatMap_cons] at hbytes
    have hend := h.offset_eq hle
    rw [List.length_cons] at hend
    have hround : processExitRequest data timestamp loop = .ok (loop.after timestamp r) :=
      (processExitRequest_eq_ok (by have := h.le; omega) hbytes).mpr
        ⟨hsorted, hmodule, hindex, rfl⟩
    rw [← ExitRequestsLoop.flushed_after loop timestamp hmodule] at haccepts
    obtain ⟨loop', hruns⟩ := ih
      (show AtRequests data (loop.after timestamp r) requests from h.after)
      (by show loop.offset + 64 ≤ data.offset + data.length; omega) haccepts
    exact ⟨loop', .round ((h.beforeEnd hle).mpr (List.cons_ne_nil _ _)) hround hruns⟩

/-! ## What is accepted -/

/-- The requests are sorted, and they go on after what was requested before. -/
structure Accepted (stored : LastRequestedValidatorIndices) (requests : List ExitRequest) :
    Prop where
  sorted : requests.Pairwise fun r r' => r.key < r'.key
  moduleId_ne : ∀ r ∈ requests, r.moduleId ≠ 0
  /-- the first request of a node operator -/
  increases : ∀ moduleId nodeOpId r,
    requests.find? (fun r => r.moduleId = moduleId ∧ r.nodeOpId = nodeOpId) = some r →
    (stored (computeNodeOpKey moduleId nodeOpId)).requested = true →
    (stored (computeNodeOpKey moduleId nodeOpId)).index < r.validatorIndex

variable {stored : LastRequestedValidatorIndices} {last : Nat}

/-- With the same node operator, the larger key has the larger index. -/
theorem index_lt_of_word_lt {r r' : ExitRequest} (h : r.word < r'.word)
    (hkey : r.nodeOpKey = r'.nodeOpKey) : r.validatorIndex < r'.validatorIndex := by
  rw [r.word_eq, r'.word_eq, hkey] at h
  omega

theorem acceptsFrom_iff : AcceptsFrom last stored requests ↔
    (∀ r ∈ requests, last < r.word) ∧ requests.Pairwise (fun r r' => r.key < r'.key) ∧
    (∀ r ∈ requests, r.moduleId ≠ 0) ∧
    ∀ key r, requests.find? (fun r => r.nodeOpKey = key) = some r →
      (stored key).requested = true → (stored key).index < r.validatorIndex := by
  induction requests generalizing last stored with
  | nil => simp [AcceptsFrom]
  | cons r requests ih =>
    simp only [AcceptsFrom, ih, List.forall_mem_cons, List.pairwise_cons, ← r.word_lt_iff]
    constructor
    · rintro ⟨hlast, hmodule, hindex, hafter, hsorted, hmodules, hrest⟩
      refine ⟨⟨hlast, fun r' hr' => hlast.trans (hafter r' hr')⟩, ⟨hafter, hsorted⟩,
        ⟨hmodule, hmodules⟩, fun key r' hfind hreq => ?_⟩
      by_cases hkey : r.nodeOpKey = key
      · rw [List.find?_cons_of_pos (by simpa using hkey)] at hfind
        cases hfind
        subst hkey
        exact hindex hreq
      · rw [List.find?_cons_of_neg (by simpa using hkey)] at hfind
        have hstored := hrest key r' hfind
        rw [Function.update_of_ne (Ne.symm hkey)] at hstored
        exact hstored hreq
    · rintro ⟨⟨hlast, -⟩, ⟨hafter, hsorted⟩, ⟨hmodule, hmodules⟩, hfirst⟩
      refine ⟨hlast, hmodule, fun hreq => ?_, hafter, hsorted, hmodules,
        fun key r' hfind hreq => ?_⟩
      · exact hfirst r.nodeOpKey r (List.find?_cons_of_pos (by simp)) hreq
      · by_cases hkey : r.nodeOpKey = key
        · have hr' := List.find?_some hfind
          have hmem := List.mem_of_find?_eq_some hfind
          subst hkey
          rw [Function.update_self]
          exact index_lt_of_word_lt (hafter r' hmem) (of_decide_eq_true hr').symm
        · rw [Function.update_of_ne (Ne.symm hkey)] at hreq ⊢
          exact hfirst key r' ((List.find?_cons_of_neg (by simpa using hkey)).trans hfind) hreq

theorem find_nodeOpKey (requests : List ExitRequest) {moduleId nodeOpId : Nat}
    (h : nodeOpId < 2 ^ 40) :
    requests.find? (fun r => r.nodeOpKey = computeNodeOpKey moduleId nodeOpId) =
      requests.find? (fun r => r.moduleId = moduleId ∧ r.nodeOpId = nodeOpId) := by
  congr 1
  funext r
  exact decide_eq_decide.mpr (computeNodeOpKey_inj r.nodeOpId_lt h)

theorem accepted_iff : Accepted stored requests ↔ AcceptsFrom 0 stored requests := by
  rw [acceptsFrom_iff]
  constructor
  · intro h
    refine ⟨fun r hr => ?_, h.sorted, h.moduleId_ne, fun key r hfind hreq => ?_⟩
    · have hmodule := h.moduleId_ne r hr
      unfold ExitRequest.word
      omega
    · have hfound := List.find?_some hfind
      have hkey : r.nodeOpKey = key := of_decide_eq_true hfound
      subst hkey
      rw [ExitRequest.nodeOpKey, find_nodeOpKey requests r.nodeOpId_lt] at hfind
      exact h.increases r.moduleId r.nodeOpId r hfind hreq
  · rintro ⟨-, hsorted, hmodules, hfirst⟩
    refine ⟨hsorted, hmodules, fun moduleId nodeOpId r hfind hreq => ?_⟩
    have hfound := List.find?_some hfind
    have hlt : nodeOpId < 2 ^ 40 := (of_decide_eq_true hfound).2 ▸ r.nodeOpId_lt
    exact hfirst _ r ((find_nodeOpKey requests hlt).trans hfind) hreq

/-- What is stored for a node operator is its last request. -/
theorem requestAll_eq (stored : LastRequestedValidatorIndices) (requests : List ExitRequest)
    (key : Nat) :
    requestAll stored requests key =
      match requests.reverse.find? fun r => r.nodeOpKey = key with
      | some r => r.requested
      | none => stored key := by
  induction requests using List.reverseRecOn with
  | nil => rfl
  | append_singleton requests r ih =>
    rw [List.reverse_append, List.reverse_singleton, List.singleton_append]
    by_cases hkey : r.nodeOpKey = key
    · rw [List.find?_cons_of_pos (by simpa using hkey), requestAll, List.foldl_append, ← hkey]
      exact Function.update_self _ _ _
    · rw [List.find?_cons_of_neg (by simpa using hkey), ← ih, requestAll, List.foldl_append]
      exact Function.update_of_ne (Ne.symm hkey) _ _

/--
The list of requests is processed within as many rounds as it has bytes; it is accepted exactly if
the requests are acceptable, and then they are all written and emitted.
-/
theorem exists_processExitRequestsList (data : CalldataBytes) (timestamp : Nat)
    (stored : LastRequestedValidatorIndices) (hbytes : data.bytes = requests.flatMap ExitRequest.encode) :
    ∃ outcome, (∀ rounds, data.length < rounds →
        processExitRequestsList data timestamp stored rounds = some outcome) ∧
      ((∃ result, outcome = .ok result) ↔ Accepted stored requests) ∧
      ∀ result, outcome = .ok result →
        result = (requestAll stored requests, requests.map (ExitRequest.event timestamp)) := by
  have hlength := data.length_lt
  have hoffset := data.offset_lt
  -- every round moves the offset by the length of a request, so the loop ends
  have hdec : ∀ loop loop', BeforeEnd data loop →
      processExitRequest data timestamp loop = .ok loop' →
      data.offset + data.length - loop'.offset < data.offset + data.length - loop.offset := by
    intro loop loop' hcond hround
    rw [beforeEnd_iff] at hcond
    simp only [processExitRequest, bind_eq_ok, require_eq_ok, pure_eq_ok] at hround
    obtain ⟨_, _, _, _, _, _, rfl⟩ := hround
    simp only
    rw [Yul.add_of_lt (by omega)]
    omega
  let start : ExitRequestsLoop := ⟨data.offset, 0, 0, ⟨false, 0⟩, stored, []⟩
  have hat : AtRequests data start requests := by
    refine ⟨Nat.le_refl _, ?_⟩
    rw [← hbytes, Nat.sub_self, List.drop_zero]
  have hle : start.offset ≤ data.offset + data.length := Nat.le_add_right _ _
  have hstart : start.flushed = stored := rfl
  obtain ⟨outcome, hrounds, hruns⟩ := exists_whileLoop
    (fun loop => data.offset + data.length - loop.offset) hdec start
  refine ⟨outcome.map fun loop => (loop.flushed, loop.emitted), fun rounds hlt => ?_, ?_, ?_⟩
  · rw [processExitRequestsList, hrounds rounds (by simp only [start]; omega)]
    rfl
  · rw [accepted_iff]
    constructor
    · rintro ⟨_, hok⟩
      obtain ⟨loop, hloop, -⟩ := map_eq_ok.mp hok
      exact (accepts_of_runs hat hle ((hruns loop).mp hloop)).1
    · intro haccepts
      obtain ⟨loop, hloop⟩ : ∃ loop,
          Runs (BeforeEnd data) (processExitRequest data timestamp) start loop :=
        exists_runs_of_accepts hat hle haccepts
      exact ⟨_, map_eq_ok.mpr ⟨loop, (hruns loop).mpr hloop, rfl⟩⟩
  · intro result hok
    obtain ⟨loop, hloop, rfl⟩ := map_eq_ok.mp hok
    have hprocessed := (accepts_of_runs hat hle ((hruns loop).mp hloop)).2
    rw [hprocessed.flushed, hprocessed.emitted, hstart]
    rfl

end ValidatorsExitBusOracle

end Catalist

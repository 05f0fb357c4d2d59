import Catalist.Lib.Rotation
import Catalist.Oracle.QuorumSafety
import Mathlib.Data.Fintype.Card

/-!
# The fast lane

In the first part of a frame only the fast lane members may report: a window of `quorum` members
that moves on by one member with each frame. `_isFastLaneMember` tests whether a member is in the
window, and `_getMembers` lists it. The two are computed separately, and they agree; no member is
listed twice; and in as many frames in a row as there are members, everybody gets `quorum` turns.

The tables of members are kept by every call, so this holds in any state of any run.
-/

namespace Catalist

open Solidity IndexTable Transition

namespace HashConsensus

variable (c : HashConsensus)

/-! ## Lists of members -/

/--
The loop of `_getMembers`: the addresses and last reported slots of as many members, from the
index `i` on. The index is taken modulo the number of members.
-/
def membersFrom (totalMembers : Nat) : Nat → Nat → Call OracleError (List Address × List Nat)
  | 0, _ => return ([], [])
  | count + 1, i => do
    let iModTotal ← checkedMod i totalMembers
    let memberState ← getIndex c.memberStates iModTotal
    let address ← getIndex c.memberAddresses iModTotal
    let (addresses, lastReportedRefSlots) ← membersFrom totalMembers count (i + 1)
    return (address :: addresses, memberState.lastReportRefSlot :: lastReportedRefSlots)

/-- The part of `_getMembers` after the range of indices is known. -/
def membersBetween (left right : Nat) : Call OracleError (List Address × List Nat) := do
  let count ← checkedSub right left
  c.membersFrom c.memberStates.length count left

/-- The fast lane members of the frame with an index. -/
def fastLaneMembersAt (frameIndex : Nat) : Call OracleError (List Address × List Nat) := do
  let (left, right) ← c.getFastLaneSubset frameIndex c.memberStates.length
  c.membersBetween left right

/-- `_getMembers` -/
def getMembersInternal (env : Env) (fastLane : Bool) :
    Call OracleError (List Address × List Nat) := do
  if fastLane = true then
    let frame ← c.getCurrentFrame env
    c.fastLaneMembersAt frame.index
  else c.membersBetween 0 c.memberStates.length

/-- `getMembers`: all members, with the last slot that each of them reported for. -/
def getMembers (env : Env) : Call OracleError (List Address × List Nat) :=
  c.getMembersInternal env false

/-- `getFastLaneMembers`: the fast lane members of the current frame. -/
def getFastLaneMembers (env : Env) : Call OracleError (List Address × List Nat) :=
  c.getMembersInternal env true

/-- `getIsFastLaneMember`: whether an address is a fast lane member of the current frame. -/
def getIsFastLaneMember (env : Env) (addr : Address) : Call OracleError Bool := do
  let index1b := c.memberIndices1b addr
  if 0 < index1b then
    let frame ← c.getCurrentFrame env
    c.isFastLaneMember (index1b - 1) frame.index
  else return false

/-! ## The tables -/

/-- Each member has an index and a state. -/
structure Enrolled (c : HashConsensus) : Prop where
  indexed : Indexed c.memberAddresses c.memberIndices1b
  lengths : c.memberStates.length = c.memberAddresses.length

/-- Another contract with the same members and frames. -/
structure SameMembers (c c' : HashConsensus) : Prop where
  chain : c'.chain = c.chain
  frameConfig : c'.frameConfig = c.frameConfig
  addresses : c'.memberAddresses = c.memberAddresses
  indices : c'.memberIndices1b = c.memberIndices1b
  length : c'.memberStates.length = c.memberStates.length

variable {c} {c' c'' : HashConsensus}

theorem SameMembers.trans (h : SameMembers c c') (h' : SameMembers c' c'') : SameMembers c c'' where
  chain := h'.chain.trans h.chain
  frameConfig := h'.frameConfig.trans h.frameConfig
  addresses := h'.addresses.trans h.addresses
  indices := h'.indices.trans h.indices
  length := h'.length.trans h.length

theorem SameMembers.enrolled (h : SameMembers c c') (he : Enrolled c) : Enrolled c' where
  indexed := by
    rw [h.addresses, h.indices]
    exact he.indexed
  lengths := by rw [h.addresses, h.length, he.lengths]

theorem SameMembers.slotsFit {now : Nat} (h : SameMembers c c') (hfit : c.SlotsFit now) :
    c'.SlotsFit now := by
  simpa only [SlotsFit, h.chain, h.frameConfig] using hfit

end HashConsensus

namespace ConsensusSystem

open HashConsensus

variable {s s' : ConsensusSystem} {env : Env} {frame : ConsensusFrame} {report : Hash}

/-! ## What calls do to the tables -/

theorem sameMembers_consensusReached {i : Nat} (h : s.consensusReached env frame report i = .ok s') :
    SameMembers s.consensus s'.consensus := by
  rcases consensusReached_ok_cases h with ⟨-, -, rfl⟩ | ⟨_, _, -, rfl⟩
  · exact ⟨rfl, rfl, rfl, rfl, rfl⟩
  · exact ⟨rfl, rfl, rfl, rfl, rfl⟩

theorem sameMembers_consensusNotReached (h : s.consensusNotReached env frame = .ok s') :
    SameMembers s.consensus s'.consensus := by
  rcases consensusNotReached_ok_cases h with ⟨-, rfl⟩ | ⟨-, _, -, rfl⟩
  · exact ⟨rfl, rfl, rfl, rfl, rfl⟩
  · exact ⟨rfl, rfl, rfl, rfl, rfl⟩

theorem sameMembers_setQuorumAndCheckConsensus {quorum totalMembers : Nat}
    (hfit : s.consensus.SlotsFit env.timestamp)
    (h : s.setQuorumAndCheckConsensus env quorum totalMembers = .ok s') :
    SameMembers s.consensus s'.consensus := by
  have hquorum : SameMembers s.consensus (s.withQuorum quorum).consensus :=
    ⟨rfl, rfl, rfl, rfl, rfl⟩
  obtain ⟨-, ⟨-, rfl⟩ | hcheck⟩ := setQuorumAndCheckConsensus_ok_cases h
  · exact hquorum
  · obtain ⟨frame, -, ⟨-, rfl⟩ | ⟨-, ⟨i, -, -, -, hreached⟩ | ⟨-, hnot⟩⟩⟩ :=
      checkConsensus_ok_cases (hquorum.slotsFit hfit) hcheck
    · exact hquorum
    · exact hquorum.trans (sameMembers_consensusReached hreached)
    · exact hquorum.trans (sameMembers_consensusNotReached hnot)

theorem sameMembers_submitReport {slot version : Nat}
    (h : s.submitReport env slot report version = .ok s') :
    SameMembers s.consensus s'.consensus := by
  obtain ⟨frame, -, -, ⟨-, rfl⟩ | ⟨-, -, k, m, v, c', -, -, -, -, -, hcounted, hcases⟩⟩ :=
    submitReport_ok_cases h
  · exact ⟨rfl, rfl, rfl, rfl, rfl⟩
  · have hreport : SameMembers s.consensus c' := by
      rw [hcounted.tables]
      exact ⟨rfl, rfl, rfl, rfl, List.length_set⟩
    rcases hcases with ⟨-, hreached⟩ | ⟨-, ⟨-, -, hnot⟩ | ⟨-, rfl⟩⟩
    · exact hreport.trans (sameMembers_consensusReached hreached)
    · exact hreport.trans (sameMembers_consensusNotReached hnot)
    · exact hreport

theorem enrolled_addMember {addr : Address} {quorum : Nat} (he : Enrolled s.consensus)
    (hfit : s.consensus.SlotsFit env.timestamp) (h : s.addMember env addr quorum = .ok s') :
    Enrolled s'.consensus ∧ s'.consensus.SlotsFit env.timestamp := by
  obtain ⟨hnew, h⟩ := addMember_ok_cases h
  have hsame := sameMembers_setQuorumAndCheckConsensus (by exact hfit) h
  refine ⟨hsame.enrolled ⟨?_, ?_⟩, hsame.slotsFit hfit⟩
  · rw [he.lengths]
    exact he.indexed.push hnew
  · simp [he.lengths]

theorem enrolled_removeMember {addr : Address} {quorum : Nat} (he : Enrolled s.consensus)
    (hfit : s.consensus.SlotsFit env.timestamp) (h : s.removeMember env addr quorum = .ok s') :
    Enrolled s'.consensus ∧ s'.consensus.SlotsFit env.timestamp := by
  obtain ⟨index, last, m, s₁, haddr, hlast, hm, hcancel, hcheck⟩ :=
    removeMember_ok_cases he.lengths he.indexed h
  have hindex := (List.getElem?_eq_some_iff.mp haddr).1
  have hwithout : Enrolled (s.consensus.withoutMember addr last index) :=
    ⟨he.indexed.swapRemove haddr hlast, lengths_withoutMember he.lengths hindex⟩
  have hcancelled : SameMembers (s.consensus.withoutMember addr last index) s₁.consensus := by
    rcases cancelMemberReport_ok_cases hcancel with
      ⟨-, rfl⟩ | ⟨_, -, ⟨-, -, -, rfl⟩ | ⟨-, rfl⟩⟩
    · exact ⟨rfl, rfl, rfl, rfl, rfl⟩
    · exact ⟨rfl, rfl, rfl, rfl, rfl⟩
    · exact ⟨rfl, rfl, rfl, rfl, rfl⟩
  have hfit₁ : s₁.consensus.SlotsFit env.timestamp := hcancelled.slotsFit hfit
  have hsame := hcancelled.trans (sameMembers_setQuorumAndCheckConsensus hfit₁ hcheck)
  exact ⟨hsame.enrolled hwithout, hsame.slotsFit hfit⟩

theorem enrolled_of_contractCall (he : Enrolled s.consensus)
    (hfit : s.consensus.SlotsFit env.timestamp) (h : ContractCall env s s') :
    Enrolled s'.consensus ∧ s'.consensus.SlotsFit env.timestamp := by
  cases h with
  | addMember h => exact enrolled_addMember he hfit h
  | removeMember h => exact enrolled_removeMember he hfit h
  | setQuorum h =>
    have hsame := sameMembers_setQuorumAndCheckConsensus hfit h
    exact ⟨hsame.enrolled he, hsame.slotsFit hfit⟩
  | disableConsensus h =>
    have hsame := sameMembers_setQuorumAndCheckConsensus hfit h
    exact ⟨hsame.enrolled he, hsame.slotsFit hfit⟩
  | submitReport h =>
    have hsame := sameMembers_submitReport h
    exact ⟨hsame.enrolled he, hsame.slotsFit hfit⟩

/-- The tables of members are kept in every run, whichever processors are attached. -/
theorem enrolled_of_reachable {Guard : ConsensusSystem → Env → Address → Prop} {now : Nat}
    (hreach : Reachable Fresh (ReplacingStep Guard) (s, now)) : Enrolled s.consensus := by
  refine (@Reachable.invariant _ _ _
    (fun x => Enrolled x.1.consensus ∧ x.1.consensus.SlotsFit x.2) ?_ ?_ _ hreach).1
  · intro x hfresh
    obtain ⟨hinv, hfit⟩ := inv_of_fresh hfresh
    exact ⟨⟨hinv.kept.indexed, hinv.kept.lengths⟩, hfit⟩
  · rintro x y ⟨he, hfit⟩ hs
    cases hs with
    | call hcall => exact enrolled_of_contractCall he hfit hcall
    | clock hclock =>
      obtain ⟨config, hasRole, hconsensus⟩ := hclock.reframed.consensus
      refine ⟨?_, hclock.guard⟩
      rw [hconsensus]
      exact ⟨he.indexed, he.lengths⟩
    | process hle => exact ⟨he, hfit⟩
    | setReportProcessor _ hset =>
      obtain ⟨_, -, ⟨-, -, -, _, rfl, -⟩ | rfl⟩ := setReportProcessor_ok_cases hset
      · exact ⟨⟨he.indexed, he.lengths⟩, hfit⟩
      · exact ⟨⟨he.indexed, he.lengths⟩, hfit⟩

end ConsensusSystem

namespace HashConsensus

variable {c : HashConsensus} {f i : Nat}

/-! ## The loop -/

theorem length_le_of_nodup {addresses : List Address} (h : addresses.Nodup) :
    addresses.length ≤ 2 ^ 160 := by
  have hcard := (h.map (f := BitVec.toFin) fun _ _ => BitVec.toFin_inj.mp).length_le_card
  rwa [List.length_map, Fintype.card_fin] at hcard

/-- What the loop lists, by position. -/
theorem membersFrom_eq (hlengths : c.memberStates.length = c.memberAddresses.length)
    (hpos : 0 < c.memberStates.length) (count i : Nat) :
    ∃ addresses slots, c.membersFrom c.memberStates.length count i = .ok (addresses, slots) ∧
      addresses.map some =
        (Rotation.window c.memberStates.length i count).map (c.memberAddresses[·]?) ∧
      slots.map some = (Rotation.window c.memberStates.length i count).map fun k =>
        c.memberStates[k]?.map MemberState.lastReportRefSlot := by
  induction count generalizing i with
  | zero => exact ⟨[], [], rfl, rfl, rfl⟩
  | succ count ih =>
    obtain ⟨addresses, slots, hrest, haddresses, hslots⟩ := ih (i + 1)
    have hstate : i % c.memberStates.length < c.memberStates.length := Nat.mod_lt _ hpos
    have haddress : i % c.memberStates.length < c.memberAddresses.length := hlengths ▸ hstate
    refine ⟨c.memberAddresses[i % c.memberStates.length] :: addresses,
      c.memberStates[i % c.memberStates.length].lastReportRefSlot :: slots, ?_, ?_, ?_⟩
    · rw [membersFrom, checkedMod_of hpos.ne', ok_bind, getIndex_of hstate, ok_bind,
        getIndex_of haddress, ok_bind, hrest, ok_bind]
      rfl
    · rw [Rotation.window_succ, List.map_cons, List.map_cons, haddresses,
        List.getElem?_eq_getElem haddress]
    · rw [Rotation.window_succ, List.map_cons, List.map_cons, hslots,
        List.getElem?_eq_getElem hstate]
      rfl

/-! ## The window of a frame -/

/-- The index that the fast lane begins at. -/
def fastLaneStart (c : HashConsensus) (frameIndex : Nat) : Nat :=
  if c.memberStates.length ≤ c.quorum then 0 else frameIndex % c.memberStates.length

theorem fastLaneStart_lt (hpos : 0 < c.memberStates.length) (f : Nat) :
    c.fastLaneStart f < c.memberStates.length := by
  unfold fastLaneStart
  split
  · exact hpos
  · exact Nat.mod_lt f hpos

/-- Everybody is in the fast lane if the quorum asks for it, wherever the lane begins. -/
theorem offset_fastLaneStart_lt_iff (hi : i < c.memberStates.length) :
    Rotation.offset c.memberStates.length (c.fastLaneStart f) i < min c.quorum c.memberStates.length
      ↔ Rotation.offset c.memberStates.length (f % c.memberStates.length) i
          < min c.quorum c.memberStates.length := by
  have hpos : 0 < c.memberStates.length := Nat.lt_of_le_of_lt (Nat.zero_le i) hi
  unfold fastLaneStart
  split
  · next hle =>
    rw [Nat.min_eq_right hle]
    exact iff_of_true (Rotation.offset_lt hpos) (Rotation.offset_lt (Nat.mod_lt f hpos))
  · rfl

theorem Enrolled.length_le (h : Enrolled c) : c.memberStates.length ≤ 2 ^ 160 := by
  rw [h.lengths]
  exact length_le_of_nodup h.indexed.nodup

theorem getFastLaneSubset_eq (h : Enrolled c) (hpos : 0 < c.memberStates.length) (f : Nat) :
    c.getFastLaneSubset f c.memberStates.length = .ok (c.fastLaneStart f,
      c.fastLaneStart f + min c.quorum c.memberStates.length) := by
  have hbound := h.length_le
  unfold getFastLaneSubset fastLaneStart
  split
  · next hle =>
    rw [Nat.min_eq_right hle, Nat.zero_add]
    rfl
  · next hlt =>
    have hmod := Nat.mod_lt f hpos
    rw [checkedMod_of hpos.ne', ok_bind, checkedAdd_of (by omega), ok_bind,
      Nat.min_eq_left (by omega)]
    rfl

/-- The test on the circle, for a window that is neither empty nor longer than the circle. -/
theorem pointInClosedIntervalModN_eq {n l w : Nat} (hn : n ≤ 2 ^ 160) (hl : l < n) (hw : 0 < w)
    (hwn : w ≤ n) (hi : i < n) :
    pointInClosedIntervalModN i l (l + w - 1) n = .ok (decide (Rotation.offset n l i < w)) := by
  have hspan : l + w - 1 - l = w - 1 := by omega
  unfold pointInClosedIntervalModN
  rw [checkedAdd_of (by omega), ok_bind, checkedSub_of (by omega), ok_bind,
    checkedMod_of (by omega), ok_bind, checkedSub_of (by omega), ok_bind, checkedMod_of (by omega),
    ok_bind, hspan, Nat.mod_eq_of_lt (by omega : w - 1 < n)]
  have hiff : (i + n - l) % n ≤ w - 1 ↔ Rotation.offset n l i < w := by
    unfold Rotation.offset
    omega
  simp only [hiff]
  rfl

theorem isFastLaneMember_eq (h : Enrolled c) (hquorum : 0 < c.quorum)
    (hi : i < c.memberStates.length) (f : Nat) :
    c.isFastLaneMember i f = .ok (decide (Rotation.offset c.memberStates.length (c.fastLaneStart f) i
      < min c.quorum c.memberStates.length)) := by
  have hpos : 0 < c.memberStates.length := Nat.lt_of_le_of_lt (Nat.zero_le i) hi
  have hwidth : 0 < min c.quorum c.memberStates.length := Nat.lt_min.mpr ⟨hquorum, hpos⟩
  simp only [isFastLaneMember, getFastLaneSubset_eq h hpos, ok_bind]
  rw [if_neg (by omega)]
  exact pointInClosedIntervalModN_eq h.length_le (fastLaneStart_lt hpos f) hwidth
    (Nat.min_le_right _ _) hi

/-! ## The list of a frame -/

/-- The list of a frame, and whom it names. -/
theorem fastLaneMembersAt_eq (h : Enrolled c) (hpos : 0 < c.memberStates.length) (f : Nat) :
    ∃ addresses slots, c.fastLaneMembersAt f = .ok (addresses, slots) ∧
      addresses.map some = (Rotation.window c.memberStates.length (c.fastLaneStart f)
        (min c.quorum c.memberStates.length)).map (c.memberAddresses[·]?) := by
  obtain ⟨addresses, slots, hlist, haddresses, -⟩ := membersFrom_eq h.lengths hpos
    (min c.quorum c.memberStates.length) (c.fastLaneStart f)
  refine ⟨addresses, slots, ?_, haddresses⟩
  simp only [fastLaneMembersAt, membersBetween, getFastLaneSubset_eq h hpos, ok_bind]
  rw [checkedSub_of (Nat.le_add_right _ _), ok_bind, Nat.add_sub_cancel_left]
  exact hlist

/-- A list of positions without repetition names different members. -/
theorem nodup_of_positions {ps : List Nat} {addresses : List Address} (h : Enrolled c)
    (hps : ps.Nodup) (hlt : ∀ k ∈ ps, k < c.memberAddresses.length)
    (heq : addresses.map some = ps.map (c.memberAddresses[·]?)) : addresses.Nodup := by
  refine List.Nodup.of_map some ?_
  rw [heq]
  refine hps.map_on ?_
  intro k hk k' hk' hsame
  exact (List.getElem?_inj (hlt k hk) h.indexed.nodup).mp hsame

/-- A member is named exactly if its position is listed. -/
theorem mem_of_positions {ps : List Nat} {addresses : List Address} (h : Enrolled c)
    (heq : addresses.map some = ps.map (c.memberAddresses[·]?))
    (hi : i < c.memberAddresses.length) : c.memberAddresses[i] ∈ addresses ↔ i ∈ ps := by
  have hmem : c.memberAddresses[i] ∈ addresses ↔
      some c.memberAddresses[i] ∈ addresses.map some := by simp
  rw [hmem, heq, List.mem_map]
  constructor
  · rintro ⟨k, hk, hsame⟩
    rw [← List.getElem?_eq_getElem hi] at hsame
    obtain rfl := (List.getElem?_inj hi h.indexed.nodup).mp hsame.symm
    exact hk
  · intro hk
    exact ⟨i, hk, List.getElem?_eq_getElem hi⟩

/-- The members of the list are those that pass the test. -/
theorem isFastLaneMember_iff_mem {addresses : List Address} (h : Enrolled c)
    (hquorum : 1 ≤ c.quorum) (heq : addresses.map some =
      (Rotation.window c.memberStates.length (c.fastLaneStart f)
        (min c.quorum c.memberStates.length)).map (c.memberAddresses[·]?))
    (hi : i < c.memberAddresses.length) :
    c.isFastLaneMember i f = .ok (decide (c.memberAddresses[i] ∈ addresses)) := by
  have hi' : i < c.memberStates.length := h.lengths ▸ hi
  have hstart := fastLaneStart_lt (Nat.lt_of_le_of_lt (Nat.zero_le i) hi') f
  rw [isFastLaneMember_eq h hquorum hi' f]
  refine congrArg Except.ok (decide_eq_decide.mpr ?_)
  rw [mem_of_positions h heq hi, Rotation.mem_window hstart (Nat.min_le_right _ _) hi']

/-- Fairness, over as many frames as there are members. -/
theorem card_fastLane_turns (h : Enrolled c) (hquorum : 1 ≤ c.quorum)
    (hi : i < c.memberStates.length) (first : Nat) :
    ((Finset.Ico first (first + c.memberStates.length)).filter fun f =>
      c.isFastLaneMember i f = .ok true).card = min c.quorum c.memberStates.length := by
  have hturns := Rotation.card_turns hi (Nat.min_le_right c.quorum c.memberStates.length) first
  rw [← hturns]
  refine congrArg Finset.card (Finset.filter_congr fun f _ => ?_)
  rw [isFastLaneMember_eq h hquorum hi f, Except.ok.injEq, decide_eq_true_eq]
  exact offset_fastLaneStart_lt_iff hi

theorem getFastLaneMembers_eq {env : Env} {frame : ConsensusFrame}
    (hframe : c.getCurrentFrame env = .ok frame) :
    c.getFastLaneMembers env = c.fastLaneMembersAt frame.index := by
  simp only [getFastLaneMembers, getMembersInternal, if_true, hframe, ok_bind]

/-- A member that asks is told what the list says. -/
theorem getIsFastLaneMember_eq {env : Env} {frame : ConsensusFrame} {addresses : List Address}
    {slots : List Nat} {addr : Address} (h : Enrolled c) (hquorum : 1 ≤ c.quorum)
    (haddr : addr ∈ c.memberAddresses) (hframe : c.getCurrentFrame env = .ok frame)
    (hlist : c.getFastLaneMembers env = .ok (addresses, slots)) :
    c.getIsFastLaneMember env addr = .ok (decide (addr ∈ addresses)) := by
  obtain ⟨i, hi, rfl⟩ := List.mem_iff_getElem.mp haddr
  have hpos : 0 < c.memberStates.length := h.lengths ▸ Nat.lt_of_le_of_lt (Nat.zero_le i) hi
  have hindex : c.memberIndices1b c.memberAddresses[i] = i + 1 :=
    (h.indexed _ i).mpr (List.getElem?_eq_getElem hi)
  obtain ⟨addresses', slots', hlist', heq⟩ := fastLaneMembersAt_eq h hpos frame.index
  obtain ⟨rfl, rfl⟩ : addresses' = addresses ∧ slots' = slots := by
    rw [getFastLaneMembers_eq hframe, hlist'] at hlist
    simpa using hlist
  simp only [getIsFastLaneMember, hindex, hframe, ok_bind]
  rw [if_pos (Nat.succ_pos i), Nat.add_sub_cancel]
  exact isFastLaneMember_iff_mem h hquorum heq hi

/--
**The fast lane is exact and fair.** In each frame the list of the fast lane has `quorum`
different members, or all of them, and they are those that pass the test. In as many frames in a
row as there are members, each member is in the fast lane of as many frames as a list is long.
-/
theorem fastLane_exact (h : Enrolled c) (hmembers : 1 ≤ c.memberAddresses.length)
    (hquorum : 1 ≤ c.quorum) :
    (∀ f, ∃ addresses slots, c.fastLaneMembersAt f = .ok (addresses, slots) ∧
      (∀ env frame, c.getCurrentFrame env = .ok frame → frame.index = f →
        c.getMembersInternal env true = .ok (addresses, slots)) ∧
      addresses.length = min c.quorum c.memberAddresses.length ∧ addresses.Nodup ∧
      addresses ⊆ c.memberAddresses ∧
      ∀ i (hi : i < c.memberAddresses.length),
        c.isFastLaneMember i f = .ok (decide (c.memberAddresses[i] ∈ addresses))) ∧
    ∀ first, ∀ i < c.memberAddresses.length,
      ((Finset.Ico first (first + c.memberAddresses.length)).filter fun f =>
        c.isFastLaneMember i f = .ok true).card = min c.quorum c.memberAddresses.length := by
  have hpos : 0 < c.memberStates.length := h.lengths ▸ hmembers
  refine ⟨fun f => ?_, fun first i hi => ?_⟩
  · obtain ⟨addresses, slots, hlist, heq⟩ := fastLaneMembersAt_eq h hpos f
    refine ⟨addresses, slots, hlist, ?_, ?_, ?_, ?_, ?_⟩
    · rintro env frame hframe rfl
      exact (getFastLaneMembers_eq hframe).trans hlist
    · have hlength := congrArg List.length heq
      simpa [h.lengths] using hlength
    · refine nodup_of_positions h
        (Rotation.nodup_window (fastLaneStart_lt hpos f) (Nat.min_le_right _ _)) ?_ heq
      intro k hk
      rw [← h.lengths]
      exact Rotation.lt_of_mem_window hpos hk
    · intro a ha
      have hsome : some a ∈ addresses.map some := List.mem_map_of_mem ha
      rw [heq, List.mem_map] at hsome
      obtain ⟨k, -, hk⟩ := hsome
      exact List.mem_of_getElem? hk
    · intro i hi
      exact isFastLaneMember_iff_mem h hquorum heq hi
  · rw [← h.lengths] at hi ⊢
    exact card_fastLane_turns h hquorum hi first

/-- The three members of a run with a quorum of two, in frame 7 and over three frames. -/
theorem fastLane_exact_three :
    (∃ addresses slots,
      ConsensusSystem.exampleSubmitted.consensus.fastLaneMembersAt 7 = .ok (addresses, slots) ∧
      addresses.length = 2 ∧ addresses.Nodup) ∧
    ((Finset.Ico 7 10).filter fun f =>
      ConsensusSystem.exampleSubmitted.consensus.isFastLaneMember 1 f = .ok true).card = 2 := by
  have henrolled := ConsensusSystem.enrolled_of_reachable
    (ConsensusSystem.reachable_exampleSubmitted fun _ _ _ => True)
  have hlength : ConsensusSystem.exampleSubmitted.consensus.memberAddresses.length = 3 := by
    decide +kernel
  have hquorum : ConsensusSystem.exampleSubmitted.consensus.quorum = 2 := by decide +kernel
  obtain ⟨hframes, hturns⟩ := fastLane_exact henrolled (by omega) (by omega)
  obtain ⟨addresses, slots, hlist, -, hcount, hnodup, -⟩ := hframes 7
  rw [hlength] at hturns hcount
  rw [hquorum] at hturns hcount
  exact ⟨⟨addresses, slots, hlist, hcount, hnodup⟩, hturns 7 1 (by decide)⟩

end HashConsensus

end Catalist

import Catalist.Guardians.DepositSecurityModule
import Catalist.Lib.Certificate
import Catalist.Lib.IndexTable
import Catalist.Lib.Outcome

/-!
# The committee of guardians

The guardians are listed without duplicates, and `guardianIndicesOneBased` maps each to its position
plus one and everything else to zero, whatever is added or removed (`Listed.run`). So the signatures
that `_verifySignatures` accepts, whose signers ascend, are those of as many different guardians
(`certifies_of_verify`).
-/

namespace Catalist

open Solidity ByteBuffer IndexTable Certificate

/-- The calls of the deposit security module that change it. -/
inductive GuardianCall where
  | setOwner (newOwner : Address)
  | removeOwner (owner : Address)
  | setMaxDeposits (newValue : Nat)
  | setMinDepositBlockDistance (newValue : Nat)
  | setGuardianQuorum (newValue : Nat)
  | addGuardian (addr : Address) (newQuorum : Nat)
  | addGuardians (addresses : List Address) (newQuorum : Nat)
  | removeGuardian (addr : Address) (newQuorum : Nat)

namespace DepositSecurityModule

variable {s s' : DepositSecurityModule} {env : Env}

def run (s : DepositSecurityModule) (env : Env) :
    GuardianCall → Call SecurityError DepositSecurityModule
  | .setOwner newOwner => s.setOwner env newOwner
  | .removeOwner owner => s.removeOwner env owner
  | .setMaxDeposits newValue => s.setMaxDeposits env newValue
  | .setMinDepositBlockDistance newValue => s.setMinDepositBlockDistance env newValue
  | .setGuardianQuorum newValue => s.setGuardianQuorum env newValue
  | .addGuardian addr newQuorum => s.addGuardian env addr newQuorum
  | .addGuardians addresses newQuorum => s.addGuardians env addresses newQuorum
  | .removeGuardian addr newQuorum => s.removeGuardian env addr newQuorum

/-! ## The tables -/

/-- The list of the guardians and their positions belong together. -/
def Listed (s : DepositSecurityModule) : Prop :=
  Indexed s.guardians s.guardianIndicesOneBased

/-- A call that returns leaves the tables together; it may revert in any way. -/
abbrev Keeps (x : Call SecurityError DepositSecurityModule) : Prop :=
  Ensures (fun _ => True) x Listed

theorem ensures_checked {c : Prop} [Decidable c] {e : SecurityError} :
    Ensures (fun _ => True) (require c e) fun _ => c :=
  ensures_require trivial

theorem isGuardian_iff (h : s.Listed) {addr : Address} :
    s.isGuardian addr = true ↔ addr ∈ s.guardians := by
  rw [isGuardian, decide_eq_true_iff, h.mem_iff]
  exact Nat.pos_iff_ne_zero

theorem Listed.pushGuardian (h : s.Listed) (addr : Address) : Keeps (s.pushGuardian addr) := by
  refine ensures_checked.bind fun _ _ => ?_
  refine ensures_checked.bind fun _ hnew => ensures_pure ?_
  have hfree : s.guardianIndicesOneBased addr = 0 := by
    simp only [isGuardian, decide_eq_false_iff_not] at hnew
    omega
  unfold Listed
  simp only [List.length_append, List.length_singleton]
  exact h.push hfree

theorem Listed.addGuardiansLoop (h : s.Listed) (addresses : List Address) :
    Keeps (s.addGuardiansLoop addresses) := by
  induction addresses generalizing s with
  | nil => exact ensures_pure h
  | cons addr addresses ih => exact (h.pushGuardian addr).bind fun _ hpushed => ih hpushed

/-- Both branches of `removeGuardian` leave the list without the guardian. -/
theorem indexed_moveLastGuardian (h : s.Listed) {addr : Address} {index : Nat}
    (haddr : s.guardians[index]? = some addr)
    (hmove : s.moveLastGuardian (index + 1) s.guardians.length = .ok s') :
    Indexed s'.guardians.dropLast (Function.update s'.guardianIndicesOneBased addr 0) := by
  obtain ⟨hindex, -⟩ := List.getElem?_eq_some_iff.mp haddr
  obtain ⟨last, hlast⟩ : ∃ last, s.guardians[s.guardians.length - 1]? = some last :=
    ⟨_, List.getElem?_eq_getElem (by omega)⟩
  have hremoved := h.swapRemove haddr hlast
  unfold moveLastGuardian at hmove
  by_cases hne : index + 1 ≠ s.guardians.length
  · rw [if_pos hne] at hmove
    simp only [bind_eq_ok, getIndex_eq_ok, setIndex_eq_ok, pure_eq_ok] at hmove
    obtain ⟨addrToMove, hmoved, _, ⟨-, rfl⟩, rfl⟩ := hmove
    rw [hlast, Option.some.injEq] at hmoved
    subst hmoved
    show Indexed (s.guardians.set index last).dropLast _
    rw [swapRemove_of_getLast hlast]
    exact hremoved
  · rw [if_neg hne] at hmove
    obtain rfl := pure_eq_ok.mp hmove
    -- the guardian is the last one: moving it onto itself changes nothing
    have hposition : index = s.guardians.length - 1 := by omega
    subst hposition
    obtain rfl : addr = last := Option.some.inj (haddr.symm.trans hlast)
    rw [← swapRemove_of_getLast hlast, set_of_getElem? hlast,
      (h addr _).mpr haddr |>.symm, Function.update_eq_self] at hremoved
    exact hremoved

theorem Listed.removeGuardian (h : s.Listed) (addr : Address) (newQuorum : Nat) :
    Keeps (s.removeGuardian env addr newQuorum) := by
  refine ensures_checked.bind fun _ _ => ?_
  refine ensures_checked.bind fun _ hguardian => ?_
  refine (ensures_assertion trivial).bind fun _ _ => ?_
  obtain ⟨index, hindex⟩ := Nat.exists_eq_succ_of_ne_zero hguardian
  have haddr : s.guardians[index]? = some addr := (h addr index).mp hindex
  rw [hindex]
  have hmove : Ensures (fun _ => True) (s.moveLastGuardian (index + 1) s.guardians.length)
      fun s' => Indexed s'.guardians.dropLast (Function.update s'.guardianIndicesOneBased addr 0) :=
    ⟨fun heq => indexed_moveLastGuardian h haddr heq, fun _ => trivial⟩
  exact hmove.bind fun _ hmoved => ensures_pure hmoved

/-- **Every call keeps the tables.** -/
theorem Listed.run (h : s.Listed) (call : GuardianCall) : Keeps (s.run env call) := by
  cases call with
  | setOwner newOwner =>
    exact ensures_checked.bind fun _ _ => ensures_checked.bind fun _ _ => ensures_pure h
  | removeOwner owner => exact ensures_checked.bind fun _ _ => ensures_pure h
  | setMaxDeposits newValue => exact ensures_checked.bind fun _ _ => ensures_pure h
  | setMinDepositBlockDistance newValue =>
    exact ensures_checked.bind fun _ _ => ensures_checked.bind fun _ _ => ensures_pure h
  | setGuardianQuorum newValue => exact ensures_checked.bind fun _ _ => ensures_pure h
  | addGuardian addr newQuorum =>
    refine ensures_checked.bind fun _ _ => ?_
    exact (h.pushGuardian addr).bind fun _ hpushed => ensures_pure hpushed
  | addGuardians addresses newQuorum =>
    refine ensures_checked.bind fun _ _ => ?_
    exact (h.addGuardiansLoop addresses).bind fun _ hadded => ensures_pure hadded
  | removeGuardian addr newQuorum => exact h.removeGuardian addr newQuorum

/-! ## The signatures -/

variable {crypto : Crypto} {msgHash : BitVec 256}

/-- What it means here that a signature recovers to an account. -/
def Recovers (crypto : Crypto) (msgHash : BitVec 256) (sig : Signature) (addr : Address) : Prop :=
  ECDSA.recover crypto msgHash sig.r sig.vs = .ok addr

theorem certifies_of_loop (h : s.Listed) {sigs : List Signature} {prevSignerAddr : Address}
    (hloop : s.verifySignaturesLoop crypto msgHash sigs prevSignerAddr = .ok ()) :
    ∃ signers, Certifies (Recovers crypto msgHash) sigs signers ∧
      ∀ a ∈ signers, prevSignerAddr < a ∧ a ∈ s.guardians := by
  induction sigs generalizing prevSignerAddr with
  | nil => exact ⟨[], .nil, fun a ha => absurd ha List.not_mem_nil⟩
  | cons sig sigs ih =>
    simp only [verifySignaturesLoop, bind_eq_ok, within_eq_ok, require_eq_ok] at hloop
    obtain ⟨signerAddr, hrecover, _, hguardian, _, hsorted, hrest⟩ := hloop
    obtain ⟨signers, hcertifies, hsigners⟩ := ih hrest
    refine ⟨signerAddr :: signers, hcertifies.cons hrecover fun b hb => (hsigners b hb).1, ?_⟩
    intro a ha
    rcases List.mem_cons.mp ha with rfl | ha
    · exact ⟨hsorted, (isGuardian_iff h).mp hguardian⟩
    · exact ⟨BitVec.lt_trans hsorted (hsigners a ha).1, (hsigners a ha).2⟩

/-- **Accepted signatures certify** their hash by guardians. -/
theorem certifies_of_verify (h : s.Listed) {depositRoot blockHash : BitVec 256}
    {blockNumber stakingModuleId nonce : Nat} {sigs : List Signature}
    (hverify : s.verifySignatures crypto depositRoot blockNumber blockHash stakingModuleId nonce
      sigs = .ok ()) :
    ∃ signers, Certifies (Recovers crypto (crypto.keccak256
        (s.attestMessage blockNumber blockHash depositRoot stakingModuleId nonce))) sigs signers ∧
      ∀ a ∈ signers, a ∈ s.guardians := by
  obtain ⟨signers, hcertifies, hsigners⟩ := certifies_of_loop h hverify
  exact ⟨signers, hcertifies, fun a ha => (hsigners a ha).2⟩

/-- Messages with different deposit roots differ. -/
theorem depositRoot_of_attestMessage {blockHash blockHash' depositRoot depositRoot' : BitVec 256}
    {blockNumber blockNumber' id id' nonce nonce' : Nat}
    (h : s.attestMessage blockNumber blockHash depositRoot id nonce
      = s'.attestMessage blockNumber' blockHash' depositRoot' id' nonce') :
    depositRoot = depositRoot' := by
  unfold attestMessage at h
  have hid := (List.append_inj' h (by simp)).1
  have hroot := (List.append_inj' hid (by simp)).1
  exact bytesOfWord_injective (List.append_inj' hroot (by simp)).2

/-- What `depositBufferedAce` has checked when it calls the pool. -/
theorem checkDeposit_eq_ok {env : SecurityEnv} {router : StakingRouter}
    {world : ModuleWorld DepositContract} {args : DepositArgs}
    (h : s.checkDeposit crypto env router world args = .ok ()) :
    s.quorum ≠ 0 ∧ s.quorum ≤ args.sortedGuardianSignatures.length ∧
      args.depositRoot = world.depositContract.getDepositRoot crypto.sha256 ∧
      args.blockHash ≠ 0 ∧ env.blockhash args.blockNumber = args.blockHash ∧
      (router.getStakingModuleNonce world.getNonce args.stakingModuleId :
        Call (RouterError (CalleeError DepositContractError)) Nat) = .ok args.nonce ∧
      s.verifySignatures crypto args.depositRoot args.blockNumber args.blockHash
        args.stakingModuleId args.nonce args.sortedGuardianSignatures = .ok () := by
  simp only [checkDeposit, bind_eq_ok, require_eq_ok, within_eq_ok, not_or, Nat.not_lt] at h
  obtain ⟨_, ⟨hquorum, hsigs⟩, _, hroot, _, -, _, -, _, -, _, -, _, -, _, ⟨hzero, hblock⟩, _,
    hnonce, _, hsame, hverify⟩ := h
  exact ⟨hquorum, hsigs, hroot, hzero, hblock, hsame ▸ hnonce, hverify⟩

end DepositSecurityModule

end Catalist

import Catalist.Guardians.DepositContract
import Catalist.Lib.History
import Catalist.Lib.MerkleTree

/-!
# The deposit tree

The deposit contract over whole runs, from its constructor on. It stores one branch of the tree, but
its root is the one of the tree of depth 32 over all deposits that were made
(`depositRoot_eq_treeRoot`), so it commits to them (`depositRoot_commits`).
-/

namespace Catalist

open Solidity ByteBuffer Transition

/-- A call of `deposit`, with its value. -/
structure DepositCall where
  value : Nat
  pubkey : Bytes
  withdrawalCredentials : Bytes
  signature : Bytes
  depositDataRoot : BitVec 256
deriving DecidableEq, Repr

namespace DepositContract

variable (sha256 : Bytes → BitVec 256)

/-- The parent of two nodes. -/
def hashPair (a b : BitVec 256) : BitVec 256 := sha256 (bytesOfWord a ++ bytesOfWord b)

/-- A height below the last one. -/
def lower (i : Fin (DEPOSIT_CONTRACT_TREE_DEPTH - 1)) : Height := ⟨i, by omega⟩

/-- The height above it. -/
def upper (i : Fin (DEPOSIT_CONTRACT_TREE_DEPTH - 1)) : Height := ⟨i + 1, by omega⟩

/-- The loop of the constructor, over the heights that are left. -/
def zeroHashesLoop :
    List (Fin (DEPOSIT_CONTRACT_TREE_DEPTH - 1)) → (Height → BitVec 256) → Height → BitVec 256
  | [], zeroHashes => zeroHashes
  | i :: heights, zeroHashes =>
    zeroHashesLoop heights (Function.update zeroHashes (upper i)
      (sha256 (bytesOfWord (zeroHashes (lower i)) ++ bytesOfWord (zeroHashes (lower i)))))

/-- The constructor -/
def construct : DepositContract where
  branch := fun _ => 0
  depositCount := 0
  zeroHashes := zeroHashesLoop sha256 (List.finRange _) fun _ => 0

/-- `get_deposit_count` -/
def getDepositCount (c : DepositContract) : Bytes := toLittleEndian64 c.depositCount

/-- The steps of a run. -/
inductive Performs : DepositContract → DepositCall → DepositContract → Prop where
  | deposit {c c' : DepositContract} {d : DepositCall} :
      c.deposit sha256 d.value d.pubkey d.withdrawalCredentials d.signature d.depositDataRoot
        = .ok c' → Performs c d c'

/-- The runs of a contract, with the deposits that were made. -/
def Runs (w : Recorded DepositContract DepositCall) : Prop :=
  Reachable (Recorded.Starts (· = construct sha256)) (Recorded.Acts (Performs sha256)) w

/-! ## The tree of the deposits -/

/-- The node that `deposit` computes. -/
def leaf (d : DepositCall) : BitVec 256 :=
  Catalist.depositDataRoot sha256 d.pubkey d.withdrawalCredentials
    (toLittleEndian64 (d.value / 10 ^ 9)) d.signature

/-- The root of the whole tree over a list of leaves. -/
def treeRoot (leaves : List (BitVec 256)) : BitVec 256 :=
  MerkleTree.root (hashPair sha256) 0 DEPOSIT_CONTRACT_TREE_DEPTH leaves

/-- What is hashed last for a list of leaves: the root, with their number. -/
def treePreimage (leaves : List (BitVec 256)) : Bytes :=
  bytesOfWord (treeRoot sha256 leaves) ++ toLittleEndian64 leaves.length ++ zeros 24

/-- The calls that pass the checks of their arguments. -/
structure Accepted (d : DepositCall) : Prop where
  pubkey : d.pubkey.length = 48
  withdrawalCredentials : d.withdrawalCredentials.length = 32
  signature : d.signature.length = 96
  low : 10 ^ 18 ≤ d.value
  multiple : d.value % 10 ^ 9 = 0
  high : d.value / 10 ^ 9 ≤ 2 ^ 64 - 1
  root : leaf sha256 d = d.depositDataRoot

/-- The contract holds the branch of the tree over the leaves. -/
structure Represents (c : DepositContract) (leaves : List (BitVec 256)) : Prop where
  depositCount : c.depositCount = leaves.length
  fits : leaves.length ≤ MAX_DEPOSIT_COUNT
  zeroHashes : ∀ height, c.zeroHashes height
    = MerkleTree.blankNode (hashPair sha256) 0 height.val
  branch : MerkleTree.Remembers (hashPair sha256) 0 c.branch leaves

variable {sha256} {c c' : DepositContract} {leaves : List (BitVec 256)} {d d' : DepositCall}

/-- The induction is over the heights that are left; what comes before them is computed. -/
theorem zeroHashesLoop_eq {heights : List (Fin (DEPOSIT_CONTRACT_TREE_DEPTH - 1))} {h : Nat}
    {zeroHashes : Height → BitVec 256}
    (hheights : heights.map Fin.val = List.range' h heights.length)
    (hend : h + heights.length = DEPOSIT_CONTRACT_TREE_DEPTH - 1)
    (hbefore : ∀ height : Height, height.val ≤ h →
      zeroHashes height = MerkleTree.blankNode (hashPair sha256) 0 height.val) (height : Height) :
    zeroHashesLoop sha256 heights zeroHashes height
      = MerkleTree.blankNode (hashPair sha256) 0 height.val := by
  induction heights generalizing h zeroHashes with
  | nil =>
    refine hbefore height ?_
    have hlt := height.isLt
    rw [List.length_nil] at hend
    omega
  | cons i heights ih =>
    rw [List.map_cons, List.length_cons, List.range'_succ, List.cons.injEq] at hheights
    obtain ⟨hi, htail⟩ := hheights
    rw [List.length_cons] at hend
    refine ih htail (by omega) fun height hle => ?_
    rcases eq_or_ne height (upper i) with rfl | hne
    · rw [Function.update_self, hbefore (lower i) hi.le]
      rfl
    · rw [Function.update_of_ne hne]
      have hval : height.val ≠ i.val + 1 := fun heq => hne (Fin.ext heq)
      exact hbefore height (by omega)

theorem represents_construct : Represents sha256 (construct sha256) [] where
  depositCount := rfl
  fits := Nat.zero_le _
  zeroHashes := by
    refine zeroHashesLoop_eq (h := 0) ?_ (by simp) fun height hle => ?_
    · rw [List.map_coe_finRange_eq_range, List.length_finRange, List.range_eq_range']
    · rw [Nat.le_zero.mp hle]
      rfl
  branch := MerkleTree.remembers_nil

/-- The induction is over the heights that are left, up from the first place without a leaf. -/
theorem rootLoop_eq (hr : Represents sha256 c leaves) {heights : List Height} {h : Nat}
    (hheights : heights.map Fin.val = List.range' h heights.length) :
    c.rootLoop sha256 heights (leaves.length / 2 ^ h)
        (MerkleTree.level (hashPair sha256) (MerkleTree.leafOf 0 leaves) h (leaves.length / 2 ^ h))
      = MerkleTree.level (hashPair sha256) (MerkleTree.leafOf 0 leaves) (h + heights.length)
          (leaves.length / 2 ^ (h + heights.length)) := by
  induction heights generalizing h with
  | nil => rfl
  | cons height heights ih =>
    rw [List.map_cons, List.length_cons, List.range'_succ, List.cons.injEq] at hheights
    obtain ⟨hheight, htail⟩ := hheights
    have hhalf : leaves.length / 2 ^ h / 2 = leaves.length / 2 ^ (h + 1) := by
      rw [Nat.div_div_eq_div_mul, Nat.pow_succ]
    have hup := MerkleTree.level_succ_of_remembers hr.branch height hheight
    have hlater := ih htail
    rw [hup] at hlater
    rw [rootLoop, hhalf, hr.zeroHashes, hheight, List.length_cons, Nat.add_comm heights.length,
      ← Nat.add_assoc]
    split at hlater
    · next hbit =>
      rw [if_pos hbit]
      exact hlater
    · next hbit =>
      rw [if_neg hbit]
      exact hlater

/-- **The root is that of the whole tree.** -/
theorem Represents.rootPreimage_eq (hr : Represents sha256 c leaves) :
    c.rootPreimage sha256 = treePreimage sha256 leaves := by
  have hheights : (List.finRange DEPOSIT_CONTRACT_TREE_DEPTH).map Fin.val
      = List.range' 0 (List.finRange DEPOSIT_CONTRACT_TREE_DEPTH).length := by
    rw [List.map_coe_finRange_eq_range, List.length_finRange, List.range_eq_range']
  have hloop := rootLoop_eq hr hheights
  have hblank : MerkleTree.leafOf (0 : BitVec 256) leaves leaves.length = 0 :=
    MerkleTree.leafOf_of_le (Nat.le_refl _)
  have hfits := hr.fits
  have hlt : leaves.length < 2 ^ DEPOSIT_CONTRACT_TREE_DEPTH := by
    unfold MAX_DEPOSIT_COUNT at hfits
    have hpos := Nat.two_pow_pos DEPOSIT_CONTRACT_TREE_DEPTH
    omega
  rw [Nat.pow_zero, Nat.div_one, MerkleTree.level, hblank, Nat.zero_add, List.length_finRange,
    Nat.div_eq_of_lt hlt] at hloop
  rw [rootPreimage, hr.depositCount, hloop]
  rfl

/-! ## Insertion -/

/--
The induction is over the heights that are left; the node that is carried up is the last complete
subtree of the tree with the new leaf.
-/
theorem represents_insertLoop (hr : Represents sha256 c leaves) {x : BitVec 256}
    (hfits : leaves.length < MAX_DEPOSIT_COUNT) {heights : List Height} {h : Nat}
    (hheights : heights.map Fin.val = List.range' h heights.length)
    (hdvd : 2 ^ h ∣ leaves.length + 1)
    (hinsert : insertLoop sha256 { c with depositCount := c.depositCount + 1 } heights
      ((leaves.length + 1) / 2 ^ h)
      (MerkleTree.level (hashPair sha256) (MerkleTree.leafOf 0 (leaves ++ [x])) h
        ((leaves.length + 1) / 2 ^ h - 1)) = .ok c') :
    Represents sha256 c' (leaves ++ [x]) := by
  induction heights generalizing h with
  | nil => cases hinsert
  | cons height heights ih =>
    rw [List.map_cons, List.length_cons, List.range'_succ, List.cons.injEq] at hheights
    obtain ⟨rfl, htail⟩ := hheights
    unfold insertLoop at hinsert
    split at hinsert
    · next hodd =>
      obtain rfl := pure_eq_ok.mp hinsert
      have hlength : (leaves ++ [x]).length = leaves.length + 1 := by simp
      exact {
        depositCount := by rw [hlength, hr.depositCount]
        fits := by
          rw [hlength]
          exact hfits
        zeroHashes := hr.zeroHashes
        branch := MerkleTree.remembers_concat hr.branch height hdvd hodd }
    · next heven =>
      obtain ⟨hdvd', hcarry⟩ := MerkleTree.carry_succ (x := x) hr.branch height rfl hdvd heven
      have hhalf : (leaves.length + 1) / 2 ^ height.val / 2
          = (leaves.length + 1) / 2 ^ (height.val + 1) := by
        rw [Nat.div_div_eq_div_mul, Nat.pow_succ]
      refine ih htail hdvd' ?_
      rw [← hcarry, ← hhalf]
      exact hinsert

/-- What a deposit has checked, and what it does. -/
theorem deposit_eq_ok : c.deposit sha256 d.value d.pubkey d.withdrawalCredentials d.signature
      d.depositDataRoot = .ok c' ↔
    Accepted sha256 d ∧ c.depositCount < MAX_DEPOSIT_COUNT ∧
      insertLoop sha256 { c with depositCount := c.depositCount + 1 } (List.finRange _)
        (c.depositCount + 1) (leaf sha256 d) = .ok c' := by
  simp only [deposit, bind_eq_ok, require_eq_ok]
  constructor
  · rintro ⟨_, hpubkey, _, hcredentials, _, hsignature, _, hlow, _, hmultiple, _, hhigh, _, hroot, _,
      hfull, hinsert⟩
    exact ⟨⟨hpubkey, hcredentials, hsignature, hlow, hmultiple, hhigh, hroot⟩, hfull, hinsert⟩
  · rintro ⟨hd, hfull, hinsert⟩
    exact ⟨(), hd.pubkey, (), hd.withdrawalCredentials, (), hd.signature, (), hd.low, (), hd.multiple,
      (), hd.high, (), hd.root, (), hfull, hinsert⟩

/-- A deposit adds its leaf to the tree. -/
theorem Represents.deposit (hr : Represents sha256 c leaves) (h : Performs sha256 c d c') :
    Represents sha256 c' (leaves ++ [leaf sha256 d]) := by
  obtain ⟨hdeposit⟩ := h
  obtain ⟨-, hfull, hinsert⟩ := deposit_eq_ok.mp hdeposit
  rw [hr.depositCount] at hfull
  have hheights : (List.finRange DEPOSIT_CONTRACT_TREE_DEPTH).map Fin.val
      = List.range' 0 (List.finRange DEPOSIT_CONTRACT_TREE_DEPTH).length := by
    rw [List.map_coe_finRange_eq_range, List.length_finRange, List.range_eq_range']
  refine represents_insertLoop hr hfull hheights (one_dvd _) ?_
  rw [Nat.pow_zero, Nat.div_one, Nat.add_sub_cancel, MerkleTree.level,
    MerkleTree.leafOf_concat_length]
  rw [hr.depositCount] at hinsert ⊢
  exact hinsert

theorem exists_deposit (hr : Represents sha256 c leaves) (hd : Accepted sha256 d)
    (hfits : leaves.length < MAX_DEPOSIT_COUNT) : ∃ c', Performs sha256 c d c' := by
  have hlt : c.depositCount + 1 < 2 ^ (List.finRange DEPOSIT_CONTRACT_TREE_DEPTH).length := by
    rw [List.length_finRange, hr.depositCount]
    unfold MAX_DEPOSIT_COUNT at hfits
    omega
  obtain ⟨c', hinsert⟩ := exists_insertLoop { c with depositCount := c.depositCount + 1 }
    (leaf sha256 d) (Nat.succ_pos c.depositCount) hlt
  exact ⟨c', ⟨deposit_eq_ok.mpr ⟨hd, hr.depositCount ▸ hfits, hinsert⟩⟩⟩

/-! ## Runs -/

/-- The deposits of a run. -/
def calls (w : Recorded DepositContract DepositCall) : List DepositCall :=
  w.history.map Moment.action

variable {w w' : Recorded DepositContract DepositCall}

theorem represents_of_runs (h : Runs sha256 w) :
    Represents sha256 w.state ((calls w).map (leaf sha256)) := by
  induction h with
  | init h0 =>
    rw [h0.1, calls, h0.2]
    exact represents_construct
  | step _ hs ih =>
    obtain ⟨hperforms⟩ := hs
    have hnext := ih.deposit hperforms
    simpa only [calls, Recorded.record, List.map_append, List.map_cons, List.map_nil] using hnext

/-- Only calls with accepted arguments are in the history. -/
theorem accepted_of_runs (h : Runs sha256 w) : ∀ d ∈ calls w, Accepted sha256 d := by
  induction h with
  | init h0 =>
    rw [calls, h0.2]
    exact fun d hd => absurd hd List.not_mem_nil
  | step _ hs ih =>
    obtain ⟨⟨hdeposit⟩⟩ := hs
    intro d hd
    simp only [calls, Recorded.record, List.map_append, List.map_cons, List.map_nil,
      List.mem_append, List.mem_singleton] at hd
    rcases hd with hd | rfl
    · exact ih d hd
    · exact (deposit_eq_ok.mp hdeposit).1

/--
**The stored branch stands for the whole tree.** In every run from the constructor on, the root that
the contract answers is the hash of the root of the tree of depth 32 over the data of all deposits,
in their order and followed by zeros, with their number. A deposit with accepted arguments goes
through exactly as long as the tree is not full; so the assertion at the end of the loop never fails.
-/
theorem depositRoot_eq_treeRoot (h : Runs sha256 w) :
    w.state.depositCount = w.history.length ∧
    w.state.getDepositCount = toLittleEndian64 w.history.length ∧
    w.state.getDepositRoot sha256 = sha256 (treePreimage sha256 ((calls w).map (leaf sha256))) ∧
    ∀ d, (∃ c', Performs sha256 w.state d c') ↔
      Accepted sha256 d ∧ w.history.length < MAX_DEPOSIT_COUNT := by
  have hr := represents_of_runs h
  have hcount : w.state.depositCount = w.history.length := by
    rw [hr.depositCount, calls, List.length_map, List.length_map]
  refine ⟨hcount, by rw [getDepositCount, hcount], by rw [getDepositRoot, hr.rootPreimage_eq],
    fun d => ⟨?_, ?_⟩⟩
  · rintro ⟨c', ⟨hdeposit⟩⟩
    obtain ⟨hd, hfull, -⟩ := deposit_eq_ok.mp hdeposit
    exact ⟨hd, hcount ▸ hfull⟩
  · rintro ⟨hd, hfull⟩
    refine exists_deposit hr hd ?_
    rwa [← hr.depositCount, hcount]

def exampleUnsignedDeposit (key : Byte) : DepositCall where
  value := 32 * 10 ^ 18
  pubkey := List.replicate 48 key
  withdrawalCredentials := List.replicate 32 2
  signature := List.replicate 96 3
  depositDataRoot := 0

def exampleDeposit (sha256 : Bytes → BitVec 256) (key : Byte) : DepositCall :=
  { exampleUnsignedDeposit key with
    depositDataRoot := leaf sha256 (exampleUnsignedDeposit key) }

theorem accepted_exampleDeposit (key : Byte) : Accepted sha256 (exampleDeposit sha256 key) where
  pubkey := rfl
  withdrawalCredentials := rfl
  signature := rfl
  low := show 10 ^ 18 ≤ 32 * 10 ^ 18 by decide
  multiple := show 32 * 10 ^ 18 % 10 ^ 9 = 0 by decide
  high := show 32 * 10 ^ 18 / 10 ^ 9 ≤ 2 ^ 64 - 1 by decide
  root := rfl

def exampleCall (sha256 : Bytes → BitVec 256) (key : Byte) (c : DepositContract) :
    Call DepositContractError DepositContract :=
  c.deposit sha256 (exampleDeposit sha256 key).value (exampleDeposit sha256 key).pubkey
    (exampleDeposit sha256 key).withdrawalCredentials (exampleDeposit sha256 key).signature
    (exampleDeposit sha256 key).depositDataRoot

theorem Runs.deposited {history : List (Moment DepositContract DepositCall)} {key : Byte}
    (h : Runs sha256 ⟨c, history⟩) (hdeposit : exampleCall sha256 key c = .ok c') :
    Runs sha256 ⟨c', history ++ [⟨c, exampleDeposit sha256 key, c'⟩]⟩ :=
  h.step (.act (.deposit hdeposit))

theorem runs_construct : Runs sha256 ⟨construct sha256, []⟩ := .init ⟨rfl, rfl⟩

def exampleFirst : DepositContract :=
  result (exampleCall exampleSha256 1 (construct exampleSha256)) (by decide +kernel)

def exampleSecond : DepositContract :=
  result (exampleCall exampleSha256 4 exampleFirst) (by decide +kernel)

/-- Two deposits, of different keys; a third one is accepted. -/
theorem depositRoot_eq_treeRoot_two :
    exampleSecond.depositCount = 2 ∧
    exampleSecond.getDepositRoot exampleSha256 = exampleSha256 (treePreimage exampleSha256
      [leaf exampleSha256 (exampleDeposit exampleSha256 1),
        leaf exampleSha256 (exampleDeposit exampleSha256 4)]) ∧
    ∃ c, Performs exampleSha256 exampleSecond (exampleDeposit exampleSha256 5) c := by
  have hfirst : exampleCall exampleSha256 1 (construct exampleSha256) = .ok exampleFirst :=
    eq_ok_result _ _
  have hsecond : exampleCall exampleSha256 4 exampleFirst = .ok exampleSecond := eq_ok_result _ _
  generalize exampleSecond = second, exampleFirst = first at *
  obtain ⟨hcount, -, hroot, haccepts⟩ :=
    depositRoot_eq_treeRoot ((runs_construct.deposited hfirst).deposited hsecond)
  refine ⟨hcount, hroot, (haccepts _).mpr ⟨accepted_exampleDeposit 5, ?_⟩⟩
  exact show 2 < MAX_DEPOSIT_COUNT by decide

/-! ## What the root commits to -/

/-- The strings that are hashed to the leaf of a deposit. -/
def strings (sha256 : Bytes → BitVec 256) (d : DepositCall) : List Bytes :=
  let pubkeyString := d.pubkey ++ zeros 16
  let signatureStrings := (d.signature.take 64, d.signature.drop 64 ++ zeros 32)
  let signatureString := bytesOfWord (sha256 signatureStrings.1) ++
    bytesOfWord (sha256 signatureStrings.2)
  let credentialsString := bytesOfWord (sha256 pubkeyString) ++ d.withdrawalCredentials
  let amountString := toLittleEndian64 (d.value / 10 ^ 9) ++ zeros 24 ++
    bytesOfWord (sha256 signatureString)
  [pubkeyString, signatureStrings.1, signatureStrings.2, signatureString, credentialsString,
    amountString, bytesOfWord (sha256 credentialsString) ++ bytesOfWord (sha256 amountString)]

/-- The strings that are hashed to the root of a tree of deposits. -/
inductive Hashed (sha256 : Bytes → BitVec 256) (ds : List DepositCall) : Bytes → Prop where
  | deposit {d : DepositCall} {string : Bytes} :
      d ∈ ds → string ∈ strings sha256 d → Hashed sha256 ds string
  | node {a b : BitVec 256} :
      MerkleTree.Joined (hashPair sha256) (MerkleTree.leafOf 0 (ds.map (leaf sha256)))
        DEPOSIT_CONTRACT_TREE_DEPTH a b → Hashed sha256 ds (bytesOfWord a ++ bytesOfWord b)
  | root : Hashed sha256 ds (treePreimage sha256 (ds.map (leaf sha256)))

/-- Without a collision, the leaf is that of one deposit only. -/
theorem call_eq_of_leaf_eq (hd : Accepted sha256 d) (hd' : Accepted sha256 d')
    (hinj : ∀ s ∈ strings sha256 d, ∀ t ∈ strings sha256 d', sha256 s = sha256 t → s = t)
    (h : leaf sha256 d = leaf sha256 d') : d = d' := by
  simp only [strings, List.forall_mem_cons, List.not_mem_nil, false_imp_iff, implies_true,
    and_true] at hinj
  obtain ⟨⟨hpubkey, -⟩, ⟨-, hfirst, -⟩, ⟨-, -, hlast, -⟩, ⟨-, -, -, hsignature, -⟩,
    ⟨-, -, -, -, hcredentials, -⟩, ⟨-, -, -, -, -, hamount, -⟩, ⟨-, -, -, -, -, -, hnode⟩⟩ := hinj
  -- from the leaf down, each hash has one string
  obtain ⟨hleft, hright⟩ := bytesOfWord_append_inj (hnode h)
  obtain ⟨hkeyRoot, hwc⟩ := bytesOfWord_append_inj (hcredentials hleft)
  have hkey := List.append_cancel_right (hpubkey hkeyRoot)
  obtain ⟨hfront, hsignatureRoot⟩ :=
    List.append_inj' (hamount (bytesOfWord_injective hright)) (by simp)
  obtain ⟨hfirstRoot, hlastRoot⟩ :=
    bytesOfWord_append_inj (hsignature (bytesOfWord_injective hsignatureRoot))
  have htake := hfirst hfirstRoot
  have hdrop := List.append_cancel_right (hlast (bytesOfWord_injective hlastRoot))
  have hsig : d.signature = d'.signature := by
    rw [← List.take_append_drop 64 d.signature, htake, hdrop, List.take_append_drop]
  have hgwei : d.value / 10 ^ 9 = d'.value / 10 ^ 9 := by
    have hhigh := hd.high
    have hhigh' := hd'.high
    exact toLittleEndian64_injOn (by omega) (by omega) (List.append_inj hfront (by simp)).1
  have hvalue : d.value = d'.value := by
    have hmultiple := hd.multiple
    have hmultiple' := hd'.multiple
    omega
  have hroot : d.depositDataRoot = d'.depositDataRoot := by rw [← hd.root, ← hd'.root, h]
  cases d
  cases d'
  simp only at hkey hwc hsig hvalue hroot
  rw [hkey, hwc, hsig, hvalue, hroot]

/--
**The root commits to the deposits.** If two runs end with the same root, the same deposits were
made in them, in the same order, or two of the strings that are hashed to these roots collide.
-/
theorem depositRoot_commits (h : Runs sha256 w) (h' : Runs sha256 w')
    (hroot : w.state.getDepositRoot sha256 = w'.state.getDepositRoot sha256) :
    calls w = calls w' ∨ ∃ s t, Hashed sha256 (calls w) s ∧ Hashed sha256 (calls w') t ∧
      s ≠ t ∧ sha256 s = sha256 t := by
  by_contra hcon
  obtain ⟨hdiffer, hcollision⟩ := not_or.mp hcon
  have hinj : ∀ s t, Hashed sha256 (calls w) s → Hashed sha256 (calls w') t →
      sha256 s = sha256 t → s = t := by
    intro s t hs ht heq
    by_contra hne
    exact hcollision ⟨s, t, hs, ht, hne, heq⟩
  have hr := represents_of_runs h
  have hr' := represents_of_runs h'
  rw [getDepositRoot, getDepositRoot, hr.rootPreimage_eq, hr'.rootPreimage_eq] at hroot
  -- the last string has the number of deposits and the root of the tree
  have hlast := hinj _ _ .root .root hroot
  unfold treePreimage at hlast
  have hfront := List.append_cancel_right hlast
  obtain ⟨htree, hnumber⟩ := List.append_inj hfront (by simp)
  have hmax : MAX_DEPOSIT_COUNT < 2 ^ 64 := by decide
  have hlength := toLittleEndian64_injOn (hr.fits.trans_lt hmax) (hr'.fits.trans_lt hmax) hnumber
  have hfit : ((calls w).map (leaf sha256)).length ≤ 2 ^ DEPOSIT_CONTRACT_TREE_DEPTH :=
    hr.fits.trans (Nat.sub_le _ _)
  have hleaves : (calls w).map (leaf sha256) = (calls w').map (leaf sha256) := by
    refine MerkleTree.eq_of_root_eq hlength hfit ?_ (bytesOfWord_injective htree)
    intro a b a' b' hjoined hjoined' heq
    obtain ⟨hleft, hright⟩ :=
      bytesOfWord_append_inj (hinj _ _ (.node hjoined) (.node hjoined') heq)
    exact ⟨hleft, bytesOfWord_injective hright⟩
  -- deposits with the same leaf are the same
  refine hdiffer (List.ext_getElem (by simpa using hlength) fun i hi hi' => ?_)
  have hmem := List.getElem_mem hi
  have hmem' := List.getElem_mem hi'
  refine call_eq_of_leaf_eq (accepted_of_runs h _ hmem) (accepted_of_runs h' _ hmem')
    (fun s hs t ht => hinj s t (.deposit hmem hs) (.deposit hmem' ht)) ?_
  have hsame := List.getElem_of_eq hleaves (i := i) (by simpa using hi)
  simpa only [List.getElem_map] using hsame

/-- A hash that keeps the last word of a string. -/
def exampleLastWord (bytes : Bytes) : BitVec 256 := BitVec.ofNat 256 (natOfBytes bytes)

/-- After deposits of different keys the roots are the same, so there is a collision. -/
theorem depositRoot_commits_collision :
    ∃ s t, Hashed exampleLastWord [exampleDeposit exampleLastWord 1] s ∧
      Hashed exampleLastWord [exampleDeposit exampleLastWord 4] t ∧ s ≠ t ∧
      exampleLastWord s = exampleLastWord t := by
  have hrun := runs_construct.deposited (eq_ok_result
    (exampleCall exampleLastWord 1 (construct exampleLastWord)) (by decide +kernel))
  have hrun' := runs_construct.deposited (eq_ok_result
    (exampleCall exampleLastWord 4 (construct exampleLastWord)) (by decide +kernel))
  exact (depositRoot_commits hrun hrun' (by decide +kernel)).resolve_left (by decide +kernel)

end DepositContract

end Catalist

import Catalist.Lib.Checked
import Catalist.Lib.Sums

/-!
# Min-first allocation

`MinFirstAllocationStrategy.sol`: an amount is given out among buckets with capacities, always to
the buckets with the least in them. The arrays are lists, read and written with bounds checks.

The additions are not checked in the source and exact here: by `allocateToBestCandidate_spec` and
`allocate_spec` no bucket is raised above its capacity and no more is allocated than was asked
for, so a word has room for the results.
-/

namespace Catalist

open Solidity Finset

namespace MinFirstAllocationStrategy

def MAX_UINT256 : Nat := 2 ^ 256 - 1

variable {ε : Type}

/-- `Math256.ceilDiv` -/
def ceilDiv (a b : Nat) : Call ε Nat := do
  if a = 0 then return 0
  else do
    let quotient ← checkedDiv (a - 1) b
    return quotient + 1

/-- The variables of the search for the least filled buckets. -/
structure Candidate where
  bestCandidateIndex : Nat
  bestCandidateAllocation : Nat
  bestCandidatesCount : Nat
deriving DecidableEq, Repr

section loops

variable (buckets capacities : List Nat)

/-- The first loop of `allocateToBestCandidate`, over the indices that are left. -/
def bestCandidateLoop : List Nat → Candidate → Call ε Candidate
  | [], c => return c
  | i :: is, c => do
    let bucket ← getIndex buckets i
    let capacity ← getIndex capacities i
    if capacity ≤ bucket then bestCandidateLoop is c
    else if bucket < c.bestCandidateAllocation then
      bestCandidateLoop is
        { bestCandidateIndex := i, bestCandidateAllocation := bucket, bestCandidatesCount := 1 }
    else if c.bestCandidateAllocation = bucket then
      bestCandidateLoop is { c with bestCandidatesCount := c.bestCandidatesCount + 1 }
    else bestCandidateLoop is c

/-- The second loop: the least filling above that of the best candidates. -/
def upperBoundLoop (bestCandidateAllocation : Nat) : List Nat → Nat → Call ε Nat
  | [], upperBound => return upperBound
  | j :: js, upperBound => do
    let bucket ← getIndex buckets j
    let capacity ← getIndex capacities j
    if capacity ≤ bucket then upperBoundLoop bestCandidateAllocation js upperBound
    else if bestCandidateAllocation < bucket ∧ bucket < upperBound then
      upperBoundLoop bestCandidateAllocation js bucket
    else upperBoundLoop bestCandidateAllocation js upperBound

/-- The equal share of the best candidates. -/
def allocationShare (allocationSize bestCandidatesCount : Nat) : Call ε Nat :=
  if 1 < bestCandidatesCount then ceilDiv allocationSize bestCandidatesCount
  else return allocationSize

/-- `allocateToBestCandidate`; the source changes the buckets in place. -/
def allocateToBestCandidate (allocationSize : Nat) : Call ε (List Nat × Nat) := do
  if allocationSize = 0 then return (buckets, 0)
  else do
    let best ← bestCandidateLoop buckets capacities (List.range buckets.length)
      { bestCandidateIndex := buckets.length
        bestCandidateAllocation := MAX_UINT256
        bestCandidatesCount := 0 }
    if best.bestCandidatesCount = 0 then return (buckets, 0)
    else do
      let upperBound ← upperBoundLoop buckets capacities best.bestCandidateAllocation
        (List.range buckets.length) MAX_UINT256
      let share ← allocationShare allocationSize best.bestCandidatesCount
      let capacity ← getIndex capacities best.bestCandidateIndex
      let allocated := min share (min upperBound capacity - best.bestCandidateAllocation)
      let bucket ← getIndex buckets best.bestCandidateIndex
      let buckets ← setIndex buckets best.bestCandidateIndex (bucket + allocated)
      return (buckets, allocated)

end loops

/-- The loop of `allocate`, after `allocated` was given out. -/
def allocateLoop (capacities : List Nat) (allocationSize : Nat) (buckets : List Nat)
    (allocated : Nat) : Call ε (List Nat × Nat) :=
  if allocated < allocationSize then do
    let (buckets, allocatedToBestCandidate) ←
      allocateToBestCandidate buckets capacities (allocationSize - allocated)
    if allocatedToBestCandidate = 0 then return (buckets, allocated)
    else allocateLoop capacities allocationSize buckets (allocated + allocatedToBestCandidate)
  else return (buckets, allocated)
termination_by allocationSize - allocated

/-- `allocate` -/
def allocate (buckets capacities : List Nat) (allocationSize : Nat) : Call ε (List Nat × Nat) :=
  allocateLoop capacities allocationSize buckets 0

/-! ## What is allocated -/

variable {buckets buckets' buckets'' capacities : List Nat} {n x y : Nat}

/-- The room that is left in all buckets. -/
def room (buckets capacities : List Nat) : Nat :=
  ∑ i ∈ range buckets.length, (capacities.getD i 0 - buckets.getD i 0)

/-- `x` was put into the buckets, none of which was raised above its capacity. -/
structure Raised (buckets buckets' capacities : List Nat) (x : Nat) : Prop where
  length : buckets'.length = buckets.length
  le : ∀ i, buckets.getD i 0 ≤ buckets'.getD i 0
  le_capacity : ∀ i, buckets'.getD i 0 ≤ max (buckets.getD i 0) (capacities.getD i 0)
  sum : ∑ i ∈ range buckets.length, buckets'.getD i 0
    = (∑ i ∈ range buckets.length, buckets.getD i 0) + x

theorem Raised.refl : Raised buckets buckets capacities 0 where
  length := rfl
  le _ := Nat.le_refl _
  le_capacity _ := Nat.le_max_left _ _
  sum := rfl

theorem Raised.trans (h : Raised buckets buckets' capacities x)
    (h' : Raised buckets' buckets'' capacities y) :
    Raised buckets buckets'' capacities (x + y) where
  length := h'.length.trans h.length
  le i := (h.le i).trans (h'.le i)
  le_capacity i := by
    have hfirst := h.le_capacity i
    have hsecond := h'.le_capacity i
    omega
  sum := by
    have hsecond := h'.sum
    rw [h.length] at hsecond
    rw [hsecond, h.sum, Nat.add_assoc]

/-- What is put in takes room away. -/
theorem Raised.room_add (h : Raised buckets buckets' capacities x) :
    room buckets' capacities + x = room buckets capacities := by
  have hsum := h.sum
  have hpoint : ∑ i ∈ range buckets.length,
        ((capacities.getD i 0 - buckets'.getD i 0) + buckets'.getD i 0)
      = ∑ i ∈ range buckets.length,
        ((capacities.getD i 0 - buckets.getD i 0) + buckets.getD i 0) := by
    refine sum_congr rfl fun i _ => ?_
    have hle := h.le i
    have hcapacity := h.le_capacity i
    omega
  rw [sum_add_distrib, sum_add_distrib] at hpoint
  unfold room
  rw [h.length]
  omega

theorem getIndex_of_lt {xs : List Nat} {i : Nat} (h : i < xs.length) :
    (getIndex xs i : Call ε Nat) = .ok (xs.getD i 0) := by
  rw [getIndex_eq_ok, List.getD_eq_getElem?_getD, List.getElem?_eq_getElem h, Option.getD_some]

theorem getD_set {xs : List Nat} {k v i : Nat} (hk : k < xs.length) :
    (xs.set k v).getD i 0 = Function.update (fun i => xs.getD i 0) k v i := by
  simp only [List.getD_eq_getElem?_getD, List.getElem?_set, Function.update_apply]
  by_cases h : i = k
  · subst h
    simp [hk]
  · rw [if_neg (Ne.symm h), if_neg h]

/-- Raising one bucket. -/
theorem raised_of_set {k : Nat} (hk : k < buckets.length)
    (hle : buckets.getD k 0 + x ≤ capacities.getD k 0) :
    Raised buckets (buckets.set k (buckets.getD k 0 + x)) capacities x where
  length := List.length_set
  le i := by
    rw [getD_set hk]
    rcases eq_or_ne i k with rfl | hne
    · rw [Function.update_self]
      exact Nat.le_add_right _ _
    · rw [Function.update_of_ne hne]
  le_capacity i := by
    rw [getD_set hk]
    rcases eq_or_ne i k with rfl | hne
    · rw [Function.update_self]
      exact hle.trans (Nat.le_max_right _ _)
    · rw [Function.update_of_ne hne]
      exact Nat.le_max_left _ _
  sum := by
    have hsum := Ledger.sum_update_add (f := fun i => buckets.getD i 0) (buckets.getD k 0 + x)
      (mem_range.mpr hk)
    rw [sum_congr rfl fun i _ => getD_set hk]
    omega

/-! ## One step -/

/-- The candidate among the indices that were seen. -/
structure BestAmong (buckets capacities : List Nat) (seen : List Nat) (c : Candidate) : Prop where
  none : c.bestCandidatesCount = 0 → c.bestCandidateAllocation = MAX_UINT256 ∧
    ∀ i ∈ seen, capacities.getD i 0 ≤ buckets.getD i 0
  some : 0 < c.bestCandidatesCount → c.bestCandidateIndex ∈ seen ∧
    buckets.getD c.bestCandidateIndex 0 = c.bestCandidateAllocation ∧
    c.bestCandidateAllocation < capacities.getD c.bestCandidateIndex 0

/-- The induction is over the indices that are left. -/
theorem bestCandidateLoop_spec (hlen : capacities.length = buckets.length)
    (hbound : ∀ i, capacities.getD i 0 ≤ MAX_UINT256) {is seen : List Nat} {c : Candidate}
    (his : ∀ i ∈ is, i < buckets.length) (hc : BestAmong buckets capacities seen c) :
    ∃ c', (bestCandidateLoop buckets capacities is c : Call ε Candidate) = .ok c' ∧
      BestAmong buckets capacities (seen ++ is) c' := by
  induction is generalizing seen c with
  | nil =>
    rw [List.append_nil]
    exact ⟨c, rfl, hc⟩
  | cons i is ih =>
    have hi : i < buckets.length := his i List.mem_cons_self
    have htail : ∀ j ∈ is, j < buckets.length := fun j hj => his j (List.mem_cons_of_mem _ hj)
    have hcapacity := hbound i
    rw [bestCandidateLoop, getIndex_of_lt hi, ok_bind, getIndex_of_lt (hlen ▸ hi), ok_bind,
      List.append_cons]
    split
    · next hfull =>
      refine ih htail { none := fun hzero => ?_, some := fun hpos => ?_ }
      · refine ⟨(hc.none hzero).1, fun j hj => ?_⟩
        rcases List.mem_append.mp hj with hj | hj
        · exact (hc.none hzero).2 j hj
        · rw [List.mem_singleton.mp hj]
          exact hfull
      · exact ⟨List.mem_append_left _ (hc.some hpos).1, (hc.some hpos).2⟩
    · next hfree =>
      split
      · refine ih htail { none := fun hzero => absurd hzero Nat.one_ne_zero, some := fun _ => ?_ }
        exact ⟨List.mem_append_right _ (List.mem_singleton_self i), rfl, Nat.not_le.mp hfree⟩
      · next hleast =>
        -- a bucket with room is below the initial bound, so one was found before
        have hpos : 0 < c.bestCandidatesCount := by
          refine Nat.pos_of_ne_zero fun hzero => ?_
          have hmax := (hc.none hzero).1
          omega
        split
        · refine ih htail
            { none := fun hzero => absurd hzero (Nat.succ_ne_zero _), some := fun _ => ?_ }
          exact ⟨List.mem_append_left _ (hc.some hpos).1, (hc.some hpos).2⟩
        · refine ih htail
            { none := fun hzero => absurd hzero (Nat.pos_iff_ne_zero.mp hpos), some := fun _ => ?_ }
          exact ⟨List.mem_append_left _ (hc.some hpos).1, (hc.some hpos).2⟩

theorem upperBoundLoop_spec (hlen : capacities.length = buckets.length) {best upperBound : Nat}
    {js : List Nat} (hjs : ∀ j ∈ js, j < buckets.length) (hlt : best < upperBound) :
    ∃ upperBound', (upperBoundLoop buckets capacities best js upperBound : Call ε Nat)
      = .ok upperBound' ∧ best < upperBound' := by
  induction js generalizing upperBound with
  | nil => exact ⟨upperBound, rfl, hlt⟩
  | cons j js ih =>
    have hj : j < buckets.length := hjs j List.mem_cons_self
    have htail : ∀ i ∈ js, i < buckets.length := fun i hi => hjs i (List.mem_cons_of_mem _ hi)
    rw [upperBoundLoop, getIndex_of_lt hj, ok_bind, getIndex_of_lt (hlen ▸ hj), ok_bind]
    split
    · exact ih htail hlt
    · split
      · next hbetween => exact ih htail hbetween.1
      · exact ih htail hlt

theorem allocationShare_spec {count : Nat} (hn : 0 < n) :
    ∃ share, (allocationShare n count : Call ε Nat) = .ok share ∧ 0 < share ∧ share ≤ n := by
  unfold allocationShare
  split
  · next hcount =>
    have hdiv : (n - 1) / count ≤ n - 1 := Nat.div_le_self _ _
    refine ⟨(n - 1) / count + 1, ?_, Nat.succ_pos _, by omega⟩
    rw [ceilDiv, if_neg (by omega), checkedDiv_of (by omega), ok_bind]
    rfl
  · exact ⟨n, rfl, hn, Nat.le_refl n⟩

/-- Nothing is allocated only if nothing was asked for or there is no room. -/
theorem allocateToBestCandidate_spec (hlen : capacities.length = buckets.length)
    (hbound : ∀ i, capacities.getD i 0 ≤ MAX_UINT256) :
    ∃ buckets' x, (allocateToBestCandidate buckets capacities n : Call ε (List Nat × Nat))
        = .ok (buckets', x) ∧
      x ≤ n ∧ Raised buckets buckets' capacities x ∧
      (x = 0 → n = 0 ∨ room buckets capacities = 0) := by
  unfold allocateToBestCandidate
  split
  · next hzero => exact ⟨buckets, 0, rfl, Nat.zero_le _, Raised.refl, fun _ => .inl hzero⟩
  · next hn =>
    have hrange : ∀ i ∈ List.range buckets.length, i < buckets.length :=
      fun i hi => List.mem_range.mp hi
    have hnobody : BestAmong buckets capacities [] ⟨buckets.length, MAX_UINT256, 0⟩ :=
      { none := fun _ => ⟨rfl, fun i hi => absurd hi List.not_mem_nil⟩
        some := fun hpos => absurd hpos (Nat.lt_irrefl 0) }
    obtain ⟨best, hbest, hamong⟩ := bestCandidateLoop_spec (ε := ε) hlen hbound hrange hnobody
    rw [hbest, ok_bind]
    rw [List.nil_append] at hamong
    split
    · -- no bucket has room
      next hnone =>
      refine ⟨buckets, 0, rfl, Nat.zero_le _, Raised.refl, fun _ => .inr ?_⟩
      refine sum_eq_zero fun i hi => ?_
      exact Nat.sub_eq_zero_of_le
        ((hamong.none hnone).2 i (List.mem_range.mpr (mem_range.mp hi)))
    · next hsome =>
      obtain ⟨hindex, hbucket, hfree⟩ := hamong.some (Nat.pos_of_ne_zero hsome)
      have hi : best.bestCandidateIndex < buckets.length := List.mem_range.mp hindex
      have hbest_lt : best.bestCandidateAllocation < MAX_UINT256 :=
        Nat.lt_of_lt_of_le hfree (hbound _)
      obtain ⟨upperBound, hupper, hlt⟩ := upperBoundLoop_spec (ε := ε) hlen hrange hbest_lt
      obtain ⟨share, hshare, hpos, hle⟩ : ∃ share,
          (allocationShare n best.bestCandidatesCount : Call ε Nat) = .ok share ∧
            0 < share ∧ share ≤ n := allocationShare_spec (Nat.pos_of_ne_zero hn)
      rw [hupper, ok_bind, hshare, ok_bind, getIndex_of_lt (hlen ▸ hi), ok_bind,
        getIndex_of_lt hi, ok_bind, setIndex_eq_ok.mpr ⟨hi, rfl⟩, ok_bind]
      refine ⟨_, _, rfl, ?_, raised_of_set hi ?_, ?_⟩
      · omega
      · omega
      · omega

/-! ## The whole allocation -/

/-- The induction follows the loop: every round allocates something or is the last. -/
theorem allocateLoop_spec (hlen : capacities.length = buckets.length)
    (hbound : ∀ i, capacities.getD i 0 ≤ MAX_UINT256) {allocated : Nat} (hle : allocated ≤ n) :
    ∃ buckets' x, (allocateLoop capacities n buckets allocated : Call ε (List Nat × Nat))
        = .ok (buckets', allocated + x) ∧
      Raised buckets buckets' capacities x ∧ x = min (n - allocated) (room buckets capacities) := by
  induction hk : n - allocated using Nat.strong_induction_on generalizing buckets allocated with
  | _ k ih =>
    subst hk
    unfold allocateLoop
    split
    · next hlt =>
      obtain ⟨buckets₁, x₁, hstep, hle₁, hraised₁, hlast⟩ :=
        allocateToBestCandidate_spec (ε := ε) (n := n - allocated) hlen hbound
      have hroom := hraised₁.room_add
      rw [hstep, ok_bind]
      simp only
      split
      · next hzero =>
        subst hzero
        refine ⟨buckets₁, 0, rfl, hraised₁, ?_⟩
        omega
      · next hpos =>
        obtain ⟨buckets₂, x₂, hrest, hraised₂, hx₂⟩ := ih (n - (allocated + x₁)) (by omega)
          (hlen.trans hraised₁.length.symm) (by omega : allocated + x₁ ≤ n) rfl
        refine ⟨buckets₂, x₁ + x₂, ?_, hraised₁.trans hraised₂, ?_⟩
        · rw [hrest, Nat.add_assoc]
        · omega
    · next hdone =>
      refine ⟨buckets, 0, rfl, Raised.refl, ?_⟩
      omega

/-- **As much is allocated as was asked for and as there is room for.** -/
theorem allocate_spec (hlen : capacities.length = buckets.length)
    (hbound : ∀ i, capacities.getD i 0 ≤ MAX_UINT256) :
    ∃ buckets', (allocate buckets capacities n : Call ε (List Nat × Nat))
        = .ok (buckets', min n (room buckets capacities)) ∧
      Raised buckets buckets' capacities (min n (room buckets capacities)) := by
  obtain ⟨buckets', x, hallocate, hraised, hx⟩ :=
    allocateLoop_spec (ε := ε) hlen hbound (Nat.zero_le n)
  rw [Nat.sub_zero] at hx
  rw [hx, Nat.zero_add] at hallocate
  rw [hx] at hraised
  exact ⟨buckets', hallocate, hraised⟩

/-- The example of the source's comment. -/
example : (allocate [9998, 70, 0] [10000, 101, 100] 101 : Call Unit (List Nat × Nat))
    = .ok ([9998, 86, 85], 101) := by
  decide +kernel

end MinFirstAllocationStrategy

end Catalist

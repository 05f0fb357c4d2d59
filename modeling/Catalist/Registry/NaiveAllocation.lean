import Catalist.Lib.Leveling
import Catalist.Registry.MinFirstAllocation

/-!
# Min-first allocation, unit by unit

The source tests its allocation against a naive one, which adds one unit at a time to the first of
the least filled buckets with room. Both fill the buckets level by level, so they leave the same
buckets (`allocate_eq_naive`).
-/

namespace Catalist

open Solidity Finset Leveling

namespace NaiveMinFirstAllocationStrategy

variable {ε : Type}

def MAX_UINT256 : Nat := 2 ^ 256 - 1

/-- The variables of the search for the least filled bucket. -/
structure Candidate where
  bestCandidateIndex : Nat
  bestCandidateAllocation : Nat
deriving DecidableEq, Repr

/-- The inner loop of `allocate`, over the indices that are left. -/
def bestCandidateLoop (buckets capacities : List Nat) :
    List Nat → Candidate → Call ε Candidate
  | [], c => return c
  | i :: is, c => do
    let bucket ← getIndex buckets i
    let capacity ← getIndex capacities i
    if capacity ≤ bucket then bestCandidateLoop buckets capacities is c
    else if bucket < c.bestCandidateAllocation then
      bestCandidateLoop buckets capacities is
        { bestCandidateIndex := i, bestCandidateAllocation := bucket }
    else bestCandidateLoop buckets capacities is c

/-- The loop of `allocate`, after `allocated` was given out. -/
def allocateLoop (capacities : List Nat) (allocationSize : Nat) (buckets : List Nat)
    (allocated : Nat) : Call ε (List Nat × Nat) :=
  if allocated < allocationSize then do
    let best ← bestCandidateLoop buckets capacities (List.range buckets.length)
      { bestCandidateIndex := MAX_UINT256, bestCandidateAllocation := MAX_UINT256 }
    if best.bestCandidateIndex = MAX_UINT256 then return (buckets, allocated)
    else do
      let bucket ← getIndex buckets best.bestCandidateIndex
      let buckets ← setIndex buckets best.bestCandidateIndex (bucket + 1)
      allocateLoop capacities allocationSize buckets (allocated + 1)
  else return (buckets, allocated)
termination_by allocationSize - allocated

/-- `allocate` of the naive strategy -/
def allocate (buckets capacities : List Nat) (allocationSize : Nat) : Call ε (List Nat × Nat) :=
  allocateLoop capacities allocationSize buckets 0

end NaiveMinFirstAllocationStrategy

namespace MinFirstAllocationStrategy

variable {ε : Type} {buckets buckets' capacities : List Nat} {n x : Nat}

/-- A list as a function of the index. -/
def fill (xs : List Nat) (i : Nat) : Nat := xs.getD i 0

theorem fill_set {xs : List Nat} {k v : Nat} (hk : k < xs.length) :
    fill (xs.set k v) = Function.update (fill xs) k v := by
  funext i
  exact getD_set hk

theorem fill_eq_of_getElem? {xs : List Nat} {i v : Nat} (h : xs[i]? = some v) : fill xs i = v := by
  simp [fill, List.getD_eq_getElem?_getD, h]

theorem lt_length_of_free (hlen : capacities.length = buckets.length) {i : Nat}
    (h : fill buckets i < fill capacities i) : i < buckets.length := by
  by_contra hi
  have hnone : capacities[i]? = none := by
    rw [List.getElem?_eq_none_iff]
    omega
  simp [fill, List.getD_eq_getElem?_getD, hnone] at h

theorem ext_fill {xs ys : List Nat} (hlen : xs.length = ys.length) (h : fill xs = fill ys) :
    xs = ys := by
  refine List.ext_getElem hlen fun i hi hi' => ?_
  have heq := congrFun h i
  simpa [fill, hi, hi'] using heq

/-! ## The search of the code -/

/-- A bucket with room. -/
def Free (buckets capacities : List Nat) (i : Nat) : Prop := fill buckets i < fill capacities i

instance (i : Nat) : Decidable (Free buckets capacities i) := Nat.decLt _ _

/-- The number of least filled buckets among the indices that were seen, and the first of them. -/
structure LeastAmong (buckets capacities seen : List Nat) (c : Candidate) : Prop where
  none : c.bestCandidatesCount = 0 → c.bestCandidateAllocation = MAX_UINT256
  count : c.bestCandidatesCount = seen.countP fun i =>
    Free buckets capacities i ∧ fill buckets i = c.bestCandidateAllocation
  le : ∀ i ∈ seen, Free buckets capacities i → c.bestCandidateAllocation ≤ fill buckets i
  best : 0 < c.bestCandidatesCount → Free buckets capacities c.bestCandidateIndex ∧
    fill buckets c.bestCandidateIndex = c.bestCandidateAllocation
  first : 0 < c.bestCandidatesCount → ∀ j ∈ seen, Free buckets capacities j →
    fill buckets j = c.bestCandidateAllocation → c.bestCandidateIndex ≤ j

variable {seen : List Nat} {c c' : Candidate} {i : Nat}

/-- A bucket that is full or has more in it changes nothing. -/
theorem LeastAmong.skip (h : LeastAmong buckets capacities seen c)
    (hi : Free buckets capacities i → c.bestCandidateAllocation < fill buckets i) :
    LeastAmong buckets capacities (seen ++ [i]) c where
  none := h.none
  count := by
    have hno : ¬ (Free buckets capacities i ∧ fill buckets i = c.bestCandidateAllocation) := by
      rintro ⟨hfree, heq⟩
      exact (hi hfree).ne' heq
    simp [h.count, hno]
  le j hj hfree := by
    rcases List.mem_append.mp hj with hj | hj
    · exact h.le j hj hfree
    · rw [List.mem_singleton.mp hj] at hfree ⊢
      exact (hi hfree).le
  best := h.best
  first hpos j hj hfree heq := by
    rcases List.mem_append.mp hj with hj | hj
    · exact h.first hpos j hj hfree heq
    · rw [List.mem_singleton.mp hj] at hfree heq
      exact absurd heq (hi hfree).ne'

theorem LeastAmong.less (h : LeastAmong buckets capacities seen c)
    (hfree : Free buckets capacities i) (hi : fill buckets i < c.bestCandidateAllocation) :
    LeastAmong buckets capacities (seen ++ [i]) ⟨i, fill buckets i, 1⟩ where
  none hzero := absurd hzero Nat.one_ne_zero
  count := by
    have hnone : seen.countP
        (fun j => Free buckets capacities j ∧ fill buckets j = fill buckets i) = 0 := by
      rw [List.countP_eq_zero]
      intro j hj
      have hle := h.le j hj
      simp only [decide_eq_true_eq, not_and]
      intro hjfree heq
      have := hle hjfree
      omega
    rw [List.countP_append, hnone]
    simp [hfree]
  le j hj hjfree := by
    rcases List.mem_append.mp hj with hj | hj
    · exact hi.le.trans (h.le j hj hjfree)
    · rw [List.mem_singleton.mp hj]
  best _ := ⟨hfree, rfl⟩
  first _ j hj hjfree heq := by
    rcases List.mem_append.mp hj with hj | hj
    · have hle := h.le j hj hjfree
      simp only at heq
      omega
    · exact (List.mem_singleton.mp hj).ge

theorem LeastAmong.tie (h : LeastAmong buckets capacities seen c)
    (hfree : Free buckets capacities i) (hi : c.bestCandidateAllocation = fill buckets i)
    (hpos : 0 < c.bestCandidatesCount) (hlt : c.bestCandidateIndex ≤ i) :
    LeastAmong buckets capacities (seen ++ [i])
      { c with bestCandidatesCount := c.bestCandidatesCount + 1 } where
  none hzero := absurd hzero (Nat.succ_ne_zero _)
  count := by simp [h.count, hfree, hi]
  le j hj hjfree := by
    rcases List.mem_append.mp hj with hj | hj
    · exact h.le j hj hjfree
    · rw [List.mem_singleton.mp hj]
      exact hi.le
  best _ := h.best hpos
  first _ j hj hjfree heq := by
    rcases List.mem_append.mp hj with hj | hj
    · exact h.first hpos j hj hjfree heq
    · rwa [List.mem_singleton.mp hj]

/-- The indices are seen in increasing order, so a tie does not change the candidate. -/
theorem leastAmong_bestCandidateLoop (hbound : ∀ i, fill capacities i ≤ MAX_UINT256)
    {is : List Nat} (hsorted : is.Pairwise (· < ·))
    (hlt : ∀ i ∈ is, 0 < c.bestCandidatesCount → c.bestCandidateIndex < i)
    (hc : LeastAmong buckets capacities seen c)
    (h : (bestCandidateLoop buckets capacities is c : Call ε Candidate) = .ok c') :
    LeastAmong buckets capacities (seen ++ is) c' := by
  induction is generalizing seen c with
  | nil =>
    cases h
    simpa using hc
  | cons i is ih =>
    simp only [bestCandidateLoop, bind_eq_ok, getIndex_eq_ok] at h
    obtain ⟨bucket, hbucket, capacity, hcapacity, h⟩ := h
    obtain rfl := fill_eq_of_getElem? hbucket
    obtain rfl := fill_eq_of_getElem? hcapacity
    obtain ⟨hfirst, hsorted⟩ := List.pairwise_cons.mp hsorted
    have hrest : ∀ j ∈ is, 0 < c.bestCandidatesCount → c.bestCandidateIndex < j :=
      fun j hj => hlt j (List.mem_cons_of_mem _ hj)
    rw [List.append_cons]
    split at h
    · next hfull =>
      exact ih hsorted hrest (hc.skip fun hfree => absurd hfree (Nat.not_lt.mpr hfull)) h
    · next hfree =>
      rw [not_le] at hfree
      split at h
      · next hless => exact ih hsorted (fun j hj _ => hfirst j hj) (hc.less hfree hless) h
      · next hmore =>
        -- a bucket with room is below the initial bound, so one was found before
        have hpos : 0 < c.bestCandidatesCount := by
          refine Nat.pos_of_ne_zero fun hzero => ?_
          have hmax := hc.none hzero
          have hcapacity := hbound i
          omega
        split at h
        · next htie =>
          have hmine := hlt i (List.mem_cons_self ..) hpos
          refine ih hsorted ?_ (hc.tie hfree htie hpos hmine.le) h
          intro j hj _
          exact hmine.trans (hfirst j hj)
        · next hlater => exact ih hsorted hrest (hc.skip fun _ => by omega) h

theorem le_of_upperBoundLoop {js : List Nat} {best upperBound upperBound' : Nat}
    (h : (upperBoundLoop buckets capacities best js upperBound : Call ε Nat) = .ok upperBound') :
    upperBound' ≤ upperBound ∧
      ∀ j ∈ js, Free buckets capacities j → best < fill buckets j → upperBound' ≤ fill buckets j := by
  induction js generalizing upperBound with
  | nil =>
    cases h
    simp
  | cons j js ih =>
    simp only [upperBoundLoop, bind_eq_ok, getIndex_eq_ok] at h
    obtain ⟨bucket, hbucket, capacity, hcapacity, h⟩ := h
    obtain rfl := fill_eq_of_getElem? hbucket
    obtain rfl := fill_eq_of_getElem? hcapacity
    simp only [List.forall_mem_cons]
    split at h
    · next hfull =>
      obtain ⟨hle, hall⟩ := ih h
      exact ⟨hle, fun hfree => absurd hfree (Nat.not_lt.mpr hfull), hall⟩
    · split at h
      · next hbetween =>
        obtain ⟨hle, hall⟩ := ih h
        exact ⟨hle.trans hbetween.2.le, fun _ _ => hle, hall⟩
      · next hnot =>
        obtain ⟨hle, hall⟩ := ih h
        exact ⟨hle, fun _ hbest => by omega, hall⟩

/-- The equal share is rounded up, so all but the last unit of it fit as often as there are buckets. -/
theorem allocationShare_ok_cases {count share : Nat} (hn : 0 < n) (hcount : 0 < count)
    (h : (allocationShare n count : Call ε Nat) = .ok share) : count * (share - 1) < n := by
  unfold allocationShare at h
  split at h
  · simp only [ceilDiv, if_neg hn.ne', bind_eq_ok, checkedDiv_eq_ok, pure_eq_ok] at h
    obtain ⟨_, ⟨-, rfl⟩, rfl⟩ := h
    have hle := Nat.mul_div_le (n - 1) count
    rw [Nat.add_sub_cancel]
    omega
  · cases h
    have hone : count = 1 := by omega
    rw [hone]
    omega

/-- What one round of the code does: it raises the bucket that is next. -/
structure RaisedNext (buckets buckets' capacities : List Nat) (n x i : Nat) : Prop where
  next : Next (fill capacities) (fill buckets) i
  eq_set : buckets' = buckets.set i (fill buckets i + x)
  le_cap : fill buckets i + x ≤ fill capacities i
  le_level : ∀ j, Free buckets capacities j → fill buckets i < fill buckets j →
    fill buckets i + x ≤ fill buckets j
  share : #{j ∈ range buckets.length | Free buckets capacities j ∧ fill buckets j = fill buckets i} *
    (x - 1) < n

theorem allocateToBestCandidate_ok_cases (hlen : capacities.length = buckets.length)
    (hbound : ∀ i, fill capacities i ≤ MAX_UINT256)
    (h : (allocateToBestCandidate buckets capacities n : Call ε (List Nat × Nat))
      = .ok (buckets', x)) :
    (buckets' = buckets ∧ x = 0) ∨ ∃ i, RaisedNext buckets buckets' capacities n x i := by
  unfold allocateToBestCandidate at h
  split at h
  · cases h
    exact .inl ⟨rfl, rfl⟩
  · next hn =>
    simp only [bind_eq_ok] at h
    obtain ⟨best, hbest, h⟩ := h
    -- the candidate with which the search starts stands for no bucket
    have hnobody : LeastAmong buckets capacities [] ⟨buckets.length, MAX_UINT256, 0⟩ :=
      ⟨fun _ => rfl, rfl, by simp, by simp, by simp⟩
    have hleast := leastAmong_bestCandidateLoop hbound List.pairwise_lt_range (by simp) hnobody hbest
    rw [List.nil_append] at hleast
    split at h
    · cases h
      exact .inl ⟨rfl, rfl⟩
    · next hcount =>
      simp only [bind_eq_ok, getIndex_eq_ok, setIndex_eq_ok, pure_eq_ok, Prod.mk.injEq] at h
      obtain ⟨upperBound, hupper, share, hshare, capacity, hcapacity, bucket, hbucket, _,
        ⟨hlt, rfl⟩, rfl, rfl⟩ := h
      obtain rfl := fill_eq_of_getElem? hbucket
      obtain rfl := fill_eq_of_getElem? hcapacity
      have hpos := Nat.pos_of_ne_zero hcount
      obtain ⟨hfree, hlevel⟩ := hleast.best hpos
      obtain ⟨-, habove⟩ := le_of_upperBoundLoop hupper
      have hrange : ∀ j, Free buckets capacities j → j ∈ List.range buckets.length :=
        fun j hj => List.mem_range.mpr (lt_length_of_free hlen hj)
      have hunits := allocationShare_ok_cases (Nat.pos_of_ne_zero hn) hpos hshare
      refine .inr ⟨best.bestCandidateIndex, ⟨hfree, ?_⟩, rfl, ?_, ?_, ?_⟩
      · intro j hj
        have hle := hleast.le j (hrange j hj) hj
        rw [position_le_iff, hlevel]
        rcases hle.lt_or_eq with hless | heq
        · exact .inl hless
        · exact .inr ⟨heq, hleast.first hpos j (hrange j hj) hj heq.symm⟩
      · unfold Free at hfree
        omega
      · intro j hj hhigher
        have hle := habove j (hrange j hj) hj (hlevel ▸ hhigher)
        omega
      · have hcard : #{j ∈ range buckets.length | Free buckets capacities j ∧
            fill buckets j = fill buckets best.bestCandidateIndex} = best.bestCandidatesCount := by
          rw [hlevel, hleast.count, List.countP_eq_length_filter]
          rfl
        rw [hcard]
        refine lt_of_le_of_lt (Nat.mul_le_mul_left _ ?_) hunits
        omega

/-! ## Both fill the buckets level by level -/

theorem RaisedNext.lt_length {i : Nat} (h : RaisedNext buckets buckets' capacities n x i)
    (hlen : capacities.length = buckets.length) : i < buckets.length :=
  lt_length_of_free hlen h.next.free

/-- A bucket with room is counted in the room of all. -/
theorem room_pos (hlen : capacities.length = buckets.length) {j : Nat}
    (hj : Free buckets capacities j) : 0 < room buckets capacities := by
  have hmem : j ∈ range buckets.length := mem_range.mpr (lt_length_of_free hlen hj)
  have hle : fill capacities j - fill buckets j ≤ room buckets capacities :=
    Ledger.le_sum (f := fun i => capacities.getD i 0 - buckets.getD i 0) hmem
  unfold Free at hj
  omega

/-- As long as a bucket has room, all that was asked for was given out. -/
theorem Raised.sum_of_free (h : Raised buckets buckets' capacities x)
    (hx : x = min n (room buckets capacities)) (hlen : capacities.length = buckets.length) {j : Nat}
    (hj : Free buckets' capacities j) :
    ∑ j ∈ range buckets.length, fill buckets' j = ∑ j ∈ range buckets.length, fill buckets j + n := by
  have hpos := room_pos (hlen.trans h.length.symm) hj
  have hroom := h.room_add
  have hxn : x = n := by omega
  exact hxn ▸ h.sum

/-- The rounds of the code, from the last one back. -/
theorem fair_of_allocateLoop (hlen : capacities.length = buckets.length)
    (hbound : ∀ i, fill capacities i ≤ MAX_UINT256) {allocated total : Nat} (hle : allocated ≤ n)
    (h : (allocateLoop capacities n buckets allocated : Call ε (List Nat × Nat))
      = .ok (buckets', total)) : Fair (fill capacities) (fill buckets) (fill buckets') := by
  induction hk : n - allocated using Nat.strong_induction_on generalizing buckets allocated with
  | _ k ih =>
    subst hk
    obtain ⟨_, y, hspec, hraised, hy⟩ := allocateLoop_spec (ε := ε) hlen hbound hle
    obtain ⟨rfl, -⟩ := Prod.mk.inj (Except.ok.inj (hspec.symm.trans h))
    unfold allocateLoop at h
    split at h
    · next hlt =>
      simp only [bind_eq_ok] at h
      obtain ⟨⟨buckets₁, x₁⟩, hcall, h⟩ := h
      have hround := allocateToBestCandidate_ok_cases hlen hbound hcall
      simp only at h
      split at h
      · -- a round that gives out nothing is the last one
        next hzero =>
        subst hzero
        cases h
        rcases hround with ⟨rfl, -⟩ | ⟨i, hnext⟩
        · exact Fair.refl
        · have hsame := hnext.eq_set
          rw [hsame, fill_set (hnext.lt_length hlen)]
          simpa using Fair.refl
      · next hpos =>
        rcases hround with ⟨-, rfl⟩ | ⟨i, hnext⟩
        · exact absurd rfl hpos
        · have hlength := hnext.lt_length hlen
          have hlen₁ : capacities.length = buckets₁.length := by
            rw [hnext.eq_set, List.length_set, hlen]
          obtain ⟨_, _, hspec₁, hx₁, -⟩ :=
            allocateToBestCandidate_spec (ε := ε) (n := n - allocated) hlen hbound
          have hx := (Prod.mk.inj (Except.ok.inj (hspec₁.symm.trans hcall))).2
          have hle₁ : allocated + x₁ ≤ n := by omega
          have hfair := ih _ (by omega) hlen₁ hle₁ h rfl
          rw [hnext.eq_set, fill_set hlength] at hfair
          refine Fair.of_raise (s := range buckets.length) (n := n - allocated) hnext.next
            hnext.le_cap hnext.le_level ?_ hnext.share hfair ?_
          · intro j hj
            exact mem_range.mpr (lt_length_of_free hlen hj)
          · intro j hj
            exact hraised.sum_of_free hy hlen hj
    · cases h
      exact Fair.refl

end MinFirstAllocationStrategy

namespace NaiveMinFirstAllocationStrategy

open MinFirstAllocationStrategy (fill Free Raised room fill_eq_of_getElem? fill_set getIndex_of_lt
  lt_length_of_free raised_of_set room_pos)

variable {ε : Type} {buckets buckets' capacities : List Nat} {n x : Nat} {c c' : Candidate}

/-- The least filled bucket among the indices that were seen, if there is one with room. -/
structure LeastAmong (buckets capacities seen : List Nat) (c : Candidate) : Prop where
  none : c.bestCandidateIndex = MAX_UINT256 →
    c.bestCandidateAllocation = MAX_UINT256 ∧ ∀ i ∈ seen, ¬ Free buckets capacities i
  best : c.bestCandidateIndex ≠ MAX_UINT256 →
    Free buckets capacities c.bestCandidateIndex ∧
    fill buckets c.bestCandidateIndex = c.bestCandidateAllocation ∧
    ∀ j ∈ seen, Free buckets capacities j →
      position c.bestCandidateAllocation c.bestCandidateIndex ≤ position (fill buckets j) j

variable {seen : List Nat} {i : Nat}

theorem LeastAmong.skip (h : LeastAmong buckets capacities seen c)
    (hi : Free buckets capacities i → c.bestCandidateIndex ≠ MAX_UINT256 ∧
      position c.bestCandidateAllocation c.bestCandidateIndex ≤ position (fill buckets i) i) :
    LeastAmong buckets capacities (seen ++ [i]) c where
  none hnone := by
    refine ⟨(h.none hnone).1, fun j hj => ?_⟩
    rcases List.mem_append.mp hj with hj | hj
    · exact (h.none hnone).2 j hj
    · rw [List.mem_singleton.mp hj]
      exact fun hfree => (hi hfree).1 hnone
  best hsome := by
    obtain ⟨hfree, heq, hle⟩ := h.best hsome
    refine ⟨hfree, heq, fun j hj hjfree => ?_⟩
    rcases List.mem_append.mp hj with hj | hj
    · exact hle j hj hjfree
    · rw [List.mem_singleton.mp hj] at hjfree ⊢
      exact (hi hjfree).2

theorem LeastAmong.less (h : LeastAmong buckets capacities seen c)
    (hfree : Free buckets capacities i) (hi : fill buckets i < c.bestCandidateAllocation)
    (hne : i ≠ MAX_UINT256) : LeastAmong buckets capacities (seen ++ [i]) ⟨i, fill buckets i⟩ where
  none hnone := absurd hnone hne
  best _ := by
    refine ⟨hfree, rfl, fun j hj hjfree => ?_⟩
    rcases List.mem_append.mp hj with hj | hj
    · by_cases hsome : c.bestCandidateIndex = MAX_UINT256
      · exact absurd hjfree ((h.none hsome).2 j hj)
      · have hle := (h.best hsome).2.2 j hj hjfree
        rw [position_le_iff] at hle ⊢
        simp only
        omega
    · rw [List.mem_singleton.mp hj]

/-- The indices are seen in increasing order; the induction is over those that are left. -/
theorem bestCandidateLoop_spec (hlen : capacities.length = buckets.length)
    (hbound : ∀ i, fill capacities i ≤ MAX_UINT256) (hlength : buckets.length ≤ MAX_UINT256)
    {is : List Nat} (his : ∀ i ∈ is, i < buckets.length) (hsorted : is.Pairwise (· < ·))
    (hlt : ∀ i ∈ is, c.bestCandidateIndex ≠ MAX_UINT256 → c.bestCandidateIndex < i)
    (hc : LeastAmong buckets capacities seen c) :
    ∃ c', (bestCandidateLoop buckets capacities is c : Call ε Candidate) = .ok c' ∧
      LeastAmong buckets capacities (seen ++ is) c' := by
  induction is generalizing seen c with
  | nil => exact ⟨c, rfl, by simpa using hc⟩
  | cons i is ih =>
    have hi : i < buckets.length := his i (List.mem_cons_self ..)
    have hrange : ∀ j ∈ is, j < buckets.length := fun j hj => his j (List.mem_cons_of_mem _ hj)
    have hcapacity := hbound i
    obtain ⟨hfirst, hsorted⟩ := List.pairwise_cons.mp hsorted
    have hrest : ∀ j ∈ is, c.bestCandidateIndex ≠ MAX_UINT256 → c.bestCandidateIndex < j :=
      fun j hj => hlt j (List.mem_cons_of_mem _ hj)
    rw [bestCandidateLoop, getIndex_of_lt hi, ok_bind, getIndex_of_lt (hlen ▸ hi), ok_bind,
      List.append_cons]
    split
    · next hfull =>
      exact ih hrange hsorted hrest (hc.skip fun hfree => absurd hfree (Nat.not_lt.mpr hfull))
    · next hfree =>
      rw [not_le] at hfree
      split
      · next hless =>
        exact ih hrange hsorted (fun j hj _ => hfirst j hj) (hc.less hfree hless (by omega))
      · next hmore =>
        -- a bucket with as many units as the candidate comes later, so it is not next
        refine ih hrange hsorted hrest (hc.skip fun hifree => ?_)
        have hsome : c.bestCandidateIndex ≠ MAX_UINT256 := by
          intro hnone
          have hmax := (hc.none hnone).1
          have : fill buckets i < fill capacities i := hifree
          change ¬ fill buckets i < _ at hmore
          omega
        refine ⟨hsome, ?_⟩
        have hmine := hlt i (List.mem_cons_self ..) hsome
        change ¬ fill buckets i < _ at hmore
        rw [position_le_iff]
        omega

/-- The inner loop finds the bucket that is next, or there is no room. -/
theorem exists_candidate (hlen : capacities.length = buckets.length)
    (hbound : ∀ i, fill capacities i ≤ MAX_UINT256) (hlength : buckets.length ≤ MAX_UINT256) :
    ∃ c, (bestCandidateLoop buckets capacities (List.range buckets.length)
        ⟨MAX_UINT256, MAX_UINT256⟩ : Call ε Candidate) = .ok c ∧
      (c.bestCandidateIndex = MAX_UINT256 → room buckets capacities = 0) ∧
      (c.bestCandidateIndex ≠ MAX_UINT256 →
        Next (fill capacities) (fill buckets) c.bestCandidateIndex) := by
  have hnobody : LeastAmong buckets capacities [] ⟨MAX_UINT256, MAX_UINT256⟩ :=
    ⟨fun _ => ⟨rfl, by simp⟩, fun hne => absurd rfl hne⟩
  obtain ⟨c, hloop, hleast⟩ := bestCandidateLoop_spec (ε := ε) hlen hbound hlength
    (fun i hi => List.mem_range.mp hi) List.pairwise_lt_range (fun i _ hne => absurd rfl hne) hnobody
  rw [List.nil_append] at hleast
  refine ⟨c, hloop, ?_, ?_⟩
  · intro hnone
    refine sum_eq_zero fun i hi => Nat.sub_eq_zero_of_le ?_
    exact Nat.not_lt.mp ((hleast.none hnone).2 i (List.mem_range.mpr (mem_range.mp hi)))
  · intro hsome
    obtain ⟨hfree, heq, hle⟩ := hleast.best hsome
    refine ⟨hfree, fun j hj => ?_⟩
    rw [heq]
    exact hle j (List.mem_range.mpr (lt_length_of_free hlen hj)) hj

/-- One unit after the other; every unit keeps the filling fair. -/
theorem allocateLoop_spec {start : Nat → Nat} (hlen : capacities.length = buckets.length)
    (hbound : ∀ i, fill capacities i ≤ MAX_UINT256) (hlength : buckets.length ≤ MAX_UINT256)
    {allocated : Nat} (hle : allocated ≤ n) (hfair : Fair (fill capacities) start (fill buckets)) :
    ∃ buckets' x, (allocateLoop capacities n buckets allocated : Call ε (List Nat × Nat))
        = .ok (buckets', allocated + x) ∧
      Raised buckets buckets' capacities x ∧ x = min (n - allocated) (room buckets capacities) ∧
      Fair (fill capacities) start (fill buckets') := by
  induction hk : n - allocated using Nat.strong_induction_on generalizing buckets allocated with
  | _ k ih =>
    subst hk
    unfold allocateLoop
    split
    · next hlt =>
      obtain ⟨c, hloop, hnone, hsome⟩ := exists_candidate (ε := ε) hlen hbound hlength
      rw [hloop, ok_bind]
      split
      · next hfull =>
        refine ⟨buckets, 0, rfl, Raised.refl, ?_, hfair⟩
        rw [hnone hfull, Nat.min_zero]
      · next hfound =>
        have hnext := hsome hfound
        have hi := lt_length_of_free hlen hnext.free
        have hraised : Raised buckets
            (buckets.set c.bestCandidateIndex (fill buckets c.bestCandidateIndex + 1)) capacities 1 :=
          raised_of_set hi hnext.free
        have hroom := hraised.room_add
        have hfair' := hfair.unit hnext
        rw [← fill_set hi] at hfair'
        obtain ⟨buckets', x, hrest, hraised', hx, hend⟩ := ih (n - (allocated + 1)) (by omega)
          (by rw [List.length_set, hlen]) (by rw [List.length_set]; exact hlength)
          (by omega : allocated + 1 ≤ n) hfair' rfl
        rw [getIndex_of_lt hi, ok_bind, setIndex_eq_ok.mpr ⟨hi, rfl⟩, ok_bind]
        refine ⟨buckets', 1 + x, ?_, hraised.trans hraised', ?_, hend⟩
        · rw [← Nat.add_assoc]
          exact hrest
        · omega
    · exact ⟨buckets, 0, rfl, Raised.refl, by omega, hfair⟩

end NaiveMinFirstAllocationStrategy

namespace MinFirstAllocationStrategy

variable {ε : Type} {buckets capacities : List Nat} {n : Nat}

/--
**The allocation is the one that is made unit by unit.** It always ends, gives out as much as was
asked for and as there is room for, raises no bucket above its capacity, and leaves full buckets
alone. The entries and the length of an array are words.
-/
theorem allocate_eq_naive (hlen : capacities.length = buckets.length)
    (hbound : ∀ capacity ∈ capacities, capacity < 2 ^ 256) (hlength : buckets.length < 2 ^ 256) :
    (allocate buckets capacities n : Call ε (List Nat × Nat))
      = NaiveMinFirstAllocationStrategy.allocate buckets capacities n ∧
    ∃ buckets', (allocate buckets capacities n : Call ε (List Nat × Nat))
        = .ok (buckets', min n (∑ i ∈ range buckets.length, (fill capacities i - fill buckets i))) ∧
      buckets'.length = buckets.length ∧
      ∀ i, (fill capacities i ≤ fill buckets i → fill buckets' i = fill buckets i) ∧
        (fill buckets i < fill capacities i →
          fill buckets i ≤ fill buckets' i ∧ fill buckets' i ≤ fill capacities i) := by
  have hword : ∀ i, fill capacities i ≤ MAX_UINT256 := by
    intro i
    rcases hi : capacities[i]? with _ | capacity
    · simp [fill, List.getD_eq_getElem?_getD, hi]
    · rw [fill_eq_of_getElem? hi]
      exact Nat.le_sub_one_of_lt (hbound _ (List.mem_of_getElem? hi))
  obtain ⟨buckets', hcall, hraised⟩ := allocate_spec (ε := ε) (n := n) hlen hword
  obtain ⟨naive, x, hnaive, hunits, hx, hfair'⟩ :=
    NaiveMinFirstAllocationStrategy.allocateLoop_spec (ε := ε) hlen hword
      (Nat.le_sub_one_of_lt hlength) (Nat.zero_le n) Fair.refl
  have hfair : Fair (fill capacities) (fill buckets) (fill buckets') :=
    fair_of_allocateLoop hlen hword (Nat.zero_le n) hcall
  rw [Nat.sub_zero] at hx
  -- both fill fairly and give out as many units, and such a filling is unique
  have hsame : naive = buckets' := by
    refine ext_fill (hunits.length.trans hraised.length.symm) ?_
    refine hfair'.unique (s := range buckets.length) hfair ?_ ?_
    · intro i hi
      rw [mem_range, not_lt] at hi
      have hnaive : naive.length ≤ i := hunits.length ▸ hi
      have hcode : buckets'.length ≤ i := hraised.length ▸ hi
      simp [fill, hnaive, hcode]
    · have hsum := hunits.sum
      have hsum' := hraised.sum
      rw [hx] at hsum
      exact hsum.trans hsum'.symm
  refine ⟨?_, buckets', hcall, hraised.length, fun i => ⟨?_, ?_⟩⟩
  · rw [hcall, NaiveMinFirstAllocationStrategy.allocate, hnaive, hsame, hx, Nat.zero_add]
  · intro hfull
    have hle := hraised.le i
    have hcap := hraised.le_capacity i
    change fill buckets' i ≤ max (fill buckets i) (fill capacities i) at hcap
    change fill buckets i ≤ fill buckets' i at hle
    omega
  · intro hfree
    have hcap := hraised.le_capacity i
    change fill buckets' i ≤ max (fill buckets i) (fill capacities i) at hcap
    exact ⟨hraised.le i, by omega⟩

/-- The buckets of the source's comment. -/
theorem allocate_eq_naive_three_buckets :
    NaiveMinFirstAllocationStrategy.allocate [9998, 70, 0] [10000, 101, 100] 101
      = (.ok ([9998, 86, 85], 101) : Call Unit (List Nat × Nat)) := by
  obtain ⟨hnaive, -⟩ := @allocate_eq_naive Unit [9998, 70, 0] [10000, 101, 100] 101 rfl
    (by decide) (by decide)
  rw [← hnaive]
  decide +kernel

end MinFirstAllocationStrategy

end Catalist

import Catalist.WithdrawalQueue.Hints

/-!
# Hints for a list of requests

`findCheckpointHints` narrows the range after each request: the next search starts at the hint that
was just returned. For ascending ids this loses nothing (`Counted.findCheckpointHint_narrow`). But a
request without a hint in the range moves the left edge to `NOT_FOUND`, which is no index, and the
next search reverts. So the list is searched as its members are one by one exactly if each of them
but the last has a hint in the range (`findCheckpointHints_pointwise_iff`).
-/

namespace Catalist

open Solidity Transition

namespace WithdrawalQueue

variable {q : WithdrawalQueue} {id id' h first last prev : Nat} {ids : List Nat}

/-- The request is finalized, and its checkpoint lies in the range. -/
def Hinted (q : WithdrawalQueue) (first last id : Nat) : Prop :=
  id ≤ q.lastFinalizedRequestId ∧ ∃ h, first ≤ h ∧ h ≤ last ∧ q.Covers id h

/-- A later request is covered by a later checkpoint. -/
theorem Represented.covers_le (hr : Represented q) {g : Nat} (hid : id ≤ id')
    (hh : h ≤ q.lastCheckpointIndex) (hcover : q.Covers id h) (hcover' : q.Covers id' g) :
    h ≤ g := by
  rcases hcover'.2 with rfl | hnext
  · exact hh
  · by_contra hlt
    have hmono := hr.from_le_of_le (by omega : g + 1 ≤ h) hh
    have hfrom := hcover.1
    omega

/-- For later requests, the range can start at the checkpoint of an earlier one. -/
theorem Represented.hinted_narrow (hr : Represented q) (hid : id ≤ id') (hfirst : first ≤ h)
    (hlast : h ≤ last) (hle : last ≤ q.lastCheckpointIndex) (hcover : q.Covers id h) :
    q.Hinted h last id' ↔ q.Hinted first last id' := by
  constructor
  · rintro ⟨hfinal, g, hge, hgl, hcover'⟩
    exact ⟨hfinal, g, hfirst.trans hge, hgl, hcover'⟩
  · rintro ⟨hfinal, g, -, hgl, hcover'⟩
    exact ⟨hfinal, g, hr.covers_le hid (hlast.trans hle) hcover hcover', hgl, hcover'⟩

theorem Represented.covers_unique (hr : Represented q) {g : Nat} (hpos : 0 < h)
    (hh : h ≤ q.lastCheckpointIndex) (hcover : q.Covers id h) (hpos' : 0 < g)
    (hg : g ≤ q.lastCheckpointIndex) (hcover' : q.Covers id g) : g = h := by
  rw [hr.eq_hintOf (hcover.validHint hpos hh), hr.eq_hintOf (hcover'.validHint hpos' hg)]

/-- **Narrowing loses nothing** for later requests. -/
theorem Counted.findCheckpointHint_narrow (hc : Counted q) (hpos : 0 < id) (hid : id ≤ id')
    (hidle : id' ≤ q.lastRequestId) (hstart : 1 ≤ first) (hfirst : first ≤ h) (hlast : h ≤ last)
    (hle : last ≤ q.lastCheckpointIndex) (hcover : q.Covers id h) :
    q.findCheckpointHint id' h last = q.findCheckpointHint id' first last := by
  have hr := hc.represented
  have hnarrow := hr.hinted_narrow hid hfirst hlast hle hcover
  rcases hc.findCheckpointHint_cases (by omega : 0 < id') hidle hstart hle with
    ⟨g, hfound, hfinal, hge, hgl, hcover'⟩ | ⟨hzero, hnone⟩
  · rcases hc.findCheckpointHint_cases (by omega : 0 < id') hidle (hstart.trans hfirst) hle with
      ⟨g', hfound', -, hge', hgl', hcover''⟩ | ⟨-, hnone'⟩
    · rw [hfound, hfound', hr.covers_unique (by omega) (by omega) hcover' (by omega) (by omega)
        hcover'']
    · exact absurd (hnarrow.mpr ⟨hfinal, g, hge, hgl, hcover'⟩) hnone'
  · rcases hc.findCheckpointHint_cases (by omega : 0 < id') hidle (hstart.trans hfirst) hle with
      ⟨g', -, hfinal', hge', hgl', hcover''⟩ | ⟨hzero', -⟩
    · exact absurd (hnarrow.mp ⟨hfinal', g', hge', hgl', hcover''⟩) hnone
    · rw [hzero, hzero']

/-- Index 0 is not the left edge of a range. -/
theorem findCheckpointHint_zero_ne {r : Nat} : q.findCheckpointHint id NOT_FOUND last ≠ .ok r := by
  intro h
  simp only [findCheckpointHint, bind_eq_ok, require_eq_ok] at h
  obtain ⟨_, _, _, ⟨hne, _⟩, _⟩ := h
  exact hne rfl

theorem findCheckpointHintsLoop_cons {hints : List Nat} :
    q.findCheckpointHintsLoop last (id :: ids) prev first = .ok hints ↔
      prev ≤ id ∧ ∃ hint rest, q.findCheckpointHint id first last = .ok hint ∧
        q.findCheckpointHintsLoop last ids id hint = .ok rest ∧ hints = hint :: rest := by
  simp only [findCheckpointHintsLoop, bind_eq_ok, require_eq_ok, pure_eq_ok]
  constructor
  · rintro ⟨_, hle, hint, hfound, rest, hrest, rfl⟩
    exact ⟨hle, hint, rest, hfound, hrest, rfl⟩
  · rintro ⟨hle, hint, rest, hfound, hrest, rfl⟩
    exact ⟨(), hle, hint, hfound, rest, hrest, rfl⟩

/-- The hints of a list are those of its members, searched for one by one. -/
def Pointwise (q : WithdrawalQueue) (ids : List Nat) (prev start first last : Nat) : Prop :=
  ∃ hints, q.findCheckpointHintsLoop last ids prev start = .ok hints ∧
    List.Forall₂ (fun id hint => q.findCheckpointHint id first last = .ok hint) ids hints

theorem pointwise_cons (hle : prev ≤ id) (hfound : q.findCheckpointHint id first last = .ok h) :
    q.Pointwise (id :: ids) prev first first last ↔ q.Pointwise ids id h first last := by
  constructor
  · rintro ⟨hints, hloop, hall⟩
    obtain ⟨-, hint, rest, hfound', hrest, rfl⟩ := findCheckpointHintsLoop_cons.mp hloop
    cases hfound.symm.trans hfound'
    exact ⟨rest, hrest, (List.forall₂_cons.mp hall).2⟩
  · rintro ⟨rest, hrest, hall⟩
    exact ⟨h :: rest, findCheckpointHintsLoop_cons.mpr ⟨hle, h, rest, hfound, hrest, rfl⟩,
      .cons hfound hall⟩

theorem pointwise_congr {start : Nat}
    (hsame : ∀ i ∈ ids, q.findCheckpointHint i h last = q.findCheckpointHint i first last) :
    q.Pointwise ids prev start h last ↔ q.Pointwise ids prev start first last := by
  unfold Pointwise
  refine exists_congr fun hints => and_congr_right fun _ => ?_
  constructor
  · intro hall
    exact Ledger.forall₂_of_mem hall fun i hi _ hhint => (hsame i hi) ▸ hhint
  · intro hall
    exact Ledger.forall₂_of_mem hall fun i hi _ hhint => (hsame i hi).symm ▸ hhint

/--
The induction is over the list. After a request with a hint, the rest is searched in the narrowed
range; after one without, nothing may follow.
-/
theorem Counted.pointwise_iff (hc : Counted q)
    (hids : ∀ id ∈ ids, 0 < id ∧ id ≤ q.lastRequestId) (hsorted : (prev :: ids).Pairwise (· ≤ ·))
    (hfirst : 1 ≤ first) (hlast : last ≤ q.lastCheckpointIndex) :
    q.Pointwise ids prev first first last ↔ ∀ id ∈ ids.dropLast, q.Hinted first last id := by
  induction ids generalizing prev first with
  | nil =>
    constructor
    · intro _ id hid
      cases hid
    · intro _
      exact ⟨[], rfl, .nil⟩
  | cons id ids ih =>
    obtain ⟨hpos, hidle⟩ := hids id List.mem_cons_self
    have hrest : ∀ i ∈ ids, 0 < i ∧ i ≤ q.lastRequestId :=
      fun i hi => hids i (List.mem_cons_of_mem _ hi)
    obtain ⟨hprev, htail⟩ := List.pairwise_cons.mp hsorted
    have hle : prev ≤ id := hprev id List.mem_cons_self
    have hlater : ∀ i ∈ ids, id ≤ i := (List.pairwise_cons.mp htail).1
    rcases hc.findCheckpointHint_cases hpos hidle hfirst hlast with
      ⟨h, hfound, hfinal, hge, hhl, hcover⟩ | ⟨hzero, hnone⟩
    · have hnarrow : ∀ i ∈ ids, q.Hinted h last i ↔ q.Hinted first last i := fun i hi =>
        hc.represented.hinted_narrow (hlater i hi) hge hhl hlast hcover
      have hsame : ∀ i ∈ ids, q.findCheckpointHint i h last = q.findCheckpointHint i first last :=
        fun i hi => hc.findCheckpointHint_narrow hpos (hlater i hi) (hrest i hi).2 hfirst hge hhl
          hlast hcover
      rw [pointwise_cons hle hfound, ← pointwise_congr hsame, ih hrest htail (hfirst.trans hge)]
      cases ids with
      | nil => simp
      | cons i ids =>
        have hhinted : q.Hinted first last id := ⟨hfinal, h, hge, hhl, hcover⟩
        rw [List.dropLast_cons_cons, List.forall_mem_cons, and_iff_right hhinted]
        exact forall₂_congr fun j hj => hnarrow j (List.dropLast_subset _ hj)
    · rw [pointwise_cons hle hzero]
      cases ids with
      | nil =>
        constructor
        · intro _ i hi
          cases hi
        · intro _
          exact ⟨[], rfl, .nil⟩
      | cons i ids =>
        rw [List.dropLast_cons_cons, List.forall_mem_cons]
        constructor
        · rintro ⟨hints, hloop, -⟩
          obtain ⟨-, hint, _, hfound, -⟩ := findCheckpointHintsLoop_cons.mp hloop
          exact absurd hfound findCheckpointHint_zero_ne
        · rintro ⟨hhinted, -⟩
          exact absurd hhinted hnone

/--
**The list is searched as its members are, one by one**, exactly if each of them but the last is
finalized and has its checkpoint in the range. Otherwise the call reverts.
-/
theorem findCheckpointHints_pointwise_iff (h : Reachable Initial PositiveStep q)
    (hids : ∀ id ∈ ids, 0 < id ∧ id ≤ q.lastRequestId) (hsorted : ids.Pairwise (· ≤ ·))
    (hfirst : 1 ≤ first) (hlast : last ≤ q.lastCheckpointIndex) :
    (∃ hintIds, q.findCheckpointHints ids first last = .ok hintIds ∧
      List.Forall₂ (fun id hint => q.findCheckpointHint id first last = .ok hint) ids hintIds) ↔
    ∀ id ∈ ids.dropLast, id ≤ q.lastFinalizedRequestId ∧
      ∃ h, first ≤ h ∧ h ≤ last ∧ q.Covers id h := by
  have hsorted' : (0 :: ids).Pairwise (· ≤ ·) :=
    List.pairwise_cons.mpr ⟨fun _ _ => Nat.zero_le _, hsorted⟩
  exact (counted_of_reachable h).pointwise_iff hids hsorted' hfirst hlast

/-- Both requests have their hints in the range up to the second checkpoint. -/
theorem findCheckpointHints_pointwise_iff_both :
    ∃ hintIds, exampleTwoHints.findCheckpointHints [1, 2] 1 2 = .ok hintIds ∧
      List.Forall₂ (fun id hint => exampleTwoHints.findCheckpointHint id 1 2 = .ok hint) [1, 2]
        hintIds := by
  refine (findCheckpointHints_pointwise_iff reachable_exampleTwoHints ?_ (by decide) (by decide)
    (by decide +kernel)).mpr ?_
  · decide +kernel
  · intro id hid
    obtain rfl : id = 1 := by simpa using hid
    exact ⟨by decide +kernel, 1, by decide, by decide, by decide +kernel⟩

/-- The first request has no hint from the second checkpoint on, so the list is not searched. -/
theorem not_findCheckpointHints_pointwise : ¬ ∀ (q : WithdrawalQueue) (ids : List Nat)
    (first last : Nat), Reachable Initial PositiveStep q →
      (∀ id ∈ ids, 0 < id ∧ id ≤ q.lastRequestId) → ids.Pairwise (· ≤ ·) → 1 ≤ first →
      last ≤ q.lastCheckpointIndex →
      ∃ hintIds, q.findCheckpointHints ids first last = .ok hintIds ∧
        List.Forall₂ (fun id hint => q.findCheckpointHint id first last = .ok hint) ids hintIds := by
  intro hall
  obtain ⟨hints, hok, -⟩ := hall exampleTwoHints [1, 2] 2 2 reachable_exampleTwoHints
    (by decide +kernel) (by decide) (by decide) (by decide +kernel)
  have hreverts : (exampleTwoHints.findCheckpointHints [1, 2] 2 2).isOk = false := by
    decide +kernel
  rw [hok] at hreverts
  cases hreverts

end WithdrawalQueue

end Catalist

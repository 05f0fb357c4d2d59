import Catalist.Lib.Transition

/-!
# Calls that call back, and revert

A contract calls others in the middle of its own calls. Between these calls its code runs
undisturbed: a part of it ends the call, or leaves a frame to go on from when the others have
answered. While a frame waits, the others call the contract again, to any depth. A call that reverts
takes back everything since it began.

Whatever is called in whatever order, the world that is left is one that the parts lead to when they
run one after the other (`reachable_world`).
-/

namespace Rollback

open Transition

variable {World Frame : Type*}

/-- The parts of the code: each ends its call, or leaves a frame. -/
structure Code (World Frame : Type*) where
  begins : World → World → Option Frame → Prop
  resumes : Frame → World → World → Option Frame → Prop

/-- A call that waits for an answer, and the world it began in. -/
structure Pending (World Frame : Type*) where
  before : World
  frame : Frame

/-- The world, and the calls that wait, the innermost first. -/
structure Machine (World Frame : Type*) where
  world : World
  pending : List (Pending World Frame)

inductive Step (code : Code World Frame) : Machine World Frame → Machine World Frame → Prop where
  | completes {w w' : World} {calls : List (Pending World Frame)} :
      code.begins w w' none → Step code ⟨w, calls⟩ ⟨w', calls⟩
  | waits {w w' : World} {frame : Frame} {calls : List (Pending World Frame)} :
      code.begins w w' (some frame) → Step code ⟨w, calls⟩ ⟨w', ⟨w, frame⟩ :: calls⟩
  | returns {w w' : World} {p : Pending World Frame} {calls : List (Pending World Frame)} :
      code.resumes p.frame w w' none → Step code ⟨w, p :: calls⟩ ⟨w', calls⟩
  | waitsAgain {w w' : World} {p : Pending World Frame} {frame : Frame}
      {calls : List (Pending World Frame)} :
      code.resumes p.frame w w' (some frame) →
      Step code ⟨w, p :: calls⟩ ⟨w', ⟨p.before, frame⟩ :: calls⟩
  /-- The others refuse, the code that follows fails, or the gas runs out. -/
  | reverts {w : World} {p : Pending World Frame} {calls : List (Pending World Frame)} :
      Step code ⟨w, p :: calls⟩ ⟨p.before, calls⟩

/-- A run starts between calls. -/
def Starts (Init : World → Prop) (m : Machine World Frame) : Prop :=
  Init m.world ∧ m.pending = []

variable {code : Code World Frame} {Init : World → Prop} {Inv : World → Prop}
  {Act : World → World → Prop} {m m' : Machine World Frame}

/-- The world is as the invariant says, and so is every world that a revert goes back to. -/
def Holds (Inv : World → Prop) (m : Machine World Frame) : Prop :=
  Inv m.world ∧ ∀ p ∈ m.pending, Inv p.before

theorem Holds.step (hbegins : ∀ w w' frame, Inv w → code.begins w w' frame → Inv w')
    (hresumes : ∀ frame w w' next, Inv w → code.resumes frame w w' next → Inv w')
    (h : Holds Inv m) (hs : Step code m m') : Holds Inv m' := by
  obtain ⟨hworld, hpending⟩ := h
  cases hs with
  | completes hbegin => exact ⟨hbegins _ _ _ hworld hbegin, hpending⟩
  | waits hbegin =>
    refine ⟨hbegins _ _ _ hworld hbegin, ?_⟩
    intro p hp
    rcases List.mem_cons.mp hp with rfl | hp
    · exact hworld
    · exact hpending p hp
  | returns hresume =>
    exact ⟨hresumes _ _ _ _ hworld hresume, fun p hp => hpending p (List.mem_cons_of_mem _ hp)⟩
  | @waitsAgain _ _ p _ _ hresume =>
    refine ⟨hresumes _ _ _ _ hworld hresume, ?_⟩
    intro p' hp'
    rcases List.mem_cons.mp hp' with rfl | hp'
    · exact hpending p (List.mem_cons_self ..)
    · exact hpending p' (List.mem_cons_of_mem _ hp')
  | @reverts _ p _ =>
    exact ⟨hpending p (List.mem_cons_self ..),
      fun p' hp' => hpending p' (List.mem_cons_of_mem _ hp')⟩

/-- **Nested calls are calls one after the other**, as far as the world can tell. -/
theorem reachable_world
    (hbegins : ∀ w w' frame, code.begins w w' frame → Reachable (· = w) Act w')
    (hresumes : ∀ frame w w' next, code.resumes frame w w' next → Reachable (· = w) Act w')
    (h : Reachable (Starts Init) (Step code) m) : Reachable Init Act m.world := by
  have hholds : Holds (Reachable Init Act) m := by
    refine h.invariant ?_ ?_
    · rintro m₀ ⟨hinit, hnone⟩
      refine ⟨.init hinit, fun p hp => ?_⟩
      rw [hnone] at hp
      cases hp
    · intro m₁ m₂ hm hs
      refine hm.step (fun w w' frame hw hb => ?_) (fun frame w w' next hw hr => ?_) hs
      · exact hw.trans (hbegins w w' frame hb)
      · exact hw.trans (hresumes frame w w' next hr)
  exact hholds.1

end Rollback

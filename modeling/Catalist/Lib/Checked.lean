import Mathlib.Algebra.Group.Nat.Defs
import Mathlib.Data.Nat.Basic
import Mathlib.Tactic.Common

/-!
# Calls that may revert

What a smart contract language adds to plain functions: a call either returns a value or
reverts, arithmetic on fixed-width unsigned integers is checked, and `require`, `assert` and
array accesses revert on their own.

Nothing here knows about a particular contract. A contract model picks its own error type `ε`
and writes each function as `State → Call ε (State × α)` in `do` notation.

## How proofs use it

Every operation has one lemma of the form `op … = .ok r ↔ …`. Together with `bind_eq_ok` they
turn a successful call into the conjunction of the guards it passed and the values it computed.
-/

namespace Solidity

/-- The failures that the compiler itself inserts. -/
inductive Panic where
  | overflow
  | underflow
  | divisionByZero
  | assertion
  | indexOutOfBounds
deriving DecidableEq, Repr

/-- What a call reverts with: a panic, or an error of the contract. -/
inductive Revert (ε : Type) where
  | panic (p : Panic)
  | error (e : ε)
deriving DecidableEq, Repr

/-- The outcome of a call. -/
abbrev Call (ε α : Type) := Except (Revert ε) α

variable {ε α β : Type}

/-- `require(c, e)`, or `if (!c) revert e`. -/
def require (c : Prop) [Decidable c] (e : ε) : Call ε Unit :=
  if c then .ok () else .error (.error e)

/-- `assert(c)`. -/
def ensure (c : Prop) [Decidable c] : Call ε Unit :=
  if c then .ok () else .error (.panic .assertion)

/-- Addition of unsigned integers of `w` bits. -/
def checkedAdd (w a b : Nat) : Call ε Nat :=
  if a + b < 2 ^ w then .ok (a + b) else .error (.panic .overflow)

/-- Multiplication of unsigned integers of `w` bits. -/
def checkedMul (w a b : Nat) : Call ε Nat :=
  if a * b < 2 ^ w then .ok (a * b) else .error (.panic .overflow)

def checkedSub (a b : Nat) : Call ε Nat :=
  if b ≤ a then .ok (a - b) else .error (.panic .underflow)

def checkedDiv (a b : Nat) : Call ε Nat :=
  if b = 0 then .error (.panic .divisionByZero) else .ok (a / b)

def checkedMod (a b : Nat) : Call ε Nat :=
  if b = 0 then .error (.panic .divisionByZero) else .ok (a % b)

/-- `xs[i]` with its bounds check. -/
def getIndex (xs : List α) (i : Nat) : Call ε α :=
  match xs[i]? with
  | some x => .ok x
  | none => .error (.panic .indexOutOfBounds)

/-- `xs[i] = x` with its bounds check. -/
def setIndex (xs : List α) (i : Nat) (x : α) : Call ε (List α) :=
  if i < xs.length then .ok (xs.set i x) else .error (.panic .indexOutOfBounds)

/-- The same failure for the contract that called. -/
def Revert.map {ε ε' : Type} (f : ε → ε') : Revert ε → Revert ε'
  | .panic p => .panic p
  | .error e => .error (f e)

/-- A call to a contract with other errors. -/
def within {ε ε' α : Type} (f : ε → ε') : Call ε α → Call ε' α
  | .ok a => .ok a
  | .error r => .error (r.map f)

/-! ## Success -/

@[simp] theorem bind_eq_ok {x : Call ε α} {f : α → Call ε β} {b : β} :
    (x >>= f) = .ok b ↔ ∃ a, x = .ok a ∧ f a = .ok b := by
  cases x with
  | error e => simp [bind, Except.bind]
  | ok a => simp [bind, Except.bind]

@[simp] theorem pure_eq_ok {a b : α} : (pure a : Call ε α) = .ok b ↔ a = b := by
  simp [pure, Except.pure]

@[simp] theorem within_eq_ok {ε' : Type} {f : ε → ε'} {x : Call ε α} {a : α} :
    within f x = .ok a ↔ x = .ok a := by
  cases x with
  | error e => simp [within]
  | ok b => simp [within]

theorem map_eq_ok {x : Call ε α} {f : α → β} {b : β} :
    f <$> x = .ok b ↔ ∃ a, x = .ok a ∧ f a = b := by
  cases x with
  | error e => simp [Functor.map, Except.map]
  | ok a => simp [Functor.map, Except.map]

@[simp] theorem require_eq_ok {c : Prop} [Decidable c] {e : ε} {u : Unit} :
    require c e = .ok u ↔ c := by
  by_cases h : c
  · simp [require, h]
  · simp [require, h]

@[simp] theorem ensure_eq_ok {c : Prop} [Decidable c] {u : Unit} :
    (ensure c : Call ε Unit) = .ok u ↔ c := by
  by_cases h : c
  · simp [ensure, h]
  · simp [ensure, h]

@[simp] theorem checkedAdd_eq_ok {w a b c : Nat} :
    (checkedAdd w a b : Call ε Nat) = .ok c ↔ a + b < 2 ^ w ∧ c = a + b := by
  by_cases h : a + b < 2 ^ w
  · simp [checkedAdd, h, eq_comm]
  · simp [checkedAdd, h]

@[simp] theorem checkedMul_eq_ok {w a b c : Nat} :
    (checkedMul w a b : Call ε Nat) = .ok c ↔ a * b < 2 ^ w ∧ c = a * b := by
  by_cases h : a * b < 2 ^ w
  · simp [checkedMul, h, eq_comm]
  · simp [checkedMul, h]

@[simp] theorem checkedSub_eq_ok {a b c : Nat} :
    (checkedSub a b : Call ε Nat) = .ok c ↔ b ≤ a ∧ c = a - b := by
  by_cases h : b ≤ a
  · simp [checkedSub, h, eq_comm]
  · simp [checkedSub, h]

@[simp] theorem checkedDiv_eq_ok {a b c : Nat} :
    (checkedDiv a b : Call ε Nat) = .ok c ↔ b ≠ 0 ∧ c = a / b := by
  by_cases h : b = 0
  · simp [checkedDiv, h]
  · simp [checkedDiv, h, eq_comm]

@[simp] theorem getIndex_eq_ok {xs : List α} {i : Nat} {x : α} :
    (getIndex xs i : Call ε α) = .ok x ↔ xs[i]? = some x := by
  unfold getIndex
  split <;> simp_all

@[simp] theorem setIndex_eq_ok {xs ys : List α} {i : Nat} {x : α} :
    (setIndex xs i x : Call ε (List α)) = .ok ys ↔ i < xs.length ∧ ys = xs.set i x := by
  by_cases h : i < xs.length
  · simp [setIndex, h, eq_comm]
  · simp [setIndex, h]

/-! ## Which failure it is -/

theorem exists_error_iff {x : Call ε α} : (∃ r, x = .error r) ↔ ¬∃ a, x = .ok a := by
  cases x with
  | error r => simp
  | ok a => simp

theorem require_of {c : Prop} [Decidable c] {e : ε} (h : c) : require c e = .ok () :=
  require_eq_ok.mpr h

theorem ensure_of {c : Prop} [Decidable c] (h : c) : (ensure c : Call ε Unit) = .ok () :=
  ensure_eq_ok.mpr h

theorem checkedAdd_of {w a b : Nat} (h : a + b < 2 ^ w) :
    (checkedAdd w a b : Call ε Nat) = .ok (a + b) :=
  checkedAdd_eq_ok.mpr ⟨h, rfl⟩

theorem checkedMul_of {w a b : Nat} (h : a * b < 2 ^ w) :
    (checkedMul w a b : Call ε Nat) = .ok (a * b) :=
  checkedMul_eq_ok.mpr ⟨h, rfl⟩

theorem checkedSub_of {a b : Nat} (h : b ≤ a) : (checkedSub a b : Call ε Nat) = .ok (a - b) :=
  checkedSub_eq_ok.mpr ⟨h, rfl⟩

theorem checkedDiv_of {a b : Nat} (h : b ≠ 0) : (checkedDiv a b : Call ε Nat) = .ok (a / b) :=
  checkedDiv_eq_ok.mpr ⟨h, rfl⟩

theorem checkedMod_of {a b : Nat} (h : b ≠ 0) : (checkedMod a b : Call ε Nat) = .ok (a % b) := by
  rw [checkedMod, if_neg h]

theorem getIndex_of {xs : List α} {i : Nat} (h : i < xs.length) :
    (getIndex xs i : Call ε α) = .ok xs[i] :=
  getIndex_eq_ok.mpr (List.getElem?_eq_getElem h)

theorem getIndex_split (pre post : List α) (x : α) :
    (getIndex (pre ++ x :: post) pre.length : Call ε α) = .ok x :=
  getIndex_eq_ok.mpr (by simp)

theorem setIndex_split (pre post : List α) (x y : α) :
    (setIndex (pre ++ x :: post) pre.length y : Call ε (List α)) = .ok (pre ++ y :: post) :=
  setIndex_eq_ok.mpr (by simp)

theorem within_eq_error {ε' : Type} {f : ε → ε'} {x : Call ε α} {r : Revert ε'} :
    within f x = .error r ↔ ∃ r', x = .error r' ∧ r'.map f = r := by
  cases x with
  | error r' => simp [within]
  | ok a => simp [within]

theorem map_eq_error {x : Call ε α} {f : α → β} {r : Revert ε} :
    f <$> x = .error r ↔ x = .error r := by
  cases x with
  | error r' => simp [Functor.map, Except.map]
  | ok a => simp [Functor.map, Except.map]

theorem within_ok {ε' : Type} (f : ε → ε') (a : α) : within f (.ok a : Call ε α) = .ok a := rfl

theorem within_bind {ε' : Type} (f : ε → ε') (x : Call ε α) (g : α → Call ε β) :
    within f (x >>= g) = (within f x >>= fun a => within f (g a)) := by
  cases x with
  | error r => rfl
  | ok a => rfl

theorem within_require {ε' : Type} (f : ε → ε') (c : Prop) [Decidable c] (e : ε) :
    within f (require c e) = require c (f e) := by
  by_cases h : c
  · rw [require_of h, require_of h, within_ok]
  · rw [require, require, if_neg h, if_neg h]
    rfl

theorem within_checkedMul {ε' : Type} (f : ε → ε') (w a b : Nat) :
    within f (checkedMul w a b) = checkedMul w a b := by
  by_cases h : a * b < 2 ^ w
  · rw [checkedMul_of h, checkedMul_of h, within_ok]
  · rw [checkedMul, checkedMul, if_neg h, if_neg h]
    rfl

/-- What comes after a call only matters where it succeeds. -/
theorem bind_congr_of_ok {x : Call ε α} {f g : α → Call ε β} (h : ∀ a, x = .ok a → f a = g a) :
    (x >>= f) = (x >>= g) := by
  cases x with
  | error r => rfl
  | ok a => exact h a rfl

@[simp] theorem ok_bind {a : α} {f : α → Call ε β} : ((.ok a : Call ε α) >>= f) = f a := rfl

/-! ## Running a call -/

/-- The value of a call that succeeds. -/
def result : (x : Call ε α) → x.isOk = true → α
  | .ok a, _ => a

/-- A call on concrete inputs is run by evaluating `isOk`. -/
theorem eq_ok_result (x : Call ε α) (h : x.isOk = true) : x = .ok (result x h) := by
  cases x with
  | error e => cases h
  | ok a => rfl

end Solidity

import Catalist.Lib.ByteBuffer

/-!
# Byte strings in calldata

A `bytes calldata` argument is a window of the calldata. The decoder has checked that the window is
inside; what assembly code reads at an offset of its own is not checked, so it may run into the
bytes behind the window, or into the zeros behind the calldata.

The arithmetic of assembly code wraps around at 256 bits.
-/

namespace Yul

/-- `add(a, b)` -/
def add (a b : Nat) : Nat := (a + b) % 2 ^ 256

/-- `sub(a, b)` -/
def sub (a b : Nat) : Nat := (a + (2 ^ 256 - b)) % 2 ^ 256

/-- `mul(a, b)` -/
def mul (a b : Nat) : Nat := a * b % 2 ^ 256

theorem add_of_lt {a b : Nat} (h : a + b < 2 ^ 256) : add a b = a + b := Nat.mod_eq_of_lt h

theorem sub_of_le {a b : Nat} (h : b ≤ a) (ha : a < 2 ^ 256) : sub a b = a - b := by
  unfold sub
  omega

theorem mul_of_lt {a b : Nat} (h : a * b < 2 ^ 256) : mul a b = a * b := Nat.mod_eq_of_lt h

end Yul

namespace ByteBuffer

theorem lt_two_pow_of_le {n w : Nat} (h : n ≤ w) : n < 2 ^ w :=
  Nat.lt_two_pow_self.trans_le (Nat.pow_le_pow_right Nat.two_pos h)

/-- A `bytes calldata` argument, as the decoder accepts it. -/
structure CalldataBytes where
  calldata : Bytes
  offset : Nat
  length : Nat
  inside : offset + length ≤ calldata.length
  offset_lt : offset < 2 ^ 65
  length_lt : length < 2 ^ 64

namespace CalldataBytes

variable (data : CalldataBytes)

/-- The bytes of the window. -/
def bytes : Bytes := (data.calldata.drop data.offset).take data.length

/-- The bytes of the calldata at an offset. -/
def slice (offset length : Nat) : Bytes := (data.calldata.drop offset).take length

@[simp] theorem length_bytes : data.bytes.length = data.length := by
  have hinside := data.inside
  rw [bytes, List.length_take, List.length_drop]
  omega

/-- The number in the `k` bytes of the window from `o` on. -/
def number (o k : Nat) : Nat := natOfBytes ((data.bytes.drop o).take k)

variable {data} {o n : Nat}

theorem slice_eq (h : o + n ≤ data.length) :
    data.slice (data.offset + o) n = (data.bytes.drop o).take n := by
  rw [slice, bytes, List.drop_take, List.drop_drop, List.take_take, Nat.min_eq_left (by omega)]

theorem number_lt (o k : Nat) : data.number o k < 256 ^ k := by
  refine (natOfBytes_lt _).trans_le (Nat.pow_le_pow_right (by decide) ?_)
  exact List.length_take_le _ _

/-- The upper bytes of a word that is loaded at an offset into the window. -/
theorem toNat_shift {k l : Nat} (hword : k + l = 32) (h : o + k ≤ data.length) :
    (mload data.calldata (data.offset + o) >>> (8 * l)).toNat = data.number o k := by
  have hinside := data.inside
  rw [toNat_mload_shift _ _ hword (by omega), number, ← slice_eq h, slice]

/-- Some bytes in the middle of a word that is loaded at an offset into the window. -/
theorem toNat_shift_mask {j k l : Nat} (hword : j + k + l = 32) (h : o + j + k ≤ data.length) :
    (mload data.calldata (data.offset + o) >>> (8 * l)
      &&& BitVec.ofNat 256 (2 ^ (8 * k) - 1)).toNat = data.number (o + j) k := by
  have hinside := data.inside
  have hfield := mload_field data.calldata (data.offset + o) hword (by omega)
  have hmask : 2 ^ (8 * k) - 1 < 2 ^ 256 := by
    have hle := Nat.pow_le_pow_right (n := 2) (by decide) (show 8 * k ≤ 256 by omega)
    omega
  rw [BitVec.toNat_and, BitVec.toNat_ofNat, Nat.mod_eq_of_lt hmask, Nat.and_two_pow_sub_one_eq_mod,
    BitVec.toNat_ushiftRight, Nat.shiftRight_eq_div_pow, Nat.pow_mul, Nat.pow_mul, hfield, number,
    Nat.add_assoc, ← slice_eq (by omega), slice]

end CalldataBytes

end ByteBuffer

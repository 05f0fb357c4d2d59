import Catalist.Lib.Checked
import Catalist.Lib.Memory

/-!
# Memory utilities

`MemUtils.sol`, as the contracts that use it compile it: arithmetic is checked outside of the assembly
blocks. Addresses are numbers here. Memory has its price in gas, so no call gets to the addresses at
which the sums of the assembly would wrap around.

`memcpy` copies words, and merges the last one at the byte where the source ends. Whatever the length
is, exactly the bytes of the destination change (`memcpy_apply`).
-/

namespace Catalist

open Solidity

inductive MemUtilsError where
  /-- `"BYTES_ARRAY_OUT_OF_BOUNDS"` -/
  | bytesArrayOutOfBounds
deriving DecidableEq, Repr

namespace MemUtils

/-- It also returns the address of the array, whose bytes are what was there before. -/
def unsafeAllocateBytes (h : Heap) (len : Nat) : Heap × Nat :=
  let result := h.freeMemPtr
  let mem := h.mem.mstore result (BitVec.ofNat 256 len)
  let freeMemPtr := result + 32 + len
  -- align free mem ptr to 32 bytes
  ({ mem := mem, freeMemPtr := (freeMemPtr + 31) / 32 * 32 }, result)

def memcpy (m : Memory) (src dst len : Nat) : Memory :=
  if 31 < len then memcpy (m.mstore dst (m.mload src)) (src + 32) (dst + 32) (len - 32)
  else if 0 < len then
    let mask := Memory.mask len
    let srcMasked := m.mload src &&& ~~~mask
    let dstMasked := m.mload dst &&& mask
    m.mstore dst (dstMasked ||| srcMasked)
  else m
termination_by len

/-- `_bytes.length`, for the array at an address -/
def arrayLength (m : Memory) (p : Nat) : Nat := (m.mload p).toNat

/-- `copyBytes`, from one array to another -/
def copyBytes (m : Memory) (src dst srcStart dstStart len : Nat) : Call MemUtilsError Memory := do
  let srcEnd ← checkedAdd 256 srcStart len
  require (srcEnd ≤ arrayLength m src) .bytesArrayOutOfBounds
  let dstEnd ← checkedAdd 256 dstStart len
  require (dstEnd ≤ arrayLength m dst) .bytesArrayOutOfBounds
  return memcpy m (src + 32 + srcStart) (dst + 32 + dstStart) len

variable {m : Memory} {src dst srcStart dstStart len a : Nat}

/-! ## Copying -/

/-- A word that is copied. -/
theorem copyWord_apply : m.mstore dst (m.mload src) a
    = if dst ≤ a ∧ a < dst + 32 then m (src + (a - dst)) else m a := by
  split
  · next ha =>
    obtain ⟨i, rfl⟩ : ∃ i, a = dst + i := ⟨a - dst, by omega⟩
    rw [Memory.mstore_of_inside (by omega), Memory.byteOf_mload (by omega), Nat.add_sub_cancel_left]
  · rw [Memory.mstore_of_outside (by omega)]

/-- The last word: what lies behind the destination is stored as it was loaded. -/
theorem copyTail_apply (hpos : 0 < len) (hlt : len < 32) :
    m.mstore dst ((m.mload dst &&& Memory.mask len) ||| (m.mload src &&& ~~~Memory.mask len)) a
      = if dst ≤ a ∧ a < dst + len then m (src + (a - dst)) else m a := by
  by_cases hword : dst ≤ a ∧ a < dst + 32
  · obtain ⟨i, rfl⟩ : ∃ i, a = dst + i := ⟨a - dst, by omega⟩
    have hi : i < 32 := by omega
    rw [Memory.mstore_of_inside hi, Memory.byteOf_merge _ _ hpos hi, Memory.byteOf_mload hi,
      Memory.byteOf_mload hi, Nat.add_sub_cancel_left]
    by_cases hlen : i < len
    · rw [if_pos hlen, if_pos (by omega)]
    · rw [if_neg hlen, if_neg (by omega)]
  · rw [Memory.mstore_of_outside (by omega), if_neg (by omega)]

/--
`memcpy`, byte by byte. The induction is over the words that are left; a word that was copied is no
source of a later one, as the two areas are apart.
-/
theorem memcpy_apply (hapart : src + len ≤ dst ∨ dst + len ≤ src) :
    memcpy m src dst len a = if dst ≤ a ∧ a < dst + len then m (src + (a - dst)) else m a := by
  induction m, src, dst, len using memcpy.induct with
  | case1 m src dst len hlong ih =>
    rw [memcpy, if_pos hlong, ih (by omega)]
    by_cases hrest : dst + 32 ≤ a ∧ a < dst + 32 + (len - 32)
    · rw [if_pos hrest, if_pos (by omega), copyWord_apply, if_neg (by omega)]
      exact congrArg m (by omega)
    · rw [if_neg hrest, copyWord_apply]
      by_cases hfirst : dst ≤ a ∧ a < dst + 32
      · rw [if_pos hfirst, if_pos (by omega)]
      · rw [if_neg hfirst, if_neg (by omega)]
  | case2 m src dst len hshort hpos =>
    rw [memcpy, if_neg hshort, if_pos hpos]
    exact copyTail_apply hpos (by omega)
  | case3 m src dst len hshort hzero =>
    rw [memcpy, if_neg hshort, if_neg hzero, if_neg (by omega)]

theorem copyBytes_of_le (hsrc : srcStart + len ≤ arrayLength m src)
    (hdst : dstStart + len ≤ arrayLength m dst) :
    copyBytes m src dst srcStart dstStart len
      = .ok (memcpy m (src + 32 + srcStart) (dst + 32 + dstStart) len) := by
  have hsrcWord : srcStart + len < 2 ^ 256 := hsrc.trans_lt (m.mload src).isLt
  have hdstWord : dstStart + len < 2 ^ 256 := hdst.trans_lt (m.mload dst).isLt
  rw [copyBytes, checkedAdd_of hsrcWord, ok_bind, require_of hsrc, ok_bind, checkedAdd_of hdstWord,
    ok_bind, require_of hdst, ok_bind]
  rfl

/--
**Byte copy is exact.** Between two arrays that do not overlap, and within their bounds, the bytes are
copied and no other byte of the memory changes.
-/
theorem copyBytes_exact (hsrc : srcStart + len ≤ arrayLength m src)
    (hdst : dstStart + len ≤ arrayLength m dst)
    (hapart : src + 32 + arrayLength m src ≤ dst + 32 ∨ dst + 32 + arrayLength m dst ≤ src + 32) :
    ∃ m', copyBytes m src dst srcStart dstStart len = .ok m' ∧
      (∀ k < len, m' (dst + 32 + dstStart + k) = m (src + 32 + srcStart + k)) ∧
      ∀ a, (∀ k < len, a ≠ dst + 32 + dstStart + k) → m' a = m a := by
  refine ⟨_, copyBytes_of_le hsrc hdst, fun k hk => ?_, fun a ha => ?_⟩
  · rw [memcpy_apply (by omega), if_pos (by omega), Nat.add_sub_cancel_left]
  · rw [memcpy_apply (by omega), if_neg]
    rintro ⟨hle, hlt⟩
    exact ha (a - (dst + 32 + dstStart)) (by omega) (by omega)

/-- Two arrays of 40 bytes, one after the other. -/
def exampleArrays : Memory :=
  Memory.mstore (Memory.mstore (fun a => BitVec.ofNat 8 a) 0 40) 96 40

/-- 35 bytes are copied, from an odd place to another. -/
theorem copyBytes_exact_odd : ∃ m', copyBytes exampleArrays 0 96 3 5 35 = .ok m' ∧
    m' (96 + 32 + 5 + 34) = exampleArrays (0 + 32 + 3 + 34) ∧ m' 168 = exampleArrays 168 := by
  obtain ⟨m', hcopy, hbytes, hframe⟩ := @copyBytes_exact exampleArrays 0 96 3 5 35
    (by decide +kernel) (by decide +kernel) (by decide +kernel)
  exact ⟨m', hcopy, hbytes 34 (by decide), hframe 168 (by decide)⟩

/-! ## Arrays of a heap -/

variable {h : Heap} {bs old : Bytes}

theorem arrayLength_of_holds {p : Nat} (hp : h.Holds p bs) : arrayLength h.mem p = bs.length :=
  hp.length

/-- A new array leaves those that are there alone. -/
theorem unsafeAllocateBytes_cases (h : Heap) (hlen : len < 2 ^ 256) :
    ∃ h' bs, unsafeAllocateBytes h len = (h', h.freeMemPtr) ∧ h.Extends h' ∧ bs.length = len ∧
      h'.Holds h.freeMemPtr bs := by
  have hfree : h.freeMemPtr + 32 + len ≤ (h.freeMemPtr + 32 + len + 31) / 32 * 32 := by omega
  refine ⟨_, (unsafeAllocateBytes h len).1.mem.read (h.freeMemPtr + 32) len, rfl,
    ⟨?_, fun a ha => ?_⟩, Memory.length_read _ _ _, ⟨?_, ?_, ?_⟩⟩
  · simp only
    omega
  · exact Memory.mstore_of_outside (.inl ha)
  · rw [Memory.mload_mstore, Memory.length_read, BitVec.toNat_ofNat, Nat.mod_eq_of_lt hlen]
  · rw [Memory.length_read]
    rfl
  · rw [Memory.length_read]
    exact hfree

/--
An array that is new since `h₀` is filled from a part of one that was there. The other arrays, old and
new, stay as they are.
-/
theorem copyBytes_fill {h₀ : Heap} (hext : h₀.Extends h) (hsrc : h₀.Holds src bs)
    (hdst : h.Holds dst old) (hnew : h₀.freeMemPtr ≤ dst) (holdLength : old.length = len)
    (hpart : srcStart + len ≤ bs.length) :
    ∃ m', copyBytes h.mem src dst srcStart 0 len = .ok m' ∧
      Heap.Holds { h with mem := m' } dst ((bs.drop srcStart).take len) ∧
      h₀.Extends { h with mem := m' } ∧
      ∀ p other, h.Holds p other → p + 32 + other.length ≤ dst ∨ dst + 32 + len ≤ p →
        Heap.Holds { h with mem := m' } p other := by
  subst holdLength
  have hallocated := hsrc.allocated
  have hsrcLength := arrayLength_of_holds (hsrc.extends hext)
  have hdstLength := arrayLength_of_holds hdst
  have hlength : ((bs.drop srcStart).take old.length).length = old.length :=
    ByteBuffer.length_take_drop hpart
  have hapart : src + 32 + srcStart + old.length ≤ dst + 32 + 0 := by omega
  have houtside : ∀ a, a < dst + 32 ∨ dst + 32 + old.length ≤ a →
      memcpy h.mem (src + 32 + srcStart) (dst + 32 + 0) old.length a = h.mem a := fun a ha => by
    rw [memcpy_apply (.inl hapart), if_neg (by omega)]
  have hinside : ∀ k < old.length,
      memcpy h.mem (src + 32 + srcStart) (dst + 32 + 0) old.length (dst + 32 + k)
        = h.mem (src + 32 + srcStart + k) := fun k hk => by
    rw [memcpy_apply (.inl hapart), if_pos (by omega)]
    exact congrArg h.mem (by omega)
  refine ⟨_, copyBytes_of_le (by rwa [hsrcLength]) (by rw [hdstLength, Nat.zero_add]),
    ⟨?_, ?_, ?_⟩, ⟨hext.freeMemPtr_le, fun a ha => ?_⟩,
    fun p other hp hapart => hp.congr hp.allocated fun a hle hlt => houtside a (by omega)⟩
  · rw [hlength, Memory.mload_congr fun i hi => houtside (dst + i) (by omega)]
    exact hdst.length
  · rw [hlength, ← (hsrc.extends hext).bytes, Memory.read_drop_take hpart]
    exact Memory.read_congr hinside
  · rw [hlength]
    exact hdst.allocated
  · exact (houtside a (.inl (by omega))).trans (hext.mem a ha)

end MemUtils

end Catalist

import Catalist.Lib.ByteBuffer

/-!
# Memory by bytes and by words

A memory has a byte at every address. Words of 256 bits are loaded from it and stored to it with the
most significant byte first. A store changes 32 bytes; the lemmas say which byte of the word is where.
Two words are merged at a byte with a mask (`byteOf_merge`).

A heap is a memory of which the addresses from `freeMemPtr` on have not been given away. What is
allocated stays where it is while a heap is extended (`Heap.Extends`).
-/

open ByteBuffer

/-- The byte at each address. -/
abbrev Memory := Nat → Byte

/-- The bytes of a word are counted from the most significant one. -/
def byteOf (w : BitVec 256) (i : Nat) : Byte := (w >>> (8 * (31 - i))).setWidth 8

namespace Memory

/-- `k` bytes from an address on. -/
def read (m : Memory) (a k : Nat) : Bytes := (List.range k).map fun i => m (a + i)

def mload (m : Memory) (a : Nat) : BitVec 256 := BitVec.ofNat 256 (natOfBytes (m.read a 32))

def mstore (m : Memory) (a : Nat) (w : BitVec 256) : Memory :=
  fun x => if a ≤ x ∧ x < a + 32 then byteOf w (x - a) else m x

variable {m m' : Memory} {a i k : Nat} {w : BitVec 256}

/-! ## Bytes -/

@[simp] theorem length_read (m : Memory) (a k : Nat) : (m.read a k).length = k := by
  simp [read]

theorem getElem_read (h : i < (m.read a k).length) : (m.read a k)[i] = m (a + i) := by
  simp [read]

theorem read_congr {b : Nat} (h : ∀ i < k, m' (b + i) = m (a + i)) : m'.read b k = m.read a k :=
  List.map_congr_left fun i hi => h i (List.mem_range.mp hi)

/-- A part of what is read. -/
theorem read_drop_take {j l : Nat} (h : j + l ≤ k) :
    ((m.read a k).drop j).take l = m.read (a + j) l := by
  refine List.ext_getElem ?_ fun i h₁ h₂ => ?_
  · rw [length_take_drop (by rwa [length_read]), length_read]
  · rw [List.getElem_take, List.getElem_drop, getElem_read, getElem_read, Nat.add_assoc]

/-! ## Words -/

theorem bytesOfWord_mload (m : Memory) (a : Nat) : bytesOfWord (m.mload a) = m.read a 32 := by
  have hlt := natOfBytes_lt (m.read a 32)
  rw [length_read] at hlt
  have hword : natOfBytes (m.read a 32) % 2 ^ 256 = natOfBytes (m.read a 32) := Nat.mod_eq_of_lt hlt
  rw [bytesOfWord_eq, mload, BitVec.toNat_ofNat, hword]
  exact bytesOfNat_natOfBytes (length_read m a 32)

/-- A loaded word has the bytes of the memory. -/
theorem byteOf_mload (hi : i < 32) : byteOf (m.mload a) i = m (a + i) := by
  have hword : (bytesOfWord (m.mload a))[i]? = some (byteOf (m.mload a) i) := by
    simp [bytesOfWord, byteOf, hi]
  have hread : (m.read a 32)[i]? = some (m (a + i)) := by
    simp [read, hi]
  rw [bytesOfWord_mload, hread] at hword
  exact (Option.some.inj hword).symm

theorem mload_congr (h : ∀ i < 32, m' (a + i) = m (a + i)) : m'.mload a = m.mload a := by
  rw [mload, mload, read_congr h]

theorem mstore_of_inside (hi : i < 32) : m.mstore a w (a + i) = byteOf w i := by
  rw [mstore, if_pos (by omega), Nat.add_sub_cancel_left]

theorem mstore_of_outside {x : Nat} (h : x < a ∨ a + 32 ≤ x) : m.mstore a w x = m x := by
  rw [mstore, if_neg (by omega)]

/-- A word that was stored is read back. -/
theorem mload_mstore : (m.mstore a w).mload a = w := by
  refine bytesOfWord_injective ?_
  rw [bytesOfWord_mload]
  refine List.ext_getElem (by simp) fun i h₁ h₂ => ?_
  rw [length_read] at h₁
  rw [getElem_read, mstore_of_inside h₁]
  simp [bytesOfWord, byteOf]

/-! ## Masks -/

/-- The mask of the bytes from position `k` on. -/
def mask (k : Nat) : BitVec 256 := (1#256 <<< (8 * (32 - k))) - 1#256

theorem getLsbD_mask (hk : 0 < k) (j : Nat) :
    (mask k).getLsbD j = decide (j < 8 * (32 - k)) := by
  have hlt : 2 ^ (8 * (32 - k)) < 2 ^ 256 := Nat.pow_lt_pow_right (by decide) (by omega)
  have hpos : 0 < 2 ^ (8 * (32 - k)) := Nat.two_pow_pos _
  have hmask : (mask k).toNat = 2 ^ (8 * (32 - k)) - 1 := by
    have hshift : (1#256 <<< (8 * (32 - k))).toNat = 2 ^ (8 * (32 - k)) := by
      rw [BitVec.toNat_shiftLeft, Nat.shiftLeft_eq, BitVec.toNat_one (by decide), Nat.one_mul,
        Nat.mod_eq_of_lt hlt]
    rw [mask, BitVec.toNat_sub, hshift]
    simp only [BitVec.toNat_ofNat]
    omega
  rw [BitVec.getLsbD, hmask, Nat.testBit_two_pow_sub_one]

/-- The first `k` bytes are those of `x`, the others those of `y`. -/
theorem byteOf_merge (x y : BitVec 256) (hk : 0 < k) (hi : i < 32) :
    byteOf ((y &&& mask k) ||| (x &&& ~~~mask k)) i = if i < k then byteOf x i else byteOf y i := by
  refine BitVec.eq_of_getLsbD_eq fun j hj => ?_
  have hbit : 8 * (31 - i) + j < 256 := by omega
  have hmask := getLsbD_mask hk (8 * (31 - i) + j)
  simp only [byteOf, BitVec.getLsbD_setWidth, BitVec.getLsbD_ushiftRight, BitVec.getLsbD_or,
    BitVec.getLsbD_and, BitVec.getLsbD_not, hmask, hbit, hj, decide_true, Bool.true_and]
  by_cases hik : i < k
  · have hbelow : ¬ 8 * (31 - i) + j < 8 * (32 - k) := by omega
    simp [hik, hbelow, hj]
  · have habove : 8 * (31 - i) + j < 8 * (32 - k) := by omega
    simp [hik, habove, hj]

end Memory

/-! ## Heaps -/

structure Heap where
  mem : Memory
  /-- the word at `0x40`, as an address -/
  freeMemPtr : Nat

namespace Heap

variable {h h' h'' : Heap} {p : Nat} {bs : Bytes}

/-- What is allocated in a heap is left alone. -/
structure Extends (h h' : Heap) : Prop where
  freeMemPtr_le : h.freeMemPtr ≤ h'.freeMemPtr
  mem : ∀ a < h.freeMemPtr, h'.mem a = h.mem a

theorem Extends.refl (h : Heap) : Extends h h := ⟨Nat.le_refl _, fun _ _ => rfl⟩

theorem Extends.trans (hext : Extends h h') (hext' : Extends h' h'') : Extends h h'' where
  freeMemPtr_le := hext.freeMemPtr_le.trans hext'.freeMemPtr_le
  mem a ha := (hext'.mem a (ha.trans_le hext.freeMemPtr_le)).trans (hext.mem a ha)

/-- A byte array: a word with its length, and the bytes after it. -/
structure Holds (h : Heap) (p : Nat) (bs : Bytes) : Prop where
  length : (h.mem.mload p).toNat = bs.length
  bytes : h.mem.read (p + 32) bs.length = bs
  allocated : p + 32 + bs.length ≤ h.freeMemPtr

/-- The array is where it was in a heap with the same bytes there. -/
theorem Holds.congr (hp : h.Holds p bs) (hfree : p + 32 + bs.length ≤ h'.freeMemPtr)
    (hmem : ∀ a, p ≤ a → a < p + 32 + bs.length → h'.mem a = h.mem a) : h'.Holds p bs where
  length := by
    rw [Memory.mload_congr fun i hi => hmem (p + i) (by omega) (by omega)]
    exact hp.length
  bytes := by
    rw [Memory.read_congr fun i hi => hmem (p + 32 + i) (by omega) (by omega)]
    exact hp.bytes
  allocated := hfree

theorem Holds.extends (hp : h.Holds p bs) (hext : Extends h h') : h'.Holds p bs := by
  have hle := hp.allocated
  exact hp.congr (hle.trans hext.freeMemPtr_le) fun a _ ha => hext.mem a (by omega)

end Heap

import Mathlib.Data.BitVec
import Mathlib.Data.List.Basic
import Mathlib.Data.List.Induction
import Mathlib.Tactic.Ring

/-!
# Words in byte buffers

A buffer is a list of bytes, and a word of 256 bits is stored in it with its most significant byte
first. `mstore` overwrites 32 bytes from an offset on; the lemmas say what it does to a buffer that
is written as a concatenation. Numbers of any width are stored with the most significant byte first
too; `mload_field` reads one of them out of a loaded word.
-/

abbrev Byte := BitVec 8

abbrev Bytes := List Byte

namespace ByteBuffer

/-- The bytes of a word, the most significant one first. -/
def bytesOfWord (w : BitVec 256) : Bytes :=
  (List.range 32).map fun i => (w >>> (8 * (31 - i))).setWidth 8

/-- The number that bytes stand for. -/
def natOfBytes (bs : Bytes) : Nat := bs.foldl (fun acc b => 256 * acc + b.toNat) 0

/-- The word at an offset; bytes that are missing at the end count as zero. -/
def mload (buf : Bytes) (ofs : Nat) : BitVec 256 :=
  let bs := (buf.drop ofs).take 32
  BitVec.ofNat 256 (natOfBytes (bs ++ List.replicate (32 - bs.length) 0))

/-- Write a word at an offset. -/
def mstore (buf : Bytes) (ofs : Nat) (w : BitVec 256) : Bytes :=
  buf.take ofs ++ bytesOfWord w ++ buf.drop (ofs + 32)

/-- A buffer of zeros. -/
def zeros (n : Nat) : Bytes := List.replicate n 0

@[simp] theorem length_bytesOfWord (w : BitVec 256) : (bytesOfWord w).length = 32 := by
  simp [bytesOfWord]

@[simp] theorem length_zeros (n : Nat) : (zeros n).length = n := List.length_replicate

theorem zeros_add (m n : Nat) : zeros (m + n) = zeros m ++ zeros n :=
  List.replicate_add m n 0

/-- Shifting a word down by half moves its first bytes to the end. -/
theorem drop_bytesOfWord_shift (w : BitVec 256) :
    (bytesOfWord (w >>> 128)).drop 16 = (bytesOfWord w).take 16 := by
  refine List.ext_getElem (by simp) fun i h₁ h₂ => ?_
  have hi : i < 16 := by
    rw [List.length_take, length_bytesOfWord] at h₂
    omega
  simp only [bytesOfWord, List.getElem_drop, List.getElem_take, List.getElem_map,
    List.getElem_range, ← BitVec.shiftRight_add]
  rw [show 128 + 8 * (31 - (16 + i)) = 8 * (31 - i) by omega]

/-- Overwriting the middle part of a buffer. -/
theorem mstore_append {pre old post : Bytes} (w : BitVec 256) (hold : old.length = 32) :
    mstore (pre ++ (old ++ post)) pre.length w = pre ++ (bytesOfWord w ++ post) := by
  unfold mstore
  rw [List.take_left, List.append_assoc, ← List.drop_drop, List.drop_left, ← hold, List.drop_left]

/-! ## Numbers -/

/-- The last `k` bytes of a number, the most significant one first. -/
def bytesOfNat : Nat → Nat → Bytes
  | 0, _ => []
  | k + 1, n => bytesOfNat k (n / 256) ++ [BitVec.ofNat 8 n]

@[simp] theorem length_bytesOfNat (k n : Nat) : (bytesOfNat k n).length = k := by
  induction k generalizing n with
  | zero => rfl
  | succ k ih => rw [bytesOfNat, List.length_append, ih, List.length_singleton]

theorem natOfBytes_concat (bs : Bytes) (b : Byte) :
    natOfBytes (bs ++ [b]) = 256 * natOfBytes bs + b.toNat := by
  simp [natOfBytes]

theorem natOfBytes_append (as bs : Bytes) :
    natOfBytes (as ++ bs) = natOfBytes as * 256 ^ bs.length + natOfBytes bs := by
  induction bs using List.reverseRecOn with
  | nil => simp [natOfBytes]
  | append_singleton bs b ih =>
    rw [← List.append_assoc, natOfBytes_concat, natOfBytes_concat, ih, List.length_append,
      List.length_singleton]
    ring

theorem natOfBytes_lt (bs : Bytes) : natOfBytes bs < 256 ^ bs.length := by
  induction bs using List.reverseRecOn with
  | nil => simp [natOfBytes]
  | append_singleton bs b ih =>
    rw [natOfBytes_concat, List.length_append, List.length_singleton, Nat.pow_succ]
    omega

theorem natOfBytes_bytesOfNat {k n : Nat} (h : n < 256 ^ k) : natOfBytes (bytesOfNat k n) = n := by
  induction k generalizing n with
  | zero =>
    rw [Nat.pow_zero, Nat.lt_one_iff] at h
    rw [h]
    rfl
  | succ k ih =>
    rw [Nat.pow_succ] at h
    rw [bytesOfNat, natOfBytes_concat, ih (Nat.div_lt_of_lt_mul (by omega)), BitVec.toNat_ofNat]
    exact Nat.div_add_mod n 256

theorem bytesOfNat_natOfBytes {k : Nat} {bs : Bytes} (h : bs.length = k) :
    bytesOfNat k (natOfBytes bs) = bs := by
  subst h
  induction bs using List.reverseRecOn with
  | nil => rfl
  | append_singleton bs b ih =>
    have hdiv : (256 * natOfBytes bs + b.toNat) / 256 = natOfBytes bs := by omega
    have hlast : BitVec.ofNat 8 (256 * natOfBytes bs + b.toNat) = b := by
      apply BitVec.eq_of_toNat_eq
      rw [BitVec.toNat_ofNat]
      omega
    rw [List.length_append, List.length_singleton, bytesOfNat, natOfBytes_concat, hdiv, hlast, ih]

/-- A byte string cut into numbers of `k` bytes each. -/
theorem exists_numbers {k c : Nat} {bs : Bytes} (h : bs.length = c * k) :
    ∃ ns : List Nat, ns.length = c ∧ (∀ n ∈ ns, n < 256 ^ k) ∧ bs = ns.flatMap (bytesOfNat k) := by
  induction c generalizing bs with
  | zero =>
    refine ⟨[], rfl, by simp, ?_⟩
    simpa using h
  | succ c ih =>
    rw [Nat.succ_mul] at h
    have hdrop : (bs.drop k).length = c * k := by
      rw [List.length_drop]
      omega
    have htake : (bs.take k).length = k := by
      rw [List.length_take]
      omega
    obtain ⟨ns, hlength, hlt, hns⟩ := ih hdrop
    refine ⟨natOfBytes (bs.take k) :: ns, by rw [List.length_cons, hlength], ?_, ?_⟩
    · intro n hn
      rcases List.mem_cons.mp hn with rfl | hn
      · have hfirst := natOfBytes_lt (bs.take k)
        rwa [htake] at hfirst
      · exact hlt n hn
    · rw [List.flatMap_cons, bytesOfNat_natOfBytes htake, ← hns, List.take_append_drop]

theorem bytesOfNat_eq_map (k n : Nat) :
    bytesOfNat k n = (List.range k).map fun i => BitVec.ofNat 8 (n / 256 ^ (k - 1 - i)) := by
  induction k generalizing n with
  | zero => rfl
  | succ k ih =>
    rw [bytesOfNat, ih, List.range_succ, List.map_append, List.map_singleton, Nat.add_sub_cancel,
      Nat.sub_self, Nat.pow_zero, Nat.div_one]
    refine congrArg (· ++ _) (List.map_congr_left fun i hi => ?_)
    rw [Nat.div_div_eq_div_mul, ← Nat.pow_succ', show (k - 1 - i).succ = k - i by
      have := List.mem_range.mp hi
      omega]

/-- The bytes of a word are the bytes of its number. -/
theorem bytesOfWord_eq (w : BitVec 256) : bytesOfWord w = bytesOfNat 32 w.toNat := by
  rw [bytesOfNat_eq_map, bytesOfWord]
  refine List.map_congr_left fun i _ => BitVec.eq_of_toNat_eq ?_
  rw [BitVec.toNat_setWidth, BitVec.toNat_ushiftRight, Nat.shiftRight_eq_div_pow, Nat.pow_mul,
    BitVec.toNat_ofNat]

theorem bytesOfNat_injective {k m n : Nat} (hm : m < 256 ^ k) (hn : n < 256 ^ k)
    (h : bytesOfNat k m = bytesOfNat k n) : m = n := by
  calc m = natOfBytes (bytesOfNat k m) := (natOfBytes_bytesOfNat hm).symm
    _ = natOfBytes (bytesOfNat k n) := by rw [h]
    _ = n := natOfBytes_bytesOfNat hn

/-- Words are told apart by their bytes. -/
theorem bytesOfWord_injective {v w : BitVec 256} (h : bytesOfWord v = bytesOfWord w) : v = w := by
  rw [bytesOfWord_eq, bytesOfWord_eq] at h
  exact BitVec.eq_of_toNat_eq (bytesOfNat_injective v.isLt w.isLt h)

theorem bytesOfWord_append_inj {v w : BitVec 256} {bs cs : Bytes}
    (h : bytesOfWord v ++ bs = bytesOfWord w ++ cs) : v = w ∧ bs = cs := by
  obtain ⟨hword, hrest⟩ := List.append_inj h (by simp)
  exact ⟨bytesOfWord_injective hword, hrest⟩

/-- Words, one after the other. -/
def bytesOfWords (ws : List (BitVec 256)) : Bytes := ws.flatMap bytesOfWord

/-- Lists of words are told apart by their bytes. -/
theorem bytesOfWords_injective {vs ws : List (BitVec 256)} (h : bytesOfWords vs = bytesOfWords ws) :
    vs = ws := by
  induction vs generalizing ws with
  | nil =>
    cases ws with
    | nil => rfl
    | cons w ws =>
      have hlength := congrArg List.length h
      simp only [bytesOfWords, List.flatMap_nil, List.flatMap_cons, List.length_append,
        length_bytesOfWord, List.length_nil] at hlength
      omega
  | cons v vs ih =>
    cases ws with
    | nil =>
      have hlength := congrArg List.length h
      simp only [bytesOfWords, List.flatMap_nil, List.flatMap_cons, List.length_append,
        length_bytesOfWord, List.length_nil] at hlength
      omega
    | cons w ws =>
      obtain ⟨rfl, hrest⟩ := bytesOfWord_append_inj h
      rw [ih hrest]

/-- Shifting a word up by half moves its last bytes to the front. -/
theorem take_bytesOfWord_shift (w : BitVec 256) :
    (bytesOfWord (w <<< 128)).take 16 = (bytesOfWord w).drop 16 := by
  refine List.ext_getElem (by simp) fun i h₁ h₂ => ?_
  have hi : i < 16 := by
    rw [List.length_take, length_bytesOfWord] at h₁
    omega
  simp only [bytesOfWord, List.getElem_drop, List.getElem_take, List.getElem_map,
    List.getElem_range]
  refine BitVec.eq_of_getLsbD_eq fun j hj => ?_
  rw [BitVec.getLsbD_setWidth, BitVec.getLsbD_setWidth, BitVec.getLsbD_ushiftRight,
    BitVec.getLsbD_ushiftRight, BitVec.getLsbD_shiftLeft,
    show 8 * (31 - i) + j - 128 = 8 * (31 - (16 + i)) + j by omega]
  simp [show 8 * (31 - i) + j < 256 by omega, show ¬ 8 * (31 - i) + j < 128 by omega]

/-! ## Parts of a buffer -/

/-- The next `k` bytes from an offset on, and what follows them. -/
theorem drop_eq_take_append (bs : Bytes) (o k : Nat) :
    bs.drop o = (bs.drop o).take k ++ bs.drop (o + k) := by
  rw [← List.drop_drop, List.take_append_drop]

theorem length_take_drop {bs : Bytes} {o k : Nat} (h : o + k ≤ bs.length) :
    ((bs.drop o).take k).length = k := by
  rw [List.length_take, List.length_drop]
  omega

theorem drop_of_append {bs xs ys : Bytes} {o k : Nat} (h : bs.drop o = xs ++ ys)
    (hlength : xs.length = k) : bs.drop (o + k) = ys := by
  rw [← List.drop_drop, h, List.drop_left' hlength]

theorem take_of_append {bs xs ys : Bytes} {o k : Nat} (h : bs.drop o = xs ++ ys)
    (hlength : xs.length = k) : (bs.drop o).take k = xs := by
  rw [h, List.take_left' hlength]

/-- `k` bytes from an offset on; bytes that are missing at the end count as zero. -/
def readBytes (buf : Bytes) (ofs k : Nat) : Bytes :=
  (buf.drop ofs).take k ++ zeros (k - ((buf.drop ofs).take k).length)

@[simp] theorem length_readBytes (buf : Bytes) (ofs k : Nat) : (readBytes buf ofs k).length = k := by
  rw [readBytes, List.length_append, length_zeros, List.length_take]
  omega

theorem readBytes_of_le {buf : Bytes} {ofs k : Nat} (h : ofs + k ≤ buf.length) :
    readBytes buf ofs k = (buf.drop ofs).take k := by
  rw [readBytes, length_take_drop h, Nat.sub_self, zeros, List.replicate_zero, List.append_nil]

/-! ## Fields of a word -/

theorem toNat_mload (buf : Bytes) (ofs : Nat) :
    (mload buf ofs).toNat
      = natOfBytes ((buf.drop ofs).take 32 ++ zeros (32 - ((buf.drop ofs).take 32).length)) := by
  have hlength : ((buf.drop ofs).take 32 ++ zeros (32 - ((buf.drop ofs).take 32).length)).length
      = 32 := by
    rw [List.length_append, length_zeros, List.length_take]
    omega
  have hlt := natOfBytes_lt
    ((buf.drop ofs).take 32 ++ zeros (32 - ((buf.drop ofs).take 32).length))
  rw [hlength] at hlt
  rw [mload, BitVec.toNat_ofNat]
  exact Nat.mod_eq_of_lt hlt

/-- A word that lies inside the buffer. -/
theorem bytesOfWord_mload {buf : Bytes} {ofs : Nat} (h : ofs + 32 ≤ buf.length) :
    bytesOfWord (mload buf ofs) = (buf.drop ofs).take 32 := by
  have hlength : ((buf.drop ofs).take 32).length = 32 := length_take_drop h
  rw [bytesOfWord_eq, toNat_mload, hlength, Nat.sub_self, zeros, List.replicate_zero,
    List.append_nil]
  exact bytesOfNat_natOfBytes hlength

/-- The `k` bytes of a word after its first `j` are the `k` bytes of the buffer at that place. -/
theorem mload_field (buf : Bytes) (ofs : Nat) {j k l : Nat} (hword : j + k + l = 32)
    (hinside : ofs + j + k ≤ buf.length) :
    (mload buf ofs).toNat / 256 ^ l % 256 ^ k = natOfBytes ((buf.drop (ofs + j)).take k) := by
  rw [toNat_mload]
  generalize hw : (buf.drop ofs).take 32 ++ zeros (32 - ((buf.drop ofs).take 32).length) = w
  have hlength : w.length = 32 := by
    rw [← hw, List.length_append, length_zeros, List.length_take]
    omega
  have hfield : (w.drop j).take k = (buf.drop (ofs + j)).take k := by
    rw [← hw, List.drop_append_of_le_length, List.take_append_of_le_length, List.drop_take,
      List.drop_drop, List.take_take, Nat.min_eq_left (by omega)]
    · rw [List.length_drop, List.length_take, List.length_drop]
      omega
    · rw [List.length_take, List.length_drop]
      omega
  have hsplit : w = w.take j ++ ((w.drop j).take k ++ w.drop (j + k)) := by
    rw [← drop_eq_take_append, List.take_append_drop]
  have hmiddle : ((w.drop j).take k).length = k := length_take_drop (by omega)
  have hend : (w.drop (j + k)).length = l := by
    rw [List.length_drop, hlength]
    omega
  have hlow := natOfBytes_lt (w.drop (j + k))
  have hmid := natOfBytes_lt ((w.drop j).take k)
  rw [hend] at hlow
  rw [hmiddle] at hmid
  rw [← hfield]
  conv_lhs => rw [hsplit]
  rw [natOfBytes_append, natOfBytes_append, List.length_append, hmiddle, hend, Nat.pow_add,
    ← Nat.mul_assoc, ← Nat.add_assoc, ← Nat.add_mul, Nat.add_comm (_ * 256 ^ l),
    Nat.add_mul_div_right _ _ (Nat.pow_pos (by decide)), Nat.div_eq_of_lt hlow, Nat.zero_add,
    Nat.mul_add_mod_of_lt hmid]

/-- The first `k` bytes of a word are the `k` bytes of the buffer at its place. -/
theorem toNat_mload_shift (buf : Bytes) (ofs : Nat) {k l : Nat} (hword : k + l = 32)
    (hinside : ofs + k ≤ buf.length) :
    (mload buf ofs >>> (8 * l)).toNat = natOfBytes ((buf.drop ofs).take k) := by
  have hfield := mload_field buf ofs (show 0 + k + l = 32 by omega) (by omega)
  have hlt : (mload buf ofs).toNat / 256 ^ l < 256 ^ k := by
    refine Nat.div_lt_of_lt_mul ?_
    rw [← Nat.pow_add, Nat.add_comm l, hword]
    exact (mload buf ofs).isLt
  rw [Nat.mod_eq_of_lt hlt, Nat.add_zero] at hfield
  rw [BitVec.toNat_ushiftRight, Nat.shiftRight_eq_div_pow, Nat.pow_mul]
  exact hfield

end ByteBuffer

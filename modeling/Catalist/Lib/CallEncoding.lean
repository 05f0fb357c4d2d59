import Catalist.Lib.Calldata

/-!
# The standard encoding of a call

The calldata of a call whose arguments are byte strings: the selector, a word for each argument
with the offset of its tail, and the tails. A tail is the length of the byte string, its bytes and
zeros up to a whole word. Offsets count from the end of the selector.

What is found at the offset of a head and at the offset of a tail is `drop_head` and `drop_tail`.
-/

namespace CallEncoding

open ByteBuffer

variable {args : List Bytes} {arg : Bytes} {selector : BitVec 32} {i o k acc : Nat}

def tail (bs : Bytes) : Bytes :=
  bytesOfNat 32 bs.length ++ (bs ++ zeros ((32 - bs.length % 32) % 32))

/-- The heads of arguments the first of which has its tail at `acc`. -/
def heads (acc : Nat) : List Bytes → Bytes
  | [] => []
  | bs :: rest => bytesOfNat 32 acc ++ heads (acc + (tail bs).length) rest

/-- How many bytes the tails take. -/
def tailsLength (args : List Bytes) : Nat := (args.map fun bs => (tail bs).length).sum

/-- Where the tail of an argument is. -/
def tailOffset (args : List Bytes) (i : Nat) : Nat := 32 * args.length + tailsLength (args.take i)

def encodeCall (selector : BitVec 32) (args : List Bytes) : Bytes :=
  bytesOfNat 4 selector.toNat ++ (heads (32 * args.length) args ++ args.flatMap tail)

/-! ## Sizes -/

theorem length_tail (bs : Bytes) :
    (tail bs).length = 32 + bs.length + (32 - bs.length % 32) % 32 := by
  rw [tail, List.length_append, List.length_append, length_bytesOfNat, length_zeros, Nat.add_assoc]

@[simp] theorem tailsLength_nil : tailsLength [] = 0 := rfl

@[simp] theorem tailsLength_cons (bs : Bytes) (rest : List Bytes) :
    tailsLength (bs :: rest) = (tail bs).length + tailsLength rest := by simp [tailsLength]

@[simp] theorem length_heads (acc : Nat) (args : List Bytes) :
    (heads acc args).length = 32 * args.length := by
  induction args generalizing acc with
  | nil => rfl
  | cons bs rest ih =>
    rw [heads, List.length_append, ih, length_bytesOfNat, List.length_cons]
    omega

/-! ## What is where -/

theorem drop_heads (h : args[i]? = some arg) :
    (heads acc args).drop (32 * i)
      = bytesOfNat 32 (acc + tailsLength (args.take i))
        ++ heads (acc + tailsLength (args.take (i + 1))) (args.drop (i + 1)) := by
  induction args generalizing acc i with
  | nil => simp at h
  | cons bs rest ih =>
    cases i with
    | zero => simp [heads]
    | succ i =>
      rw [heads, show 32 * (i + 1) = 32 + 32 * i by omega, ← List.drop_drop,
        List.drop_left' (length_bytesOfNat _ _), ih (by simpa using h)]
      simp [Nat.add_assoc]

theorem drop_tails (h : args[i]? = some arg) :
    (args.flatMap tail).drop (tailsLength (args.take i))
      = tail arg ++ (args.drop (i + 1)).flatMap tail := by
  induction args generalizing i with
  | nil => simp at h
  | cons bs rest ih =>
    cases i with
    | zero =>
      obtain rfl : bs = arg := by simpa using h
      simp
    | succ i =>
      rw [List.take_succ_cons, tailsLength_cons, List.flatMap_cons, ← List.drop_drop,
        List.drop_left, ih (by simpa using h)]
      simp

/-- The head of an argument holds the offset of its tail. -/
theorem drop_head (selector : BitVec 32) (h : args[i]? = some arg) :
    ∃ rest, (encodeCall selector args).drop (4 + 32 * i)
      = bytesOfNat 32 (tailOffset args i) ++ rest := by
  have hi := (List.getElem?_eq_some_iff.mp h).1
  refine ⟨heads (tailOffset args (i + 1)) (args.drop (i + 1)) ++ args.flatMap tail, ?_⟩
  rw [encodeCall, ← List.drop_drop, List.drop_left' (length_bytesOfNat _ _),
    List.drop_append_of_le_length (by rw [length_heads]; omega), drop_heads h, tailOffset,
    tailOffset, List.append_assoc]

/-- At that offset is the tail. -/
theorem drop_tail (selector : BitVec 32) (h : args[i]? = some arg) :
    ∃ rest, (encodeCall selector args).drop (4 + tailOffset args i) = tail arg ++ rest := by
  refine ⟨(args.drop (i + 1)).flatMap tail, ?_⟩
  rw [encodeCall, ← List.drop_drop, List.drop_left' (length_bytesOfNat _ _), tailOffset,
    ← List.drop_drop, List.drop_left' (length_heads _ _), drop_tails h]

/-! ## What a callee reads -/

/-- A word that is stored as a number is loaded as that number. -/
theorem toNat_mload_word {buf rest : Bytes} {ofs n : Nat}
    (h : buf.drop ofs = bytesOfNat 32 n ++ rest) (hn : n < 2 ^ 256) :
    (mload buf ofs).toNat = n := by
  have htake : (buf.drop ofs).take 32 = bytesOfNat 32 n := by
    rw [h, List.take_left' (length_bytesOfNat _ _)]
  rw [toNat_mload, htake, length_bytesOfNat, Nat.sub_self, zeros, List.replicate_zero,
    List.append_nil]
  exact natOfBytes_bytesOfNat (by simpa using hn)

section reading

variable (h : args[i]? = some arg)
include h

/-- A tail ends before the calldata does. -/
theorem tail_inside (selector : BitVec 32) :
    4 + tailOffset args i + (32 + arg.length) ≤ (encodeCall selector args).length := by
  obtain ⟨rest, hrest⟩ := drop_tail selector h
  have hlength := congrArg List.length hrest
  rw [List.length_drop, List.length_append, length_tail] at hlength
  omega

/-- The bytes of an argument, read at their place in the calldata. -/
theorem take_argument (hinside : o + k ≤ arg.length) :
    ((encodeCall selector args).drop (tailOffset args i + 36 + o)).take k = (arg.drop o).take k := by
  obtain ⟨rest, hrest⟩ := drop_tail selector h
  rw [show tailOffset args i + 36 + o = 4 + tailOffset args i + (32 + o) by omega,
    ← List.drop_drop, hrest, tail, ← List.drop_drop, List.append_assoc,
    List.drop_left' (length_bytesOfNat _ _), List.append_assoc,
    List.drop_append_of_le_length (by omega),
    List.take_append_of_le_length (by rw [List.length_drop]; omega)]

/-- The upper bytes of a word that is loaded from an argument. -/
theorem toNat_field {l : Nat} (hword : k + l = 32) (hinside : o + k ≤ arg.length) :
    (mload (encodeCall selector args) (tailOffset args i + 36 + o) >>> (8 * l)).toNat
      = natOfBytes ((arg.drop o).take k) := by
  have htail := tail_inside h selector
  rw [toNat_mload_shift _ _ hword (by omega), take_argument h hinside]

variable (hfits : (encodeCall selector args).length < 2 ^ 256)
include hfits

theorem toNat_mload_head :
    (mload (encodeCall selector args) (4 + 32 * i)).toNat = tailOffset args i := by
  obtain ⟨rest, hrest⟩ := drop_head selector h
  have hinside := tail_inside h selector
  exact toNat_mload_word hrest (by omega)

theorem toNat_mload_length :
    (mload (encodeCall selector args) (4 + tailOffset args i)).toNat = arg.length := by
  obtain ⟨rest, hrest⟩ := drop_tail selector h
  have hinside := tail_inside h selector
  rw [tail, List.append_assoc] at hrest
  exact toNat_mload_word hrest (by omega)

end reading

end CallEncoding

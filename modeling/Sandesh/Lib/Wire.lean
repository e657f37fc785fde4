/-
Fixed-width numbers on the wire and in memory.

`be k n` is the number `n` in `k` bytes, most significant byte first, and
`ofBe` reads such bytes back. `image k n` is what a little-endian host
keeps in memory for a number of `k` bytes, and `swap k n` what `htons`,
`htonl` and their kin make of it there: the number whose image is `be k n`.

`i32`, `u32` and `u64` are the conversions of C to `int32_t`, `uint32_t` and
a `size_t` of 64 bits.
-/
import Mathlib.Algebra.Order.Group.Nat
import Mathlib.Tactic.Ring
import Sandesh.Lib.Text

namespace Sandesh.Lib

-- ======================================================= big-endian bytes

/-- A number in network order. -/
def be : Nat → Nat → Bytes
  | 0, _ => []
  | k + 1, n => UInt8.ofNat (n / 256 ^ k) :: be k n

/-- The number of bytes in network order. -/
def ofBe : Bytes → Nat
  | [] => 0
  | b :: bs => b.toNat * 256 ^ bs.length + ofBe bs

/-- A number of `k` bytes has `k` of them. -/
@[simp] theorem length_be (k n : Nat) : (be k n).length = k := by
  induction k with
  | zero => rfl
  | succ k ih => rw [be, List.length_cons, ih]

/-- Reading back keeps what fits. -/
theorem ofBe_be (k n : Nat) : ofBe (be k n) = n % 256 ^ k := by
  induction k with
  | zero => rw [be, ofBe, Nat.pow_zero, Nat.mod_one]
  | succ k ih =>
      have hsplit : n % 256 ^ (k + 1)
          = n % 256 ^ k + 256 ^ k * (n / 256 ^ k % 256) := by
        rw [Nat.pow_succ, Nat.mod_mul]
      rw [be, ofBe, ih, length_be, UInt8.toNat_ofNat', hsplit,
        Nat.mul_comm, Nat.add_comm]

/-- The value of `n` bytes fits in `n` bytes. -/
theorem ofBe_lt (bs : Bytes) : ofBe bs < 256 ^ bs.length := by
  induction bs with
  | nil => exact Nat.one_pos
  | cons b bs ih =>
      have hb : b.toNat < 256 := b.toNat_lt
      calc b.toNat * 256 ^ bs.length + ofBe bs
          < b.toNat * 256 ^ bs.length + 256 ^ bs.length :=
            Nat.add_lt_add_left ih _
        _ = (b.toNat + 1) * 256 ^ bs.length := by ring
        _ ≤ 256 * 256 ^ bs.length := Nat.mul_le_mul_right _ hb
        _ = 256 ^ (b :: bs).length := by
            rw [List.length_cons, Nat.pow_succ, Nat.mul_comm]

/-- The bytes of a number only depend on its low ones. -/
theorem be_add_mul (k n m : Nat) : be k (n + m * 256 ^ k) = be k n := by
  induction k generalizing m with
  | zero => rfl
  | succ k ih =>
      rw [be, be]
      have hmul : m * 256 ^ (k + 1) = m * 256 * 256 ^ k := by
        rw [Nat.pow_succ]
        ring
      rw [hmul, ih (m * 256), Nat.add_mul_div_right _ _ (by positivity)]
      congr 1
      rw [← UInt8.toNat_inj, UInt8.toNat_ofNat', UInt8.toNat_ofNat']
      omega

/-- Bytes are the number they stand for. -/
theorem be_ofBe (bs : Bytes) : be bs.length (ofBe bs) = bs := by
  induction bs with
  | nil => rfl
  | cons b bs ih =>
      rw [List.length_cons, be, ofBe, Nat.add_comm, be_add_mul, ih,
        Nat.add_mul_div_right _ _ (by positivity),
        Nat.div_eq_of_lt (ofBe_lt bs), Nat.zero_add, UInt8.ofNat_toNat]

-- =========================================================== host order

/-- A number of `k` bytes in the memory of a little-endian host. -/
def image (k n : Nat) : Bytes := (be k n).reverse

/-- The number with this image. -/
def ofImage (bs : Bytes) : Nat := ofBe bs.reverse

/-- `htons`, `htonl`, `htonll` and back. -/
def swap (k n : Nat) : Nat := ofImage (be k n)

/-- The image in memory has the same length. -/
@[simp] theorem length_image (k n : Nat) : (image k n).length = k := by
  rw [image, List.length_reverse, length_be]

/-- Swapped and put in memory, a number is in network order. -/
theorem image_swap (k n : Nat) : image k (swap k n) = be k n := by
  have hlen : (be k n).reverse.length = k := by
    rw [List.length_reverse, length_be]
  rw [image, swap, ofImage]
  conv => lhs; arg 1; arg 1; rw [← hlen]
  rw [be_ofBe, List.reverse_reverse]

/-- Reading an image and swapping it is reading the bytes in order. -/
theorem swap_ofImage (bs : Bytes) : swap bs.length (ofImage bs) = ofBe bs := by
  have hlen : bs.length = bs.reverse.length := List.length_reverse.symm
  rw [swap, ofImage, ofImage]
  conv => lhs; arg 1; arg 1; rw [hlen]
  rw [be_ofBe, List.reverse_reverse]

-- ======================================================== C conversions

/-- An `int32_t`: the number modulo 2^32 that lies around 0. -/
def i32 (x : Int) : Int := Int.bmod x (2 ^ 32)

/-- A `uint32_t`. -/
def u32 (x : Int) : Nat := (x % 2 ^ 32).toNat

/-- A `uint64_t`. -/
def u64 (x : Int) : Nat := (x % 2 ^ 64).toNat

/-- What fits an `int32_t` is kept. -/
theorem i32_eq {x : Int} (h : -2 ^ 31 ≤ x) (h' : x < 2 ^ 31) : i32 x = x := by
  refine Int.bmod_eq_of_le ?_ ?_
  · exact h
  · exact h'

/-- The upper half turns negative. -/
theorem i32_high {x : Int} (h : 2 ^ 31 ≤ x) (h' : x < 2 ^ 32) :
    i32 x = x - 2 ^ 32 := by
  unfold i32
  rw [Int.bmod_def, if_neg]
  · omega
  · omega

/-- The range of `int32_t`, from above. -/
theorem i32_lt (x : Int) : i32 x < 2 ^ 31 := Int.bmod_lt (by decide)

/-- Twice is once. -/
theorem i32_i32 (x : Int) : i32 (i32 x) = i32 x := Int.bmod_bmod

/-- Sums may be wrapped at any time. -/
theorem i32_add_i32 (x y : Int) : i32 (i32 x + i32 y) = i32 (x + y) := by
  unfold i32
  rw [Int.bmod_add_bmod, Int.add_bmod_bmod]

/-- What fits a `uint32_t` is kept. -/
theorem u32_eq {x : Int} (h : 0 ≤ x) (h' : x < 2 ^ 32) : (u32 x : Int) = x := by
  unfold u32
  omega

/-- The same for a natural number. -/
theorem u32_nat {n : Nat} (h : n < 2 ^ 32) : u32 n = n := by
  unfold u32
  omega

/-- Adding a signed result to an unsigned sum. -/
theorem u32_add_i32 (x y : Int) : u32 (x + i32 y) = u32 (x + y) := by
  have hmod : i32 y % 2 ^ 32 = y % 2 ^ 32 := Int.bmod_emod (m := 2 ^ 32)
  have h : (x + i32 y) % 2 ^ 32 = (x + y) % 2 ^ 32 := by
    rw [Int.add_emod, hmod, ← Int.add_emod]
  unfold u32
  rw [h]

/-- The same for 64 bits. -/
theorem u64_nat {n : Nat} (h : n < 2 ^ 64) : u64 n = n := by
  unfold u64
  omega

/-- The range of `uint32_t`. -/
theorem u32_lt (x : Int) : u32 x < 2 ^ 32 := by
  unfold u32
  omega

end Sandesh.Lib

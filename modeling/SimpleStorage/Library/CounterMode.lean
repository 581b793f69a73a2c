import Mathlib.Data.UInt
import Mathlib.Data.List.Basic
import Mathlib.Tactic.Ring

/-!
# Counter mode

A stream cipher made of a block cipher: byte `n` of the text is combined with byte
`n % 16` of the block obtained from the counter advanced by `n / 16`.  The counter is a
block read as a big-endian number, and it wraps around.

* `xorFrom_xorFrom`: enciphering twice at one position gives the text back.
* `drop_xorFrom`, `xorFrom_shift`: seeking.  A text from byte `n` on is enciphered by the
  keystream from byte `n` on, and whole blocks can be skipped by advancing the counter.
* `addCarry_eq`: byte-wise addition with a carry is addition to the number.
-/

namespace SimpleStorage
namespace CounterMode

/-! ## The keystream -/

/-- Byte `n` of a keystream given block by block. -/
def keyByte (block : ℕ → List UInt8) (n : ℕ) : UInt8 := (block (n / 16)).getD (n % 16) 0

/-- The text combined with the keystream from byte `n` on. -/
def xorFrom (block : ℕ → List UInt8) : ℕ → List UInt8 → List UInt8
  | _, [] => []
  | n, b :: bs => (b ^^^ keyByte block n) :: xorFrom block (n + 1) bs

variable (block : ℕ → List UInt8) (n : ℕ)

@[simp] theorem xorFrom_nil : xorFrom block n [] = [] := rfl

@[simp] theorem length_xorFrom (bs : List UInt8) : (xorFrom block n bs).length = bs.length := by
  induction bs generalizing n with
  | nil => rfl
  | cons b bs ih => rw [xorFrom, List.length_cons, ih, List.length_cons]

/-- **Enciphering twice is the identity.** -/
@[simp] theorem xorFrom_xorFrom (bs : List UInt8) :
    xorFrom block n (xorFrom block n bs) = bs := by
  induction bs generalizing n with
  | nil => rfl
  | cons b bs ih => rw [xorFrom, xorFrom, ih, UInt8.xor_assoc, UInt8.xor_self, UInt8.xor_zero]

theorem xorFrom_append (bs cs : List UInt8) :
    xorFrom block n (bs ++ cs) = xorFrom block n bs ++ xorFrom block (n + bs.length) cs := by
  induction bs generalizing n with
  | nil => rfl
  | cons b bs ih =>
    rw [List.cons_append, xorFrom, ih, xorFrom, List.cons_append, List.length_cons,
      Nat.add_right_comm, Nat.add_assoc]

theorem drop_xorFrom (k : ℕ) (bs : List UInt8) :
    (xorFrom block n bs).drop k = xorFrom block (n + k) (bs.drop k) := by
  induction bs generalizing n k with
  | nil => simp
  | cons b bs ih =>
    cases k with
    | zero => rfl
    | succ k =>
      rw [xorFrom, List.drop_succ_cons, ih, List.drop_succ_cons]
      congr 1
      omega

theorem take_xorFrom (k : ℕ) (bs : List UInt8) :
    (xorFrom block n bs).take k = xorFrom block n (bs.take k) := by
  induction bs generalizing n k with
  | nil => simp
  | cons b bs ih =>
    cases k with
    | zero => rfl
    | succ k => rw [xorFrom, List.take_succ_cons, ih, List.take_succ_cons, xorFrom]

/-- Each byte is combined with the byte of the keystream in its place. -/
theorem getElem?_xorFrom (bs : List UInt8) (i : ℕ) :
    (xorFrom block n bs)[i]? = bs[i]?.map (· ^^^ keyByte block (n + i)) := by
  induction bs generalizing n i with
  | nil => rfl
  | cons b bs ih =>
    cases i with
    | zero => rfl
    | succ i =>
      have hplace : n + 1 + i = n + (i + 1) := by omega
      rw [xorFrom, List.getElem?_cons_succ, ih, List.getElem?_cons_succ, hplace]

/-- **Skipping blocks** of the keystream is skipping sixteen times as many bytes. -/
theorem xorFrom_shift (m : ℕ) (bs : List UInt8) :
    xorFrom (fun i => block (m + i)) n bs = xorFrom block (16 * m + n) bs := by
  induction bs generalizing n with
  | nil => rfl
  | cons b bs ih =>
    have hkey : keyByte (fun i => block (m + i)) n = keyByte block (16 * m + n) := by
      rw [keyByte, keyByte, Nat.mul_add_div (by omega), Nat.mul_add_mod]
    rw [xorFrom, xorFrom, ih, hkey, Nat.add_assoc]

/-! ## A text in pieces -/

/-- A text that comes in pieces, each enciphered where the one before it ended. -/
def xorChunks : ℕ → List (List UInt8) → List (List UInt8)
  | _, [] => []
  | n, c :: cs => xorFrom block n c :: xorChunks (n + c.length) cs

@[simp] theorem flatten_xorChunks (cs : List (List UInt8)) :
    (xorChunks block n cs).flatten = xorFrom block n cs.flatten := by
  induction cs generalizing n with
  | nil => rfl
  | cons c cs ih => rw [xorChunks, List.flatten_cons, ih, List.flatten_cons, xorFrom_append]

/-- Drop the first bytes of a text that comes in pieces. -/
def skipChunks : ℕ → List (List UInt8) → List (List UInt8)
  | _, [] => []
  | k, c :: cs =>
      if k = 0 then c :: skipChunks 0 cs
      else if c.length ≤ k then skipChunks (k - c.length) cs
      else c.drop k :: skipChunks 0 cs

theorem flatten_skipChunks (k : ℕ) (cs : List (List UInt8)) :
    (skipChunks k cs).flatten = cs.flatten.drop k := by
  induction cs generalizing k with
  | nil => simp [skipChunks]
  | cons c cs ih =>
    rw [skipChunks, List.flatten_cons]
    by_cases hk : k = 0
    · rw [if_pos hk, List.flatten_cons, ih, hk, List.drop_zero, List.drop_zero]
    · rw [if_neg hk]
      by_cases hc : c.length ≤ k
      · rw [if_pos hc, ih, List.drop_append, List.drop_eq_nil_of_le hc, List.nil_append]
      · rw [if_neg hc, List.flatten_cons, ih, List.drop_zero, List.drop_append,
          Nat.sub_eq_zero_of_le (by omega), List.drop_zero]

/-! ## Counters -/

/-- The number a list of bytes stands for, least significant first. -/
def value : List UInt8 → ℕ
  | [] => 0
  | b :: bs => b.toNat + 256 * value bs

/-- A number in so many bytes, least significant first; what does not fit is lost. -/
def ofValue : ℕ → ℕ → List UInt8
  | 0, _ => []
  | w + 1, n => UInt8.ofNat n :: ofValue w (n / 256)

@[simp] theorem length_ofValue (w n : ℕ) : (ofValue w n).length = w := by
  induction w generalizing n with
  | zero => rfl
  | succ w ih => rw [ofValue, List.length_cons, ih]

theorem value_ofValue (w n : ℕ) : value (ofValue w n) = n % 256 ^ w := by
  induction w generalizing n with
  | zero => rw [ofValue, value, Nat.pow_zero, Nat.mod_one]
  | succ w ih =>
    have hpow : n % 256 ^ (w + 1) = n % 256 + 256 * (n / 256 % 256 ^ w) := by
      rw [Nat.pow_succ', Nat.mod_mul]
    rw [ofValue, value, ih, UInt8.toNat_ofNat', hpow]

theorem ofValue_value (bs : List UInt8) : ofValue bs.length (value bs) = bs := by
  induction bs with
  | nil => rfl
  | cons b bs ih =>
    have hb := b.toNat_lt
    have hdiv : (b.toNat + 256 * value bs) / 256 = value bs := by omega
    have hbyte : UInt8.ofNat (b.toNat + 256 * value bs) = b := by
      apply UInt8.toNat_inj.mp
      rw [UInt8.toNat_ofNat']
      omega
    rw [List.length_cons, value, ofValue, hdiv, ih, hbyte]

theorem ofValue_mod (w n : ℕ) : ofValue w (n % 256 ^ w) = ofValue w n := by
  have h := ofValue_value (ofValue w n)
  rwa [length_ofValue, value_ofValue] at h

/-- Byte-wise addition, least significant byte first, with a carry that may be any number. -/
def addCarry : List UInt8 → ℕ → List UInt8
  | [], _ => []
  | b :: bs, carry =>
      if carry = 0 then b :: bs
      else UInt8.ofNat (b.toNat + carry % 256) ::
        addCarry bs (carry / 256 + (b.toNat + carry % 256) / 256)

/-- **Adding byte by byte adds the numbers.** -/
theorem addCarry_eq (bs : List UInt8) (carry : ℕ) :
    addCarry bs carry = ofValue bs.length (value bs + carry) := by
  induction bs generalizing carry with
  | nil => rfl
  | cons b bs ih =>
    rw [addCarry]
    by_cases hc : carry = 0
    · rw [if_pos hc, hc, Nat.add_zero, ofValue_value]
    · have hb := b.toNat_lt
      have hdiv : (b.toNat + 256 * value bs + carry) / 256 =
          value bs + (carry / 256 + (b.toNat + carry % 256) / 256) := by omega
      have hbyte : UInt8.ofNat (b.toNat + carry % 256) =
          UInt8.ofNat (b.toNat + 256 * value bs + carry) := by
        apply UInt8.toNat_inj.mp
        rw [UInt8.toNat_ofNat', UInt8.toNat_ofNat']
        omega
      rw [if_neg hc, ih, List.length_cons, ofValue, value, hdiv, hbyte]

/-- The counter block `i` steps after the given one. -/
def counterBlock (iv : List UInt8) (i : ℕ) : List UInt8 :=
  (ofValue iv.length (value iv.reverse + i)).reverse

/-- **The counter wraps around.** -/
theorem value_counterBlock (iv : List UInt8) (i : ℕ) :
    value (counterBlock iv i).reverse = (value iv.reverse + i) % 256 ^ iv.length := by
  rw [counterBlock, List.reverse_reverse, value_ofValue]

theorem counterBlock_counterBlock (iv : List UInt8) (m i : ℕ) :
    counterBlock (counterBlock iv m) i = counterBlock iv (m + i) := by
  have hmod : ofValue iv.length ((value iv.reverse + m) % 256 ^ iv.length + i) =
      ofValue iv.length (value iv.reverse + (m + i)) := by
    rw [← ofValue_mod, Nat.mod_add_mod, ofValue_mod, Nat.add_assoc]
  simp only [counterBlock, List.reverse_reverse, List.length_reverse, length_ofValue,
    value_ofValue, hmod]

end CounterMode
end SimpleStorage

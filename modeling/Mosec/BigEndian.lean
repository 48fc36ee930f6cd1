import Mathlib.Tactic.Ring
import Mathlib.Data.List.Induction

namespace Mosec.BigEndian

/-- The `w` big-endian bytes of `n`; what does not fit is dropped. -/
def encode : ℕ → ℕ → List UInt8
  | 0, _ => []
  | w + 1, n => encode w (n / 256) ++ [UInt8.ofNat n]

def decode (bytes : List UInt8) : ℕ := bytes.foldl (fun n b => n * 256 + b.toNat) 0

@[simp] theorem encode_length (w n : ℕ) : (encode w n).length = w := by
  induction w generalizing n with
  | zero => rfl
  | succ w ih => simp only [encode, List.length_append, ih, List.length_singleton]

theorem decode_append_singleton (bytes : List UInt8) (b : UInt8) :
    decode (bytes ++ [b]) = decode bytes * 256 + b.toNat := by
  simp only [decode, List.foldl_append, List.foldl_cons, List.foldl_nil]

theorem decode_encode (w n : ℕ) : decode (encode w n) = n % 256 ^ w := by
  induction w generalizing n with
  | zero => simp [encode, decode, Nat.mod_one]
  | succ w ih =>
    have hb : (UInt8.ofNat n).toNat = n % 256 := UInt8.toNat_ofNat'
    rw [encode, decode_append_singleton, ih, hb, pow_succ', Nat.mod_mul]
    ring

theorem decode_encode_of_lt {w n : ℕ} (h : n < 256 ^ w) : decode (encode w n) = n := by
  rw [decode_encode, Nat.mod_eq_of_lt h]

theorem encode_decode (bytes : List UInt8) : encode bytes.length (decode bytes) = bytes := by
  induction bytes using List.reverseRecOn with
  | nil => rfl
  | append_singleton bytes b ih =>
    have hb : b.toNat < 256 := b.toNat_lt
    have hdiv : (decode bytes * 256 + b.toNat) / 256 = decode bytes := by omega
    have hlast : UInt8.ofNat (decode bytes * 256 + b.toNat) = b := by
      apply UInt8.toNat.inj
      rw [UInt8.toNat_ofNat']
      omega
    rw [List.length_append, List.length_singleton, encode, decode_append_singleton, hdiv, hlast, ih]

theorem decode_lt (bytes : List UInt8) : decode bytes < 256 ^ bytes.length := by
  rw [← encode_decode bytes, decode_encode, encode_length]
  exact Nat.mod_lt _ (Nat.pow_pos (by decide))

end Mosec.BigEndian

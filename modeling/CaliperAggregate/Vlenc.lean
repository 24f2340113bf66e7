import Mathlib.Data.List.Basic
import Mathlib.Algebra.Group.Nat.Basic

/-!
# The varint codec

The service writes every number of a key with `vlenc_u64` and reads it back with `vldec_u64`,
both from `c-util/vlenc.h`, which is not among the service's sources. They are modelled from
the spec's description: little-endian base 128, seven payload bits a byte, the high bit set on
every byte but the last, at most ten bytes for a 64-bit number.

Decoding reads from a raw byte source, as `vldec_u64` reads from a pointer: a buffer is a map
from positions to bytes, and `BufHolds buf p l` says that `l` sits in `buf` at `p`. What was
encoded decodes back, with the bytes after it untouched (`vldecU64_of_holds`), and a decode
depends only on the bytes it consumes (`vldecNat_congr`).
-/

namespace CaliperAggregate

@[simp] theorem toNat_toUInt8 (n : Nat) : n.toUInt8.toNat = n % 256 := by
  simp [UInt8.toNat, Nat.toUInt8, UInt8.ofNat]

@[simp] theorem toNat_toUInt64 (n : Nat) : n.toUInt64.toNat = n % 2 ^ 64 := by
  simp [UInt64.toNat, Nat.toUInt64, UInt64.ofNat]

/-- Modelled from the spec: the bytes `vlenc_u64` writes for `n`, with `fuel` bytes allowed
after the first. -/
def vlencNat : Nat → Nat → List UInt8
  | 0, n => [n.toUInt8]
  | fuel + 1, n =>
    if n < 128 then [n.toUInt8] else (n % 128 + 128).toUInt8 :: vlencNat fuel (n / 128)

/-- Modelled from the spec: `vlenc_u64(v, buf)` writes these bytes and returns their number. -/
def vlencU64 (v : UInt64) : List UInt8 := vlencNat 9 v.toNat

/-- Modelled from the spec: `vldec_u64` at position `p`, with `fuel` bytes allowed after the
first: the number and how many bytes it took. A tenth byte ends the number whatever its high
bit, so at most ten bytes are read. -/
def vldecNat (buf : Nat → UInt8) : Nat → Nat → Nat × Nat
  | 0, p => ((buf p).toNat % 128, 1)
  | fuel + 1, p =>
    if (buf p).toNat < 128 then ((buf p).toNat, 1)
    else
      let r := vldecNat buf fuel (p + 1)
      ((buf p).toNat % 128 + 128 * r.1, r.2 + 1)

/-- Modelled from the spec: `vldec_u64(buf + p, &p)` returns the number and advances `p`. -/
def vldecU64 (buf : Nat → UInt8) (p : Nat) : UInt64 × Nat :=
  ((vldecNat buf 9 p).1.toUInt64, p + (vldecNat buf 9 p).2)

/-- The bytes `l` sit in `buf` from position `p` on. -/
def BufHolds (buf : Nat → UInt8) : Nat → List UInt8 → Prop
  | _, [] => True
  | p, b :: l => buf p = b ∧ BufHolds buf (p + 1) l

theorem bufHolds_append {buf : Nat → UInt8} :
    ∀ {p : Nat} {l₁ l₂ : List UInt8},
      BufHolds buf p (l₁ ++ l₂) ↔ BufHolds buf p l₁ ∧ BufHolds buf (p + l₁.length) l₂
  | p, [], l₂ => by simp [BufHolds]
  | p, b :: l₁, l₂ => by
    show buf p = b ∧ BufHolds buf (p + 1) (l₁ ++ l₂) ↔ _
    rw [bufHolds_append]
    simp only [BufHolds, List.length_cons, and_assoc, Nat.add_assoc, Nat.add_comm 1]

theorem toNat_continuation_byte (n : Nat) : (n % 128 + 128).toUInt8.toNat = n % 128 + 128 := by
  simp only [toNat_toUInt8]
  omega

theorem vlencNat_length_pos (fuel n : Nat) : 0 < (vlencNat fuel n).length := by
  cases fuel
  · simp [vlencNat]
  · simp only [vlencNat]
    split <;> simp

theorem vlencNat_length_le : ∀ fuel n, (vlencNat fuel n).length ≤ fuel + 1
  | 0, n => by simp [vlencNat]
  | fuel + 1, n => by
    simp only [vlencNat]
    split
    · simp
    · simpa using vlencNat_length_le fuel (n / 128)

theorem vlencNat_length_of_lt {fuel n : Nat} (h : n < 128) : (vlencNat fuel n).length = 1 := by
  cases fuel <;> simp [vlencNat, h]

theorem vlencNat_length_of_ge {fuel n : Nat} (h : 128 ≤ n) :
    (vlencNat (fuel + 1) n).length = (vlencNat fuel (n / 128)).length + 1 := by
  simp [vlencNat, show ¬n < 128 by omega]

theorem vlencU64_length_pos (v : UInt64) : 0 < (vlencU64 v).length := vlencNat_length_pos _ _

theorem vlencU64_length_le (v : UInt64) : (vlencU64 v).length ≤ 10 := vlencNat_length_le _ _

/-- What was encoded decodes back, from any buffer holding the bytes. -/
theorem vldecNat_of_holds {buf : Nat → UInt8} :
    ∀ {fuel n p : Nat}, n < 128 ^ (fuel + 1) → BufHolds buf p (vlencNat fuel n) →
      vldecNat buf fuel p = (n, (vlencNat fuel n).length)
  | 0, n, p, hn, h => by
    simp only [vlencNat, BufHolds] at h
    simp only [vlencNat, vldecNat, h.1, toNat_toUInt8, List.length_singleton, Prod.mk.injEq,
      and_true]
    omega
  | fuel + 1, n, p, hn, h => by
    by_cases hn' : n < 128
    · simp only [vlencNat, hn', if_true, BufHolds] at h ⊢
      simp only [vldecNat, h.1, toNat_toUInt8, Nat.mod_eq_of_lt (show n < 256 by omega), hn',
        if_true, List.length_singleton]
    · simp only [vlencNat, hn', if_false, BufHolds] at h ⊢
      have ih := @vldecNat_of_holds buf fuel (n / 128) (p + 1)
        (by rw [Nat.pow_succ] at hn; omega) h.2
      simp only [vldecNat, h.1, toNat_continuation_byte, ih, List.length_cons, Prod.mk.injEq,
        and_true, show ¬n % 128 + 128 < 128 by omega, if_false]
      omega

theorem vldecU64_of_holds {buf : Nat → UInt8} {p : Nat} {v : UInt64}
    (h : BufHolds buf p (vlencU64 v)) : vldecU64 buf p = (v, p + (vlencU64 v).length) := by
  have hv : v.toNat < 128 ^ 10 := lt_of_lt_of_le v.toNat_lt_size (by decide)
  simp only [vldecU64, vldecNat_of_holds hv h, vlencU64]
  congr 1
  exact UInt64.toNat.inj (by simp [Nat.mod_eq_of_lt v.toNat_lt_size])

/-- A decode depends only on the bytes it consumes. -/
theorem vldecNat_congr {buf buf' : Nat → UInt8} :
    ∀ {fuel p : Nat}, (∀ j < (vldecNat buf fuel p).2, buf (p + j) = buf' (p + j)) →
      vldecNat buf' fuel p = vldecNat buf fuel p
  | 0, p, h => by
    have := h 0 (by simp [vldecNat])
    simp only [Nat.add_zero] at this
    simp [vldecNat, this]
  | fuel + 1, p, h => by
    have h0 := h 0 (by simp only [vldecNat]; split <;> simp)
    simp only [Nat.add_zero] at h0
    simp only [vldecNat, ← h0]
    split
    · rfl
    · rename_i hb
      simp only [vldecNat, hb, if_false] at h
      rw [vldecNat_congr (fun j hj => by
        simpa [Nat.add_assoc, Nat.add_comm 1 j] using h (j + 1) (by omega))]

theorem vldecNat_length_pos (buf : Nat → UInt8) (fuel p : Nat) : 0 < (vldecNat buf fuel p).2 := by
  cases fuel
  · simp [vldecNat]
  · simp only [vldecNat]
    split <;> simp

end CaliperAggregate

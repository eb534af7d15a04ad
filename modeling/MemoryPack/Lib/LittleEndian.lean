import Mathlib.Data.List.Basic
import Mathlib.Tactic.Ring

/-!
# Fixed-width little-endian numbers

`leBytes w n` is the `w`-byte little-endian encoding of `n`, `leNat` its inverse.
`byteswap` reverses the bytes of a `w`-byte number the way a shift-and-or loop
does; on encodings it is list reversal, which is all a program that converts
between byte orders needs to know.
-/

namespace LittleEndian

/-- A fact about bytes can be checked on numbers. -/
theorem forall_byte {P : UInt8 → Prop} (h : ∀ n < 256, P (UInt8.ofNat n)) (c : UInt8) : P c := by
  have hc := h c.toNat c.toNat_lt
  rwa [UInt8.ofNat_toNat] at hc

def leBytes : Nat → Nat → List UInt8
  | 0, _ => []
  | w + 1, n => UInt8.ofNat n :: leBytes w (n / 256)

def leNat : List UInt8 → Nat
  | [] => 0
  | b :: bs => b.toNat + 256 * leNat bs

@[simp] theorem length_leBytes : ∀ (w n : Nat), (leBytes w n).length = w
  | 0, _ => rfl
  | w + 1, n => by simp [leBytes, length_leBytes w]

theorem leNat_lt : ∀ bs : List UInt8, leNat bs < 256 ^ bs.length
  | [] => by simp [leNat]
  | b :: bs => by
      have ih := leNat_lt bs
      have hb : b.toNat < 256 := b.toNat_lt
      have hpow : 256 ^ (b :: bs).length = 256 * 256 ^ bs.length := by
        rw [List.length_cons, pow_succ, Nat.mul_comm]
      rw [hpow, leNat]
      omega

theorem leNat_leBytes_mod : ∀ (w n : Nat), leNat (leBytes w n) = n % 256 ^ w
  | 0, n => by simp [leBytes, leNat, Nat.mod_one]
  | w + 1, n => by
      have hbyte : (UInt8.ofNat n).toNat = n % 256 := UInt8.toNat_ofNat'
      rw [leBytes, leNat, leNat_leBytes_mod w, hbyte, Nat.pow_succ,
        Nat.mul_comm (256 ^ w) 256, Nat.mod_mul]

theorem leNat_leBytes {w n : Nat} (h : n < 256 ^ w) : leNat (leBytes w n) = n := by
  rw [leNat_leBytes_mod, Nat.mod_eq_of_lt h]

theorem leBytes_leNat : ∀ bs : List UInt8, leBytes bs.length (leNat bs) = bs
  | [] => rfl
  | b :: bs => by
      have hb : b.toNat < 256 := b.toNat_lt
      have hdiv : (b.toNat + 256 * leNat bs) / 256 = leNat bs := by omega
      have hhead : UInt8.ofNat (b.toNat + 256 * leNat bs) = b := by
        apply UInt8.toNat_inj.mp
        rw [UInt8.toNat_ofNat']
        omega
      rw [List.length_cons, leNat, leBytes, hdiv, leBytes_leNat bs, hhead]

theorem leNat_append : ∀ as bs : List UInt8,
    leNat (as ++ bs) = leNat as + 256 ^ as.length * leNat bs
  | [], bs => by simp [leNat]
  | a :: as, bs => by
      rw [List.cons_append, leNat, leNat_append as bs, leNat, List.length_cons]
      ring

/-! ## Byte reversal -/

/-- `out = (out << 8) | (raw & 0xFF); raw >>= 8`, `w` times. -/
def byteswapLoop : Nat → Nat → Nat → Nat
  | 0, out, _ => out
  | w + 1, out, raw => byteswapLoop w (out * 256 + raw % 256) (raw / 256)

def byteswap (w n : Nat) : Nat := byteswapLoop w 0 n

theorem byteswapLoop_leNat : ∀ (bs : List UInt8) (out : Nat),
    byteswapLoop bs.length out (leNat bs) = leNat bs.reverse + 256 ^ bs.length * out
  | [], out => by simp [byteswapLoop, leNat]
  | b :: bs, out => by
      have hb : b.toNat < 256 := b.toNat_lt
      have hmod : leNat (b :: bs) % 256 = b.toNat := by rw [leNat]; omega
      have hdiv : leNat (b :: bs) / 256 = leNat bs := by rw [leNat]; omega
      rw [List.length_cons, byteswapLoop, hmod, hdiv, byteswapLoop_leNat bs,
        List.reverse_cons, leNat_append, List.length_reverse]
      simp only [leNat]
      ring

theorem byteswap_leNat (bs : List UInt8) :
    byteswap bs.length (leNat bs) = leNat bs.reverse := by
  rw [byteswap, byteswapLoop_leNat]
  simp

/-- The loop looks at the low `w` bytes only. -/
theorem byteswapLoop_mod : ∀ (w out n : Nat),
    byteswapLoop w out (n % 256 ^ w) = byteswapLoop w out n
  | 0, _, _ => rfl
  | w + 1, out, n => by
      have hlow : n % 256 ^ (w + 1) % 256 = n % 256 :=
        Nat.mod_mod_of_dvd n (Dvd.intro_left (256 ^ w) rfl)
      have hrest : n % 256 ^ (w + 1) / 256 = n / 256 % 256 ^ w := by
        rw [pow_succ, Nat.mul_comm, Nat.mod_mul_right_div_self]
      rw [byteswapLoop, byteswapLoop, hlow, hrest, byteswapLoop_mod w]

theorem byteswap_eq (w n : Nat) : byteswap w n = leNat (leBytes w n).reverse := by
  have hswap := byteswap_leNat (leBytes w n)
  rw [length_leBytes, leNat_leBytes_mod] at hswap
  rw [← hswap, byteswap, byteswap, byteswapLoop_mod]

theorem leBytes_byteswap (w n : Nat) : leBytes w (byteswap w n) = (leBytes w n).reverse := by
  have hback := leBytes_leNat (leBytes w n).reverse
  rwa [List.length_reverse, length_leBytes, ← byteswap_eq] at hback

end LittleEndian

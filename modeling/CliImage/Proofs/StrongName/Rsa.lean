import CliImage.Proofs.Bytes
import CliImage.StrongName.Rsa
import Mathlib.FieldTheory.Finite.Basic

/-! Signatures: each one that is made is confirmed by its public key, and a key made of two primes
signs every digest. -/

namespace CliImage

namespace Rsa

open Bytes

variable {key : PrivateKey} {digest signature block : Bytes} {n c : Nat}

lemma lt_pow_byteLength (n : Nat) : n < 256 ^ byteLength n := by
  unfold byteLength
  split
  · omega
  · have hlt := Nat.lt_log2_self (n := n)
    have hle : n.log2 + 1 ≤ 8 * (n.log2 / 8 + 1) := by omega
    calc n < 2 ^ (n.log2 + 1) := hlt
      _ ≤ 2 ^ (8 * (n.log2 / 8 + 1)) := Nat.pow_le_pow_right (by decide) hle
      _ = 256 ^ (n.log2 / 8 + 1) := by rw [Nat.pow_mul]

lemma pow_byteLength_le (h : n ≠ 0) : 256 ^ (byteLength n - 1) ≤ n := by
  rw [byteLength, if_neg h, Nat.add_sub_cancel]
  calc 256 ^ (n.log2 / 8) = 2 ^ (8 * (n.log2 / 8)) := by rw [Nat.pow_mul]
    _ ≤ 2 ^ n.log2 := Nat.pow_le_pow_right (by decide) (Nat.mul_div_le ..)
    _ ≤ n := Nat.log2_self_le h

lemma byteLength_le {w : Nat} (h : n < 2 ^ (8 * w)) : byteLength n ≤ w := by
  by_cases hn : n = 0
  · rw [byteLength, if_pos hn]
    exact Nat.zero_le _
  · have hle := pow_byteLength_le hn
    rw [show 256 = 2 ^ 8 by rfl, ← Nat.pow_mul] at hle
    have := (Nat.pow_lt_pow_iff_right (by decide)).mp (hle.trans_lt h)
    omega

lemma powMod_eq (base exponent modulus : Nat) :
    powMod base exponent modulus = base ^ exponent % modulus := by
  fun_induction powMod base exponent modulus with
  | case1 => rw [Nat.pow_zero]
  | case2 base exponent _ half hodd ih =>
    have hsplit : base ^ exponent = (base * base) ^ (exponent / 2) * base := by
      rw [← Nat.pow_two, ← Nat.pow_mul, ← Nat.pow_succ]
      congr 1
      omega
    change half = _ at ih
    rw [ih, hsplit, ← Nat.pow_mod, Nat.mod_mul_mod]
  | case3 base exponent _ half heven ih =>
    have hsplit : base ^ exponent = (base * base) ^ (exponent / 2) := by
      rw [← Nat.pow_two, ← Nat.pow_mul]
      congr 1
      omega
    change half = _ at ih
    rw [ih, hsplit, ← Nat.pow_mod]

lemma decrypt_lt (h : key.Sound) (c : Nat) : decrypt key c < key.modulus := by
  obtain ⟨-, hp, hq, hmodulus, -⟩ := h
  have hpos : 0 < key.p * key.q := Nat.mul_pos (by omega) (by omega)
  unfold decrypt
  split
  · rw [powMod_eq, ← hmodulus]
    exact Nat.mod_lt _ hpos
  · rename_i inverse _
    simp only
    have hlast : powMod c (key.secret % (key.q - 1)) key.q < key.q := by
      rw [powMod_eq]
      exact Nat.mod_lt _ (by omega)
    set first := (powMod c (key.secret % (key.p - 1)) key.p +
      (key.p - powMod c (key.secret % (key.q - 1)) key.q % key.p)) % key.p * inverse % key.p
    have hfirst : first + 1 ≤ key.p := Nat.mod_lt _ (by omega)
    have hmul := Nat.mul_le_mul_right key.q hfirst
    rw [Nat.succ_mul, hmodulus] at hmul
    omega

lemma padded?_eq_some {size : Nat} (h : padded? size digest = some block) :
    block.size = size ∧ block[0]? = some 0 := by
  unfold padded? at h
  simp only at h
  split at h
  · rename_i hfit
    cases h
    constructor
    · simp only [Array.size_append, Array.size_replicate, List.size_toArray, List.length_cons,
        List.length_nil] at hfit ⊢
      omega
    · simp [Array.append_assoc]
  · cases h

lemma sign?_eq_some : sign? key digest = some signature ↔
    ∃ block, padded? key.size digest = some block ∧
      powMod (decrypt key block.toNatBE) key.exponent key.modulus = block.toNatBE ∧
      signature = ofNatBE key.size (decrypt key block.toNatBE) := by
  unfold sign?
  simp only [Option.bind_eq_bind, Option.bind_eq_some_iff, Option.guard_eq_some', exists_const,
    Option.pure_def, Option.some.injEq, eq_comm (a := signature)]

/-- Whatever has been signed is confirmed: the signature was tried before it was told. -/
theorem verify_of_sign? (hkey : key.Sound) (h : sign? key digest = some signature) :
    verify key.toPublicKey digest signature = true := by
  obtain ⟨block, hblock, htried, rfl⟩ := sign?_eq_some.mp h
  have hlt := decrypt_lt hkey block.toNatBE
  have hnumber : (ofNatBE key.size (decrypt key block.toNatBE)).toNatBE =
      decrypt key block.toNatBE := toNatBE_ofNatBE (hlt.trans (lt_pow_byteLength _))
  have hback := ofNatBE_toNatBE block
  rw [(padded?_eq_some hblock).1] at hback
  simp only [verify, hnumber, htried, hblock, hback, size_ofNatBE, beq_self_eq_true, Bool.and_true,
    decide_eq_true_eq]
  exact hlt

lemma inverseRows_spec {a m r s r' s' inverse : Nat} (hm : 0 < m)
    (hr : (s * a : ZMod m) = r) (hr' : (s' * a : ZMod m) = r')
    (h : inverseRows m r s r' s' = some inverse) : (inverse * a : ZMod m) = 1 := by
  fun_induction inverseRows m r s r' s' with
  | case1 r s => simpa [Option.some.inj h] using hr
  | case2 => cases h
  | case3 r s r' s' _ ih =>
    refine ih hr' ?_ h
    have hle : r / r' * s' % m ≤ m := (Nat.mod_lt _ hm).le
    have hsplit : (r : ZMod m) = r' * (r / r' : Nat) + (r % r' : Nat) := by
      rw [← Nat.cast_mul, ← Nat.cast_add, Nat.div_add_mod]
    rw [ZMod.natCast_mod, Nat.cast_add, Nat.cast_sub hle, ZMod.natCast_self, ZMod.natCast_mod,
      Nat.cast_mul]
    linear_combination hr + hsplit - (r / r' : Nat) * hr'

lemma inverse?_spec {a m inverse : Nat} (hm : 0 < m) (h : inverse? a m = some inverse) :
    (inverse * a : ZMod m) = 1 := by
  refine inverseRows_spec hm ?_ ?_ h
  · simp
  · simp

/-- What the secret power is modulo either prime. -/
lemma decrypt_cast (h : key.Sound) (c : Nat) :
    (∃ k, k % (key.p - 1) = key.secret % (key.p - 1) ∧ (decrypt key c : ZMod key.p) = c ^ k) ∧
      ∃ k, k % (key.q - 1) = key.secret % (key.q - 1) ∧ (decrypt key c : ZMod key.q) = c ^ k := by
  obtain ⟨-, hp, hq, hmodulus, -⟩ := h
  unfold decrypt
  split
  · rw [powMod_eq, ← hmodulus]
    refine ⟨⟨_, rfl, ?_⟩, _, rfl, ?_⟩
    · rw [← Nat.cast_pow, ZMod.natCast_eq_natCast_iff]
      exact (Nat.mod_modEq _ _).of_mul_right _
    · rw [← Nat.cast_pow, ZMod.natCast_eq_natCast_iff]
      exact (Nat.mod_modEq _ _).of_mul_left _
  · rename_i inverse hinverse
    have hspec := inverse?_spec (by omega) hinverse
    simp only [powMod_eq]
    refine ⟨⟨_, Nat.mod_mod .., ?_⟩, _, Nat.mod_mod .., ?_⟩
    · have hle : c ^ (key.secret % (key.q - 1)) % key.q % key.p ≤ key.p :=
        (Nat.mod_lt _ (by omega)).le
      simp only [Nat.cast_add, Nat.cast_mul, ZMod.natCast_mod, Nat.cast_sub hle, ZMod.natCast_self,
        Nat.cast_pow]
      linear_combination (c ^ (key.secret % (key.p - 1)) -
        (c ^ (key.secret % (key.q - 1)) % key.q : Nat) : ZMod key.p) * hspec
    · simp only [Nat.cast_add, Nat.cast_mul, ZMod.natCast_mod, ZMod.natCast_self, Nat.cast_pow,
        mul_zero, zero_add]

lemma pow_eq_self {p k : Nat} (hp : p.Prime) (hk : k % (p - 1) = 1) (x : ZMod p) : x ^ k = x := by
  have : Fact p.Prime := ⟨hp⟩
  by_cases hx : x = 0
  · have hne : k ≠ 0 := by
      rintro rfl
      simp at hk
    rw [hx, zero_pow hne]
  · rw [← Nat.div_add_mod k (p - 1), hk, pow_succ, pow_mul, ZMod.pow_card_sub_one_eq_one hx, one_pow,
      one_mul]

lemma pow_cast_eq {p d e k : Nat} {x y : ZMod p} (hp : p.Prime) (hd : d * e % (p - 1) = 1)
    (hk : k % (p - 1) = d % (p - 1)) (hx : x = y ^ k) : x ^ e = y := by
  rw [hx, ← pow_mul]
  refine pow_eq_self hp ?_ y
  rw [Nat.mul_mod, hk, ← Nat.mul_mod, hd]

lemma toNatBE_lt (hblock : padded? key.size digest = some block) (h : key.modulus ≠ 0) :
    block.toNatBE < key.modulus := by
  obtain ⟨hsize, hzero⟩ := padded?_eq_some hblock
  -- the highest byte is zero
  have hpos : 0 < block.size := (Array.getElem?_eq_some_iff.mp hzero).1
  have hlast : block.reverse.getD (block.size - 1) 0 = 0 := by
    rw [Array.getD_eq_getD_getElem?, Array.getElem?_reverse (by omega)]
    rw [show block.size - 1 - (block.size - 1) = 0 by omega, hzero]
    rfl
  have hsum := natAt_add block.reverse 0 (block.size - 1) 1
  rw [Nat.zero_add, natAt.eq_2 block.reverse (block.size - 1), hlast, natAt.eq_1,
    Nat.sub_add_cancel hpos] at hsum
  have hlt := natAt_lt block.reverse 0 (block.size - 1)
  have hle := pow_byteLength_le h
  rw [PublicKey.size] at hsize
  rw [hsize] at hsum hlt
  rw [toNatBE, toNat_eq, Array.size_reverse, hsize]
  simp only [UInt8.toNat_zero, Nat.mul_zero, Nat.add_zero] at hsum
  omega

/-- A key made of two primes signs every digest, if it is long enough for one. -/
theorem exists_sign? (hkey : key.Sound) (hp : key.p.Prime) (hq : key.q.Prime) (hne : key.p ≠ key.q)
    (hsize : 46 ≤ key.size) (hdigest : digest.size = 20) :
    ∃ signature, sign? key digest = some signature := by
  have hfit : digestHeader.size + digest.size + 11 ≤ key.size := by
    rw [hdigest]
    exact hsize
  obtain ⟨block, hblock⟩ : ∃ block, padded? key.size digest = some block := by
    refine ⟨_, if_pos ?_⟩
    rwa [Array.size_append]
  obtain ⟨⟨k, hk, hcast⟩, k', hk', hcast'⟩ := decrypt_cast hkey block.toNatBE
  obtain ⟨-, hp1, hq1, hmodulus, hsecret, hsecret'⟩ := hkey
  have hpos : key.modulus ≠ 0 := by
    rw [← hmodulus]
    exact Nat.mul_ne_zero (by omega) (by omega)
  have hlt := toNatBE_lt hblock hpos
  refine ⟨_, sign?_eq_some.mpr ⟨block, hblock, ?_, rfl⟩⟩
  rw [powMod_eq]
  have hmod : decrypt key block.toNatBE ^ key.exponent ≡ block.toNatBE [MOD key.modulus] := by
    rw [← hmodulus]
    refine (Nat.modEq_and_modEq_iff_modEq_mul ((Nat.coprime_primes hp hq).mpr hne)).mp ⟨?_, ?_⟩
    · rw [← ZMod.natCast_eq_natCast_iff, Nat.cast_pow]
      exact pow_cast_eq hp hsecret hk hcast
    · rw [← ZMod.natCast_eq_natCast_iff, Nat.cast_pow]
      exact pow_cast_eq hq hsecret' hk' hcast'
  exact Eq.trans hmod (Nat.mod_eq_of_lt hlt)

end Rsa

end CliImage

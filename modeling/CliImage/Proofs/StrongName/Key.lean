import CliImage.Proofs.Reader
import CliImage.Proofs.Result
import CliImage.Proofs.StrongName.Rsa
import CliImage.StrongName.Key

/-! A key pair's public key reads back, and confirms what the pair signs. -/

namespace CliImage

namespace KeyPair

open Reader (ReadsBack)

variable {data digest signature : Bytes} {pair : KeyPair}

lemma readComponent_eq_ok {w n pos next : Nat} :
    StrongName.readComponent w data pos = .ok n next ↔
      pos + w ≤ data.size ∧ data.natAt pos w = n ∧ pos + w = next := by
  simp only [StrongName.readComponent, Reader.map_eq_ok, Reader.bytes_eq_ok]
  have hvalue (hle : pos + w ≤ data.size) :
      Bytes.toNat (data.extract pos (pos + w)) = data.natAt pos w := by
    have hstands := Bytes.standsAt_extract (Nat.le_add_right pos w) hle
    have hsize : (data.extract pos (pos + w)).size = w := by
      rw [Array.size_extract]
      omega
    rw [Bytes.toNat_eq, hsize, ← hstands.natAt (i := 0) (by omega), Nat.add_zero]
  constructor
  · rintro ⟨_, ⟨hle, rfl, rfl⟩, rfl⟩
    exact ⟨hle, (hvalue hle).symm, rfl⟩
  · rintro ⟨hle, rfl, rfl⟩
    exact ⟨_, ⟨hle, rfl, rfl⟩, hvalue hle⟩

lemma readNumber_eq_ok {n pos next : Nat} : (UInt32.toNat <$> Reader.u32) data pos = .ok n next ↔
    pos + 4 ≤ data.size ∧ data.natAt pos 4 = n ∧ pos + 4 = next := by
  have hvalue : (UInt32.ofNat (data.natAt pos 4)).toNat = data.natAt pos 4 :=
    UInt32.toNat_ofNat_of_lt' (Bytes.natAt_lt ..)
  simp only [Reader.map_eq_ok, Reader.u32_eq_ok]
  constructor
  · rintro ⟨_, ⟨hle, rfl, rfl⟩, rfl⟩
    exact ⟨hle, hvalue.symm, rfl⟩
  · rintro ⟨hle, rfl, rfl⟩
    exact ⟨_, ⟨hle, rfl, rfl⟩, hvalue⟩

/-- The modulus and the exponent that stand in a key file; the length of the modulus, in bits, stands
in front of them. -/
def publicPart (data : Bytes) : Rsa.PublicKey where
  modulus := data.natAt 20 (data.natAt 12 4 / 8)
  exponent := data.natAt 16 4

/-- The parts of a pair that is accepted fit together, and its public part is the one of the file. -/
lemma parts_of_read (h : read data = .ok pair) :
    pair.key.Sound ∧ pair.key.toPublicKey = publicPart data := by
  rw [read, Result.mapError_eq_ok] at h
  obtain ⟨next, h⟩ := Reader.run_eq_ok.mp h
  simp only [StrongName.keyReader, Reader.bind_eq_ok, Reader.unless_fail_eq_ok, Reader.u8_eq_ok,
    Reader.u16_eq_ok, Reader.u32_eq_ok] at h
  obtain ⟨_, _, ⟨-, -, rfl⟩, _, _, ⟨-, -, rfl⟩, _, _, ⟨-, -, rfl⟩, _, _, ⟨-, -, rfl⟩, -, -, -, _, _,
    ⟨-, -, rfl⟩, -, key, _, hnumbers, h⟩ := h
  split at h
  · obtain ⟨rfl, -⟩ := Reader.pure_eq_ok.mp h
    refine ⟨‹_›, ?_⟩
    simp only [StrongName.readNumbers, Reader.bind_eq_ok, Reader.unless_fail_eq_ok,
      readNumber_eq_ok, readComponent_eq_ok] at hnumbers
    obtain ⟨_, _, ⟨-, rfl, rfl⟩, -, _, _, ⟨-, rfl, rfl⟩, _, _, ⟨-, rfl, -⟩, _, _, -, _, _, -, _, _, -,
      _, _, -, _, _, -, _, _, -, hkey⟩ := hnumbers
    obtain ⟨rfl, -⟩ := Reader.pure_eq_ok.mp hkey
    rfl
  · cases h

lemma sound_of_read (h : read data = .ok pair) :
    pair.key.Sound ∧ pair.key.exponent < 2 ^ 32 := by
  obtain ⟨hsound, hpublic⟩ := parts_of_read h
  refine ⟨hsound, ?_⟩
  rw [hpublic]
  exact Bytes.natAt_lt ..

/-- A signature is at most as long as the modulus was given. -/
lemma signatureSize_lt_of_read (h : read data = .ok pair) : pair.signatureSize < 2 ^ 29 := by
  have hbits := data.natAt_lt 12 4
  have hmodulus : pair.key.modulus < 2 ^ (8 * (data.natAt 12 4 / 8)) := by
    rw [(parts_of_read h).2, Nat.pow_mul]
    exact Bytes.natAt_lt ..
  have hle := Rsa.byteLength_le hmodulus
  change Rsa.byteLength pair.key.modulus < _
  omega

lemma readComponent_readsBack {w n : Nat} (h : n < 256 ^ w) :
    ReadsBack (StrongName.readComponent w) (Bytes.ofLongNat w n) n := by
  have hread := (ReadsBack.bytes (Bytes.size_ofNat w n)).map (g := Bytes.toNat)
  rwa [Bytes.toNat_eq, Bytes.size_ofNat, Bytes.natAt_ofNat, Nat.mod_eq_of_lt h,
    ← Bytes.ofLongNat_eq] at hread

lemma readsBack_number {n : Nat} (h : n < 2 ^ 32) :
    ReadsBack (UInt32.toNat <$> Reader.u32) (Bytes.ofNat 4 n) n := by
  have := (ReadsBack.u32 (UInt32.ofNat n)).map (g := UInt32.toNat)
  rwa [Bytes.ofUInt32, UInt32.toNat_ofNat_of_lt' h] at this

lemma publicKey_eq (pair : KeyPair) : pair.publicKey =
    (Bytes.ofUInt32 StrongName.signAlgorithm ++ Bytes.ofUInt32 StrongName.hashAlgorithm
      ++ Bytes.ofNat 4 (20 + pair.signatureSize)) ++ (#[StrongName.publicBlob]
      ++ ((#[2, 0, 0] ++ Bytes.ofUInt32 StrongName.signAlgorithm)
      ++ (Bytes.ofUInt32 StrongName.publicMagic ++ (Bytes.ofNat 4 (8 * pair.signatureSize)
      ++ (Bytes.ofNat 4 pair.key.exponent
      ++ Bytes.ofLongNat pair.signatureSize pair.key.modulus))))) := by
  have hsplit : (#[StrongName.publicBlob, 2, 0, 0] : Bytes) =
      #[StrongName.publicBlob] ++ #[2, 0, 0] := rfl
  rw [publicKey, Bytes.ofLongNat_eq, Bytes.size_ofNat, hsplit]
  simp only [Array.append_assoc]

lemma size_publicKey (pair : KeyPair) : pair.publicKey.size = 32 + pair.signatureSize := by
  rw [publicKey_eq, Bytes.ofLongNat_eq]
  simp only [Array.size_append, Bytes.size_ofUInt32, Bytes.size_ofNat, List.size_toArray,
    List.length_cons, List.length_nil]
  omega

/-- The numbers are read back from the public key; whether they are accepted depends on how long the
modulus is. -/
lemma readPublicKey_eq (hkey : pair.key.Sound) (hexponent : pair.key.exponent < 2 ^ 32)
    (hsize : pair.signatureSize < 2 ^ 29) : StrongName.readPublicKey pair.publicKey =
      if pair.key.modulus < Rsa.PublicKey.sizeLimit then .ok pair.key.toPublicKey
      else .error (.key .unusable) := by
  have hmodulus : ReadsBack (StrongName.readComponent (8 * pair.signatureSize / 8))
      (Bytes.ofLongNat pair.signatureSize pair.key.modulus) pair.key.modulus := by
    rw [Nat.mul_div_cancel_left _ (by decide)]
    exact readComponent_readsBack (Rsa.lt_pow_byteLength _)
  have hnone : ¬ (StrongName.publicBlob ≠ StrongName.publicBlob ∨
      StrongName.publicMagic ≠ StrongName.publicMagic) := by simp
  have hcomes : Reader.ComesTo StrongName.publicKeyReader pair.publicKey
      (if pair.key.modulus < Rsa.PublicKey.sizeLimit then .ok pair.key.toPublicKey
        else .error (.key .unusable)) := by
    have hsound : (⟨pair.key.modulus, pair.key.exponent⟩ : Rsa.PublicKey).Sound := hkey.1
    rw [publicKey_eq, ← @Array.append_empty _ (Bytes.ofLongNat pair.signatureSize _)]
    refine ReadsBack.bindTo (.bytes (by simp)) <| ReadsBack.bindTo (.u8 _) <|
      ReadsBack.bindTo (.bytes (by simp)) <| ReadsBack.bindTo (.u32 _) <| .unless_fail hnone <|
      ReadsBack.bindTo (readsBack_number (by omega)) <|
      ReadsBack.bindTo (readsBack_number hexponent) <| hmodulus.bindTo ?_
    simp only [hsound, true_and]
    split
    · exact .pure pair.key.toPublicKey
    · exact .fail _
  exact hcomes (Bytes.standsAt_self _)

/-- The public key is one that the verifier accepts, if it is not too long for it. -/
theorem readPublicKey_publicKey (hkey : pair.key.Sound) (hexponent : pair.key.exponent < 2 ^ 32)
    (hlimit : pair.key.modulus < Rsa.PublicKey.sizeLimit) :
    StrongName.readPublicKey pair.publicKey = .ok pair.key.toPublicKey := by
  have hlength : pair.signatureSize ≤ 512 := by
    rw [Rsa.PublicKey.sizeLimit, show 4096 = 8 * 512 from rfl] at hlimit
    exact Rsa.byteLength_le hlimit
  rw [readPublicKey_eq hkey hexponent (by omega), if_pos hlimit]

/-- What a pair signs its public key confirms. -/
theorem verify_of_sign (hkey : pair.key.Sound) (h : pair.sign digest = .ok signature) :
    Rsa.verify pair.key.toPublicKey digest signature.reverse = true ∧
      signature.size = pair.signatureSize := by
  unfold sign at h
  split at h
  · rename_i hsign
    cases h
    rw [Array.reverse_reverse, Array.size_reverse]
    obtain ⟨_, -, -, rfl⟩ := Rsa.sign?_eq_some.mp hsign
    exact ⟨Rsa.verify_of_sign? hkey hsign, Bytes.size_ofNatBE ..⟩
  · cases h

lemma exists_sign (hkey : pair.key.Sound) (hp : pair.key.p.Prime) (hq : pair.key.q.Prime)
    (hne : pair.key.p ≠ pair.key.q) (hsize : 46 ≤ pair.signatureSize) (hdigest : digest.size = 20) :
    ∃ signature, pair.sign digest = .ok signature := by
  obtain ⟨signature, hsign⟩ := Rsa.exists_sign? hkey hp hq hne hsize hdigest
  exact ⟨signature.reverse, by rw [sign, hsign]⟩

/-- The file of a key pair with a modulus of some length; the numbers that follow from the primes may
be left out. -/
def file (key : Rsa.PrivateKey) (bits : Nat) : Bytes :=
  #[StrongName.privateBlob] ++ (#[2] ++ (Bytes.ofUInt16 0 ++ (Bytes.ofUInt32 StrongName.signAlgorithm
    ++ (Bytes.ofUInt32 StrongName.privateMagic ++ (Bytes.ofNat 4 bits ++ (Bytes.ofNat 4 key.exponent
    ++ (Bytes.ofLongNat (bits / 8) key.modulus ++ (Bytes.ofLongNat (bits / 16) key.p
    ++ (Bytes.ofLongNat (bits / 16) key.q ++ (Bytes.zeros (bits / 16) ++ (Bytes.zeros (bits / 16)
    ++ (Bytes.zeros (bits / 16) ++ (Bytes.ofLongNat (bits / 8) key.secret ++ #[])))))))))))))

/-- A pair whose parts fit together reads back from its file. -/
theorem read_file {key : Rsa.PrivateKey} {bits : Nat} (hkey : key.Sound) (hne : bits ≠ 0)
    (hmod : bits % 16 = 0) (hbits : bits < 2 ^ 32) (hexponent : key.exponent < 2 ^ 32)
    (hmodulus : key.modulus < 256 ^ (bits / 8)) (hp : key.p < 256 ^ (bits / 16))
    (hq : key.q < 256 ^ (bits / 16)) (hsecret : key.secret < 256 ^ (bits / 8)) :
    read (file key bits) = .ok ⟨key⟩ := by
  have hzeros : ReadsBack (Reader.bytes (bits / 16)) (Bytes.zeros (bits / 16)) _ :=
    .bytes (Bytes.size_zeros _)
  have hnumbers : ReadsBack StrongName.readNumbers (Bytes.ofNat 4 bits ++
      (Bytes.ofNat 4 key.exponent ++ (Bytes.ofLongNat (bits / 8) key.modulus ++
        (Bytes.ofLongNat (bits / 16) key.p ++ (Bytes.ofLongNat (bits / 16) key.q ++
          (Bytes.zeros (bits / 16) ++ (Bytes.zeros (bits / 16) ++ (Bytes.zeros (bits / 16) ++
            (Bytes.ofLongNat (bits / 8) key.secret ++ #[]))))))))) key :=
    .bind (readsBack_number hbits) <| .unless_fail (by omega) <|
      .bind (readsBack_number hexponent) <| .bind (readComponent_readsBack hmodulus) <|
      .bind (readComponent_readsBack hp) <| .bind (readComponent_readsBack hq) <|
      .bind hzeros <| .bind hzeros <| .bind hzeros <| .bind (readComponent_readsBack hsecret) <|
      .pure _
  have hread : ReadsBack StrongName.keyReader (file key bits) ⟨key⟩ := by
    refine .bind (.u8 _) <| .bind (.u8 _) <| .bind (.u16 _) <| .bind (.u32 _) <|
      .unless_fail (by decide) <| .unless_fail (by decide) <| .unless_fail (by decide) <|
      .bind (.u32 _) <| .unless_fail (by decide) ?_
    rw [← @Array.append_empty _ (Bytes.ofNat 4 bits ++ _)]
    refine .bind hnumbers ?_
    rw [if_pos hkey]
    exact .pure _
  exact Result.mapError_eq_ok.mpr (Reader.run_eq_ok.mpr ⟨_, hread (Bytes.standsAt_self _)⟩)

/-- The public key is as long as it says and as a signature needs, and the modulus and the exponent of
the key file are read back from it, unless the modulus is longer than a public key's may be. -/
theorem publicKey_of_read (h : read data = .ok pair) :
    pair.publicKey.size = 32 + pair.signatureSize ∧
    pair.publicKey.natAt 8 4 = pair.publicKey.size - 12 ∧
    256 ^ (pair.signatureSize - 1) ≤ (publicPart data).modulus ∧
    (publicPart data).modulus < 256 ^ pair.signatureSize ∧
    StrongName.readPublicKey pair.publicKey =
      if (publicPart data).modulus < Rsa.PublicKey.sizeLimit then .ok (publicPart data)
      else .error (.key .unusable) := by
  obtain ⟨hsound, hpublic⟩ := parts_of_read h
  have hsize := signatureSize_lt_of_read h
  have hfield : pair.publicKey.natAt 8 4 = 20 + pair.signatureSize := by
    have hstands := Bytes.standsAt_self pair.publicKey
    rw [publicKey_eq] at hstands
    rw [publicKey_eq]
    exact hstands.left.right.natAt_ofNat (by omega)
  have hmodulus : pair.key.modulus ≠ 0 := by
    have := hsound.1.1
    omega
  rw [← hpublic]
  refine ⟨size_publicKey pair, ?_, Rsa.pow_byteLength_le hmodulus, Rsa.lt_pow_byteLength _,
    readPublicKey_eq hsound (sound_of_read h).2 hsize⟩
  rw [hfield, size_publicKey]
  omega

/-- A pair with the modulus 33. -/
def tinyPair : KeyPair := ⟨{ modulus := 33, exponent := 3, secret := 7, p := 3, q := 11 }⟩

/-- Its file gives the modulus four bytes, of which three are zeros; the public key has one. -/
theorem publicKey_of_read_tinyPair : read (file tinyPair.key 32) = .ok tinyPair ∧
    tinyPair.publicKey.size = 33 ∧ tinyPair.publicKey.natAt 8 4 = 21 ∧
    StrongName.readPublicKey tinyPair.publicKey = .ok ⟨33, 3⟩ := by
  have hread : read (file tinyPair.key 32) = .ok tinyPair :=
    read_file (by decide) (by decide) (by decide) (by decide) (by decide) (by decide) (by decide)
      (by decide) (by decide)
  obtain ⟨hsize, hfield, -, -, hkey⟩ := publicKey_of_read hread
  have hlength : tinyPair.signatureSize = 1 := by decide +kernel
  have hpublic : publicPart (file tinyPair.key 32) = ⟨33, 3⟩ := (parts_of_read hread).2.symm
  rw [hlength] at hsize
  rw [hsize] at hfield
  rw [hpublic, if_pos (by decide +kernel)] at hkey
  exact ⟨hread, hsize, hfield, hkey⟩

end KeyPair

end CliImage

import Cromwell.Ide.HddKey

/-!
# Decoding the security section

The program only decodes. The encoder it is the inverse of puts the keyed hash of
the plain section in front and encrypts the section under a key made from that
hash. Decoding finds the least version whose decryption is confirmed.
-/

namespace Cromwell.Ide

open Cromwell.Std Cromwell.Crypt

/-! ## The encoder -/

section Encoder

variable (compress : Compress)

/-- The RC4 key of a version and a stored hash. -/
def sectionKey (version : Nat) (hash : List Byte) : List Byte :=
  (hmacHdd compress version hash).toList

/-- The encrypted part of a section, decrypted as one stream. -/
def decrypt (version : Nat) (eeprom : SecuritySection) : List Byte :=
  rc4 (sectionKey compress version (eeprom.toList.take 20)) (eeprom.toList.drop 20)

/-- The stored hash is that of the decrypted part. -/
def Confirms (version : Nat) (eeprom : SecuritySection) : Prop :=
  eeprom.toList.take 20 = (hmacHdd compress version (decrypt compress version eeprom)).toList

/-- The hash of the plain section, and the section encrypted under it. -/
def encodedBytes (version : Nat) (plain : List Byte) : List Byte :=
  let hash := (hmacHdd compress version plain).toList
  hash ++ rc4 (sectionKey compress version hash) plain

/-- The security section of a confounder and a plaintext, the hard disk key and the region. -/
def encode (version : Nat) (confounder : Vector Byte 8) (plaintext : Vector Byte 20) :
    SecuritySection :=
  ⟨(encodedBytes compress version (confounder.toList ++ plaintext.toList)).toArray, by
    simp [encodedBytes]⟩

variable {compress} {version : Nat}

/-- The key has as many bytes as a hash. -/
@[simp] theorem length_sectionKey (hash : List Byte) :
    (sectionKey compress version hash).length = 20 := Vector.length_toList

theorem toList_encode (confounder : Vector Byte 8) (plaintext : Vector Byte 20) :
    (encode compress version confounder plaintext).toList =
      encodedBytes compress version (confounder.toList ++ plaintext.toList) := rfl

theorem take_encodedBytes (plain : List Byte) :
    (encodedBytes compress version plain).take 20 = (hmacHdd compress version plain).toList :=
  List.take_left' (Vector.length_toList)

theorem drop_encodedBytes (plain : List Byte) :
    (encodedBytes compress version plain).drop 20 =
      rc4 (sectionKey compress version (hmacHdd compress version plain).toList) plain :=
  List.drop_left' (Vector.length_toList)

/-- Decryption undoes the encoder. -/
theorem decrypt_encode (confounder : Vector Byte 8) (plaintext : Vector Byte 20) :
    decrypt compress version (encode compress version confounder plaintext) =
      confounder.toList ++ plaintext.toList := by
  rw [decrypt, toList_encode, take_encodedBytes, drop_encodedBytes, rc4_rc4]

/-- An encoded section is confirmed by its own version. -/
theorem confirms_encode (confounder : Vector Byte 8) (plaintext : Vector Byte 20) :
    Confirms compress version (encode compress version confounder plaintext) := by
  rw [Confirms, decrypt_encode, toList_encode, take_encodedBytes]

end Encoder

/-! ## The decoder -/

section Decoder

variable {compress : Compress} {stack : SHA1Context} {eeprom : SecuritySection}

@[simp] theorem length_decrypt (version : Nat) :
    (decrypt compress version eeprom).length = 28 := by
  simp [decrypt]

/-- Two calls of `rc4_crypt` decrypt the section as one stream. -/
theorem decryptCopy_eq (version : Nat) :
    decryptCopy compress stack eeprom version =
      eeprom.toList.take 20 ++ decrypt compress version eeprom := by
  have rest : (eeprom.toList.drop 28).take 20 = eeprom.toList.drop 28 :=
    List.take_of_length_le (by simp)
  have whole : eeprom.toList.drop 20 =
      (eeprom.toList.drop 20).take 8 ++ (eeprom.toList.drop 28).take 20 := by
    rw [rest, ← List.drop_drop (i := 8) (j := 20), List.take_append_drop]
  have prepared : decrypt compress version eeprom = (rc4Crypt (eeprom.toList.drop 20)
      (rc4PrepareKey (hmacHdd compress version (eeprom.toList.take 20)).toList)).1 :=
    (rc4Crypt_prepared (by simp) (by simp) _).symm
  rw [prepared, whole, rc4Crypt_append, decryptCopy, hmacHddCalculation_eq _ _ _ _ (by simp),
    List.flatten_singleton]
  exact List.append_assoc _ _ _

/-- What one pass of the loop does: it leaves exactly when the version is confirmed. -/
theorem tryVersion_cases (version : Nat) (previous : List Byte) :
    (Confirms compress version eeprom ∧ tryVersion compress stack eeprom version previous =
      .leave (version, eeprom.toList.take 20 ++ decrypt compress version eeprom)) ∨
    (¬Confirms compress version eeprom ∧ tryVersion compress stack eeprom version previous =
      .next (eeprom.toList.take 20 ++ decrypt compress version eeprom)) := by
  have hash : (eeprom.toList.take 20).length = 20 := by simp
  have plain : (decrypt compress version eeprom).take 8 ++
      ((decrypt compress version eeprom).drop 8).take 20 = decrypt compress version eeprom := by
    have rest : ((decrypt compress version eeprom).drop 8).take 20 =
        (decrypt compress version eeprom).drop 8 := List.take_of_length_le (by simp)
    rw [rest, List.take_append_drop]
  have data : (eeprom.toList.take 20 ++ decrypt compress version eeprom).drop 28 =
      (decrypt compress version eeprom).drop 8 := by
    rw [← List.drop_drop (i := 8) (j := 20), List.drop_left' hash]
  have confirm : ∀ result, hmacHddCalculation compress stack version result
      [(decrypt compress version eeprom).take 8,
        ((decrypt compress version eeprom).drop 8).take 20] =
      hmacHdd compress version (decrypt compress version eeprom) := by
    intro result
    rw [hmacHddCalculation_eq _ _ _ _ (by simp), List.flatten_cons, List.flatten_singleton, plain]
  simp only [tryVersion, Confirms, decryptCopy_eq, List.take_left' hash, List.drop_left' hash, data,
    confirm]
  split
  · next confirmed => exact .inl ⟨confirmed, rfl⟩
  · next refuted => exact .inr ⟨refuted, rfl⟩

/-- The versions tried so far were refuted. -/
def Refuted (compress : Compress) (eeprom : SecuritySection) (counter : Nat)
    (_ : List Byte) : Prop :=
  ∀ version, 9 ≤ version → version < counter → ¬Confirms compress version eeprom

/-- A version is the first one of 9 to 12 that is confirmed. -/
structure LeastConfirmed (compress : Compress) (eeprom : SecuritySection) (version : Nat) :
    Prop where
  lower : 9 ≤ version
  upper : version ≤ 12
  confirmed : Confirms compress version eeprom
  least : ∀ earlier, 9 ≤ earlier → earlier < version → ¬Confirms compress earlier eeprom

/-- The loop is left with the first confirmed version and its decrypted copy. -/
def Found (compress : Compress) (eeprom : SecuritySection) (found : Nat × List Byte) : Prop :=
  LeastConfirmed compress eeprom found.1 ∧
    found.2 = eeprom.toList.take 20 ++ decrypt compress found.1 eeprom

/-- The loop over the versions finds the first confirmed one, or refutes them all. -/
theorem tryVersions_ends :
    (forLoop (tryVersion compress stack eeprom) 4 9 []).Ends (Refuted compress eeprom 13)
      (Found compress eeprom) := by
  refine forLoop_ends (fun _ lower upper => by omega) ?_
  intro counter previous lower upper refuted
  obtain ⟨confirmed, left⟩ | ⟨wrong, continued⟩ := tryVersion_cases counter previous
  · rw [left]
    exact ⟨⟨lower, by omega, confirmed, refuted⟩, rfl⟩
  · rw [continued]
    intro version above below
    by_cases last : version = counter
    · rw [last]
      exact wrong
    · exact refuted version above (by omega)

/-- The decoder returns 0 when it refutes every version, and otherwise the first
confirmed version and the hard disk key of that decryption. -/
theorem generate_cases (compress : Compress) (stack : SHA1Context) (eeprom : SecuritySection) :
    let result := bootHddKeyGenerateEepromKeyData compress stack eeprom
    (result.version = 0 ∧
      ∀ version, 9 ≤ version → version ≤ 12 → ¬Confirms compress version eeprom) ∨
    (LeastConfirmed compress eeprom result.version ∧
      result.pbResult = ((decrypt compress result.version eeprom).drop 8).take 16) := by
  intro result
  have ends : (forLoop (tryVersion compress stack eeprom) 4 9 []).Ends _ _ := tryVersions_ends
  simp only [result, bootHddKeyGenerateEepromKeyData]
  generalize forLoop (tryVersion compress stack eeprom) 4 9 [] = ended at ends ⊢
  cases ended with
  | next copy => exact .inl ⟨rfl, fun version lower upper => ends version lower (by omega)⟩
  | leave found =>
      obtain ⟨version, copy⟩ := found
      obtain ⟨first, same⟩ := ends
      refine .inr ⟨first, ?_⟩
      have hash : (eeprom.toList.take 20).length = 20 := by simp
      simp only at same ⊢
      rw [same, ← List.drop_drop (i := 8) (j := 20), List.drop_left' hash]

/-- The version returned is the first confirmed one, and 0 exactly when there is none. -/
theorem generate_version (compress : Compress) (stack : SHA1Context) (eeprom : SecuritySection) :
    let result := bootHddKeyGenerateEepromKeyData compress stack eeprom
    (result.version = 0 ↔
      ∀ version, 9 ≤ version → version ≤ 12 → ¬Confirms compress version eeprom) ∧
    (result.version ≠ 0 → LeastConfirmed compress eeprom result.version) := by
  intro result
  obtain ⟨zero, none⟩ | ⟨first, _⟩ := generate_cases compress stack eeprom
  · exact ⟨⟨fun _ => none, fun _ => zero⟩, fun nonzero => absurd zero nonzero⟩
  · have lower : 9 ≤ result.version := first.lower
    refine ⟨⟨fun zero => by omega, fun none => ?_⟩, fun _ => first⟩
    exact absurd first.confirmed (none result.version first.lower first.upper)

/-- An encoded section is decoded by its version, unless a smaller one is confirmed too. -/
theorem generate_encode (compress : Compress) (stack : SHA1Context) {version : Nat}
    (confounder : Vector Byte 8) (plaintext : Vector Byte 20) (lower : 9 ≤ version)
    (upper : version ≤ 12) :
    let result := bootHddKeyGenerateEepromKeyData compress stack
      (encode compress version confounder plaintext)
    result.version ≠ 0 ∧ result.version ≤ version ∧
      (result.version = version → result.pbResult = plaintext.toList.take 16) := by
  intro result
  have own : Confirms compress version _ := confirms_encode confounder plaintext
  obtain ⟨_, none⟩ | ⟨first, key⟩ : (result.version = 0 ∧ _) ∨
      (LeastConfirmed _ _ result.version ∧ result.pbResult =
        ((decrypt compress result.version _).drop 8).take 16) :=
    generate_cases compress stack (encode compress version confounder plaintext)
  · exact absurd own (none version lower upper)
  · have nine : 9 ≤ result.version := first.lower
    refine ⟨by omega, ?_, fun same => ?_⟩
    · by_contra later
      exact first.least version lower (by omega) own
    · rw [key, same, decrypt_encode, List.drop_left' Vector.length_toList]

end Decoder

/-! ## The drive password -/

/-- The password is the keyed hash of the model and serial number. -/
theorem calculateDrivePassword_eq (compress : Compress) (stack : SHA1Context) (eeprom : Memory)
    (drives : Fin 2 → TsHarddiskInfo) (driveId : Fin 2) (memory : Memory) (key : Nat) :
    let result := bootHddKeyGenerateEepromKeyData compress stack (securitySection eeprom)
    let password := hmac (sha1 compress) result.pbResult
      ((drives driveId).model ++ (drives driveId).serial)
    calculateDrivePassword compress stack eeprom drives driveId memory key =
      if result.version = 0 then (1, memory) else (0, memory.store key password.toList) := by
  have short : (drives driveId).model.length + (drives driveId).serial.length < 2 ^ 60 := by
    have modelLength : (drives driveId).model.length ≤ 40 := by
      simp [TsHarddiskInfo.model]
    have serialLength : (drives driveId).serial.length ≤ 20 := by
      simp [TsHarddiskInfo.serial]
    omega
  intro result password
  rw [calculateDrivePassword, hmacSHA1_eq _ _ _ _ _ short]

/-- EEPROM security section decoding. The decoder returns the least version of 9
to 12 whose decryption the stored hash confirms, and 0 when there is none; it
inverts the encoder unless a smaller version is confirmed by chance. The drive
password is written only when a version was found, and is then the keyed hash of
the model and serial number under the hard disk key. -/
theorem securitySection_decoding (compress : Compress) (stack : SHA1Context) :
    (∀ eeprom, let result := bootHddKeyGenerateEepromKeyData compress stack eeprom
      (result.version = 0 ↔
        ∀ version, 9 ≤ version → version ≤ 12 → ¬Confirms compress version eeprom) ∧
      (result.version ≠ 0 → LeastConfirmed compress eeprom result.version)) ∧
    (∀ version confounder plaintext, 9 ≤ version → version ≤ 12 →
      let result := bootHddKeyGenerateEepromKeyData compress stack
        (encode compress version confounder plaintext)
      result.version ≠ 0 ∧ result.version ≤ version ∧
      (result.version = version → result.pbResult = plaintext.toList.take 16)) ∧
    (∀ eeprom drives driveId memory key,
      let result := bootHddKeyGenerateEepromKeyData compress stack (securitySection eeprom)
      let password := hmac (sha1 compress) result.pbResult
        ((drives driveId).model ++ (drives driveId).serial)
      (result.version = 0 →
        calculateDrivePassword compress stack eeprom drives driveId memory key = (1, memory)) ∧
      (result.version ≠ 0 →
        calculateDrivePassword compress stack eeprom drives driveId memory key =
          (0, memory.store key password.toList))) := by
  refine ⟨generate_version compress stack, ?_, ?_⟩
  · intro version confounder plaintext lower upper
    exact generate_encode compress stack confounder plaintext lower upper
  · intro eeprom drives driveId memory key result password
    rw [calculateDrivePassword_eq]
    exact ⟨fun zero => if_pos zero, fun nonzero => if_neg nonzero⟩

end Cromwell.Ide

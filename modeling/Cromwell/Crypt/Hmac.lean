import Cromwell.Crypt.Sha1Stream

/-!
# Keyed hashes

`HMAC_SHA1` is the usual keyed hash. The keyed hash of the EEPROM has no key: its
inner and outer hash continue from states that stand for a first block already
hashed, one pair of states for each console version. The inner digest is written
over the message block of the very context that hashes it next.
-/

namespace Cromwell.Crypt

open Cromwell.Std Cromwell.Std.Absorbing

variable (compress : Compress)

/-! ## `HMAC_SHA1` -/

/-- The key, filled up to a block, under a pad byte. -/
def keyPad (key : List Byte) (pad : Byte) : List Byte :=
  (List.range 0x40).map fun i => if i < key.length then key.getD i 0 ^^^ pad else pad

@[simp] theorem length_keyPad (key : List Byte) (pad : Byte) : (keyPad key pad).length = 0x40 := by
  simp [keyPad]

/-- `HMAC_SHA1`, on a context that may hold anything. -/
def hmacSHA1 (context : SHA1Context) (result : Vector Byte 20) (key text1 text2 : List Byte) :
    Vector Byte 20 :=
  let state1 := keyPad key 0x36
  let context := sha1Reset context
  let context := sha1Input compress context state1
  let context := sha1Input compress context text1
  let context := sha1Input compress context text2
  let (context, inner) := sha1Result compress context (Vector.replicate 20 0)
  let state2 := keyPad key 0x5C ++ inner.toList
  let context := sha1Reset context
  let context := sha1Input compress context state2
  (sha1Result compress context result).2

/-- The keyed hash made from a hash function. -/
def hmac (hash : List Byte → Vector Byte 20) (key text : List Byte) : Vector Byte 20 :=
  hash (keyPad key 0x5C ++ (hash (keyPad key 0x36 ++ text)).toList)

/-! ## `HMAC_hdd_calculation` -/

/-- The state `HMAC1hddReset` starts from. -/
def hmac1hddState : Nat → HashState
  | 9 => #v[0x85F9E51A, 0xE04613D2, 0x6D86A50C, 0x77C32E3C, 0x4BD717A4]
  | 10 => #v[0x72127625, 0x336472B9, 0xBE609BEA, 0xF55E226B, 0x99958DAC]
  | 11 => #v[0x39B06E79, 0xC9BD25E8, 0xDBC6B498, 0x40B4389D, 0x86BBD7ED]
  | 12 => #v[0x8058763a, 0xf97d4e0e, 0x865a9762, 0x8a3d920d, 0x08995b2c]
  | _ => sha1Initial

/-- The state `HMAC2hddReset` starts from. -/
def hmac2hddState : Nat → HashState
  | 9 => #v[0x5D7A9C6B, 0xE1922BEB, 0xB82CCDBC, 0x3137AB34, 0x486B52B3]
  | 10 => #v[0x76441D41, 0x4DE82659, 0x2E8EF85E, 0xB256FACA, 0xC4FE2DE8]
  | 11 => #v[0x9B49BED3, 0x84B430FC, 0x6B8749CD, 0xEBFE5FE5, 0xD96E7393]
  | 12 => #v[0x01075307, 0xa2f1e037, 0x1186eeea, 0x88da9992, 0x168a5609]
  | _ => sha1Initial

/-- A reset to a state that counts one block. -/
def hddReset (state : HashState) (context : SHA1Context) : SHA1Context :=
  { sha1Reset context with intermediateHash := state, lengthLow := 512 }

/-- `HMAC1hddReset`. -/
def hmac1hddReset (version : Nat) : SHA1Context → SHA1Context := hddReset (hmac1hddState version)

/-- `HMAC2hddReset`. -/
def hmac2hddReset (version : Nat) : SHA1Context → SHA1Context := hddReset (hmac2hddState version)

/-- The first 20 bytes of the message block. -/
def blockFront (block : Vector Byte 64) : Vector Byte 20 :=
  Vector.ofFn fun i : Fin 20 => block[i.val]

/-- A digest written over the front of the message block. -/
def overwriteFront (block : Vector Byte 64) (digest : Vector Byte 20) : Vector Byte 64 :=
  Vector.ofFn fun i : Fin 64 => if inside : i.val < 20 then digest[i.val] else block[i.val]

theorem blockFront_overwriteFront (block : Vector Byte 64) (digest : Vector Byte 20) :
    blockFront (overwriteFront block digest) = digest := by
  ext i bound
  simp [blockFront, overwriteFront]

/-- `HMAC_hdd_calculation`, on a context that may hold anything. The buffers are
those in front of the `NULL` argument. The second hash reads the message block
byte by byte just before it stores each byte back to the same place. -/
def hmacHddCalculation (context : SHA1Context) (version : Nat) (result : Vector Byte 20)
    (buffers : List (List Byte)) : Vector Byte 20 :=
  let context := hmac1hddReset version context
  let context := buffers.foldl (sha1Input compress) context
  let (context, inner) := sha1Result compress context (blockFront context.messageBlock)
  let context := { context with messageBlock := overwriteFront context.messageBlock inner }
  let context := hmac2hddReset version context
  let context := sha1Input compress context (blockFront context.messageBlock).toList
  (sha1Result compress context result).2

/-- The keyed hash of a version. -/
def hmacHdd (version : Nat) (message : List Byte) : Vector Byte 20 :=
  sha1From compress (hmac2hddState version) 512
    (sha1From compress (hmac1hddState version) 512 message).toList

/-! ## What they compute -/

section Correctness

variable {compress}

theorem collects_hddReset (state : HashState) (context : SHA1Context) :
    Collects (hddReset state context) (fresh state) 512 where
  holds := { state := rfl, index := rfl, block := rfl }
  counted := by simp [hddReset, sha1Reset, SHA1Context.bits]
  computed := rfl
  corrupted := rfl

/-- Several inputs are one input. -/
theorem Collects.inputs (buffers : List (List Byte)) {context : SHA1Context}
    {hash : Absorbing HashState Byte} {bits : Nat} (collects : Collects context hash bits)
    (room : hash.pending.length < 64) (aligned : bits % 8 = 0)
    (short : bits + 8 * buffers.flatten.length < 2 ^ 64) :
    Collects (buffers.foldl (Crypt.sha1Input compress) context)
      (hash.absorb 64 compress buffers.flatten) (bits + 8 * buffers.flatten.length) := by
  induction buffers generalizing context hash bits with
  | nil => exact collects
  | cons buffer buffers ih =>
      rw [List.flatten_cons, List.length_append] at short ⊢
      have first : Collects (Crypt.sha1Input compress context buffer) _ _ :=
        collects.sha1Input buffer room aligned (by omega)
      rw [absorb_append, Nat.mul_add, ← Nat.add_assoc]
      exact ih first (length_absorb_lt buffer room) (by omega) (by omega)

/-- A context that starts from a state and is given some buffers has their hash. -/
theorem result_inputs (compress : Compress) {context : SHA1Context} {state : HashState}
    {counted : Nat} (start : Collects context (fresh state) counted) (aligned : counted % 8 = 0)
    (buffers : List (List Byte)) (short : counted + 8 * buffers.flatten.length < 2 ^ 64)
    (digest : Vector Byte 20) :
    (sha1Result compress (buffers.foldl (sha1Input compress) context) digest).2 =
      sha1From compress state counted buffers.flatten :=
  sha1Result_digest compress (start.inputs buffers (by simp [fresh]) aligned short) digest

/-- `HMAC_SHA1` is the keyed hash of the concatenated texts. -/
theorem hmacSHA1_eq (context : SHA1Context) (result : Vector Byte 20)
    (key text1 text2 : List Byte) (short : text1.length + text2.length < 2 ^ 60) :
    hmacSHA1 compress context result key text1 text2 =
      hmac (sha1 compress) key (text1 ++ text2) := by
  have inner := result_inputs compress (collects_reset context) (by omega)
    [keyPad key 0x36, text1, text2] (by simp; omega) (Vector.replicate 20 0)
  have outer := fun context digest => result_inputs compress
    (collects_reset context) (by omega) [keyPad key 0x5C ++ (sha1 compress
      (keyPad key 0x36 ++ (text1 ++ text2))).toList] (by simp) digest
  simp only [List.foldl_cons, List.foldl_nil, List.flatten_cons, List.flatten_nil,
    List.append_nil] at inner outer
  simp only [hmacSHA1, hmac, inner]
  exact outer _ result

/-- `HMAC_hdd_calculation` on any buffers whose length can be counted. -/
theorem hmacHddCalculation_counted (context : SHA1Context) (version : Nat)
    (result : Vector Byte 20) (buffers : List (List Byte))
    (short : 512 + 8 * buffers.flatten.length < 2 ^ 64) :
    hmacHddCalculation compress context version result buffers =
      hmacHdd compress version buffers.flatten := by
  have inner : ∀ digest, (sha1Result compress (buffers.foldl (sha1Input compress)
      (hmac1hddReset version context)) digest).2 =
        sha1From compress (hmac1hddState version) 512 buffers.flatten :=
    result_inputs compress (collects_hddReset (hmac1hddState version) context) (by omega) buffers
      short
  have outer := fun context digest => result_inputs compress
    (collects_hddReset (hmac2hddState version) context) (by omega)
    [(sha1From compress (hmac1hddState version) 512 buffers.flatten).toList] (by simp) digest
  simp only [List.foldl_cons, List.foldl_nil, List.flatten_cons, List.flatten_nil,
    List.append_nil] at outer
  have kept : ∀ (context : SHA1Context), (hmac2hddReset version context).messageBlock =
      context.messageBlock := fun _ => rfl
  simp only [hmacHddCalculation, hmacHdd, kept, blockFront_overwriteFront]
  rw [inner]
  exact outer _ result

/-- `HMAC_hdd_calculation` depends on the concatenation of its buffers only. -/
theorem hmacHddCalculation_eq (context : SHA1Context) (version : Nat) (result : Vector Byte 20)
    (buffers : List (List Byte)) (short : buffers.flatten.length < 2 ^ 60) :
    hmacHddCalculation compress context version result buffers =
      hmacHdd compress version buffers.flatten :=
  hmacHddCalculation_counted context version result buffers (by omega)

end Correctness

end Cromwell.Crypt

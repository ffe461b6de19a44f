import Cromwell.Std.OnesComplement

/-!
# The checksums of packets

`ipchksum` adds the words of a packet byte by byte, and `add_ipchksums` joins the checksums of
two pieces, the second of which may begin at an odd place. What is built with its checksum in
it passes the checks of `await_reply`; what differs from it in one word does not, unless the
words are the two zeros.
-/

namespace Cromwell.Etherboot

open Cromwell.Std

/-! ## ipchksum and add_ipchksums -/

/-- The loop of `ipchksum` from the byte at `i` on. -/
def ipchksumLoop : (i sum : Nat) → List Byte → Nat
  | _, sum, [] => sum
  | i, sum, byte :: data =>
    let value := if i % 2 = 1 then byte.toNat * 2 ^ 8 else byte.toNat
    let sum := sum + value
    -- Wrap around the carry
    ipchksumLoop (i + 1) (if sum > 0xFFFF then (sum + sum / 2 ^ 16) % 2 ^ 16 else sum) data

/-- `~n & 0xFFFF` -/
def invert (n : Nat) : Nat := 0xFFFF - n % 2 ^ 16

/-- `ipchksum` -/
def ipchksum (data : List Byte) : Nat := invert (ipchksumLoop 0 0 data)

/-- `add_ipchksums` -/
def addIpchksums (offset sum new : Nat) : Nat :=
  let sum := invert sum
  let new := invert new
  let new := if offset % 2 = 1 then swapBytes new else new
  let checksum := sum + new
  let checksum := if checksum > 0xFFFF then checksum - 0xFFFF else checksum
  invert checksum

/-- The check of an image in `elf32_download`: the checksum of its header, and of the program
headers and segments that are loaded, joined one after the other. `bytes` are those so far. -/
def elfChecksum (ehdr : List Byte) (parts : List (List Byte)) : Nat :=
  (parts.foldl (fun (bytes, sum) part =>
    (bytes + part.length, addIpchksums bytes sum (ipchksum part)))
    (ehdr.length, ipchksum ehdr)).2

/-- The loop adds all bytes. -/
theorem ipchksumLoop_eq (i : Nat) {sum : Nat} (bound : sum ≤ 0xFFFF) (data : List Byte) :
    ipchksumLoop i sum data = wrap (sum + total i data) := by
  induction data generalizing i sum with
  | nil => rw [ipchksumLoop, total, Nat.add_zero, wrap_of_le bound]
  | cons byte data ih =>
      have small := weighed_le i byte
      have step : (if sum + weighed i byte > 0xFFFF then
          (sum + weighed i byte + (sum + weighed i byte) / 2 ^ 16) % 2 ^ 16
          else sum + weighed i byte) = wrap (sum + weighed i byte) := by
        rw [wrap_two bound (by omega)]
        split <;> omega
      have pass : ipchksumLoop i sum (byte :: data) =
          ipchksumLoop (i + 1) (wrap (sum + weighed i byte)) data := by
        rw [← step]
        rfl
      rw [pass, ih (i + 1) (wrap_le _), wrap_wrap_add, total, Nat.add_assoc]

theorem ipchksum_eq (data : List Byte) : ipchksum data = 0xFFFF - wrap (total 0 data) := by
  have bound := wrap_le (total 0 data)
  rw [ipchksum, ipchksumLoop_eq 0 (Nat.zero_le _), Nat.zero_add, invert,
    Nat.mod_eq_of_lt (by omega)]

theorem invert_ipchksum (data : List Byte) : invert (ipchksum data) = wrap (total 0 data) := by
  have bound := wrap_le (total 0 data)
  rw [ipchksum_eq, invert]
  omega

/-- The checksums of two pieces are joined to that of both. -/
theorem addIpchksums_eq {offset : Nat} {first second : List Byte}
    (place : offset % 2 = first.length % 2) :
    addIpchksums offset (ipchksum first) (ipchksum second) = ipchksum (first ++ second) := by
  have later : (if offset % 2 = 1 then swapBytes (wrap (total 0 second))
      else wrap (total 0 second)) = wrap (total first.length second) := by
    rw [total_parity second first.length, ← place]
    rcases Nat.mod_two_eq_zero_or_one offset with even | odd
    · rw [if_neg (by omega), even]
    · rw [if_pos odd, odd, ← wrap_total_succ]
  have sum := wrap_two (wrap_le (total 0 first)) (wrap_le (total first.length second))
  unfold addIpchksums
  dsimp only
  rw [invert_ipchksum, invert_ipchksum, later, ← sum, wrap_wrap_add, wrap_add_wrap, ipchksum_eq,
    total_append, Nat.zero_add, invert]
  have bound := wrap_le (total 0 first + total first.length second)
  rw [Nat.mod_eq_of_lt (by omega)]

/-- However an image is cut into parts, of odd lengths or not, its checksum is that of its
bytes in one piece. -/
theorem elfChecksum_eq (ehdr : List Byte) (parts : List (List Byte)) :
    elfChecksum ehdr parts = ipchksum (ehdr ++ parts.flatten) := by
  unfold elfChecksum
  induction parts generalizing ehdr with
  | nil => rw [List.foldl_nil, List.flatten_nil, List.append_nil]
  | cons part parts ih =>
      have joined := ih (ehdr ++ part)
      rw [List.length_append, ← addIpchksums_eq rfl, List.append_assoc] at joined
      rw [List.foldl_cons, List.flatten_cons]
      exact joined

/-! ## Checksums in their places -/

/-- With its checksum filled in, the checksum of all bytes is 0. -/
theorem ipchksum_filled {front rest : List Byte} (even : front.length % 2 = 0) :
    ipchksum (front ++ wordBytes (ipchksum (front ++ wordBytes 0 ++ rest)) ++ rest) = 0 := by
  have bound := wrap_le (total 0 (front ++ rest))
  rw [ipchksum_eq (front ++ wordBytes 0 ++ rest), total_word even (Nat.zero_le _), Nat.add_zero,
    ipchksum_eq, total_word even (by omega), wrap_filled]

/-- Where the checksum would be 0, the other zero does as well. -/
theorem ipchksum_full {front rest : List Byte} (even : front.length % 2 = 0)
    (zero : ipchksum (front ++ wordBytes 0 ++ rest) = 0) :
    ipchksum (front ++ wordBytes 0xffff ++ rest) = 0 := by
  have bound := wrap_le (total 0 (front ++ rest))
  rw [ipchksum_eq, total_word even (Nat.zero_le _), Nat.add_zero] at zero
  rw [ipchksum_eq, total_word even (Nat.le_refl _), wrap_add_full (by omega)]

/-- A word is told apart from another by the checksum, unless they are the two zeros among
others that are not all zeros. -/
theorem ipchksum_word_iff {front rest : List Byte} (even : front.length % 2 = 0) {m n : Nat}
    (first : m ≤ 0xFFFF) (second : n ≤ 0xFFFF) :
    ipchksum (front ++ wordBytes m ++ rest) = ipchksum (front ++ wordBytes n ++ rest) ↔
      m = n ∨ (∃ byte ∈ front ++ rest, byte ≠ 0) ∧ (m = 0 ∧ n = 0xFFFF ∨ m = 0xFFFF ∧ n = 0) := by
  have others : total 0 (front ++ rest) ≠ 0 ↔ ∃ byte ∈ front ++ rest, byte ≠ 0 := by
    rw [Ne, total_eq_zero]
    push Not
    exact Iff.rfl
  have bound := wrap_le (total 0 (front ++ rest) + m)
  have bound' := wrap_le (total 0 (front ++ rest) + n)
  rw [ipchksum_eq, ipchksum_eq, total_word even first, total_word even second, ← others,
    ← wrap_add_eq_iff first second]
  omega

theorem ipchksum_word_iff_zeros :
    ipchksum ([1, 0] ++ wordBytes 0 ++ [2]) = ipchksum ([1, 0] ++ wordBytes 0xFFFF ++ [2]) :=
  (ipchksum_word_iff (by decide) (by decide) (by decide)).mpr
    (.inr ⟨⟨1, by decide, by decide⟩, .inl ⟨rfl, rfl⟩⟩)

/-! ## Datagrams -/

/-- `IP_UDP` -/
def ipUdp : Byte := 17

/-- `htons`, as it is stored. -/
def htons (n : Nat) : List Byte := [UInt8.ofNat (n / 2 ^ 8), UInt8.ofNat n]

/-- `ntohs` of what is stored at a place. -/
def ntohs (packet : List Byte) (place : Nat) : Nat :=
  (packet.getD place 0).toNat * 2 ^ 8 + (packet.getD (place + 1) 0).toNat

/-- The addresses of an IP header. -/
structure Addresses where
  src : Vector Byte 4
  dest : Vector Byte 4

section Packets

variable (addresses : Addresses)

/-- What `build_ip_hdr` stores with a checksum; the options are there already. -/
def ipHdr (ttl protocol : Byte) (option : List Byte) (len chksum : Nat) : List Byte :=
  ([UInt8.ofNat (0x45 + option.length / 4), 0] ++ htons len ++ [0, 0] ++ [0, 0] ++
    [ttl, protocol]) ++ wordBytes chksum ++
    (addresses.src.toList ++ addresses.dest.toList ++ option)

/-- `build_ip_hdr` -/
def buildIpHdr (ttl protocol : Byte) (option : List Byte) (len : Nat) : List Byte :=
  ipHdr addresses ttl protocol option len
    (ipchksum (ipHdr addresses ttl protocol option len 0))

/-- `udpchksum`, for a UDP header at the beginning of `udp`. -/
def udpchksum (udp : List Byte) : Nat :=
  let pseudo := addresses.src.toList ++ addresses.dest.toList ++ [0, ipUdp] ++
    (udp.drop 4).take 2
  addIpchksums 12 (ipchksum pseudo) (ipchksum (udp.take (ntohs udp 4)))

/-- A UDP header with a checksum, and the data behind it. -/
def udpHdr (srcsock destsock len chksum : Nat) (data : List Byte) : List Byte :=
  (htons srcsock ++ htons destsock ++ htons len) ++ wordBytes chksum ++ data

/-- `build_udp_hdr` from the UDP header on; `len` is that of the whole packet. -/
def buildUdpHdr (srcsock destsock len : Nat) (data : List Byte) : List Byte :=
  let chksum := udpchksum addresses (udpHdr srcsock destsock (len - 20) 0 data)
  udpHdr srcsock destsock (len - 20) (if chksum = 0 then 0xffff else chksum) data

/-- The checks that `await_reply` makes of the checksum of an IP header. -/
def ipAccepted (ip : List Byte) : Prop :=
  let verhdrlen := (ip.getD 0 0).toNat
  0x45 ≤ verhdrlen ∧ verhdrlen ≤ 0x4F ∧ ipchksum (ip.take (verhdrlen % 16 * 4)) = 0

/-- The check that `await_reply` makes of the checksum of a UDP header. -/
def udpAccepted (udp : List Byte) : Prop :=
  udp.getD 6 0 = 0 ∧ udp.getD 7 0 = 0 ∨ udpchksum addresses udp = 0

/-- The header is accepted, whatever the options and what is behind it. -/
theorem ipAccepted_build (ttl protocol : Byte) {option : List Byte} (len : Nat)
    (data : List Byte) (whole : option.length % 4 = 0) (short : option.length ≤ 40) :
    ipAccepted (buildIpHdr addresses ttl protocol option len ++ data) := by
  have first : (((buildIpHdr addresses ttl protocol option len ++ data).getD 0 0)).toNat =
      0x45 + option.length / 4 := by
    have byte : (buildIpHdr addresses ttl protocol option len ++ data).getD 0 0 =
        UInt8.ofNat (0x45 + option.length / 4) := rfl
    rw [byte, UInt8.toNat_ofNat']
    omega
  have length : (buildIpHdr addresses ttl protocol option len).length = 20 + option.length := by
    simp [buildIpHdr, ipHdr, htons, wordBytes]
    omega
  have size : (0x45 + option.length / 4) % 16 * 4 =
      (buildIpHdr addresses ttl protocol option len).length := by omega
  unfold ipAccepted
  dsimp only
  rw [first, size, List.take_left']
  · refine ⟨by omega, by omega, ?_⟩
    exact ipchksum_filled (by simp [htons])
  · rfl

/-- What is in front of the checksum of a datagram, with the pseudo header. -/
def udpFront (srcsock destsock len : Nat) : List Byte :=
  addresses.src.toList ++ addresses.dest.toList ++ [0, ipUdp] ++ htons len ++
    (htons srcsock ++ htons destsock ++ htons len)

/-- The checksum is taken over the pseudo header and the whole datagram, and no more. -/
theorem udpchksum_udpHdr (srcsock destsock chksum : Nat) (data rest : List Byte)
    (short : 8 + data.length < 2 ^ 16) :
    udpchksum addresses (udpHdr srcsock destsock (8 + data.length) chksum data ++ rest) =
      ipchksum (udpFront addresses srcsock destsock (8 + data.length) ++ wordBytes chksum ++
        data) := by
  have length : (udpHdr srcsock destsock (8 + data.length) chksum data).length =
      8 + data.length := by
    simp [udpHdr, htons, wordBytes]
    omega
  have stored : ((udpHdr srcsock destsock (8 + data.length) chksum data ++ rest).drop 4).take 2 =
      htons (8 + data.length) := rfl
  have read : ntohs (udpHdr srcsock destsock (8 + data.length) chksum data ++ rest) 4 =
      (udpHdr srcsock destsock (8 + data.length) chksum data).length := by
    have bytes : ntohs (udpHdr srcsock destsock (8 + data.length) chksum data ++ rest) 4 =
        (UInt8.ofNat ((8 + data.length) / 2 ^ 8)).toNat * 2 ^ 8 +
          (UInt8.ofNat (8 + data.length)).toNat := rfl
    rw [bytes, length, UInt8.toNat_ofNat', UInt8.toNat_ofNat']
    omega
  unfold udpchksum
  dsimp only
  rw [stored, read, List.take_left' rfl, addIpchksums_eq (by simp [htons])]
  simp only [udpFront, udpHdr, List.append_assoc]

/-- The datagram is accepted, whatever is behind it. -/
theorem udpAccepted_build (srcsock destsock : Nat) (data rest : List Byte)
    (short : 8 + data.length < 2 ^ 16) :
    udpAccepted addresses
      (buildUdpHdr addresses srcsock destsock (28 + data.length) data ++ rest) := by
  have even : (udpFront addresses srcsock destsock (8 + data.length)).length % 2 = 0 := by
    simp [udpFront, htons]
  have len : 28 + data.length - 20 = 8 + data.length := by omega
  have sum := udpchksum_udpHdr addresses srcsock destsock 0 data [] short
  rw [List.append_nil] at sum
  right
  unfold buildUdpHdr
  dsimp only
  rw [len, sum, udpchksum_udpHdr addresses _ _ _ _ _ short]
  split
  case isTrue zero => exact ipchksum_full even zero
  case isFalse => exact ipchksum_filled even

/-- What `build_udp_hdr` makes of any data passes both checks of `await_reply`. -/
theorem accepted_build (ttl : Byte) (srcsock destsock : Nat) (data rest : List Byte)
    (short : 28 + data.length < 2 ^ 16) :
    ipAccepted (buildIpHdr addresses ttl ipUdp [] (28 + data.length) ++
      (buildUdpHdr addresses srcsock destsock (28 + data.length) data ++ rest)) ∧
    udpAccepted addresses
      (buildUdpHdr addresses srcsock destsock (28 + data.length) data ++ rest) :=
  ⟨ipAccepted_build addresses ttl ipUdp _ _ rfl (Nat.zero_le _),
    udpAccepted_build addresses srcsock destsock data rest (by omega)⟩

theorem accepted_build_letter :
    ipAccepted (buildIpHdr ⟨#v[10, 0, 0, 2], #v[10, 0, 0, 1]⟩ 60 ipUdp [] 29 ++
      (buildUdpHdr ⟨#v[10, 0, 0, 2], #v[10, 0, 0, 1]⟩ 2001 69 29 [0x61] ++ [])) ∧
    udpAccepted ⟨#v[10, 0, 0, 2], #v[10, 0, 0, 1]⟩
      (buildUdpHdr ⟨#v[10, 0, 0, 2], #v[10, 0, 0, 1]⟩ 2001 69 29 [0x61] ++ []) :=
  accepted_build _ 60 2001 69 [0x61] [] (by decide)

end Packets

end Cromwell.Etherboot

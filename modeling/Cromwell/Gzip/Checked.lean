import Cromwell.Gzip.Gunzip

/-!
# What the trailer checks

Whatever the input is, the register holds the code of what has been written, and
`bytes_out` its length. No part of the decompressor but `flush_window` changes any of
the three, so a run that returns has written bytes with the code and the length that
the last eight bytes it read say.
-/

namespace Cromwell.Gzip

open Cromwell.Std

/-- The input is the one that was handed over, and the register and `bytes_out` belong to
the output. -/
structure Accounted (data : Nat → Byte) (len : Nat) (s : State) : Prop where
  inputData : s.inputData = data
  inputLen : s.inputLen = len
  insize : s.insize = len
  positive : 0 < len
  inptr : s.inptr ≤ len
  table : TableMade s.crc32Tab
  crc : s.crc = crcOf s.output
  bytesOut : s.bytesOut = s.output.length % 2 ^ 32

/-- A change of other variables. -/
theorem Accounted.congr {data : Nat → Byte} {len : Nat} {s s' : State}
    (accounted : Accounted data len s) (inputData : s'.inputData = s.inputData)
    (inputLen : s'.inputLen = s.inputLen) (insize : s'.insize = s.insize)
    (inptr : s'.inptr ≤ s.inptr) (table : s'.crc32Tab = s.crc32Tab) (crc : s'.crc = s.crc)
    (output : s'.output = s.output) (bytesOut : s'.bytesOut = s.bytesOut) :
    Accounted data len s' where
  inputData := inputData.trans accounted.inputData
  inputLen := inputLen.trans accounted.inputLen
  insize := insize.trans accounted.insize
  positive := accounted.positive
  inptr := Nat.le_trans inptr accounted.inptr
  table := table ▸ accounted.table
  crc := by rw [crc, output, accounted.crc]
  bytesOut := by rw [bytesOut, output, accounted.bytesOut]

section Parts

variable {data : Nat → Byte} {len : Nat}

open Program

/-- `error` halts, and reads nothing any more. -/
theorem stable_error {α : Type} : Stable (Accounted data len) (error : Program State α) :=
  Stable.stuck

/-- A byte of the input moves the place on by one; behind the last one the run halts. -/
theorem stable_getByte : Stable (Accounted data len) getByte := by
  intro s accounted
  unfold getByte
  rw [ensures_bind, ensures_look]
  split
  · next more =>
    have inside : s.inptr < s.insize := of_decide_eq_true more
    have bound : s.inptr + 1 ≤ len := by
      rw [← accounted.insize]
      exact inside
    exact { accounted with inptr := bound }
  · unfold fillInbuf
    rw [ensures_bind, ensures_look]
    have started : s.insize ≠ 0 := by
      rw [accounted.insize]
      exact Nat.ne_of_gt accounted.positive
    rw [if_pos started]
    exact accounted

-- A program on given data is not run where only its parts matter.
attribute [local irreducible] Program.Ensures

/-- Bits are filled up from bytes of the input. -/
theorem stable_needBits (n : Nat) : Stable (Accounted data len) (needBits n) := by
  apply Stable.loop
  intro _
  apply Stable.bind (Stable.look _)
  intro k
  apply Stable.ite
  · apply Stable.bind stable_getByte
    intro byte
    apply Stable.bind
    · exact Stable.alter fun s held => { held with }
    · exact fun _ => Stable.pure _
  · exact Stable.pure _

/-- Bits are dropped from the bit buffer only. -/
theorem stable_dumpBits (n : Nat) : Stable (Accounted data len) (dumpBits n) :=
  Stable.alter fun _ held => { held with }

/-- Bits are read as they are needed and dropped. -/
theorem stable_takeBits (n : Nat) : Stable (Accounted data len) (takeBits n) := by
  apply Stable.bind (stable_needBits n)
  intro _
  apply Stable.bind (Stable.look _)
  intro value
  apply Stable.bind (stable_dumpBits n)
  exact fun _ => Stable.pure _

/-- The window goes to the output, its bytes into the register. -/
theorem stable_flushWindow : Stable (Accounted data len) flushWindow := by
  apply Stable.alter
  intro s held
  refine { held with crc := ?_, bytesOut := ?_ }
  · dsimp only
    rw [held.table.foldl, held.crc, crcOf, crcOf, List.flatMap_append, crcBits_append]
  · dsimp only
    rw [held.bytesOut, List.length_append, Memory.length_bytes, Nat.mod_add_mod]

/-- A full window is written, and the checksum goes on over all of it. -/
theorem stable_flushFull : Stable (Accounted data len) flushFull := by
  apply Stable.bind (Stable.look _)
  intro w
  apply Stable.ite
  · exact stable_flushWindow
  · exact Stable.pure _

/-- A byte goes to the window, which is written when it is full. -/
theorem stable_putByte (byte : Byte) : Stable (Accounted data len) (putByte byte) := by
  apply Stable.bind
  · exact Stable.alter fun _ held => { held with }
  · exact fun _ => stable_flushFull

/-- The tables are followed by the bits read. -/
theorem stable_lookUp (fuel table bits : Nat) :
    Stable (Accounted data len) (lookUp fuel table bits) := by
  apply Stable.bind (stable_needBits bits)
  intro _
  apply Stable.bind (Stable.look _)
  intro index
  apply Stable.bind (Stable.look _)
  intro entry
  apply Stable.loop
  intro t
  apply Stable.ite
  · apply Stable.ite
    · exact Stable.pure _
    · apply Stable.bind (stable_dumpBits _)
      intro _
      apply Stable.bind (stable_needBits _)
      intro _
      apply Stable.bind (Stable.look _)
      intro index
      apply Stable.bind (Stable.look _)
      exact fun _ => Stable.pure _
  · exact Stable.pure _

/-- A copy goes through the window byte by byte. -/
theorem stable_copyBytes (fuel n d : Nat) : Stable (Accounted data len) (copyBytes fuel n d) := by
  apply Stable.loop
  intro copy
  apply Stable.bind (Stable.look _)
  intro w
  apply Stable.bind
  · exact Stable.alter fun _ held => { held with }
  intro _
  apply Stable.bind stable_flushFull
  intro _
  apply Stable.ite
  · exact Stable.pure _
  · exact Stable.pure _

/-- Literals and copies go to the window, until the end of the block or an unknown code. -/
theorem stable_inflateCodes (fuel tl td bl bd : Nat) :
    Stable (Accounted data len) (inflateCodes fuel tl td bl bd) := by
  apply Stable.loop
  intro _
  apply Stable.bind (stable_lookUp fuel tl bl)
  intro found
  cases found with
  | none => exact Stable.pure _
  | some t =>
      apply Stable.bind (stable_dumpBits _)
      intro _
      apply Stable.ite
      · apply Stable.bind (stable_putByte _)
        exact fun _ => Stable.pure _
      apply Stable.ite
      · exact Stable.pure _
      apply Stable.bind (stable_takeBits _)
      intro extra
      apply Stable.bind (stable_lookUp fuel td bd)
      intro found
      cases found with
      | none => exact Stable.pure _
      | some t' =>
          apply Stable.bind (stable_dumpBits _)
          intro _
          apply Stable.bind (stable_needBits _)
          intro _
          apply Stable.bind (Stable.look _)
          intro extra'
          apply Stable.bind (Stable.look _)
          intro w
          apply Stable.bind (stable_dumpBits _)
          intro _
          apply Stable.bind (stable_copyBytes _ _ _)
          exact fun _ => Stable.pure _

/-- Stored bytes are read and put one by one. -/
theorem stable_storedBytes (n : Nat) : Stable (Accounted data len) (storedBytes n) := by
  induction n with
  | zero => exact Stable.pure _
  | succ n ih =>
      apply Stable.bind (stable_needBits 8)
      intro _
      apply Stable.bind (Stable.look _)
      intro byte
      apply Stable.bind (stable_putByte _)
      intro _
      apply Stable.bind (stable_dumpBits 8)
      exact fun _ => ih

/-- A stored block checks its length before its bytes. -/
theorem stable_inflateStored : Stable (Accounted data len) inflateStored := by
  unfold inflateStored
  apply Stable.bind (Stable.look _)
  intro k
  apply Stable.bind (stable_dumpBits _)
  intro _
  apply Stable.bind (stable_needBits 16)
  intro _
  apply Stable.bind (Stable.look _)
  intro n
  apply Stable.bind (stable_dumpBits 16)
  intro _
  apply Stable.bind (stable_needBits 16)
  intro _
  apply Stable.bind (Stable.look _)
  intro complement
  apply Stable.ite
  · exact Stable.pure _
  · apply Stable.bind (stable_dumpBits 16)
    intro _
    apply Stable.bind (stable_storedBytes n)
    exact fun _ => Stable.pure _

/-! ## The tables -/

/-- Memory for tables is taken from the heap of the decompressor, apart from window and input. -/
theorem stable_gzipMalloc (size : Nat) : Stable (Accounted data len) (gzipMalloc size) := by
  apply Stable.bind (Stable.look _)
  intro ptr
  apply Stable.ite
  · exact stable_error
  · apply Stable.bind (Stable.look _)
    intro p
    apply Stable.bind
    · exact Stable.alter fun _ held => { held with }
    intro _
    apply Stable.bind (Stable.look _)
    intro full
    apply Stable.ite
    · exact stable_error
    · exact Stable.pure _

/-- Tables are apart from window and input. -/
theorem stable_putTable (q : Nat) (entries : Nat → Huft) :
    Stable (Accounted data len) (putTable q entries) :=
  Stable.alter fun _ held => { held with }

/-- A new table takes memory and writes tables only. -/
theorem stable_openTable (plan : Plan) (k a : Nat) (builder : Builder) :
    Stable (Accounted data len) (openTable plan k a builder) := by
  apply Stable.bind (stable_gzipMalloc _)
  intro p
  dsimp only
  split
  · exact Stable.pure _
  · apply Stable.bind (Stable.look _)
    intro entries
    apply Stable.bind (stable_putTable _ _)
    exact fun _ => Stable.pure _

/-- So do the tables of one code. -/
theorem stable_makeTables (plan : Plan) (k a passes : Nat) (builder : Builder) :
    Stable (Accounted data len) (makeTables plan k a passes builder) := by
  induction passes generalizing builder with
  | zero => exact Stable.pure _
  | succ passes ih =>
      apply Stable.ite
      · apply Stable.bind (stable_openTable _ _ _ _)
        exact fun builder => ih builder
      · exact Stable.pure _

/-- So do those of all codes of one length. -/
theorem stable_eachCode (plan : Plan) (k a : Nat) (builder : Builder) :
    Stable (Accounted data len) (eachCode plan k a builder) := by
  induction a generalizing builder with
  | zero => exact Stable.pure _
  | succ a ih =>
      apply Stable.bind
      · apply Stable.bind (stable_makeTables _ _ _ _ _)
        intro builder
        apply Stable.bind (Stable.look _)
        intro entries
        apply Stable.bind (stable_putTable _ _)
        exact fun _ => Stable.pure _
      · exact fun builder => ih builder

/-- So do those of all lengths. -/
theorem stable_eachLength (plan : Plan) (passes k : Nat) (builder : Builder) :
    Stable (Accounted data len) (eachLength plan passes k builder) := by
  induction passes generalizing k builder with
  | zero => exact Stable.pure _
  | succ passes ih =>
      apply Stable.bind (stable_eachCode _ _ _ _)
      exact fun builder => ih _ builder

/-- The tables are made without input or output. -/
theorem stable_huftBuild (b : List Nat) (s : Nat) (d e : List Nat) (m : Nat) :
    Stable (Accounted data len) (huftBuild b s d e m) := by
  apply Stable.bind (Stable.look _)
  intro found
  apply Stable.bind
  · exact Stable.alter fun _ held => { held with }
  intro _
  apply Stable.ite
  · exact Stable.pure _
  · dsimp only
    split
    · exact Stable.pure _
    · apply Stable.bind (stable_eachLength _ _ _ _)
      exact fun _ => Stable.pure _

/-! ## Blocks -/

/-- A fixed block makes its tables and decodes. -/
theorem stable_inflateFixed (fuel : Nat) : Stable (Accounted data len) (inflateFixed fuel) := by
  unfold inflateFixed
  apply Stable.bind (stable_huftBuild _ _ _ _ _)
  intro literals
  apply Stable.ite
  · exact Stable.pure _
  apply Stable.bind (stable_huftBuild _ _ _ _ _)
  intro distances
  apply Stable.ite
  · exact Stable.pure _
  apply Stable.bind (stable_inflateCodes _ _ _ _ _)
  intro result
  apply Stable.ite
  · exact Stable.pure _
  · exact Stable.pure _

/-- The lengths of the length codes are read from the input. -/
theorem stable_readBorder (nb : Nat) (border : List Nat) (ll : Nat → Nat) :
    Stable (Accounted data len) (readBorder nb border ll) := by
  induction border generalizing nb ll with
  | nil =>
      rw [readBorder.eq_def]
      exact Stable.pure _
  | cons j border ih =>
      cases nb with
      | zero => exact ih _ _
      | succ nb =>
          apply Stable.bind (stable_takeBits 3)
          exact fun _ => ih _ _

/-- A length, or a run of them, is decoded from the input. -/
theorem stable_readLengthsPass (n tl bl : Nat) (lengths : Lengths) :
    Stable (Accounted data len) (readLengthsPass n tl bl lengths) := by
  have repeated : ∀ (width least : Nat) (next : Nat → Lengths),
      Stable (Accounted data len) (do
        let extra ← takeBits width
        if lengths.i + (least + extra) > n then return .leave none
        else return .next (next (least + extra)) :
          Program State (Pass Lengths (Option (Nat → Nat)))) := by
    intro width least next
    apply Stable.bind (stable_takeBits width)
    intro extra
    apply Stable.ite
    · exact Stable.pure _
    · exact Stable.pure _
  apply Stable.ite
  · apply Stable.bind (stable_needBits bl)
    intro _
    apply Stable.bind (Stable.look _)
    intro index
    apply Stable.bind (Stable.look _)
    intro td
    apply Stable.bind (stable_dumpBits _)
    intro _
    apply Stable.ite
    · exact Stable.pure _
    apply Stable.ite
    · exact repeated 2 3 fun j => repeatLength lengths.l j lengths
    apply Stable.ite
    · exact repeated 3 3 fun j => { repeatLength 0 j lengths with l := 0 }
    · exact repeated 7 11 fun j => { repeatLength 0 j lengths with l := 0 }
  · exact Stable.pure _

/-- The tables of a dynamic block are made without input or output. -/
theorem stable_buildTrees (ll : Nat → Nat) (nl nd : Nat) :
    Stable (Accounted data len) (buildTrees ll nl nd) := by
  apply Stable.bind (stable_huftBuild _ _ _ _ _)
  intro literals
  apply Stable.ite
  · apply Stable.ite
    · exact stable_error
    · exact Stable.pure _
  apply Stable.bind (stable_huftBuild _ _ _ _ _)
  intro distances
  apply Stable.ite
  · apply Stable.ite
    · exact stable_error
    · exact Stable.pure _
  · exact Stable.pure _

/-- A dynamic block reads its lengths, makes its tables and decodes. -/
theorem stable_inflateDynamic (fuel : Nat) :
    Stable (Accounted data len) (inflateDynamic fuel) := by
  apply Stable.bind (stable_takeBits 5)
  intro nl
  apply Stable.bind (stable_takeBits 5)
  intro nd
  apply Stable.bind (stable_takeBits 4)
  intro nb
  apply Stable.ite
  · exact Stable.pure _
  apply Stable.bind (stable_readBorder _ _ _)
  intro ll
  apply Stable.bind (stable_huftBuild _ _ _ _ _)
  intro tree
  apply Stable.ite
  · exact Stable.pure _
  apply Stable.bind
  · exact Stable.loop (fun lengths => stable_readLengthsPass _ _ _ lengths) _ _
  intro read
  cases read with
  | none => exact Stable.pure _
  | some ll =>
      apply Stable.bind (stable_buildTrees _ _ _)
      intro built
      cases built with
      | error result => exact Stable.pure _
      | ok trees =>
          apply Stable.bind (stable_inflateCodes _ _ _ _ _)
          intro result
          apply Stable.ite
          · exact Stable.pure _
          · exact Stable.pure _

/-- A block is of one of three kinds, or refused. -/
theorem stable_inflateBlock (fuel : Nat) : Stable (Accounted data len) (inflateBlock fuel) := by
  apply Stable.bind (stable_takeBits 1)
  intro e
  apply Stable.bind (stable_takeBits 2)
  intro t
  apply Stable.ite
  · apply Stable.bind (stable_inflateDynamic fuel)
    exact fun _ => Stable.pure _
  apply Stable.ite
  · apply Stable.bind stable_inflateStored
    exact fun _ => Stable.pure _
  apply Stable.ite
  · apply Stable.bind (stable_inflateFixed fuel)
    exact fun _ => Stable.pure _
  · exact Stable.pure _

/-- Blocks follow each other up to the last one, behind which whole bytes are given back. -/
theorem stable_inflate (fuel : Nat) : Stable (Accounted data len) (inflate fuel) := by
  apply Stable.bind
  · exact Stable.alter fun _ held => { held with }
  intro _
  apply Stable.bind
  · apply Stable.loop
    intro _
    apply Stable.bind (Stable.look _)
    intro ptr
    apply Stable.bind (stable_inflateBlock fuel)
    intro ended
    apply Stable.bind
    · exact Stable.alter fun _ held => { held with }
    intro _
    apply Stable.ite
    · exact Stable.pure _
    apply Stable.ite
    · exact Stable.pure _
    · exact Stable.pure _
  intro r
  apply Stable.ite
  · exact Stable.pure _
  apply Stable.bind
  · apply Stable.loop
    intro _
    apply Stable.bind (Stable.look _)
    intro k
    apply Stable.ite
    · apply Stable.bind
      · exact Stable.alter fun _ held =>
          { held with inptr := Nat.le_trans (Nat.sub_le _ _) held.inptr }
      · exact fun _ => Stable.pure _
    · exact Stable.pure _
  intro _
  apply Stable.bind stable_flushWindow
  exact fun _ => Stable.pure _

/-- Bytes of the header are skipped one by one. -/
theorem stable_skipBytes (count : Nat) : Stable (Accounted data len) (skipBytes count) := by
  induction count with
  | zero => exact Stable.pure _
  | succ count ih =>
      apply Stable.bind stable_getByte
      exact fun _ => ih

/-- A name is skipped up to its zero. -/
theorem stable_skipName (fuel flags flag : Nat) :
    Stable (Accounted data len) (skipName fuel flags flag) := by
  apply Stable.ite
  · apply Stable.loop
    intro _
    apply Stable.bind stable_getByte
    intro byte
    apply Stable.ite
    · exact Stable.pure _
    · exact Stable.pure _
  · exact Stable.pure _

/-- The fields of the header are skipped as the flags say. -/
theorem stable_gunzipFields (fuel flags : Nat) :
    Stable (Accounted data len) (gunzipFields fuel flags) := by
  apply Stable.bind (stable_skipBytes 6)
  intro _
  apply Stable.bind
  · apply Stable.ite
    · apply Stable.bind
      · apply Stable.bind stable_getByte
        intro low
        apply Stable.bind stable_getByte
        exact fun _ => Stable.pure _
      · exact fun length => stable_skipBytes length
    · exact Stable.pure _
  intro _
  apply Stable.bind (stable_skipName _ _ _)
  exact fun _ => stable_skipName _ _ _

end Parts

/-! ## The header and the trailer -/

section Trailer

open Program

/-- Four bytes make the word that stands there. -/
theorem or_eq_dword (data : Memory) (place : Nat) :
    (data place).toNat ||| (data (place + 1)).toNat <<< 8 ||| (data (place + 2)).toNat <<< 16 |||
      (data (place + 3)).toNat <<< 24 = data.dword place := by
  have first := (data place).toNat_lt
  have second := (data (place + 1)).toNat_lt
  have third := (data (place + 2)).toNat_lt
  have fourth := (data (place + 3)).toNat_lt
  have two : (data place).toNat ||| (data (place + 1)).toNat <<< 8 =
      (data (place + 1)).toNat * 2 ^ 8 + (data place).toNat := by
    rw [Nat.lor_comm, ← Nat.shiftLeft_add_eq_or_of_lt first, Nat.shiftLeft_eq]
  have three : (data (place + 1)).toNat * 2 ^ 8 + (data place).toNat |||
      (data (place + 2)).toNat <<< 16 =
      (data (place + 2)).toNat * 2 ^ 16 +
        ((data (place + 1)).toNat * 2 ^ 8 + (data place).toNat) := by
    rw [Nat.lor_comm, ← Nat.shiftLeft_add_eq_or_of_lt (by omega), Nat.shiftLeft_eq]
  rw [two, three, Nat.lor_comm, ← Nat.shiftLeft_add_eq_or_of_lt (by omega), Nat.shiftLeft_eq,
    Memory.dword]
  omega

variable {data : Nat → Byte} {len : Nat} {s : State}

/-- Once the input has been opened, a byte is the next one, or there is none. -/
theorem getByte_next (accounted : Accounted data len s) :
    getByte.Ensures s (fun _ => True) fun byte after =>
      byte = data s.inptr ∧ after.inptr = s.inptr + 1 ∧ after.crc = s.crc ∧
        after.bytesOut = s.bytesOut ∧ Accounted data len after := by
  have kept := stable_getByte s accounted
  revert kept
  unfold getByte
  simp only [ensures_bind, ensures_look]
  split
  · intro kept
    exact ⟨congrFun accounted.inputData s.inptr, rfl, rfl, rfl, kept⟩
  · intro _
    have started : s.insize ≠ 0 := by
      rw [accounted.insize]
      exact Nat.ne_of_gt accounted.positive
    unfold fillInbuf
    rw [ensures_bind, ensures_look, if_pos started]
    trivial

/-- Four bytes are the next word. -/
theorem getLong_next (accounted : Accounted data len s) :
    getLong.Ensures s (fun _ => True) fun word after =>
      word = Memory.dword data s.inptr ∧ after.inptr = s.inptr + 4 ∧ after.crc = s.crc ∧
        after.bytesOut = s.bytesOut ∧ Accounted data len after := by
  apply (getByte_next accounted).andThen
  rintro _ s₁ ⟨rfl, place₁, crc₁, bytesOut₁, accounted₁⟩
  apply (getByte_next accounted₁).andThen
  rintro _ s₂ ⟨rfl, place₂, crc₂, bytesOut₂, accounted₂⟩
  apply (getByte_next accounted₂).andThen
  rintro _ s₃ ⟨rfl, place₃, crc₃, bytesOut₃, accounted₃⟩
  apply (getByte_next accounted₃).andThen
  rintro _ s₄ ⟨rfl, place₄, crc₄, bytesOut₄, accounted₄⟩
  rw [ensures_pure]
  have second : s₁.inptr = s.inptr + 1 := place₁
  have third : s₂.inptr = s.inptr + 2 := by omega
  have fourth : s₃.inptr = s.inptr + 3 := by omega
  refine ⟨?_, by omega, ?_, ?_, accounted₄⟩
  · rw [second, third, fourth]
    exact or_eq_dword data s.inptr
  · rw [crc₄, crc₃, crc₂, crc₁]
  · rw [bytesOut₄, bytesOut₃, bytesOut₂, bytesOut₁]

/-- The state at the start of `gunzip`. -/
structure Opened (data : Nat → Byte) (len : Nat) (s : State) : Prop where
  inputData : s.inputData = data
  inputLen : s.inputLen = len
  insize : s.insize = 0
  inptr : s.inptr = 0
  table : TableMade s.crc32Tab
  crc : s.crc = 0xffffffff#32
  output : s.output = []
  bytesOut : s.bytesOut = 0

/-- Before the input is opened, a byte is the first one, and opens it. -/
theorem getByte_first {cut : State → Prop} (closed : s.insize = 0) :
    getByte.Ensures s cut fun byte after =>
      byte = s.inputData 0 ∧ after = { s with insize := s.inputLen, inptr := 1 } := by
  unfold getByte
  rw [ensures_bind, ensures_look]
  split
  · next more =>
    have inside : s.inptr < s.insize := of_decide_eq_true more
    omega
  · unfold fillInbuf
    rw [ensures_bind, ensures_look, if_neg (not_not.mpr closed)]
    exact ⟨rfl, rfl⟩

/-- The first byte opens the input. Where that is empty, `fill_inbuf` hands out the same
byte again and again, and the magic numbers are not there. -/
theorem gunzipFlags_accounted (opened : Opened data len s) :
    gunzipFlags.Ensures s (fun _ => True) fun _ after => Accounted data len after := by
  unfold gunzipFlags
  apply (getByte_first opened.insize).andThen
  rintro magic0 s₁ ⟨rfl, rfl⟩
  by_cases empty : len = 0
  · have closed : s.inputLen = 0 := opened.inputLen.trans empty
    apply (getByte_first closed).andThen
    rintro magic1 s₂ ⟨rfl, -⟩
    apply (ensures_true getByte s₂).andThen
    intro method s₃ _
    have wrong : s.inputData 0 ≠ 0o37 ∨
        (s.inputData 0 ≠ 0o213 ∧ s.inputData 0 ≠ 0o236) := by
      by_cases magic : s.inputData 0 = 0o37
      · rw [magic]
        decide
      · exact .inl magic
    rw [if_pos wrong]
    trivial
  · have accounted : Accounted data len { s with insize := s.inputLen, inptr := 1 } :=
      { inputData := opened.inputData
        inputLen := opened.inputLen
        insize := opened.inputLen
        positive := Nat.pos_of_ne_zero empty
        inptr := Nat.pos_of_ne_zero empty
        table := opened.table
        crc := by
          dsimp only
          rw [opened.crc, opened.output]
          rfl
        bytesOut := by
          dsimp only
          rw [opened.bytesOut, opened.output]
          rfl }
    refine Ensures.mono (Stable.bind stable_getByte (fun magic1 => ?_) _ accounted)
      (fun _ _ => trivial) fun _ _ held => held
    apply Stable.bind stable_getByte
    intro method
    apply Stable.ite stable_error
    apply Stable.ite stable_error
    apply Stable.bind stable_getByte
    intro flags
    apply Stable.ite stable_error
    apply Stable.ite stable_error
    apply Stable.ite stable_error
    exact Stable.pure _

/-- A run of `gunzip` that returns has written what the trailer says. -/
theorem gunzip_checked {fuel : Nat} (inputData : s.inputData = data) (inputLen : s.inputLen = len)
    (table : TableMade s.crc32Tab) (crc : s.crc = 0xffffffff#32) :
    (gunzip fuel).Ensures s (fun _ => True) fun _ after =>
      Accounted data len after ∧ 8 ≤ after.inptr ∧
        (crcOf after.output ^^^ 0xffffffff#32).toNat = Memory.dword data (after.inptr - 8) ∧
        after.output.length % 2 ^ 32 = Memory.dword data (after.inptr - 4) := by
  unfold gunzip
  rw [ensures_bind, gzipReset, ensures_alter]
  have opened : Opened data len { s with
      insize := 0, inptr := 0, outcnt := 0, bytesOut := 0, output := [] } :=
    { inputData, inputLen, insize := rfl, inptr := rfl, table, crc, output := rfl, bytesOut := rfl }
  apply (gunzipFlags_accounted opened).andThen
  intro flags s₁ accounted₁
  apply ((stable_gunzipFields fuel flags _ accounted₁).mono (fun _ _ => trivial)
    fun _ _ held => held).andThen
  intro _ s₂ accounted₂
  apply ((stable_inflate fuel _ accounted₂).mono (fun _ _ => trivial)
    fun _ _ held => held).andThen
  intro result s₃ accounted₃
  rw [ensures_ite]
  refine ⟨fun _ => trivial, fun _ => ?_⟩
  apply (getLong_next accounted₃).andThen
  rintro origCrc s₄ ⟨rfl, place₄, crc₄, bytesOut₄, accounted₄⟩
  apply (getLong_next accounted₄).andThen
  rintro origLen s₅ ⟨rfl, place₅, crc₅, bytesOut₅, accounted₅⟩
  rw [ensures_bind, crcValue, ensures_look, ensures_ite]
  refine ⟨fun _ => trivial, fun sameCrc => ?_⟩
  rw [ensures_bind, ensures_look, ensures_ite]
  refine ⟨fun _ => trivial, fun sameLen => ?_⟩
  rw [ensures_pure]
  have trailer : s₅.inptr - 8 = s₃.inptr := by omega
  have length : s₅.inptr - 4 = s₄.inptr := by omega
  refine ⟨accounted₅, by omega, ?_, ?_⟩
  · rw [trailer, not_not.mp sameCrc, accounted₅.crc]
  · rw [length, not_not.mp sameLen, accounted₅.bytesOut]

/-- And so has a run of `decompress_kernel`. -/
theorem decompressKernel_accounted (fuel : Nat) :
    (decompressKernel fuel).Ensures s (fun _ => True) fun _ after =>
      Accounted s.inputData s.inputLen after ∧ 8 ≤ after.inptr ∧
        (crcOf after.output ^^^ 0xffffffff#32).toNat =
          Memory.dword s.inputData (after.inptr - 8) ∧
        after.output.length % 2 ^ 32 = Memory.dword s.inputData (after.inptr - 4) := by
  unfold decompressKernel makecrc
  rw [ensures_bind, ensures_alter, ensures_bind, ensures_alter]
  exact gunzip_checked rfl rfl (fun i small => makecrc_entry small) rfl

end Trailer

end Cromwell.Gzip

import Cromwell.Flash.Identification

/-!
# A chip left in identification mode

The 29xxx commands are nothing to a 28xxx chip, so one that identification has left showing
its IDs goes on showing them. The driver takes what it reads for the array: a region that
reads as erased passes for erased. A data byte that begins a 28xxx command of its own then
has the chip show its status, and a status that is the data passes for the data.
-/

namespace Cromwell.Flash

open Cromwell.Std FlashChip

variable {chip : FlashChip} {start : FlashDevice} {mode : FlashMode} {fuel : Nat}
  {pof : ObjectFlash} {dw : UInt32} {region : Region} {pba : Memory}
  {state : FlashState FlashDevice} {cut : FlashState FlashDevice → Prop}

/-- The chip shows its IDs, and nothing else has happened to it. -/
def Shows (start : FlashDevice) (state : FlashState FlashDevice) : Prop :=
  InMode start .ident state.flash

/-- In identification mode the region reads as erased. -/
def FlashChip.ReadsErased (chip : FlashChip) (region : Region) : Prop :=
  ∀ i < region.length, chip.idByte (region.start + i) = 0xff

/-! ## The 29xxx commands -/

section Commands

theorem readFlash_shows (shows : Shows start state) :
    (readFlash chip.bus dw).Ensures state cut fun b after =>
      Shows start after ∧ b = chip.idByte dw.toNat :=
  readFlash_ensures shows (.inr rfl)

theorem resetCommand_shows (is28xxx : chip.is28xxx = true) (shows : Shows start state) :
    (resetCommand chip.bus).Ensures state cut fun _ => Shows start := by
  rw [resetCommand, Program.ensures_bind, ensures_unlock_28xxx is28xxx (.inr rfl) shows.mode,
    ensures_writeFlash_other is28xxx (.inr rfl) shows.mode (by decide)]
  exact shows

theorem eraseCommand_shows {code : Byte} (is28xxx : chip.is28xxx = true) (shows : Shows start state)
    (other : code ≠ 0xff ∧ code ≠ 0x90 ∧ code ≠ 0x20 ∧ code ≠ 0x40) :
    (eraseCommand chip.bus dw code).Ensures state cut fun _ => Shows start := by
  rw [eraseCommand, Program.ensures_bind,
    ensures_unlock_28xxx is28xxx (.inr rfl) shows.mode, Program.ensures_bind,
    ensures_writeFlash_other is28xxx (.inr rfl) shows.mode (by decide), Program.ensures_bind,
    ensures_unlock_28xxx is28xxx (.inr rfl) shows.mode,
    ensures_writeFlash_other is28xxx (.inr rfl) shows.mode other]
  exact shows

theorem pollToggle_shows (shows : Shows start state) :
    (pollToggle chip.bus fuel dw).Ensures state (Shows start) fun _ => Shows start := by
  refine (readFlash_shows shows).andThen ?_
  rintro b after ⟨shows, -⟩
  refine Program.loop_ensures (fun _ _ current => Shows start current) (fun _ _ held => held) ?_
    shows
  intro _ locals current shows
  refine (readFlash_shows shows).andThen ?_
  rintro again next ⟨shows, -⟩
  split
  · exact shows
  · exact shows

theorem eraseBlock_shows (is28xxx : chip.is28xxx = true) (shows : Shows start state) :
    (eraseBlock chip.bus fuel dw).Ensures state (Shows start) fun _ => Shows start := by
  refine (eraseCommand_shows is28xxx shows (by decide)).andThen ?_
  intro _ erased shows
  refine (pollToggle_shows shows).andThen ?_
  intro dwCountTries polled shows
  split
  · refine (resetCommand_shows is28xxx shows).andThen ?_
    intro _ reset shows
    refine (eraseCommand_shows is28xxx shows (by decide)).andThen ?_
    intro _ again shows
    exact pollToggle_shows shows
  · exact shows

theorem erase29xxx_shows {nCountEraseRetryIn4KBlock : Int} (is28xxx : chip.is28xxx = true)
    (shows : Shows start state) :
    (erase29xxx chip.bus fuel pof dw nCountEraseRetryIn4KBlock).Ensures state (Shows start)
      fun _ => Shows start := by
  refine (eraseBlock_shows is28xxx shows).andThen ?_
  intro dwCountTries erased shows
  split
  · refine (resetCommand_shows is28xxx shows).andThen ?_
    intro _ reset shows
    refine (eraseCommand_shows is28xxx shows (by decide)).andThen ?_
    intro _ again shows
    refine (pollToggle_shows shows).andThen ?_
    intro _ polled shows
    exact shows
  · exact shows

theorem deliverError_shows {ee eeEnd : EnumEvents} {dwPos : UInt32} {dwExtent : Byte → UInt32}
    (shows : Shows start state) :
    (deliverError chip.bus pof dw ee eeEnd dwPos dwExtent).Ensures state cut
      fun _ => Shows start := by
  unfold deliverError
  cases pof.pcallbackFlash with
  | none => exact shows
  | some pcallbackFlash =>
      refine (readFlash_shows shows).andThen ?_
      rintro b read ⟨shows, -⟩
      refine deliver_ensures.andThen ?_
      intro _ reported same
      rw [Shows, ← same] at shows
      refine deliver_ensures.andThen ?_
      intro _ ended same
      rwa [← same] at shows

end Commands

/-! ## Erasing -/

section Erasing

/-- A round of erasing changes nothing, and is repeated until the tries run out. -/
theorem eraseRound_shows {locals : EraseLocals} (is28xxx : chip.is28xxx = true)
    (undetected : pof.fDetectedUsing28xxxConventions = false) (shows : Shows start state) :
    (eraseRound chip.bus fuel pof locals).Ensures state (Shows start) fun ended after =>
      Shows start after ∧ ended.Ends
        (fun next => next.dw = locals.dw ∧ next.dwLen = locals.dwLen) fun erased =>
          erased = false := by
  unfold eraseRound
  dsimp only
  rw [undetected]
  split
  · refine (deliverError_shows shows).andThen ?_
    intro _ reported shows
    refine (readFlash_shows shows).andThen ?_
    rintro b read ⟨shows, -⟩
    refine setErrorInfo_ensures.andThen ?_
    intro _ told same
    rw [Shows, ← same] at shows
    exact ⟨shows, rfl⟩
  · rw [if_neg Bool.false_ne_true]
    refine (erase29xxx_shows is28xxx shows).andThen ?_
    intro _ erased shows
    exact ⟨shows, locals.countRetry_dw, locals.countRetry_dwLen⟩

/-- The region in front of `dw` has read as erased. -/
def ErasedTo (chip : FlashChip) (region : Region) (dw : UInt32) : Prop :=
  ∀ address, region.start ≤ address → address < dw.toNat → chip.idByte address = 0xff

/-- A pass that goes on leaves the invariant, one that succeeds has read the whole region. -/
theorem erasePass_shows {locals : EraseLocals} (is28xxx : chip.is28xxx = true)
    (covers : Covers pof region) (undetected : pof.fDetectedUsing28xxxConventions = false)
    (shows : Shows start state) (left : Left region locals.dw locals.dwLen)
    (erased : ErasedTo chip region locals.dw) :
    (erasePass chip.bus fuel pof locals).Ensures state (Shows start) fun ended after =>
      ended.Ends
        (fun next => Shows start after ∧ Left region next.dw next.dwLen ∧
          ErasedTo chip region next.dw)
        fun result => Shows start after ∧ (result = true → chip.ReadsErased region) := by
  unfold erasePass
  split
  next finished =>
    refine ⟨shows, fun _ i inside => erased _ (Nat.le_add_right _ _) ?_⟩
    have total := left.left
    rw [finished, UInt32.toNat_zero] at total
    omega
  next more =>
    refine (readFlash_shows shows).andThen ?_
    rintro _ read ⟨shows, rfl⟩
    split
    next other =>
      refine (eraseRound_shows is28xxx undetected shows).mono (fun _ held => held) ?_
      rintro ended after ⟨shows, kept⟩
      cases ended with
      | next locals =>
          obtain ⟨dw, dwLen⟩ := kept
          refine ⟨shows, ?_, ?_⟩
          · rwa [dw, dwLen]
          · rwa [dw]
      | leave result =>
          refine ⟨shows, fun success => ?_⟩
          rw [show result = false from kept] at success
          cases success
    next same =>
      refine deliverUpdate_ensures.andThen ?_
      intro accepted told kept
      rw [Shows, ← kept] at shows
      cases accepted with
      | false => exact ⟨shows, nofun⟩
      | true =>
          refine ⟨shows, left.advance more covers.fits, fun address lower upper => ?_⟩
          obtain ⟨-, inside⟩ := left.contains more
          have fits := covers.fits
          have next : (locals.dw + 1).toNat = locals.dw.toNat + 1 := toNat_succ (by omega)
          dsimp only at upper
          rw [next] at upper
          rcases Nat.lt_succ_iff_lt_or_eq.mp upper with earlier | rfl
          · exact erased address lower earlier
          · exact not_not.mp same

theorem eraseLoop_shows (is28xxx : chip.is28xxx = true) (covers : Covers pof region)
    (undetected : pof.fDetectedUsing28xxxConventions = false) (shows : Shows start state) :
    (eraseLoop chip.bus fuel pof).Ensures state (Shows start) fun erased after =>
      Shows start after ∧ (erased = true → chip.ReadsErased region) := by
  refine Program.loop_ensures
    (fun _ locals current => Shows start current ∧ Left region locals.dw locals.dwLen ∧
      ErasedTo chip region locals.dw)
    (fun _ _ held => held.1) ?_ ⟨shows, covers.left, ?_⟩
  · rintro _ locals current ⟨shows, left, erased⟩
    exact erasePass_shows is28xxx covers undetected shows left erased
  · intro address lower upper
    have first := covers.start
    dsimp only at upper
    omega

/-- Erasing succeeds only where the region reads as erased. -/
theorem bootFlashEraseMinimalRegion_shows (is28xxx : chip.is28xxx = true)
    (covers : Covers pof region) (undetected : pof.fDetectedUsing28xxxConventions = false)
    (shows : Shows start state) :
    (bootFlashEraseMinimalRegion chip.bus fuel pof).Ensures state (Shows start)
      fun erased after => Shows start after ∧ (erased = true → chip.ReadsErased region) := by
  refine setErrorInfo_ensures.andThen ?_
  intro _ cleared same
  rw [Shows, ← same] at shows
  refine deliver_ensures.andThen ?_
  intro accepted started same
  rw [← same] at shows
  cases accepted with
  | false => exact ⟨shows, nofun⟩
  | true =>
      refine (eraseLoop_shows is28xxx covers undetected shows).andThen ?_
      rintro erased looped ⟨shows, passed⟩
      cases erased with
      | false => exact ⟨shows, nofun⟩
      | true =>
          refine deliver_ensures.mono (fun _ held => held) ?_
          intro _ ended same
          rw [Shows, ← same] at shows
          exact ⟨shows, fun _ => passed rfl⟩

/-- There is nothing to program or to verify in an empty region. -/
theorem bootFlashProgram_empty (empty : pof.dwLengthUsedArea = 0) :
    Program.Stable (Shows start) (bootFlashProgram chip.bus fuel pof pba) := by
  have programmed : Program.Stable (Shows start) (programLoop chip.bus fuel pof pba) := by
    intro state shows
    refine Program.loop_ensures (fun _ locals current => Shows start current ∧ locals.dwLen = 0)
      (fun _ _ held => held.1) ?_ ⟨shows, empty⟩
    rintro _ locals current ⟨shows, finished⟩
    rw [programPass, if_pos finished]
    exact shows
  have verified : Program.Stable (Shows start) (verifyLoop chip.bus fuel pof pba) := by
    intro state shows
    refine Program.loop_ensures (fun _ locals current => Shows start current ∧ locals.dwLen = 0)
      (fun _ _ held => held.1) ?_ ⟨shows, empty⟩
    rintro _ locals current ⟨shows, finished⟩
    rw [verifyPass, if_pos finished]
    exact shows
  have told (ee : EnumEvents) : Program.Stable (Shows start)
      (deliver pof ee 0 0 : Driver FlashDevice Bool) := by
    intro state shows
    refine deliver_ensures.mono (fun _ held => held) ?_
    intro _ after same
    rwa [Shows, same]
  have cleared (text : String) : Program.Stable (Shows start)
      (setErrorInfo text : Driver FlashDevice Unit) := fun _ shows => shows
  have verify : Program.Stable (Shows start) (bootFlashVerify chip.bus fuel pof pba) :=
    (told _).bind fun _ => .ite (verified.bind fun _ => .ite (told _) (.pure _)) (.pure _)
  refine (cleared _).bind fun _ => (told _).bind fun _ => .ite ?_ ?_
  · exact programmed.bind fun _ =>
      .ite ((told _).bind fun _ => .ite verify (.pure _)) (.pure _)
  · exact (cleared _).bind fun _ => .pure _

/-- So a pass writes nothing, and ends the reflash of an empty region only. -/
theorem reflashPass_shows (is28xxx : chip.is28xxx = true) (covers : Covers pof region)
    (undetected : pof.fDetectedUsing28xxxConventions = false)
    (sound : region.length ≠ 0 → ¬chip.ReadsErased region) (shows : Shows start state) :
    (reflashPass chip.bus fuel pof pba ()).Ensures state (Shows start) fun ended after =>
      Shows start after ∧ ended.Ends (fun _ => True) fun _ => region.length = 0 := by
  refine (bootFlashEraseMinimalRegion_shows is28xxx covers undetected shows).andThen ?_
  rintro erased after ⟨shows, passed⟩
  cases erased with
  | false => exact ⟨shows, trivial⟩
  | true =>
      have empty : region.length = 0 := by
        by_contra nonempty
        exact sound nonempty (passed rfl)
      have used : pof.dwLengthUsedArea = 0 := UInt32.toNat_inj.mp (covers.length.trans empty)
      refine Program.Ensures.andThen (bootFlashProgram_empty used after shows) ?_
      intro programmed after shows
      cases programmed with
      | false => exact ⟨shows, trivial⟩
      | true => exact ⟨shows, empty⟩

end Erasing

/-! ## The status for the data -/

section Status

/-- The chip waits for the second cycle of a 28xxx command, and nothing has happened to its
array. -/
def AwaitsSecond (start : FlashDevice) (state : FlashState FlashDevice) : Prop :=
  ∃ mode, (mode = .erase28xxx ∨ mode = .program28xxx) ∧ InMode start mode state.flash

/-- It shows its status. -/
theorem readFlash_awaits {data : Byte} (status : ∀ count, chip.statusByte count = data)
    (awaits : AwaitsSecond start state) :
    (readFlash chip.bus dw).Ensures state cut fun b after =>
      AwaitsSecond start after ∧ b = data := by
  obtain ⟨mode, setup, rfl, same, issued⟩ := awaits
  rcases setup with erase | program
  · refine ⟨⟨.erase28xxx, .inl rfl, ?_, same, issued⟩, ?_⟩
    · simp [FlashChip.bus, FlashChip.read, erase, FlashChip.afterRead]
    · simp [FlashChip.bus, FlashChip.read, FlashChip.value, erase, status]
  · refine ⟨⟨.program28xxx, .inr rfl, ?_, same, issued⟩, ?_⟩
    · simp [FlashChip.bus, FlashChip.read, program, FlashChip.afterRead]
    · simp [FlashChip.bus, FlashChip.read, FlashChip.value, program, status]

/-- A data byte that begins a 28xxx command. -/
theorem Shows.setup {data : Byte} {returned : Unit → FlashState FlashDevice → Prop}
    (is28xxx : chip.is28xxx = true) (setup : data = 0x20 ∨ data = 0x40)
    (shows : Shows start state)
    (after : ∀ waiting, AwaitsSecond start waiting → returned () waiting) :
    (writeFlash chip.bus dw data).Ensures state cut returned := by
  rcases setup with rfl | rfl
  · rw [ensures_writeFlash .erase28xxx
      (by simp [shows.mode, decode_28xxx is28xxx, decode28xxx])]
    exact after _ ⟨_, .inl rfl, shows.inMode _⟩
  · rw [ensures_writeFlash .program28xxx
      (by simp [shows.mode, decode_28xxx is28xxx, decode28xxx])]
    exact after _ ⟨_, .inr rfl, shows.inMode _⟩

/-- A status that stays the same ends the polling at once. -/
theorem pollToggle_awaits {data : Byte} (status : ∀ count, chip.statusByte count = data)
    (awaits : AwaitsSecond start state) :
    (pollToggle chip.bus (fuel + 1) dw).Ensures state cut fun _ => AwaitsSecond start := by
  refine (readFlash_awaits status awaits).andThen ?_
  rintro data after ⟨awaits, rfl⟩
  refine Program.loop_ensures (fun left locals current => left ≠ 0 ∧ locals.1 = data ∧
    AwaitsSecond start current) (fun _ _ held => absurd rfl held.1) ?_
    ⟨Nat.succ_ne_zero fuel, rfl, awaits⟩
  rintro left ⟨b, dwCountTries⟩ current ⟨-, same, awaits⟩
  refine (readFlash_awaits status awaits).andThen ?_
  rintro again next ⟨awaits, shown⟩
  dsimp only at same ⊢
  rw [same, shown, if_neg (not_not.mpr rfl)]
  exact awaits

/-- The callback of `BootReflashAndReset` never aborts. -/
theorem deliver_accepts {ee : EnumEvents} {dwPos dwExtent : UInt32}
    (callback : pof.pcallbackFlash = some bootFlashUserInterface) :
    (deliver pof ee dwPos dwExtent).Ensures state cut
      fun accepted after => accepted = true ∧ after.flash = state.flash := by
  unfold deliver
  rw [callback]
  exact ⟨rfl, rfl⟩

theorem deliverUpdate_accepts {ee : EnumEvents} {dwPos : UInt32} {aborted : String}
    (callback : pof.pcallbackFlash = some bootFlashUserInterface) :
    (deliverUpdate pof dw ee dwPos aborted).Ensures state cut
      fun accepted after => accepted = true ∧ after.flash = state.flash := by
  unfold deliverUpdate
  split
  · refine (deliver_accepts callback).andThen ?_
    rintro accepted after ⟨rfl, same⟩
    exact ⟨rfl, same⟩
  · exact ⟨rfl, rfl⟩

/-- A region that reads as erased is passed over. -/
theorem eraseLoop_passes (covers : Covers pof region)
    (callback : pof.pcallbackFlash = some bootFlashUserInterface)
    (erased : chip.ReadsErased region) (enough : region.length < fuel) (shows : Shows start state) :
    (eraseLoop chip.bus fuel pof).Ensures state cut
      fun erased after => erased = true ∧ Shows start after := by
  refine Program.loop_ensures
    (fun passes locals current => Shows start current ∧ Left region locals.dw locals.dwLen ∧
      locals.dwLen.toNat < passes)
    (fun _ _ held => absurd held.2.2 (Nat.not_lt_zero _)) ?_ ⟨shows, covers.left, ?_⟩
  · rintro passes locals current ⟨shows, left, bounded⟩
    unfold erasePass
    split
    · exact ⟨rfl, shows⟩
    next more =>
      refine (readFlash_shows shows).andThen ?_
      rintro _ read ⟨shows, rfl⟩
      obtain ⟨lower, upper⟩ := left.contains more
      have passed := erased (locals.dw.toNat - region.start) (by omega)
      rw [Nat.add_sub_cancel' lower] at passed
      rw [if_neg (not_not.mpr passed)]
      refine (deliverUpdate_accepts callback).andThen ?_
      rintro accepted told ⟨rfl, same⟩
      rw [Shows, ← same] at shows
      have total := left.left
      refine ⟨shows, left.advance more covers.fits, ?_⟩
      dsimp only at bounded ⊢
      rw [toNat_pred more]
      omega
  · dsimp only
    rw [covers.length]
    exact enough

/-- The first data byte has the chip wait, and its status then passes for every byte. -/
theorem programRound_awaits {data : Byte} {locals : ProgramLocals} (is28xxx : chip.is28xxx = true)
    (setup : data = 0x20 ∨ data = 0x40) (status : ∀ count, chip.statusByte count = data)
    (undetected : pof.fDetectedUsing28xxxConventions = false)
    (fresh : locals.nCountProgramRetries = 4) (shows : Shows start state) :
    (programRound chip.bus (fuel + 1) pof (fun _ => data) locals).Ensures state cut
      fun ended after => AwaitsSecond start after ∧ ended.Ends
        (fun next => next.dw = locals.dw ∧ next.dwLen = locals.dwLen) fun _ => False := by
  have tries : ¬locals.countRetry.nCountProgramRetries = 0 := by
    unfold ProgramLocals.countRetry
    split
    · simp [fresh]
    · simp
  unfold programRound
  dsimp only
  rw [if_neg tries, undetected, if_neg Bool.false_ne_true, Program.ensures_bind, program29xxx,
    Program.ensures_bind, ensures_unlock_28xxx is28xxx (.inr rfl) shows.mode, Program.ensures_bind,
    ensures_writeFlash_other is28xxx (.inr rfl) shows.mode (by decide), Program.ensures_bind]
  refine shows.setup is28xxx setup fun waiting awaits => ?_
  refine (pollToggle_awaits status awaits).andThen ?_
  intro _ polled awaits
  exact ⟨awaits, locals.countRetry_dw, locals.countRetry_dwLen⟩

/-- The pass for the first byte has the chip wait. -/
theorem programPass_first {data : Byte} {locals : ProgramLocals} (is28xxx : chip.is28xxx = true)
    (setup : data = 0x20 ∨ data = 0x40) (status : ∀ count, chip.statusByte count = data)
    (undetected : pof.fDetectedUsing28xxxConventions = false) (more : locals.dwLen ≠ 0)
    (erased : chip.idByte locals.dw.toNat = 0xff) (fresh : locals.nCountProgramRetries = 4)
    (shows : Shows start state) :
    (programPass chip.bus (fuel + 1) pof (fun _ => data) locals).Ensures state cut
      fun ended after => AwaitsSecond start after ∧ ended.Ends
        (fun next => next.dw = locals.dw ∧ next.dwLen = locals.dwLen) fun _ => False := by
  unfold programPass
  rw [if_neg more]
  refine (readFlash_shows shows).andThen ?_
  rintro _ read ⟨shows, rfl⟩
  have differs : chip.idByte locals.dw.toNat ≠ data := by
    rw [erased]
    rcases setup with rfl | rfl
    · decide
    · decide
  rw [if_pos differs]
  exact programRound_awaits is28xxx setup status undetected fresh shows

/-- A chip that waits passes every byte, each pass coming nearer to the end. -/
theorem programPass_awaits {data : Byte} {locals : ProgramLocals}
    (status : ∀ count, chip.statusByte count = data) (covers : Covers pof region)
    (callback : pof.pcallbackFlash = some bootFlashUserInterface)
    (left : Left region locals.dw locals.dwLen) (awaits : AwaitsSecond start state) :
    (programPass chip.bus fuel pof (fun _ => data) locals).Ensures state cut
      fun ended after => AwaitsSecond start after ∧ ended.Ends
        (fun next => Left region next.dw next.dwLen ∧ next.dwLen.toNat < locals.dwLen.toNat)
        fun programmed => programmed = true := by
  unfold programPass
  split
  · exact ⟨awaits, rfl⟩
  next more =>
    refine (readFlash_awaits status awaits).andThen ?_
    rintro b read ⟨awaits, shown⟩
    rw [if_neg (not_not.mpr shown)]
    refine (deliverUpdate_accepts callback).andThen ?_
    rintro accepted told ⟨rfl, same⟩
    have positive : locals.dwLen.toNat ≠ 0 := fun zero => more (UInt32.toNat_inj.mp zero)
    refine ⟨?_, left.advance more covers.fits, ?_⟩
    · obtain ⟨mode, waiting, held⟩ := awaits
      exact ⟨mode, waiting, by rwa [same]⟩
    · dsimp only
      rw [toNat_pred more]
      omega

theorem programLoop_awaits {data : Byte} (is28xxx : chip.is28xxx = true)
    (setup : data = 0x20 ∨ data = 0x40) (status : ∀ count, chip.statusByte count = data)
    (covers : Covers pof region) (callback : pof.pcallbackFlash = some bootFlashUserInterface)
    (undetected : pof.fDetectedUsing28xxxConventions = false) (nonempty : region.length ≠ 0)
    (erased : chip.ReadsErased region) (enough : region.length + 1 < fuel)
    (shows : Shows start state) :
    (programLoop chip.bus fuel pof fun _ => data).Ensures state cut
      fun programmed after => programmed = true ∧ AwaitsSecond start after := by
  obtain ⟨passes, rfl⟩ := Nat.exists_eq_succ_of_ne_zero (Nat.ne_zero_of_lt enough)
  have first := covers.left
  have something : pof.dwLengthUsedArea ≠ 0 := by
    intro none
    rw [← covers.length, none] at nonempty
    exact nonempty rfl
  have reads := erased 0 (Nat.pos_of_ne_zero nonempty)
  rw [Nat.add_zero, ← covers.start] at reads
  -- The first byte is programmed before the chip waits.
  refine Program.loop_ensures
    (fun left locals current =>
      (left = passes + 1 ∧ Shows start current ∧ locals.dw = pof.dwStartOffset ∧
        locals.dwLen = pof.dwLengthUsedArea ∧ locals.nCountProgramRetries = 4) ∨
      (AwaitsSecond start current ∧ Left region locals.dw locals.dwLen ∧ locals.dwLen.toNat < left))
    ?_ ?_ (.inl ⟨rfl, shows, rfl, rfl, rfl⟩)
  · rintro locals cutOff (⟨wrong, -⟩ | ⟨-, -, wrong⟩)
    · exact absurd wrong (Nat.succ_ne_zero passes).symm
    · exact absurd wrong (Nat.not_lt_zero _)
  · rintro left locals current (⟨all, shows, dw, dwLen, fresh⟩ | ⟨awaits, rest, bounded⟩)
    · refine (programPass_first is28xxx setup status undetected (by rwa [dwLen])
        (by rwa [dw]) fresh shows).mono (fun _ held => held) ?_
      rintro ended after ⟨awaits, kept⟩
      cases ended with
      | next next =>
          obtain ⟨dw', dwLen'⟩ := kept
          refine .inr ⟨awaits, ?_, ?_⟩
          · rwa [dw', dwLen', dw, dwLen]
          · rw [dwLen', dwLen, covers.length]
            omega
      | leave result => exact False.elim kept
    · refine (programPass_awaits status covers callback rest awaits).mono
        (fun _ held => held) ?_
      rintro ended after ⟨awaits, kept⟩
      cases ended with
      | next next =>
          obtain ⟨rest, less⟩ := kept
          exact .inr ⟨awaits, rest, by omega⟩
      | leave result => exact ⟨kept, awaits⟩

theorem verifyLoop_awaits {data : Byte} (status : ∀ count, chip.statusByte count = data)
    (covers : Covers pof region) (enough : region.length < fuel)
    (awaits : AwaitsSecond start state) :
    (verifyLoop chip.bus fuel pof fun _ => data).Ensures state cut
      fun verified after => verified = true ∧ AwaitsSecond start after := by
  refine Program.loop_ensures
    (fun passes locals current => AwaitsSecond start current ∧ Left region locals.dw locals.dwLen ∧
      locals.dwLen.toNat < passes)
    (fun _ _ held => absurd held.2.2 (Nat.not_lt_zero _)) ?_ ⟨awaits, covers.left, ?_⟩
  · rintro passes locals current ⟨awaits, left, bounded⟩
    unfold verifyPass
    split
    · exact ⟨rfl, awaits⟩
    next more =>
      refine (readFlash_awaits status awaits).andThen ?_
      rintro b read ⟨awaits, shown⟩
      have total := left.left
      obtain ⟨lower, upper⟩ := left.contains more
      rw [if_neg (not_not.mpr shown)]
      refine ⟨awaits, left.advance more covers.fits, ?_⟩
      dsimp only at bounded ⊢
      rw [toNat_pred more]
      omega
  · dsimp only
    rw [covers.length]
    exact enough

/-- What is told to the callback leaves the chip waiting, and is accepted. -/
theorem deliver_awaits {ee : EnumEvents} {dwPos dwExtent : UInt32}
    (callback : pof.pcallbackFlash = some bootFlashUserInterface)
    (awaits : AwaitsSecond start state) :
    (deliver pof ee dwPos dwExtent).Ensures state cut
      fun accepted after => accepted = true ∧ AwaitsSecond start after := by
  refine (deliver_accepts callback).mono (fun _ held => held) ?_
  rintro accepted after ⟨success, same⟩
  obtain ⟨mode, waiting, held⟩ := awaits
  exact ⟨success, mode, waiting, by rwa [same]⟩

theorem bootFlashVerify_awaits {data : Byte} (status : ∀ count, chip.statusByte count = data)
    (covers : Covers pof region) (callback : pof.pcallbackFlash = some bootFlashUserInterface)
    (enough : region.length < fuel) (awaits : AwaitsSecond start state) :
    (bootFlashVerify chip.bus fuel pof fun _ => data).Ensures state cut
      fun verified after => verified = true ∧ AwaitsSecond start after := by
  refine (deliver_awaits callback awaits).andThen ?_
  rintro _ started ⟨rfl, awaits⟩
  refine (verifyLoop_awaits status covers enough awaits).andThen ?_
  rintro _ compared ⟨rfl, awaits⟩
  exact deliver_awaits callback awaits

/-- What is told to the callback keeps the chip showing its identification. -/
theorem deliver_shows {ee : EnumEvents} {dwPos dwExtent : UInt32}
    (callback : pof.pcallbackFlash = some bootFlashUserInterface) (shows : Shows start state) :
    (deliver pof ee dwPos dwExtent).Ensures state cut
      fun accepted after => accepted = true ∧ Shows start after := by
  refine (deliver_accepts callback).mono (fun _ held => held) ?_
  rintro accepted after ⟨success, same⟩
  exact ⟨success, by rwa [Shows, same]⟩

/-- Erasing passes a region that reads as erased. -/
theorem bootFlashEraseMinimalRegion_passes (covers : Covers pof region)
    (callback : pof.pcallbackFlash = some bootFlashUserInterface)
    (erased : chip.ReadsErased region) (enough : region.length < fuel)
    (shows : Shows start state) :
    (bootFlashEraseMinimalRegion chip.bus fuel pof).Ensures state cut
      fun passed after => passed = true ∧ Shows start after := by
  refine setErrorInfo_ensures.andThen ?_
  intro _ cleared same
  rw [Shows, ← same] at shows
  refine (deliver_shows callback shows).andThen ?_
  rintro _ started ⟨rfl, shows⟩
  refine (eraseLoop_passes covers callback erased enough shows).andThen ?_
  rintro _ passed ⟨rfl, shows⟩
  exact deliver_shows callback shows

/-- Programming succeeds with the chip waiting behind it. -/
theorem bootFlashProgram_awaits {data : Byte} (is28xxx : chip.is28xxx = true)
    (setup : data = 0x20 ∨ data = 0x40) (status : ∀ count, chip.statusByte count = data)
    (covers : Covers pof region) (callback : pof.pcallbackFlash = some bootFlashUserInterface)
    (undetected : pof.fDetectedUsing28xxxConventions = false) (nonempty : region.length ≠ 0)
    (erased : chip.ReadsErased region) (enough : region.length + 1 < fuel)
    (shows : Shows start state) :
    (bootFlashProgram chip.bus fuel pof fun _ => data).Ensures state cut
      fun programmed after => programmed = true ∧ AwaitsSecond start after := by
  refine setErrorInfo_ensures.andThen ?_
  intro _ cleared same
  rw [Shows, ← same] at shows
  refine (deliver_shows callback shows).andThen ?_
  rintro _ started ⟨rfl, shows⟩
  refine (programLoop_awaits is28xxx setup status covers callback undetected nonempty erased
    enough shows).andThen ?_
  rintro _ programmed ⟨rfl, awaits⟩
  refine (deliver_awaits callback awaits).andThen ?_
  rintro _ ended ⟨rfl, awaits⟩
  exact bootFlashVerify_awaits status covers callback (by omega) awaits

/-- A pass that erases, programs and verifies with success, and writes nothing. -/
theorem reflashPass_awaits {data : Byte} (is28xxx : chip.is28xxx = true)
    (setup : data = 0x20 ∨ data = 0x40) (status : ∀ count, chip.statusByte count = data)
    (covers : Covers pof region) (callback : pof.pcallbackFlash = some bootFlashUserInterface)
    (undetected : pof.fDetectedUsing28xxxConventions = false) (nonempty : region.length ≠ 0)
    (erased : chip.ReadsErased region) (enough : region.length + 1 < fuel)
    (shows : Shows start state) :
    (reflashPass chip.bus fuel pof (fun _ => data) ()).Ensures state cut
      fun ended after => ended = .leave () ∧ AwaitsSecond start after := by
  refine (bootFlashEraseMinimalRegion_passes covers callback erased (by omega) shows).andThen ?_
  rintro _ passed ⟨rfl, shows⟩
  refine (bootFlashProgram_awaits is28xxx setup status covers callback undetected nonempty
    erased enough shows).andThen ?_
  rintro _ written ⟨rfl, awaits⟩
  exact ⟨rfl, awaits⟩

end Status

end Cromwell.Flash

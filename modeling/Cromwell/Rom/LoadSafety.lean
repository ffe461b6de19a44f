import Cromwell.Rom.Loader

/-!
# Only verified images are started

Whatever the flash shows, and however it changes from one copy to the next, the
loader hands to `decompress_kernel` only bytes it has just copied from one bank
and found to have the hash stored in front of them there. A 1 Mbyte image is
given up only after every bank has been tried.
-/

namespace Cromwell.Rom

open Cromwell.Std

/-- The data of a call was copied from the bank of the call, where the 20 bytes
in front of it are its hash. -/
structure Verified (machine : Machine) (header : Checksumstruct) (call : DecompressCall) :
    Prop where
  length : call.data.length = header.compressedImageSize
  copied : call.data = machine.flashBytes (2 * call.loadretry + 1)
    (imageAddress header.compressedImageStart call.flashbank + 20) header.compressedImageSize
  checked : (machine.sha1 call.data).toList =
    machine.flashBytes (2 * call.loadretry)
      (imageAddress header.compressedImageStart call.flashbank) 20

/-- The retry at which the schedule of a 1 Mbyte image reaches a bank. -/
def firstRetry : Fin 4 → Nat := ![50, 0, 25, 75]

/-- Every bank whose turn has come was tried, and its image did not have the hash in front
of it. -/
def TurnsTaken (machine : Machine) (header : Checksumstruct) (loadretry : Nat)
    (attempts : Attempts) : Prop :=
  header.biossizeType = 1 → ∀ flashbank, firstRetry flashbank < loadretry →
    flashbank ∈ attempts.tried ∧ ¬Matches machine header (firstRetry flashbank) flashbank

/-- What holds when the loop is left for Cromwell. -/
structure SafeToStart (machine : Machine) (header : Checksumstruct) (loaded : Loaded) : Prop where
  verified : Verified machine header loaded.call
  recorded : loaded.ram.dword (cromwellMemoryPos + 0x28) = (loaded.call.flashbank : Nat) + 1

/-- A bank is selected at the retry at which its turn comes. -/
theorem selectBank_firstRetry (current flashbank : Fin 4) :
    selectBank 1 (firstRetry flashbank) current = flashbank :=
  match flashbank with
  | 0 | 1 | 2 | 3 => rfl

/-- Every turn comes before the retries run out. -/
theorem firstRetry_lt : ∀ flashbank, firstRetry flashbank < 100 := by decide

/-- An attempt keeps up with the schedule, or finds an image that is safe to start. -/
theorem attempt_safe (machine : Machine) (header : Checksumstruct) (loadretry : Nat)
    (attempts : Attempts) (turns : TurnsTaken machine header loadretry attempts) :
    (attempt machine header loadretry attempts).Ends (TurnsTaken machine header (loadretry + 1))
      (SafeToStart machine header) := by
  obtain ⟨hashed, ram, recorded, left⟩ | ⟨failed, ram, continued⟩ :=
    attempt_cases machine header loadretry attempts
  · rw [left]
    exact {
      verified := { length := by simp, copied := rfl, checked := hashed.symm }
      recorded }
  · rw [continued]
    intro megabyte flashbank due
    by_cases earlier : firstRetry flashbank < loadretry
    · obtain ⟨tried, mismatch⟩ := turns megabyte flashbank earlier
      exact ⟨List.mem_append_left _ tried, mismatch⟩
    · have now : loadretry = firstRetry flashbank := by omega
      subst now
      rw [megabyte, selectBank_firstRetry] at failed ⊢
      exact ⟨List.mem_append_right _ (List.mem_singleton_self flashbank), failed⟩

/-- A run of the loop either leaves safely or takes the turn of every bank. -/
theorem attempts_safe (machine : Machine) (header : Checksumstruct) (attempts : Attempts) :
    (forLoop (attempt machine header) 100 0 attempts).Ends (TurnsTaken machine header 100)
      (SafeToStart machine header) :=
  forLoop_ends (fun _ _ due => absurd due (Nat.not_lt_zero _)) fun loadretry attempts _ _ turns =>
    attempt_safe machine header loadretry attempts turns

/-- Second-stage load safety: `decompress_kernel` is called, and Cromwell is
jumped to, only for an image whose hash was found in front of it in the bank it
came from; that bank is recorded for Cromwell; and the loader gives up on a
1 Mbyte image only when it has tried all four banks and read from each of them an
image that does not have its hash in front of it. -/
theorem loader_starts_verified_images (machine : Machine) (ram : Memory) :
    let header := Checksumstruct.read ram programmMemory2bl
    let run := bootStartBiosLoader machine ram
    (∀ call ∈ run.calls, Verified machine header call) ∧
    (run.ending = .jumped → ∃ call, run.calls = [call] ∧
      run.ram.dword (cromwellMemoryPos + 0x28) = (call.flashbank : Nat) + 1) ∧
    (run.ending = .gaveUp → header.biossizeType = 1 →
      ∀ flashbank ∈ [1, 2, 0, 3], flashbank ∈ run.tried ∧
        ∃ loadretry < 100, ¬Matches machine header loadretry flashbank) := by
  intro header run
  have safe := attempts_safe machine header { flashbank := 3, ram, tried := [] }
  simp only [run, bootStartBiosLoader]
  split
  · generalize forLoop (attempt machine header) 100 0 _ = ended at safe ⊢
    cases ended with
    | leave loaded =>
        refine ⟨?_, fun _ => ⟨loaded.call, rfl, safe.recorded⟩, nofun⟩
        intro call member
        rw [List.mem_singleton.mp member]
        exact safe.verified
    | next attempts =>
        refine ⟨nofun, nofun, fun _ megabyte flashbank _ => ?_⟩
        have inTime := firstRetry_lt flashbank
        obtain ⟨tried, mismatch⟩ := safe megabyte flashbank inTime
        exact ⟨tried, firstRetry flashbank, inTime, mismatch⟩
  · exact ⟨nofun, nofun, nofun⟩

end Cromwell.Rom

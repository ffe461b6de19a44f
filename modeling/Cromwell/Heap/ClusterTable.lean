import Cromwell.Std.Memory

/-!
# The memory manager of BootLibrary.c

The arena at `start` is cut into clusters of 16 KiB. Its first cluster holds the
cluster table, one byte for each cluster; `t_malloc` and `t_free` keep all their
bookkeeping in the values of these bytes. `malloc` and `free` are wrappers that
leave a header of two words in front of the pointer they hand out.

Pointers are 32-bit addresses, so pointer arithmetic is modulo `2 ^ 32`. The
`cli` and `sti` instructions around the wrappers have no counterpart here.
-/

namespace Cromwell.Heap

open Cromwell.Std

/-- `MEMORYMANAGERSTART` of memory_layout.h, the only arena the firmware opens. -/
def memoryManagerStart : Nat := 0x02A00000

/-- The address Cromwell itself runs at, directly behind the arena. -/
def cromwellImageStart : Nat := 0x03A00000

def memoryManagementInitialization (start : Nat) (memory : Memory) : Memory :=
  let memory := memory.memset start 0x00 0x4000
  memory.set start 0xff

/-- `memcmp(&memsmall[counter], &dummy, 4) == 0`. -/
def holdsDword (memory : Memory) (address dummy : Nat) : Bool :=
  memory.bytes address 4 == dwordBytes dummy

/-- `for (counter=1; counter<0x400; counter++)` up to the first hit. -/
def searchTable (found : Nat → Bool) : Option Nat :=
  (List.range' 1 0x3ff).find? found

/-- `t_malloc`: the returned pointer, 0 when there is no room, and the memory
after the call. -/
def tMalloc (start : Nat) (memory : Memory) (size : Nat) : Nat × Memory :=
  if size < 0x4000 + 1 then
    match searchTable fun counter => memory (start + counter) == 0 with
    | some counter => ((start + counter * 0x4000) % 2 ^ 32, memory.set (start + counter) 0xAA)
    | none => (0, memory)
  else if size < 0x10000 + 1 then
    match searchTable fun counter => holdsDword memory (start + counter) 0 with
    | some counter =>
        ((start + counter * 0x4000) % 2 ^ 32,
          memory.store (start + counter) (dwordBytes 0xB8BADCFE))
    | none => (0, memory)
  else if size < 5 * 1024 * 1024 + 1 then
    let temp := (size &&& 0xffffc000) + 0x4000
    let needsectory := temp / 0x4000
    let foundstart := fun counter =>
      (List.range needsectory).all fun blockcount => memory (start + (counter + blockcount)) == 0
    match searchTable foundstart with
    | some counter =>
        let memory := memory.memset (start + counter) 0xFF needsectory
        let memory := memory.set (start + counter) 0xBB
        let memory := memory.set (start + (counter + 1)) 0xCC
        let memory := memory.set (start + (counter + needsectory - 2)) 0xCC
        let memory := memory.set (start + (counter + needsectory - 1)) 0xBB
        ((start + counter * 0x4000) % 2 ^ 32, memory)
    | none => (0, memory)
  else (0, memory)

/-- The loop of `t_free` over a large block, with `0x400 - counter` rounds left:
clear entries until the `CC BB` end marker or the end of the table. -/
def freeLarge (start : Nat) : Nat → Nat → Memory → Memory
  | 0, _, memory => memory
  | rounds + 1, counter, memory =>
      if memory (start + counter) = 0xCC ∧ memory (start + (counter + 1)) = 0xBB then
        let memory := memory.set (start + counter) 0
        memory.set (start + (counter + 1)) 0
      else
        freeLarge start rounds (counter + 1) (memory.set (start + counter) 0)

def tFree (start : Nat) (memory : Memory) (ptr : Nat) : Memory :=
  let temp := (ptr + 2 ^ 32 - start) % 2 ^ 32
  if temp &&& 0xffffc000 = temp then
    let temp := temp / 0x4000
    if memory (start + temp) = 0xAA then
      memory.set (start + temp) 0x0
    else if holdsDword memory (start + temp) 0xB8BADCFE then
      memory.memset (start + temp) 0 4
    else if holdsDword memory (start + temp) 0xFFFFCCBB then
      freeLarge start (0x400 - temp) temp memory
    else memory
  else memory

/-- The size `malloc` asks `t_malloc` for. -/
def paddedSize (size : Nat) : Nat := (size + 0x200) % 2 ^ 32 &&& 0xffffff00

/-- `malloc`: the pointer handed out, and the memory with its header in place. -/
def malloc (start : Nat) (memory : Memory) (size : Nat) : Nat × Memory :=
  let temp := paddedSize size
  let (tempmalloc2, memory) := tMalloc start memory temp
  let tempmalloc := (tempmalloc2 + 0x100) % 2 ^ 32 &&& 0xffffff00
  let tempmalloc1 := (tempmalloc + 2 ^ 32 - 8) % 2 ^ 32
  let memory := memory.store tempmalloc1 (dwordBytes tempmalloc2)
  let memory := memory.store (tempmalloc1 + 4) (dwordBytes 0x1234567)
  (tempmalloc, memory)

def free (start : Nat) (memory : Memory) (ptr : Nat) : Memory :=
  if ptr = 0 then memory
  else
    let tempmalloc1 := (ptr + 2 ^ 32 - 8) % 2 ^ 32
    let ptr := memory.dword tempmalloc1
    if memory.dword (tempmalloc1 + 4) ≠ 0x1234567 then memory
    else tFree start memory ptr

end Cromwell.Heap

import Cromwell.Lib.BootLibrary

/-!
# The parser of configuration files

A file is parsed in the buffer it was read to. `strsep` ends every line in place and then
its first word; what is behind the word is stripped by walking over it in both directions.
Entries are kept as the bytes of their structures.
-/

namespace Cromwell.Config

open Cromwell.Std Cromwell.Std.TextBuffer Cromwell.Lib

def maxConfigFilesize : Nat := 1024 * 256
def maxLine : Nat := 2048
def sysLinux : Nat := 0

def newlineChar : Byte := 0x0a
def slashChar : Byte := 0x2f
def backslashChar : Byte := 0x5c

/-! ## Entries -/

/-- The bytes of an entry by their offset. -/
abbrev ConfigEntry := Memory

/-- The offsets of what the parser sets besides strings. -/
def isDefaultOffset : Nat := 8
def bootSystemOffset : Nat := 16

/-- The strings of an entry. -/
inductive Field where
  | title
  | szPath
  | szKernel
  | szInitrd
  | szAppend
  deriving DecidableEq

/-- Where the array of a string is in an entry. -/
def Field.array : Field → Extent
  | title => ⟨20, 15⟩
  | szPath => ⟨35, maxLine⟩
  | szKernel => ⟨2084, maxLine⟩
  | szInitrd => ⟨2084 + maxLine, maxLine⟩
  | szAppend => ⟨2084 + 2 * maxLine, maxLine⟩

/-- The string in an array, up to its terminator or the end of the array. -/
def ConfigEntry.string (entry : ConfigEntry) (field : Field) : List Byte :=
  (Memory.bytes entry field.array.start field.array.length).takeWhile (· ≠ 0)

/-- The entries in order; the last one is the current one. -/
structure Entries where
  earlier : List ConfigEntry
  currentEntry : ConfigEntry

def Entries.toList (entries : Entries) : List ConfigEntry :=
  entries.earlier ++ [entries.currentEntry]

/-- An entry after `memset`. -/
def emptyEntry : ConfigEntry := fun _ => 0

/-- The list with another entry at its end. -/
def Entries.nextConfigEntry (entries : Entries) : Entries := ⟨entries.toList, emptyEntry⟩

/-- Write to a string of the current entry, from its beginning. -/
def Entries.write (entries : Entries) (field : Field) (bytes : List Byte) : Entries :=
  { entries with currentEntry := Memory.store entries.currentEntry field.array.start bytes }

/-! ## Directives -/

/-- The words a line may begin with. -/
inductive Keyword where
  | title
  | kernel
  | initrd
  | append
  | default
  deriving DecidableEq

def Keyword.name : Keyword → List Byte
  | title => text "title"
  | kernel => text "kernel"
  | initrd => text "initrd"
  | append => text "append"
  | default => text "default"

/-- The first keyword that a word begins with. -/
def keyword (param : List Byte) : Option Keyword :=
  [.title, .kernel, .initrd, .append, .default].find? fun (keyword : Keyword) =>
    strncmp param keyword.name keyword.name.length

/-- A file name is taken relative to a path, if there is one. -/
def fileName (szPath : Option (List Byte)) (paramdata : List Byte) : List Byte :=
  match szPath with
  | some szPath => szPath ++ slashChar :: paramdata
  | none => if paramdata.head? = some slashChar then paramdata else slashChar :: paramdata

/-- What a directive does to the entries. -/
def Entries.handle (szPath : Option (List Byte)) (entries : Entries) :
    Keyword × List Byte → Entries
  | (.title, paramdata) =>
    -- A second title begins another entry.
    let entries := if entries.currentEntry Field.title.array.start = 0 then entries
      else entries.nextConfigEntry
    let entries := entries.write .title (strncpy paramdata paramdata.length)
    { entries with
      currentEntry := Memory.store entries.currentEntry bootSystemOffset (dwordBytes sysLinux) }
  | (.kernel, paramdata) => entries.write .szKernel (fileName szPath paramdata ++ [0])
  | (.initrd, paramdata) =>
    if strncmp paramdata (text "no") 2 then entries
    else entries.write .szInitrd (fileName szPath paramdata ++ [0])
  | (.append, paramdata) => entries.write .szAppend (strncpy paramdata paramdata.length)
  | (.default, _) => entries

/-! ## The parser -/

/-- What has been parsed so far: the entries, where the title of the default entry is, and
which directives have been handled. -/
structure Parsed where
  entries : Entries
  defaultTitle : Option Nat
  directives : List (Keyword × List Byte)

def Parsed.handle (szPath : Option (List Byte)) (parsed : Parsed) (keyword : Keyword)
    (place : Nat) (paramdata : List Byte) : Parsed :=
  { entries := parsed.entries.handle szPath (keyword, paramdata)
    defaultTitle := if keyword = .default then some place else parsed.defaultTitle
    directives := parsed.directives ++ [(keyword, paramdata)] }

/-- Strip whitespace off the string at `p` on both sides, and return where it begins. -/
def stripData (p : Nat) : Program TextBuffer Nat := do
  let paramdata ← scan (fun c => !isspace c) p
  let length ← strlen paramdata
  let p ← scanBack isspace paramdata (paramdata + length - 1)
  put (p + 1) 0
  return paramdata

/-- File names are written with slashes. -/
def slashData (keyword : Keyword) (paramdata : Nat) : Program TextBuffer Unit :=
  if keyword = .kernel ∨ keyword = .initrd then chrreplace paramdata backslashChar slashChar
  else pure ()

/-- The line at `linePtr`. -/
def parseLine (szPath : Option (List Byte)) (linePtr : Nat) (parsed : Parsed) :
    Program TextBuffer Parsed := do
  let _ ← strsep linePtr (text " \t")
  let length ← strlen linePtr
  let paramdata ← stripData (linePtr + length + 1)
  let param ← string linePtr
  match keyword param with
  | none => return parsed
  | some keyword =>
    slashData keyword paramdata
    let data ← string paramdata
    return parsed.handle szPath keyword paramdata data

/-- One pass of the loop over the lines. -/
def linePass (szPath : Option (List Byte)) (locals : Nat × Parsed) :
    Program TextBuffer (Pass (Nat × Parsed) Parsed) := do
  let (linePtr, parsed) := locals
  let currentPos ← strsep linePtr [newlineChar]
  let parsed ← parseLine szPath linePtr parsed
  match currentPos with
  | none => return .leave parsed
  | some currentPos => return .next (currentPos, parsed)

/-- The first entry whose title begins with the text is the default one. -/
def markDefault (defaultTitle : List Byte) : List ConfigEntry → List ConfigEntry
  | [] => []
  | entry :: rest =>
    let title := (Memory.bytes entry Field.title.array.start defaultTitle.length).takeWhile (· ≠ 0)
    if strncmp title defaultTitle defaultTitle.length then
      Memory.store entry isDefaultOffset (dwordBytes 1) :: rest
    else entry :: markDefault defaultTitle rest

/-- Before the first line there is one entry. -/
def rootParsed : Parsed := ⟨⟨[], emptyEntry⟩, none, []⟩

/-- The entries of a file and the directives they come from. A line takes at least a byte,
so that there are at most `fileLen + 1` lines. -/
def parseConfig (fileLen : Nat) (szPath : Option (List Byte)) :
    Program TextBuffer (List ConfigEntry × List (Keyword × List Byte)) := do
  put fileLen 0
  let parsed ← .loop (linePass szPath) (fileLen + 1) (0, rootParsed)
  match parsed.defaultTitle with
  | none => return (parsed.entries.toList, parsed.directives)
  | some defaultTitle =>
    let defaultTitle ← string defaultTitle
    return (markDefault defaultTitle parsed.entries.toList, parsed.directives)

end Cromwell.Config

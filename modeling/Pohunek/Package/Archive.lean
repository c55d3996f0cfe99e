/-
# Package archives

The strict USTAR reader and writer of `crates/package/src/archive.rs` over the
header of `crates/package/src/canonical.rs`: `build_archive`, `read_checked`,
`parse_tar`, `validate_path`, `PathIndex` and `encode_header`.

Text is its UTF-8 bytes. Left to parameters are the zstd codec (`Zstd`) and the
digest. A slice of Rust has less than `2 ^ 63` bytes and a size field less than
`2 ^ 33`, so the offsets of the reader do not overflow and are natural numbers
here.
-/
import Pohunek.Lib.Block
import Pohunek.Lib.Fallible
import Mathlib.Data.List.Sort
import Mathlib.Order.Lex

namespace Pohunek.Package

open Block Fallible

abbrev Bytes := List UInt8

def zeros (n : ℕ) : Bytes := List.replicate n 0

/-! ### Errors and limits -/

inductive EntryRejection
  | pathEmpty | pathTooLong | pathNotUtf8 | pathAbsolute | pathEmptySegment | pathDotSegment
  | pathCharacter
  | duplicate | caseCollision | fileDirectoryConflict | unsorted
  | symlink | hardlink | specialFile | directory | extensionHeader | unsupportedType
  | nonCanonicalHeader | nonCanonicalPadding | fileTooLarge
  deriving DecidableEq

/-- The errors of this module; `compression` are those of the zstd decoder. -/
inductive ArchiveError
  | compressedTooLarge (limit : ℕ)
  | digestMismatch
  | compression (message : String)
  | nonCanonicalCompression
  | expandedTooLarge (limit : ℕ)
  | tooManyFiles (limit : ℕ)
  | truncated
  | trailingData
  | entry (index : ℕ) (reason : EntryRejection)
  deriving DecidableEq

structure Limits where
  maxCompressedBytes : ℕ
  maxExpandedBytes : ℕ
  maxExpansionRatio : ℕ
  maxFiles : ℕ
  maxPathBytes : ℕ
  maxFileBytes : ℕ
  maxWindowBytes : ℕ
  deriving DecidableEq

/-- `Limits::DEFAULT`. -/
def Limits.default : Limits where
  maxCompressedBytes := 8 * 1024 * 1024
  maxExpandedBytes := 64 * 1024 * 1024
  maxExpansionRatio := 100
  maxFiles := 512
  maxPathBytes := 100
  maxFileBytes := 16 * 1024 * 1024
  maxWindowBytes := 8 * 1024 * 1024

structure ArchiveEntry where
  path : Bytes
  contents : Bytes
  executable : Bool
  deriving DecidableEq

/-! ### The header -/

def blockBytes : ℕ := 512
def endMarkerBytes : ℕ := 2 * blockBytes
def nameBytes : ℕ := 100
def typeflagRegular : UInt8 := 48
def modeOffset : ℕ := 100
def uidOffset : ℕ := 108
def gidOffset : ℕ := 116
def sizeOffset : ℕ := 124
def sizeFieldBytes : ℕ := 12
def mtimeOffset : ℕ := 136
def checksumOffset : ℕ := 148
def checksumFieldBytes : ℕ := 8
def typeflagOffset : ℕ := 156
def magicOffset : ℕ := 257
def versionOffset : ℕ := 263
def devmajorOffset : ℕ := 329
def devminorOffset : ℕ := 337
def shortFieldBytes : ℕ := 8

/-- `0o644`. -/
def modeFile : ℕ := 6 * 64 + 4 * 8 + 4

/-- `0o755`. -/
def modeExecutable : ℕ := 7 * 64 + 5 * 8 + 5

/-- `b"ustar\0"`. -/
def magic : Bytes := [117, 115, 116, 97, 114, 0]

/-- `b"00"`. -/
def version : Bytes := [48, 48]

/-- `0o77_777_777_777`. -/
def maxSizeFieldValue : ℕ := 8 ^ 11 - 1

/-- The field `write_octal` leaves: octal digits and a NUL. -/
def octalField (width value : ℕ) :
    Bytes := (digits 8 (width - 1) value).map (fun d => 48 + d.toUInt8) ++ [0]

def octalDigit (byte : UInt8) : Option ℕ := if 48 ≤ byte ∧
    byte ≤ 55 then some (byte.toNat - 48) else none

/-- `value.checked_mul(8)?.checked_add(digit)`. -/
def pushOctal (value : ℕ) (byte : UInt8) : Option ℕ :=
  (octalDigit byte).bind fun d => if value * 8 + d < 2 ^ 64 then some (value * 8 + d) else none

def parseOctal (field : Bytes) : Option ℕ :=
  if field.getLast? ≠ some 0 ∨ field.dropLast = [] then none
  else field.dropLast.foldlM pushOctal 0

def sizeField (block : Bytes) : Bytes := slice block sizeOffset sizeFieldBytes

def modeIsExecutable (block : Bytes) : Bool :=
  parseOctal (slice block modeOffset shortFieldBytes) = some modeExecutable

variable (name : Bytes) (size : ℕ) (executable : Bool)

/-- The fields `encode_header` writes before the checksum. -/
def headerFields : List (ℕ × Bytes) :=
  [(0, name),
    (modeOffset, octalField shortFieldBytes (if executable then modeExecutable else modeFile)),
    (uidOffset, octalField shortFieldBytes 0), (gidOffset, octalField shortFieldBytes 0),
    (sizeOffset, octalField sizeFieldBytes size), (mtimeOffset, octalField sizeFieldBytes 0),
    (typeflagOffset, [typeflagRegular]), (magicOffset, magic),
    (versionOffset, version), (devmajorOffset, octalField shortFieldBytes 0),
    (devminorOffset, octalField shortFieldBytes 0)]

/-- The header of `encode_header`. The checksum is the sum of the block with
the checksum field read as spaces. -/
def headerBlock : Bytes :=
  let block := writeFields (zeros blockBytes) (headerFields name size executable)
  let block := splice block checksumOffset (List.replicate checksumFieldBytes 32)
  let checksum := (block.map (·.toNat)).sum
  splice block checksumOffset (octalField (checksumFieldBytes - 1) checksum ++ [32])

def encodeHeader : Except EntryRejection Bytes :=
  if nameBytes < name.length then .error .pathTooLong
  else if maxSizeFieldValue < size then .error .fileTooLarge
  else .ok (headerBlock name size executable)

/-! ### Paths -/

def slash : UInt8 := 47

/-- Bytes allowed inside a path segment. -/
def isPathByte (byte : UInt8) : Bool :=
  (48 ≤ byte && byte ≤ 57) || (65 ≤ byte && byte ≤ 90) || (97 ≤ byte && byte ≤ 122) ||
    byte == 46 || byte == 95 || byte == 45

def checkSegment (segment : Bytes) : Except EntryRejection Unit := do
  require (!segment.isEmpty) .pathEmptySegment
  require (segment != [46] && segment != [46, 46]) .pathDotSegment
  require (segment.all isPathByte) .pathCharacter

/-- `core::str::from_utf8` is `Ok`. -/
def utf8 (raw : Bytes) : Bool := (ByteArray.mk raw.toArray).validateUTF8

variable (limits : Limits)

def validatePath (raw : Bytes) : Except EntryRejection Bytes := do
  require (!raw.isEmpty) .pathEmpty
  require (raw.length ≤ min limits.maxPathBytes nameBytes) .pathTooLong
  require (utf8 raw) .pathNotUtf8
  require (raw.head? != some slash) .pathAbsolute
  forM (raw.splitOn slash) checkSegment
  return raw

/-- `u8::to_ascii_lowercase`. -/
def asciiLower (byte : UInt8) : UInt8 := if 65 ≤ byte ∧ byte ≤ 90 then byte + 32 else byte

/-- `str::to_ascii_lowercase`. -/
def folded (path : Bytes) : Bytes := path.map asciiLower

/-- The text before each `/`. -/
def directoriesOf : Bytes → List Bytes
  | [] => []
  | byte :: rest => (if byte = slash then [[]] else []) ++ (directoriesOf rest).map (byte :: ·)

structure PathIndex where
  files : List Bytes
  directories : List Bytes
  deriving DecidableEq

def PathIndex.empty : PathIndex := ⟨[], []⟩

def PathIndex.insert (index : PathIndex) (path : Bytes) : Except EntryRejection PathIndex := do
  let name := folded path
  require (!index.files.contains name) .caseCollision
  require (!index.directories.contains name) .fileDirectoryConflict
  require (!(directoriesOf name).any index.files.contains) .fileDirectoryConflict
  return ⟨name :: index.files, directoriesOf name ++ index.directories⟩

/-- What `str::cmp` compares. -/
def pathKey (path : Bytes) : List ℕ := path.map (·.toNat)

theorem pathKey_inj {p q : Bytes} : pathKey p = pathKey q ↔ p = q :=
  (List.map_injective_iff.mpr fun _ _ h => UInt8.toNat_inj.mp h).eq_iff

/-! ### The reader -/

/-- Zero bytes that pad `len` file bytes to a block boundary. -/
def paddingLen (len : ℕ) : ℕ := (blockBytes - len % blockBytes) % blockBytes

def checkType (typeflag : UInt8) : Except EntryRejection Unit :=
  if typeflag = typeflagRegular then .ok ()
  else if typeflag = 49 then .error .hardlink
  else if typeflag = 50 then .error .symlink
  else if typeflag = 51 ∨ typeflag = 52 ∨ typeflag = 54 then .error .specialFile
  else if typeflag = 53 then .error .directory
  -- x g L K S X D M N V
  else if typeflag ∈ [120, 103, 76, 75, 83, 88, 68, 77, 78, 86] then .error .extensionHeader
  else .error .unsupportedType

/-- The bytes of a block up to the first NUL of its name field. -/
def nameOf (block : Bytes) : Bytes := (block.take nameBytes).takeWhile (· ≠ 0)

/-- One turn of the loop of `parse_tar`: the entry whose header is `block`, in
front of the bytes `rest`. -/
def parseEntry (entries : List ArchiveEntry) (paths : PathIndex) (block rest : Bytes) :
    Except ArchiveError (ArchiveEntry × PathIndex) := do
  let index := entries.length
  require (index < limits.maxFiles) (.tooManyFiles limits.maxFiles)
  (checkType (block.getD typeflagOffset 0)).mapError (.entry index)
  let name := nameOf block
  let path ← (validatePath limits name).mapError (.entry index)
  require (entries.getLast?.all fun last => last.path != path) (.entry index .duplicate)
  require (entries.getLast?.all fun last => pathKey last.path ≤ pathKey path) (.entry index .unsorted)
  let paths ← (paths.insert path).mapError (.entry index)
  let size ← ofOption (.entry index .nonCanonicalHeader) (parseOctal (sizeField block))
  require (size ≤ limits.maxFileBytes) (.entry index .fileTooLarge)
  let executable := modeIsExecutable block
  let canonical ← (encodeHeader name size executable).mapError (.entry index)
  require (canonical = block) (.entry index .nonCanonicalHeader)
  require (size + paddingLen size ≤ rest.length) .truncated
  require ((slice rest size (paddingLen size)).all (· = 0)) (.entry index .nonCanonicalPadding)
  return (⟨path, rest.take size, executable⟩, paths)

/-- Checks that exactly the two-block end marker remains. -/
def finishTar (rest : Bytes) (entries : List ArchiveEntry) :
    Except ArchiveError (List ArchiveEntry) := do
  require (endMarkerBytes ≤ rest.length) .truncated
  require (rest.length = endMarkerBytes && rest.all (· = 0)) .trailingData
  return entries

/-- The bytes of an entry in the stream: header, contents and padding. -/
def entryBytes (entry : ArchiveEntry) : ℕ :=
  blockBytes + entry.contents.length + paddingLen entry.contents.length

def parseFrom (entries : List ArchiveEntry) (paths : PathIndex) (rest : Bytes) :
    Except ArchiveError (List ArchiveEntry) :=
  if _hlength : rest.length < blockBytes then .error .truncated
  else if (rest.take blockBytes).all (· = 0) then finishTar rest entries
  else
    match parseEntry limits entries paths (rest.take blockBytes) (rest.drop blockBytes) with
    | .error e => .error e
    | .ok (entry, paths) => parseFrom (entries ++ [entry]) paths (rest.drop (entryBytes entry))
termination_by rest.length
decreasing_by
  simp only [List.length_drop, entryBytes, blockBytes] at _hlength ⊢
  omega

def parseTar (tar : Bytes) : Except ArchiveError (List ArchiveEntry) :=
  parseFrom limits [] .empty tar

/-! ### The writer -/

def sortByPath (entries : List ArchiveEntry) : List ArchiveEntry :=
  entries.insertionSort fun left right => pathKey left.path ≤ pathKey right.path

/-- The order of `build_archive`, with the position each entry was given at. -/
def indexed (entries : List ArchiveEntry) : List (ℕ × ArchiveEntry) :=
  (entries.zipIdx.map fun p => (p.2, p.1)).insertionSort fun left right => pathKey left.2.path ≤
    pathKey right.2.path

def usizeMax : ℕ := 2 ^ 64 - 1

/-- The size of the stream, checked entry by entry from `expanded` on. -/
def checkExpanded (expanded : ℕ) : List ArchiveEntry → Except ArchiveError Unit
  | [] => .ok ()
  | entry :: entries => do
    let expanded := min (expanded + entryBytes entry) usizeMax
    require (expanded ≤ limits.maxExpandedBytes) (.expandedTooLarge limits.maxExpandedBytes)
    checkExpanded expanded entries

/-- One turn of the loop of `build_archive`: the bytes of an entry. -/
def writeEntry (paths : PathIndex) (previous : Option Bytes) (index : ℕ) (entry : ArchiveEntry) :
    Except ArchiveError (Bytes × PathIndex) := do
  require (previous != some entry.path) (.entry index .duplicate)
  let paths ← (paths.insert entry.path).mapError (.entry index)
  let size := min entry.contents.length usizeMax
  require (size ≤ limits.maxFileBytes) (.entry index .fileTooLarge)
  let header ← (encodeHeader entry.path size entry.executable).mapError (.entry index)
  return (header ++ entry.contents ++ zeros (paddingLen entry.contents.length), paths)

def writeEntries (paths : PathIndex) (previous : Option Bytes) : List (ℕ × ArchiveEntry) →
    Except ArchiveError Bytes
  | [] => .ok []
  | (index, entry) :: order => do
    let (bytes, paths) ← writeEntry limits paths previous index entry
    let rest ← writeEntries paths (some entry.path) order
    return bytes ++ rest

/-- The paths of all entries, in the order they were given. -/
def checkPaths (entries : List ArchiveEntry) : Except ArchiveError Unit :=
  forM entries.zipIdx fun p => do
    let _ ← (validatePath limits p.1.path).mapError (.entry p.2)

/-- `build_archive` up to the tar stream. -/
def buildTar (entries : List ArchiveEntry) : Except ArchiveError Bytes := do
  require (entries.length ≤ limits.maxFiles) (.tooManyFiles limits.maxFiles)
  checkPaths limits entries
  checkExpanded limits endMarkerBytes entries
  let tar ← writeEntries limits .empty none (indexed entries)
  return tar ++ zeros endMarkerBytes

/-! ### Archives -/

/-- The zstd codec: `compression::encode` and `compression::decode`. What is
decoded from the encoder's own output is what was encoded, and the decoder
stops at `max_expanded_bytes`. -/
structure Zstd where
  encode : Bytes → Bytes
  decode : Limits → Bytes → Except ArchiveError Bytes
  exact : ∀ limits tar out, decode limits (encode tar) = .ok out → out = tar
  bounded : ∀ limits bytes out, decode limits bytes = .ok out → out.length ≤ limits.maxExpandedBytes

variable (zstd : Zstd) {δ : Type} [DecidableEq δ] (digest : Bytes → δ)

def readChecked (bytes : Bytes) (expected : Option δ) :
    Except ArchiveError (δ × List ArchiveEntry) := do
  require (bytes.length ≤ limits.maxCompressedBytes) (.compressedTooLarge limits.maxCompressedBytes)
  require (expected.all fun e => e = digest bytes) .digestMismatch
  let tar ← zstd.decode limits bytes
  let entries ← parseTar limits tar
  require (zstd.encode tar = bytes) .nonCanonicalCompression
  return (digest bytes, entries)

def buildArchive (entries : List ArchiveEntry) : Except ArchiveError Bytes := do
  let tar ← buildTar limits entries
  let bytes := zstd.encode tar
  let _ ← readChecked limits zstd digest bytes none
  return bytes

end Pohunek.Package

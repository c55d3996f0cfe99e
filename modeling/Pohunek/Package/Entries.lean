/-
# Release blocks and entries

What the two signed documents list: `validate_release` and
`check_attestations` of `crates/package/src/release.rs`, `validate_entries` of
`catalog.rs` and `check_entries` of `plugin_index.rs`. Versions and version
ranges are those of the crate `semver` (`Semver`).
-/
import Pohunek.Package.Json

namespace Pohunek.Package

open Fallible

/-! ### Hexadecimal text -/

def nibble (digit : UInt8) : Option UInt8 :=
  if 48 ≤ digit ∧ digit ≤ 57 then some (digit - 48)
  else if 97 ≤ digit ∧ digit ≤ 102 then some (digit - 97 + 10)
  else none

def hexBytes : Bytes → Option Bytes
  | high :: low :: rest => do
    let high ← nibble high
    let low ← nibble low
    let rest ← hexBytes rest
    return (high * 16 + low) :: rest
  | [] => some []
  | [_] => none

/-- `decode_hex::<N>`: exactly `n` bytes of lowercase hexadecimal. -/
def decodeHex (n : ℕ) (text : Bytes) :
    Option Bytes := if text.length = n * 2 then hexBytes text else none

/-! ### Platforms -/

def maxPlatformsPerEntry : ℕ := 16
def maxPlatformBytes : ℕ := 64
def maxCoreRangeBytes : ℕ := 128
def maxBinarySets : ℕ := 16
def maxAttestationsPerEntry : ℕ := 16
def maxEntryUrlBytes : ℕ := 512
def commitBytes : ℕ := 20

def validPlatform (name : Bytes) : Bool :=
  !name.isEmpty && name.length ≤ maxPlatformBytes &&
    name.all fun byte => (97 ≤ byte && byte ≤ 122) || (48 ≤ byte && byte ≤ 57) || byte == 46 ||
    byte == 95 || byte == 45

/-- The platform list of an entry, of either document. -/
def validPlatforms (platforms : List Bytes) : Bool :=
  !platforms.isEmpty && platforms.length ≤ maxPlatformsPerEntry && platforms.all validPlatform &&
    platforms.Nodup

/-! ### The release block -/

/-- The crate `semver`. -/
structure Semver (ν ρ : Type) where
  parse : Bytes → Option ν
  /-- No pre-release and no build metadata. -/
  plain : ν → Bool
  display : ν → Bytes
  parseReq : Bytes → Option ρ
  comparators : ρ → ℕ
  isMatch : ρ → ν → Bool

structure BinarySet where
  target : Bytes
  digest : Bytes
  deriving DecidableEq

structure Attestation where
  platform : Bytes
  digest : Bytes
  deriving DecidableEq

structure Release where
  version : Bytes
  commit : Bytes
  binarySets : List BinarySet
  deriving DecidableEq

inductive ReleaseRejection
  | version | commit | binarySets | duplicateTarget
  deriving DecidableEq

structure VerifiedRelease (ν : Type) where
  version : ν
  commit : Bytes
  binarySets : List BinarySet
  deriving DecidableEq

section Semver

variable {ν ρ : Type} (semver : Semver ν ρ)

def validateRelease (release : Release) : Except ReleaseRejection (VerifiedRelease ν) := do
  let version ← ofOption .version <| (semver.parse release.version).filter fun parsed =>
    semver.plain parsed && semver.display parsed == release.version
  require (decodeHex commitBytes release.commit).isSome .commit
  require (!release.binarySets.isEmpty && release.binarySets.length ≤ maxBinarySets &&
    release.binarySets.all fun set => validPlatform set.target) .binarySets
  require (release.binarySets.map (·.target)).Nodup .duplicateTarget
  return ⟨version, release.commit, release.binarySets⟩

/-! ### Catalog entries -/

structure CatalogEntry where
  packageId : Bytes
  runtimeId : Bytes
  version : Bytes
  digest : Bytes
  runtimeApi : ℕ
  platforms : List Bytes
  attestations : List Attestation
  core : Bytes
  deriving DecidableEq

inductive CatalogEntryRejection
  | reservedShell | platforms | coreRange | coreExcludesRelease
  | runtimeApi | attestations | attestationPlatform
  | missingAttestation | noBinarySet | duplicateVersion | duplicateDigest | identityConflict | revokedDigest
  deriving DecidableEq

structure VerifiedEntry (ρ : Type) where
  packageId : Bytes
  runtimeId : Bytes
  version : Bytes
  digest : Bytes
  runtimeApi : ℕ
  platforms : List Bytes
  attestations : List Attestation
  core : ρ
  deriving DecidableEq

def checkAttestations (platforms : List Bytes) (attestations : List Attestation)
    (release : VerifiedRelease ν) :
    Except CatalogEntryRejection Unit := do
  let attested := attestations.map (·.platform)
  require (!attestations.isEmpty && attestations.length ≤ maxAttestationsPerEntry &&
    attested.all validPlatform && attested.Nodup) .attestations
  require (attested.all platforms.contains) .attestationPlatform
  require (platforms.all attested.contains) .missingAttestation
  require (platforms.all fun platform => release.binarySets.any fun set => set.target == platform)
    .noBinarySet

def parseCoreRange (text : Bytes) : Option ρ :=
  if text.isEmpty || maxCoreRangeBytes < text.length then none
  else (semver.parseReq text).filter fun requirement => semver.comparators requirement != 0

/-- What an entry repeats of an earlier one. -/
inductive Repeated
  | version | digest | identity
  deriving DecidableEq

def Repeated.ofCatalog : Repeated → CatalogEntryRejection
  | version => .duplicateVersion
  | digest => .duplicateDigest
  | identity => .identityConflict

/-- The sets the entry loops of both documents fill. -/
structure Seen where
  versions : List (Bytes × Bytes)
  digests : List Bytes
  runtimeOwner : List (Bytes × Bytes)
  packageRuntime : List (Bytes × Bytes)

def Seen.empty : Seen := ⟨[], [], [], []⟩

def Seen.insert (seen : Seen) (packageId runtimeId version digest : Bytes) :
    Except Repeated Seen := do
  require (!seen.versions.contains (packageId, version)) .version
  require (!seen.digests.contains digest) .digest
  -- a map that is inserted into answers with the value it held
  require ((seen.runtimeOwner.lookup runtimeId).all (· == packageId) &&
    (seen.packageRuntime.lookup packageId).all (· == runtimeId)) .identity
  return ⟨(packageId, version) :: seen.versions, digest :: seen.digests,
    (runtimeId, packageId) :: seen.runtimeOwner, (packageId, runtimeId) :: seen.packageRuntime⟩

def validateEntry (revoked : List Bytes) (release : VerifiedRelease ν) (seen : Seen)
    (entry : CatalogEntry) : Except CatalogEntryRejection (VerifiedEntry ρ × Seen) := do
  require (entry.runtimeId != ascii "shell") .reservedShell
  require (validPlatforms entry.platforms) .platforms
  require (entry.runtimeApi != 0) .runtimeApi
  checkAttestations entry.platforms entry.attestations release
  let core ← ofOption .coreRange (parseCoreRange semver entry.core)
  require (semver.isMatch core release.version) .coreExcludesRelease
  let seen ← (seen.insert entry.packageId entry.runtimeId entry.version entry.digest).mapError
    Repeated.ofCatalog
  require (!revoked.contains entry.digest) .revokedDigest
  return (⟨entry.packageId, entry.runtimeId, entry.version, entry.digest, entry.runtimeApi,
    entry.platforms, entry.attestations, core⟩, seen)

/-- The loop of `validate_entries` from an index on. -/
def validateEntriesFrom (revoked : List Bytes) (release : VerifiedRelease ν) (index : ℕ)
    (seen : Seen) : List CatalogEntry → Except (ℕ × CatalogEntryRejection) (List (VerifiedEntry ρ))
  | [] => .ok []
  | entry :: entries => do
    let (verified, seen) ← (validateEntry semver revoked release seen entry).mapError ((index, ·))
    let rest ← validateEntriesFrom revoked release (index + 1) seen entries
    return verified :: rest

def validateEntries (revokedDigests : List Bytes) (entries : List CatalogEntry)
    (release : VerifiedRelease ν) : Except (ℕ × CatalogEntryRejection) (List (VerifiedEntry ρ)) :=
  validateEntriesFrom semver revokedDigests release 0 .empty entries

end Semver

/-! ### Index entries -/

structure IndexEntry where
  packageId : Bytes
  runtimeId : Bytes
  version : Bytes
  digest : Bytes
  url : Bytes
  platforms : List Bytes
  core : Bytes
  deriving DecidableEq

inductive IndexEntryRejection
  | platforms | url | core | duplicateVersion | duplicateDigest | identityConflict
  deriving DecidableEq

def Repeated.ofIndex : Repeated → IndexEntryRejection
  | version => .duplicateVersion
  | digest => .duplicateDigest
  | identity => .identityConflict

/-- `is_ascii_graphic` for every byte. -/
def validUrl (url : Bytes) : Bool :=
  !url.isEmpty && url.length ≤ maxEntryUrlBytes && url.all fun byte => 33 ≤ byte && byte ≤ 126

def checkEntry (seen : Seen) (entry : IndexEntry) : Except IndexEntryRejection Seen := do
  require (validPlatforms entry.platforms) .platforms
  require (validUrl entry.url) .url
  require (!entry.core.isEmpty && entry.core.length ≤ maxCoreRangeBytes) .core
  (seen.insert entry.packageId entry.runtimeId entry.version entry.digest).mapError Repeated.ofIndex

/-- The loop of `check_entries` from an index on. -/
def checkEntriesFrom (index : ℕ) (seen : Seen) :
    List IndexEntry → Except (ℕ × IndexEntryRejection) Unit
  | [] => .ok ()
  | entry :: entries => do
    let seen ← (checkEntry seen entry).mapError ((index, ·))
    checkEntriesFrom (index + 1) seen entries

def checkEntries (entries : List IndexEntry) : Except (ℕ × IndexEntryRejection) Unit :=
  checkEntriesFrom 0 .empty entries

end Pohunek.Package

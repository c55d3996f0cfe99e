/-
# The signed catalog

`verify_catalog` of `crates/package/src/catalog.rs` with the trust anchor it is
given: roots, the key chain of the document (`build_key_set`) and its detached
signatures (`verify_signatures`, `verify_one`).

Left to parameters are Ed25519 with the SHA-256 of `KeyId::derive`, the parser
under `parse_strict` and the derived `Deserialize` of the envelope.
-/
import Pohunek.Package.Entries

namespace Pohunek.Package

open Fallible

/-! ### Keys -/

def publicKeyBytes : ℕ := 32
def signatureBytes : ℕ := 64
def keyIdBytes : ℕ := 32

/-- The lowercase hexadecimal SHA-256 of a public key. -/
structure KeyId where
  text : Bytes
  hex : (decodeHex keyIdBytes text).isSome
  deriving DecidableEq

/-- Ed25519 over keys `κ`, with `KeyId::derive`. -/
structure Ed25519 (κ : Type) where
  fromBytes : Bytes → Option κ
  isWeak : κ → Bool
  derive : κ → KeyId
  verifyStrict : κ → Bytes → Bytes → Bool

inductive TrustAnchorError
  | malformedKey | emptyWindow | noRoots | tooLarge | duplicateRoot
  deriving DecidableEq

structure RootKey {κ : Type} (ed : Ed25519 κ) where
  key : κ
  id : KeyId
  notBefore : ℕ
  notAfter : ℕ
  strong : ed.isWeak key = false
  derived : id = ed.derive key
  window : notBefore < notAfter

variable {κ : Type} (ed : Ed25519 κ)

def RootKey.new (publicKey : Bytes) (notBefore notAfter : ℕ) :
    Except TrustAnchorError (RootKey ed) :=
  match ed.fromBytes publicKey with
  | none => .error .malformedKey
  | some key =>
    if hweak : ed.isWeak key = true then .error .malformedKey
    else if hwindow : notAfter ≤ notBefore then .error .emptyWindow
    else .ok ⟨key, ed.derive key, notBefore, notAfter, eq_false_of_ne_true hweak, rfl,
      Nat.lt_of_not_le hwindow⟩

def maxTrustRoots : ℕ := 8
def maxRevokedKeys : ℕ := 64

structure TrustAnchor where
  roots : List (RootKey ed)
  revoked : List KeyId
  nonempty : roots ≠ []
  bounded : roots.length ≤ maxTrustRoots ∧ revoked.length ≤ maxRevokedKeys
  distinct : (roots.map (·.id)).Nodup

def TrustAnchor.new (roots : List (RootKey ed)) (revoked : List KeyId) :
    Except TrustAnchorError (TrustAnchor ed) :=
  if hroots : roots = [] then .error .noRoots
  else if hbound : roots.length ≤ maxTrustRoots ∧ revoked.length ≤ maxRevokedKeys then
    if hdistinct : (roots.map (·.id)).Nodup then .ok ⟨roots, revoked, hroots, hbound, hdistinct⟩
    else .error .duplicateRoot
  else .error .tooLarge

/-! ### The document -/

structure Catalog where
  schemaVersion : ℕ
  sequence : ℕ
  expiresAt : ℕ
  release : Release
  revokedKeyIds : List KeyId
  revokedDigests : List Bytes
  entries : List CatalogEntry

structure SignedKeyRecord where
  keyId : KeyId
  publicKey : Bytes
  notBefore : ℕ
  notAfter : ℕ
  endorsedBy : KeyId
  signature : Bytes
  deriving DecidableEq

structure CatalogSignature where
  keyId : KeyId
  signature : Bytes
  deriving DecidableEq

structure CatalogEnvelope where
  schemaVersion : ℕ
  catalog : Catalog
  keyChain : List SignedKeyRecord
  signatures : List CatalogSignature

inductive CatalogLimit
  | entries | platforms | binarySets | attestations | keyRecords | signatures | revokedKeys
  | revokedDigests
  deriving DecidableEq

inductive CatalogError
  | tooLarge
  | json (error : JsonError)
  | schema
  | unsupportedSchemaVersion
  | limit (limit : CatalogLimit)
  | malformedKeyMaterial
  | keyIdMismatch
  | duplicateKeyId
  | emptyKeyWindow
  | unknownEndorser
  | badEndorsement
  | noSignatures
  | duplicateSignature
  | unknownSigner
  | signerNotYetValid
  | signerExpired
  | signerRevoked
  | badSignature
  | staleSequence (sequence highWater : ℕ)
  | expired
  | release (reason : ReleaseRejection)
  | entry (index : ℕ) (reason : CatalogEntryRejection)
  deriving DecidableEq

def catalogSchemaVersion : ℕ := 2
def maxCatalogBytes : ℕ := 1024 * 1024
def maxCatalogEntries : ℕ := 256
def maxKeyRecords : ℕ := 16
def maxSignatures : ℕ := 8
def maxRevokedDigests : ℕ := 1024

/-- `CATALOG_DOMAIN`. -/
def catalogDomain : Bytes := ascii "pohunek-runtime-catalog-v2\n"

/-- `KEY_RECORD_DOMAIN`. -/
def keyRecordDomain : Bytes := ascii "pohunek-catalog-key-record-v1\n"

/-- `key_record_signing_message`: the record without its signature. -/
def keyRecordSigningMessage (record : SignedKeyRecord) : Bytes :=
  domainMessage keyRecordDomain <| .object
      [(ascii "key_id", .string record.keyId.text), (ascii "public_key", .string record.publicKey),
      (ascii "not_before", .number record.notBefore),
      (ascii "not_after", .number record.notAfter),
      (ascii "endorsed_by", .string record.endorsedBy.text)]

def checkBodyLimits (catalog : Catalog) : Except CatalogError Unit := do
  require (catalog.entries.length ≤ maxCatalogEntries) (.limit .entries)
  require (catalog.revokedKeyIds.length ≤ maxRevokedKeys) (.limit .revokedKeys)
  require (catalog.revokedDigests.length ≤ maxRevokedDigests) (.limit .revokedDigests)
  require (catalog.release.binarySets.length ≤ maxBinarySets) (.limit .binarySets)
  require (catalog.entries.all fun entry => entry.attestations.length ≤ maxAttestationsPerEntry)
    (.limit .attestations)

def checkLimits (envelope : CatalogEnvelope) : Except CatalogError Unit := do
  checkBodyLimits envelope.catalog
  require (envelope.keyChain.length ≤ maxKeyRecords) (.limit .keyRecords)
  require (envelope.signatures.length ≤ maxSignatures) (.limit .signatures)

/-! ### The key set -/

structure TrustedKey (κ : Type) where
  key : κ
  notBefore : ℕ
  notAfter : ℕ
  /-- The key and every ancestor up to its root, nearest first. -/
  lineage : List KeyId

/-- A `BTreeMap` from ids to keys; what was inserted last is in front. -/
abbrev KeySet (κ : Type) := List (KeyId × TrustedKey κ)

/-- The public key of a record, usable and of the given id. -/
def recordKey (publicKey : Bytes) (keyId : KeyId) {ε : Type} (malformed mismatch : ε) :
    Except ε κ := do
  let raw ← ofOption malformed (decodeHex publicKeyBytes publicKey)
  let key ← ofOption malformed (ed.fromBytes raw)
  require (!ed.isWeak key) malformed
  require (ed.derive key = keyId) mismatch
  return key

/-- One turn of the loop of `build_key_set`. -/
def admitRecord (keys : KeySet κ) (record : SignedKeyRecord) : Except CatalogError (KeySet κ) := do
  let key ← recordKey ed record.publicKey record.keyId CatalogError.malformedKeyMaterial
    .keyIdMismatch
  require (keys.lookup record.keyId).isNone .duplicateKeyId
  require (record.notBefore < record.notAfter) .emptyKeyWindow
  let endorser ← ofOption .unknownEndorser (keys.lookup record.endorsedBy)
  let signature ← ofOption .malformedKeyMaterial (decodeHex signatureBytes record.signature)
  require (ed.verifyStrict endorser.key (keyRecordSigningMessage record) signature) .badEndorsement
  return (record.keyId,
    ⟨key, record.notBefore, record.notAfter, record.keyId :: endorser.lineage⟩) :: keys

/-- The keys of the anchor. -/
def rootKeys (roots : List (RootKey ed)) : KeySet κ :=
  roots.map fun root => (root.id, ⟨root.key, root.notBefore, root.notAfter, [root.id]⟩)

def buildKeySet (chain : List SignedKeyRecord) (anchor : TrustAnchor ed) :
    Except CatalogError (KeySet κ) :=
  chain.foldlM (admitRecord ed) (rootKeys ed anchor.roots)

/-! ### Signatures -/

/-- The first signature that verifies, or the first failure. -/
def firstVerified {ε : Type} (unknown : ε) (verify : CatalogSignature → Except ε Unit)
    (failure : Option ε) : List CatalogSignature → Except ε KeyId
  | [] => .error (failure.getD unknown)
  | entry :: signatures =>
    match verify entry with
    | .ok () => .ok entry.keyId
    | .error e => firstVerified unknown verify (failure.or (some e)) signatures

/-- `verify_signatures` of either document. -/
def acceptSignatures {ε : Type} (missing duplicate unknown : ε)
    (verify : CatalogSignature → Except ε Unit) (signatures : List CatalogSignature) :
    Except ε KeyId := do
  require (!signatures.isEmpty) missing
  require (signatures.map (·.keyId)).Nodup duplicate
  firstVerified unknown verify none signatures

/-- One key of a lineage at the time `now`. -/
def checkAncestor (keys : KeySet κ) (revoked : List KeyId) (now : ℕ) (id : KeyId) :
    Except CatalogError Unit := do
  require (!revoked.contains id) .signerRevoked
  let ancestor ← ofOption .unknownSigner (keys.lookup id)
  require (ancestor.notBefore ≤ now) .signerNotYetValid
  require (now < ancestor.notAfter) .signerExpired

def verifyOne (keys : KeySet κ) (revoked : List KeyId) (message : Bytes) (now : ℕ)
    (entry : CatalogSignature) : Except CatalogError Unit := do
  let trusted ← ofOption .unknownSigner (keys.lookup entry.keyId)
  forM trusted.lineage (checkAncestor keys revoked now)
  let signature ← ofOption .malformedKeyMaterial (decodeHex signatureBytes entry.signature)
  require (ed.verifyStrict trusted.key message signature) .badSignature

def verifySignatures (signatures : List CatalogSignature) (keys : KeySet κ) (revoked : List KeyId)
    (message : Bytes) (now : ℕ) : Except CatalogError KeyId :=
  acceptSignatures .noSignatures .duplicateSignature .unknownSigner
  (verifyOne ed keys revoked message now) signatures

/-! ### The catalog -/

structure VerifiedCatalog (ν ρ : Type) where
  sequence : ℕ
  expiresAt : ℕ
  release : VerifiedRelease ν
  signer : KeyId
  entries : List (VerifiedEntry ρ)
  revokedDigests : List Bytes
  revokedKeyIds : List KeyId
  deriving DecidableEq

/-- A declared schema version is not that of this build. -/
def declaresOther (current : ℕ) (value : Value) (paths : List (List Bytes)) : Bool :=
  (paths.filterMap fun path => (value.pointer path).bind Value.asU64).any (· != current)

variable {ν ρ : Type} (semver : Semver ν ρ) (parseStrict : Bytes → Except JsonError Value)
  (fromValue : Value → Option CatalogEnvelope)

/-- The checks of `verify_catalog` that need no key: the envelope and what its
signatures cover. -/
def parseCatalog (bytes : Bytes) : Except CatalogError (CatalogEnvelope × Bytes) := do
  require (bytes.length ≤ maxCatalogBytes) .tooLarge
  let value ← (parseStrict bytes).mapError .json
  require (!declaresOther catalogSchemaVersion value
    [[ascii "schema_version"], [ascii "catalog", ascii "schema_version"]]) .unsupportedSchemaVersion
  let envelope ← ofOption .schema (fromValue value)
  require (envelope.schemaVersion = catalogSchemaVersion && envelope.catalog.schemaVersion =
    catalogSchemaVersion) .unsupportedSchemaVersion
  checkLimits envelope
  -- the member exactly as parsed, not a serialization of the typed struct
  let member ← ofOption .schema (value.get (ascii "catalog"))
  return (envelope, domainMessage catalogDomain member)

def verifyCatalog (bytes : Bytes) (anchor : TrustAnchor ed) (now : ℕ) (highWaterMark : Option ℕ) :
    Except CatalogError (VerifiedCatalog ν ρ) := do
  let (envelope, message) ← parseCatalog parseStrict fromValue bytes
  let trusted ← buildKeySet ed envelope.keyChain anchor
  let catalog := envelope.catalog
  let signer ← verifySignatures ed envelope.signatures trusted
    (anchor.revoked ++ catalog.revokedKeyIds) message now
  require (highWaterMark.all fun highWater => highWater ≤ catalog.sequence)
    (.staleSequence catalog.sequence (highWaterMark.getD 0))
  require (now < catalog.expiresAt) .expired
  let release ← (validateRelease semver catalog.release).mapError .release
  let entries ← (validateEntries semver catalog.revokedDigests catalog.entries release).mapError
    fun e => .entry e.1 e.2
  return ⟨catalog.sequence, catalog.expiresAt, release, signer, entries, catalog.revokedDigests,
    catalog.revokedKeyIds⟩

end Pohunek.Package

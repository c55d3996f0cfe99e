/-
# The signed plugin index

`verify_index` of `crates/package/src/plugin_index.rs`. One root, the endorser,
introduces the index keys and signs the embedded revocation list; an index key
signs the body. The parameters are those of the catalog.
-/
import Pohunek.Package.Catalog

namespace Pohunek.Package

open Fallible

/-! ### The document -/

structure IndexBody where
  schemaVersion : ℕ
  scope : Bytes
  sequence : ℕ
  expiresAt : ℕ
  entries : List IndexEntry

structure IndexKeyRecord where
  keyId : KeyId
  publicKey : Bytes
  scope : Bytes
  notBefore : ℕ
  notAfter : ℕ
  endorsedBy : KeyId
  signature : Bytes
  deriving DecidableEq

structure RevocationBody where
  schemaVersion : ℕ
  sequence : ℕ
  revokedKeyIds : List KeyId

structure SignedRevocations where
  revocations : RevocationBody
  signature : CatalogSignature

structure IndexEnvelope where
  schemaVersion : ℕ
  index : IndexBody
  keyRecords : List IndexKeyRecord
  signatures : List CatalogSignature
  revocations : SignedRevocations

/-- What the caller has persisted from earlier verifications. -/
structure IndexVerifierState where
  indexHighWater : Option ℕ
  revocationHighWater : Option ℕ
  revokedKeyIds : List KeyId
  deriving DecidableEq

inductive IndexLimit
  | entries | keyRecords | signatures | revokedKeys
  deriving DecidableEq

inductive IndexError
  | tooLarge
  | json (error : JsonError)
  | schema
  | unsupportedSchemaVersion
  | limit (limit : IndexLimit)
  | endorserNotYetValid
  | endorserExpired
  | badRevocation
  | staleRevocation (sequence highWater : ℕ)
  | signerRevoked
  | malformedKeyMaterial
  | keyIdMismatch
  | duplicateKeyId
  | emptyKeyWindow
  | keyWindowTooLong
  | scopeMismatch
  | unknownEndorser
  | badEndorsement
  | noSignatures
  | duplicateSignature
  | unknownSigner
  | signerNotYetValid
  | signerExpired
  | badSignature
  | staleSequence (sequence highWater : ℕ)
  | sequenceInFuture
  | lifetimeTooLong
  | expired
  | entry (index : ℕ) (reason : IndexEntryRejection)
  deriving DecidableEq

def indexSchemaVersion : ℕ := 1
def maxIndexBytes : ℕ := 1024 * 1024
def maxIndexEntries : ℕ := 256
def maxIndexKeyRecords : ℕ := 4
def maxIndexSignatures : ℕ := 4

/-- 366 days. -/
def maxIndexKeyWindowSeconds : ℕ := 366 * 24 * 60 * 60

/-- One day. -/
def maxIndexSequenceSkewSeconds : ℕ := 24 * 60 * 60

/-- 14 days. -/
def maxIndexLifetimeSeconds : ℕ := 14 * 24 * 60 * 60

def officialScope : Bytes := ascii "official"
def indexDomain : Bytes := ascii "pohunek-plugin-index-v1\n"
def indexKeyRecordDomain : Bytes := ascii "pohunek-plugin-index-key-record-v1\n"
def revocationDomain : Bytes := ascii "pohunek-plugin-index-revocations-v1\n"

/-- `index_key_record_signing_message`: the record without its signature. -/
def indexKeyRecordSigningMessage (record : IndexKeyRecord) : Bytes :=
  domainMessage indexKeyRecordDomain <| .object
      [(ascii "key_id", .string record.keyId.text), (ascii "public_key", .string record.publicKey),
      (ascii "scope", .string record.scope), (ascii "not_before", .number record.notBefore),
      (ascii "not_after", .number record.notAfter),
      (ascii "endorsed_by", .string record.endorsedBy.text)]

structure ParsedIndex where
  envelope : IndexEnvelope
  indexMessage : Bytes
  revocationMessage : Bytes

def checkIndexLimits (envelope : IndexEnvelope) : Except IndexError Unit := do
  require (envelope.index.entries.length ≤ maxIndexEntries) (.limit .entries)
  require (envelope.keyRecords.length ≤ maxIndexKeyRecords) (.limit .keyRecords)
  require (envelope.signatures.length ≤ maxIndexSignatures) (.limit .signatures)
  require (envelope.revocations.revocations.revokedKeyIds.length ≤ maxRevokedKeys)
    (.limit .revokedKeys)

section Parse

variable (parseStrict : Bytes → Except JsonError Value) (fromValue : Value → Option IndexEnvelope)

def parseDocument (bytes : Bytes) : Except IndexError ParsedIndex := do
  require (bytes.length ≤ maxIndexBytes) .tooLarge
  let value ← (parseStrict bytes).mapError .json
  require (!declaresOther indexSchemaVersion value
    [[ascii "schema_version"], [ascii "index", ascii "schema_version"],
      [ascii "revocations", ascii "revocations", ascii "schema_version"]]) .unsupportedSchemaVersion
  let envelope ← ofOption .schema (fromValue value)
  require (envelope.schemaVersion = indexSchemaVersion && envelope.index.schemaVersion =
    indexSchemaVersion &&
    envelope.revocations.revocations.schemaVersion = indexSchemaVersion) .unsupportedSchemaVersion
  checkIndexLimits envelope
  let index ← ofOption .schema (value.get (ascii "index"))
  let revocation ← ofOption .schema (value.pointer [ascii "revocations", ascii "revocations"])
  return ⟨envelope, domainMessage indexDomain index, domainMessage revocationDomain revocation⟩

end Parse

/-! ### Keys and signatures -/

variable {κ : Type} (ed : Ed25519 κ)

structure TrustedIndexKey (κ : Type) where
  key : κ
  notBefore : ℕ
  notAfter : ℕ

abbrev IndexKeySet (κ : Type) := List (KeyId × TrustedIndexKey κ)

def verifyRevocations (revocations : SignedRevocations) (endorser : RootKey ed) (message : Bytes) :
    Except IndexError Unit := do
  require (revocations.signature.keyId = endorser.id) .badRevocation
  let signature ← ofOption .badRevocation (decodeHex signatureBytes revocations.signature.signature)
  require (ed.verifyStrict endorser.key message signature) .badRevocation

def checkKeyRecord (record : IndexKeyRecord) (endorser : RootKey ed) (duplicate : Bool) :
    Except IndexError κ := do
  let key ← recordKey ed record.publicKey record.keyId IndexError.malformedKeyMaterial .keyIdMismatch
  require (!(record.keyId = endorser.id || duplicate)) .duplicateKeyId
  require (record.notBefore < record.notAfter) .emptyKeyWindow
  require (record.notAfter - record.notBefore ≤ maxIndexKeyWindowSeconds) .keyWindowTooLong
  require (record.scope = officialScope) .scopeMismatch
  require (record.endorsedBy = endorser.id) .unknownEndorser
  let signature ← ofOption .malformedKeyMaterial (decodeHex signatureBytes record.signature)
  require (ed.verifyStrict endorser.key (indexKeyRecordSigningMessage record) signature) .badEndorsement
  return key

/-- One turn of the loop of `build_key_set`. -/
def admitIndexKey (endorser : RootKey ed) (keys : IndexKeySet κ) (record : IndexKeyRecord) :
    Except IndexError (IndexKeySet κ) := do
  let key ← checkKeyRecord ed record endorser (keys.lookup record.keyId).isSome
  return (record.keyId, ⟨key, record.notBefore, record.notAfter⟩) :: keys

def buildIndexKeySet (records : List IndexKeyRecord) (endorser : RootKey ed) :
    Except IndexError (IndexKeySet κ) :=
  records.foldlM (admitIndexKey ed endorser) []

def verifyOneIndex (keys : IndexKeySet κ) (revoked : List KeyId) (message : Bytes) (now : ℕ)
    (entry : CatalogSignature) : Except IndexError Unit := do
  let trusted ← ofOption .unknownSigner (keys.lookup entry.keyId)
  require (!revoked.contains entry.keyId) .signerRevoked
  require (trusted.notBefore ≤ now) .signerNotYetValid
  require (now < trusted.notAfter) .signerExpired
  let signature ← ofOption .malformedKeyMaterial (decodeHex signatureBytes entry.signature)
  require (ed.verifyStrict trusted.key message signature) .badSignature

def verifyIndexSignatures (signatures : List CatalogSignature) (keys : IndexKeySet κ)
    (revoked : List KeyId) (message : Bytes) (now : ℕ) : Except IndexError KeyId :=
  acceptSignatures .noSignatures .duplicateSignature .unknownSigner
  (verifyOneIndex ed keys revoked message now)
    signatures

/-! ### The index -/

structure VerifiedIndex where
  sequence : ℕ
  expiresAt : ℕ
  revocationSequence : ℕ
  signer : KeyId
  revokedKeyIds : List KeyId
  entries : List IndexEntry

def checkBody (body : IndexBody) (state : IndexVerifierState) (now : ℕ) : Except IndexError Unit := do
  require (body.scope = officialScope) .scopeMismatch
  require (state.indexHighWater.all fun highWater => highWater ≤ body.sequence)
    (.staleSequence body.sequence (state.indexHighWater.getD 0))
  require (body.sequence ≤ min (now + maxIndexSequenceSkewSeconds) (2 ^ 64 - 1)) .sequenceInFuture
  require (body.sequence < body.expiresAt && body.expiresAt - body.sequence ≤
    maxIndexLifetimeSeconds) .lifetimeTooLong
  require (now < body.expiresAt) .expired

variable (parseStrict : Bytes → Except JsonError Value) (fromValue : Value → Option IndexEnvelope)

def verifyIndex (bytes : Bytes) (endorser : RootKey ed) (baseRevoked : List KeyId)
    (state : IndexVerifierState) (now : ℕ) : Except IndexError VerifiedIndex := do
  let parsed ← parseDocument parseStrict fromValue bytes
  let envelope := parsed.envelope
  require (endorser.notBefore ≤ now) .endorserNotYetValid
  require (now < endorser.notAfter) .endorserExpired
  let revocations := envelope.revocations
  verifyRevocations ed revocations endorser parsed.revocationMessage
  let revocationSequence := revocations.revocations.sequence
  require (state.revocationHighWater.all fun highWater => highWater ≤ revocationSequence)
    (.staleRevocation revocationSequence (state.revocationHighWater.getD 0))
  let revoked := baseRevoked ++ state.revokedKeyIds ++ revocations.revocations.revokedKeyIds
  require (!revoked.contains endorser.id) .signerRevoked
  let trusted ← buildIndexKeySet ed envelope.keyRecords endorser
  let signer ← verifyIndexSignatures ed envelope.signatures trusted revoked parsed.indexMessage now
  checkBody envelope.index state now
  (checkEntries envelope.index.entries).mapError fun e => .entry e.1 e.2
  return ⟨envelope.index.sequence, envelope.index.expiresAt, revocationSequence, signer,
    revocations.revocations.revokedKeyIds, envelope.index.entries⟩

end Pohunek.Package

/-
# What a host remembers of signed documents

The two state files of the registry (`crates/package/src/catalog_state.rs` and
`index_state.rs`) and how the daemon verifies against them
(`verify_catalog_document` and `verify_index_document` of
`crates/daemon/src/packages/trust.rs`).

A state file is what `Deserialize` makes of its text, once for the schema
number alone and once for the whole file; what was serialized is read back. A
call may fail at each of its file operations (`RecordIo`), and a file may be
damaged from outside at any time (`Event.damageCatalog`, `Event.damageIndex`).
-/
import Pohunek.Package.PluginIndex
import Pohunek.Lib.Run

namespace Pohunek.Package

open Fallible

/-! ### State files -/

/-- `notPrivate` is `RegistryError::Unsafe`. -/
inductive RegistryError
  | busy | corrupt | unsupportedSchema | notPrivate | tooManyRevokedKeys | commitUncertain | filesystem
  deriving DecidableEq

/-- A text as the two passes of `parse_state` see it. -/
structure StateText (φ : Type) where
  header : Option ℕ
  file : Option φ
  deriving DecidableEq

structure CatalogStateFile where
  schema : ℕ
  highWater : Option ℕ
  revokedKeyIds : List KeyId
  deriving DecidableEq

structure IndexStateFile where
  schema : ℕ
  indexHighWater : Option ℕ
  revocationHighWater : Option ℕ
  revokedKeyIds : List KeyId
  deriving DecidableEq

structure CatalogState where
  highWater : Option ℕ
  revokedKeyIds : List KeyId
  deriving DecidableEq

def CatalogState.default : CatalogState := ⟨none, []⟩

def IndexVerifierState.default : IndexVerifierState := ⟨none, none, []⟩

/-- `CATALOG_STATE_SCHEMA` and `INDEX_STATE_SCHEMA`. -/
def stateSchema : ℕ := 1

/-- The order of key ids. -/
def KeyId.below (a b : KeyId) : Prop := pathKey a.text < pathKey b.text

instance : DecidableRel KeyId.below :=
  fun a b => inferInstanceAs (Decidable (pathKey a.text < pathKey b.text))

/-- `BTreeSet::extend`: the ids of both, in ascending order. -/
def united (a b : List KeyId) : List KeyId :=
  (a ++ b).dedup.insertionSort fun left right => pathKey left.text ≤ pathKey right.text

variable {φ σ : Type}

/-- `parse_state` of either file. -/
def parseState (ids : φ → List KeyId) (state : φ → σ) (text : StateText φ) :
    Except RegistryError σ := do
  let header ← ofOption .corrupt text.header
  require (header = stateSchema) .unsupportedSchema
  let file ← ofOption .corrupt text.file
  require ((ids file).length ≤ maxRevokedKeys && (ids file).IsChain KeyId.below) .corrupt
  return state file

def parseCatalogState : StateText CatalogStateFile → Except RegistryError CatalogState :=
  parseState CatalogStateFile.revokedKeyIds fun file => ⟨file.highWater, file.revokedKeyIds⟩

def parseIndexState : StateText IndexStateFile → Except RegistryError IndexVerifierState :=
  parseState IndexStateFile.revokedKeyIds fun file =>
    ⟨file.indexHighWater, file.revocationHighWater, file.revokedKeyIds⟩

/-- A state file is read. Without a file the state is empty; `fault` is a
failure of the read itself. -/
def loadState (empty : σ) (parse : StateText φ → Except RegistryError σ)
    (fault : Option RegistryError) (file : Option (StateText φ)) : Except RegistryError σ :=
  match fault, file with
  | some e, _ => .error e
  | none, none => .ok empty
  | none, some text => parse text

def catalogState : Option RegistryError → Option (StateText CatalogStateFile) →
    Except RegistryError CatalogState :=
  loadState .default parseCatalogState

def indexState : Option RegistryError → Option (StateText IndexStateFile) →
    Except RegistryError IndexVerifierState :=
  loadState .default parseIndexState

/-! ### Recording -/

/-- What `replace_file` came to. -/
inductive Replacement
  | committed
  | beforeCommit (error : RegistryError)
  /-- The file was replaced, its durability is uncertain. -/
  | uncertain
  deriving DecidableEq

/-- The file operations of one call: the faults of the lock, of the removal of
a stale temporary file and of the read, and the replacement. -/
structure RecordIo where
  lock : Option RegistryError
  cleanup : Option RegistryError
  read : Option RegistryError
  replace : Replacement
  deriving DecidableEq

def faultless {ε : Type} : Option ε → Except ε Unit
  | some e => .error e
  | none => .ok ()

/-- `record_catalog` and `record_index`: the file afterwards and the answer. -/
def recordState [DecidableEq σ]
    (load : Option RegistryError → Option (StateText φ) → Except RegistryError σ) (stale : σ → Bool)
    (merge : σ → σ) (ids : σ → List KeyId) (write : σ → StateText φ) (io : RecordIo)
    (file : Option (StateText φ)) : Option (StateText φ) × Except RegistryError σ :=
  match (do faultless io.lock; faultless io.cleanup; load io.read file) with
  | .error e => (file, .error e)
  | .ok current =>
    if stale current then (file, .ok current)
    else if maxRevokedKeys < (ids (merge current)).length then (file, .error .tooManyRevokedKeys)
    else if merge current = current then (file, .ok current)
    else
      match io.replace with
      | .committed => (some (write (merge current)), .ok (merge current))
      | .beforeCommit e => (file, .error e)
      | .uncertain => (some (write (merge current)), .error .commitUncertain)

/-- The larger of a stored mark and a document sequence. -/
def raised (stored : Option ℕ) (sequence : ℕ) :
    ℕ := stored.elim sequence fun mark => max mark sequence

/-- A document sequence below the stored mark. -/
def belowMark (stored : Option ℕ) (sequence : ℕ) : Bool := stored.any fun mark => sequence < mark

section Record

variable {ν ρ : Type}

def CatalogState.stale (verified : VerifiedCatalog ν ρ) (current : CatalogState) : Bool :=
  belowMark current.highWater verified.sequence

def CatalogState.merge (verified : VerifiedCatalog ν ρ) (current : CatalogState) : CatalogState :=
  ⟨some (raised current.highWater verified.sequence),
    united current.revokedKeyIds verified.revokedKeyIds⟩

def CatalogState.write (state : CatalogState) : StateText CatalogStateFile :=
  ⟨some stateSchema, some ⟨stateSchema, state.highWater, state.revokedKeyIds⟩⟩

def recordCatalog (verified : VerifiedCatalog ν ρ) :
    RecordIo → Option (StateText CatalogStateFile) →
      Option (StateText CatalogStateFile) × Except RegistryError CatalogState :=
  recordState catalogState (CatalogState.stale verified)
  (CatalogState.merge verified) CatalogState.revokedKeyIds
    CatalogState.write

end Record

def IndexVerifierState.stale (verified : VerifiedIndex) (current : IndexVerifierState) : Bool :=
  belowMark current.indexHighWater verified.sequence ||
    belowMark current.revocationHighWater verified.revocationSequence

def IndexVerifierState.merge (verified : VerifiedIndex) (current : IndexVerifierState) :
    IndexVerifierState :=
  ⟨some (raised current.indexHighWater verified.sequence),
    some (raised current.revocationHighWater verified.revocationSequence),
    united current.revokedKeyIds verified.revokedKeyIds⟩

def IndexVerifierState.write (state : IndexVerifierState) : StateText IndexStateFile :=
  ⟨some stateSchema,
    some ⟨stateSchema, state.indexHighWater, state.revocationHighWater, state.revokedKeyIds⟩⟩

def recordIndex (verified : VerifiedIndex) :
    RecordIo → Option (StateText IndexStateFile) →
      Option (StateText IndexStateFile) × Except RegistryError IndexVerifierState :=
  recordState indexState (IndexVerifierState.stale verified) (IndexVerifierState.merge verified)
    IndexVerifierState.revokedKeyIds IndexVerifierState.write

/-! ### Verification on a host -/

/-- `HostTrustAnchor` with the libraries of the verifiers. Without an endorser
the host has no index channel. -/
structure Host (κ ν ρ : Type) where
  ed : Ed25519 κ
  semver : Semver ν ρ
  parseStrict : Bytes → Except JsonError Value
  catalogEnvelope : Value → Option CatalogEnvelope
  indexEnvelope : Value → Option IndexEnvelope
  roots : List (RootKey ed)
  revoked : List KeyId
  endorser : Option (RootKey ed)

inductive PackageErrorKind
  | untrusted | registryFailed | trustUnavailable
  deriving DecidableEq

variable {κ ν ρ : Type}

/-- The anchor with the base revocations plus the persisted ones. -/
def Host.anchor (host : Host κ ν ρ) (persisted : List KeyId) :
    Except TrustAnchorError (TrustAnchor host.ed) :=
  TrustAnchor.new host.ed host.roots (host.revoked ∪ persisted)

def verifyCatalogDocument (host : Host κ ν ρ) (bytes : Bytes) (state : CatalogState) (now : ℕ) :
    Except PackageErrorKind (VerifiedCatalog ν ρ) := do
  let anchor ← (host.anchor state.revokedKeyIds).mapError fun _ => .registryFailed
  (verifyCatalog host.ed host.semver host.parseStrict host.catalogEnvelope bytes anchor now
    state.highWater).mapError fun _ => .untrusted

def verifyIndexDocument (host : Host κ ν ρ) (bytes : Bytes) (catalogState : CatalogState)
    (state : IndexVerifierState) (now : ℕ) : Except PackageErrorKind VerifiedIndex := do
  let endorser ← ofOption .trustUnavailable host.endorser
  (verifyIndex host.ed host.parseStrict host.indexEnvelope bytes endorser
    (host.revoked ∪ catalogState.revokedKeyIds) state now).mapError fun _ => .untrusted

/-! ### Runs -/

/-- A catalog that was accepted, with the state it was verified against. -/
structure AcceptedCatalog (ν ρ : Type) where
  bytes : Bytes
  now : ℕ
  stored : CatalogState
  verified : VerifiedCatalog ν ρ

structure AcceptedIndex where
  bytes : Bytes
  now : ℕ
  catalogStored : CatalogState
  stored : IndexVerifierState
  verified : VerifiedIndex

/-- The state files, and the documents accepted so far. -/
structure TrustStore (ν ρ : Type) where
  catalogFile : Option (StateText CatalogStateFile)
  indexFile : Option (StateText IndexStateFile)
  catalogs : List (AcceptedCatalog ν ρ)
  indexes : List AcceptedIndex

inductive Event
  | verifyCatalog (bytes : Bytes) (now : ℕ) (read : Option RegistryError)
  | verifyIndex (bytes : Bytes) (now : ℕ) (readCatalog readIndex : Option RegistryError)
  /-- The `k`-th accepted document is recorded. -/
  | recordCatalog (k : ℕ) (io : RecordIo)
  | recordIndex (k : ℕ) (io : RecordIo)
  | damageCatalog (text : StateText CatalogStateFile)
  | damageIndex (text : StateText IndexStateFile)

/-- A catalog is verified against the stored state. -/
def TrustStore.verifyCatalog (host : Host κ ν ρ) (s : TrustStore ν ρ) (bytes : Bytes) (now : ℕ)
    (read : Option RegistryError) : TrustStore ν ρ :=
  match Package.catalogState read s.catalogFile with
  | .error _ => s
  | .ok stored =>
    match verifyCatalogDocument host bytes stored now with
    | .error _ => s
    | .ok verified => { s with catalogs := s.catalogs ++ [⟨bytes, now, stored, verified⟩] }

def TrustStore.verifyIndex (host : Host κ ν ρ) (s : TrustStore ν ρ) (bytes : Bytes) (now : ℕ)
    (readCatalog readIndex : Option RegistryError) : TrustStore ν ρ :=
  match Package.catalogState readCatalog s.catalogFile,
    Package.indexState readIndex s.indexFile with
  | .ok catalogStored, .ok stored =>
    match verifyIndexDocument host bytes catalogStored stored now with
    | .error _ => s
    | .ok verified =>
      { s with indexes := s.indexes ++ [⟨bytes, now, catalogStored, stored, verified⟩] }
  | _, _ => s

def TrustStore.step (host : Host κ ν ρ) (s : TrustStore ν ρ) : Event → Option (TrustStore ν ρ)
  | .verifyCatalog bytes now read => some (s.verifyCatalog host bytes now read)
  | .verifyIndex bytes now readCatalog readIndex =>
    some (s.verifyIndex host bytes now readCatalog readIndex)
  | .recordCatalog k io =>
    s.catalogs[k]?.map fun accepted =>
      { s with catalogFile := (recordCatalog accepted.verified io s.catalogFile).1 }
  | .recordIndex k io =>
    s.indexes[k]?.map fun accepted =>
      { s with indexFile := (recordIndex accepted.verified io s.indexFile).1 }
  -- a damaged file is one that cannot be parsed
  | .damageCatalog text => if (parseCatalogState text).isOk then none
    else some { s with catalogFile := some text }
  | .damageIndex text => if (parseIndexState text).isOk then none
    else some { s with indexFile := some text }

abbrev TrustRun (host : Host κ ν ρ) : TrustStore ν ρ → List Event → TrustStore ν ρ → Prop :=
  Runs.Run fun s e t => s.step host e = some t

end Pohunek.Package

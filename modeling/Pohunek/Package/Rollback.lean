/-
# No way back

Recording a document only moves the stored state up: its marks rise and its
revoked ids grow (`recordState_ahead`, by way of `CatalogState.merge_le` and
`IndexVerifierState.merge_le`). A file that cannot be read is left alone. So
along every run a file that is read again has moved up, and one that was
damaged stays damaged (`Ahead`, `ahead_run`); a document is accepted at or
above the marks, and through keys outside of the revoked ids, of the state that
is stored at that moment.

Key theorems: `recordState_ahead`, `ahead_run`, `anti_rollback`.
-/
import Pohunek.Package.TrustState
import Pohunek.Package.KeyChain

namespace Pohunek.Package

open Fallible Runs TrustStore List Option CatalogState

/-! ### Moving up -/

/-- A mark is at most another; no mark is below every mark. -/
def MarkLe (a b : Option ℕ) : Prop := ∀ m, a = some m → ∃ m', b = some m' ∧ m ≤ m'

theorem MarkLe.refl (a : Option ℕ) : MarkLe a a := fun m h => ⟨m, h, Nat.le_refl m⟩

theorem MarkLe.trans {a b c : Option ℕ} (h : MarkLe a b) (h' : MarkLe b c) : MarkLe a c := by
  intro m hm
  obtain ⟨m', hm', hle⟩ := h m hm
  obtain ⟨m'', hm'', hle'⟩ := h' m' hm'
  exact ⟨m'', hm'', hle.trans hle'⟩

theorem markLe_raised (stored : Option ℕ) (sequence : ℕ) :
    MarkLe stored (some (raised stored sequence)) := by
  rintro m rfl
  exact ⟨_, rfl, Nat.le_max_left m sequence⟩

structure CatalogState.Le (a b : CatalogState) : Prop where
  mark : MarkLe a.highWater b.highWater
  revoked : a.revokedKeyIds ⊆ b.revokedKeyIds

structure IndexVerifierState.Le (a b : IndexVerifierState) : Prop where
  mark : MarkLe a.indexHighWater b.indexHighWater
  revocationMark : MarkLe a.revocationHighWater b.revocationHighWater
  revoked : a.revokedKeyIds ⊆ b.revokedKeyIds

theorem CatalogState.Le.refl (a : CatalogState) : a.Le a := ⟨.refl _, List.Subset.refl _⟩

theorem CatalogState.Le.trans {a b c : CatalogState} (h : a.Le b) (h' : b.Le c) : a.Le c :=
  ⟨h.mark.trans h'.mark, List.Subset.trans h.revoked h'.revoked⟩

theorem IndexVerifierState.Le.refl (a : IndexVerifierState) :
    a.Le a := ⟨.refl _, .refl _, List.Subset.refl _⟩

theorem IndexVerifierState.Le.trans {a b c : IndexVerifierState} (h : a.Le b)
    (h' : b.Le c) : a.Le c :=
  ⟨h.mark.trans h'.mark, h.revocationMark.trans h'.revocationMark,
  List.Subset.trans h.revoked h'.revoked⟩

/-- What is read later is above what was read before, and what cannot be read
stays so. -/
structure Ahead {σ : Type} (R : σ → σ → Prop) (before after : Option σ) : Prop where
  up : ∀ a b, before = some a → after = some b → R a b
  damaged : before = none → after = none

namespace Ahead

variable {σ : Type} {R : σ → σ → Prop}

theorem refl (hR : ∀ a, R a a) (a : Option σ) : Ahead R a a := by
  refine ⟨?_, id⟩
  rintro x y hx hy
  cases hx.symm.trans hy
  exact hR x

theorem trans (hR : ∀ {a b c}, R a b → R b c → R a c) {a b c : Option σ} (h : Ahead R a b)
    (h' : Ahead R b c) : Ahead R a c := by
  refine ⟨fun x z hx hz => ?_, fun ha => h'.damaged (h.damaged ha)⟩
  cases hb : b with
  | none =>
    rw [h'.damaged hb] at hz
    exact nomatch hz
  | some y => exact hR (h.up x y hx hb) (h'.up y z hb hz)

theorem of_none {a : Option σ} : Ahead R a none := ⟨fun _ _ _ h => (nomatch h), fun _ => rfl⟩

theorem of_le {a b : σ} (h : R a b) : Ahead R (some a) (some b) := by
  refine ⟨?_, fun h => (nomatch h)⟩
  rintro x y hx hy
  cases hx
  cases hy
  exact h

end Ahead

/-! ### Recording -/

theorem mem_united {a b : List KeyId} {id : KeyId} : id ∈ united a b ↔ id ∈ a ∨ id ∈ b := by
  rw [united, (perm_insertionSort _ _).mem_iff, mem_dedup, mem_append]

theorem KeyId.eq_of_pathKey {a b : KeyId} (h : pathKey a.text = pathKey b.text) : a = b := by
  obtain ⟨text, hex⟩ := a
  obtain ⟨text', hex'⟩ := b
  obtain rfl : text = text' := pathKey_inj.mp h
  rfl

/-- United ids are in strictly ascending order. -/
theorem united_isChain (a b : List KeyId) : (united a b).IsChain KeyId.below := by
  have hle := pairwise_insertionSort
    (fun left right : KeyId => pathKey left.text ≤ pathKey right.text) (a ++ b).dedup
  have hne : (united a b).Nodup := (perm_insertionSort _ _).nodup_iff.mpr (nodup_dedup _)
  have hlt : (united a b).Pairwise KeyId.below :=
    hle.imp₂ (fun left right hle hne => lt_of_le_of_ne hle fun heq =>
      hne (KeyId.eq_of_pathKey heq)) hne
  exact hlt.isChain

section Record

variable {φ σ : Type} {empty : σ} {parse : StateText φ → Except RegistryError σ}

/-- The state a file holds, where it can be read. -/
def held (empty : σ) (parse : StateText φ → Except RegistryError σ) (file : Option (StateText φ)) :
    Option σ :=
  (loadState empty parse none file).toOption

variable {file : Option (StateText φ)}

theorem held_eq_some_iff {a : σ} :
    held empty parse file = some a ↔ loadState empty parse none file = .ok a := by
  rw [held]
  cases loadState empty parse none file with
  | error e => exact ⟨nofun, nofun⟩
  | ok b => exact ⟨fun h => congrArg Except.ok (some.inj h),
    fun h => congrArg some (Except.ok.inj h)⟩

theorem loadState_ok {fault : Option RegistryError} {a : σ}
    (h : loadState empty parse fault file = .ok a) : held empty parse file = some a := by
  cases fault with
  | some e => exact nomatch h
  | none => exact held_eq_some_iff.mpr h

variable [DecidableEq σ] (stale : σ → Bool) (merge : σ → σ) (ids : σ → List KeyId)
    (write : σ → StateText φ)

/-- A call that records leaves the file as it is, or writes what it merged into
the state it has read. -/
theorem recordState_cases (io : RecordIo) (file : Option (StateText φ)) :
    (recordState (loadState empty parse) stale merge ids write io file).1 = file ∨
      ∃ current, loadState empty parse io.read file = .ok current ∧
      (ids (merge current)).length ≤ maxRevokedKeys ∧
        (recordState (loadState empty parse) stale merge ids write io file).1 =
        some (write (merge current)) := by
  unfold recordState
  split
  · exact .inl rfl
  · rename_i current hload
    simp only [bind_ok_iff] at hload
    obtain ⟨-, -, -, -, hload⟩ := hload
    split_ifs with hstale hmany hsame
    · exact .inl rfl
    · exact .inl rfl
    · exact .inl rfl
    · have hfew := Nat.le_of_not_lt hmany
      cases io.replace with
      | committed => exact .inr ⟨current, hload, hfew, rfl⟩
      | beforeCommit e => exact .inl rfl
      | uncertain => exact .inr ⟨current, hload, hfew, rfl⟩

/-- A file that cannot be read is left alone. -/
theorem recordState_unreadable {io : RecordIo} {e : RegistryError}
    (h : loadState empty parse io.read file = .error e) :
    (recordState (loadState empty parse) stale merge ids write io file).1 = file := by
  rcases recordState_cases stale merge ids write io file with hsame | ⟨current, hload, -⟩
  · exact hsame
  · rw [h] at hload
    exact nomatch hload

variable {merge ids write}

/-- **Recording moves up.** -/
theorem recordState_ahead {R : σ → σ → Prop} (hrefl : ∀ a, R a a) (hmerge : ∀ a, R a (merge a))
    (hwrite : ∀ a, (ids (merge a)).length ≤ maxRevokedKeys →
      parse (write (merge a)) = .ok (merge a)) (io : RecordIo) (file : Option (StateText φ)) :
    Ahead R (held empty parse file)
      (held empty parse (recordState (loadState empty parse) stale merge ids write io file).1) := by
  rcases recordState_cases stale merge ids write io file with
    hsame | ⟨current, hload, hfew, hwritten⟩
  · rw [hsame]
    exact .refl hrefl _
  · have hafter : held empty parse (some (write (merge current))) = some (merge current) :=
      held_eq_some_iff.mpr (hwrite current hfew)
    rw [hwritten, loadState_ok hload, hafter]
    exact .of_le (hmerge current)

end Record

section Merge

variable {ν ρ : Type}

theorem CatalogState.merge_le (verified : VerifiedCatalog ν ρ) (a : CatalogState) :
    a.Le (a.merge verified) :=
  ⟨markLe_raised _ _, fun _ h => mem_united.mpr (.inl h)⟩

theorem IndexVerifierState.merge_le (verified : VerifiedIndex) (a : IndexVerifierState) :
    a.Le (a.merge verified) :=
  ⟨markLe_raised _ _, markLe_raised _ _, fun _ h => mem_united.mpr (.inl h)⟩

theorem parseCatalogState_write (verified : VerifiedCatalog ν ρ) (a : CatalogState)
    (h : (a.merge verified).revokedKeyIds.length ≤ maxRevokedKeys) :
    parseCatalogState (a.merge verified).write = .ok (a.merge verified) := by
  simp only [parseCatalogState, parseState, CatalogState.write, bind_ok_iff, ofOption_ok_iff,
    require_ok_iff, pure_ok_iff, exists_const, Bool.and_eq_true, decide_eq_true_eq]
  exact ⟨stateSchema, rfl, rfl, _, rfl, ⟨h, united_isChain _ _⟩, rfl⟩

theorem parseIndexState_write (verified : VerifiedIndex) (a : IndexVerifierState)
    (h : (a.merge verified).revokedKeyIds.length ≤ maxRevokedKeys) :
    parseIndexState (a.merge verified).write = .ok (a.merge verified) := by
  simp only [parseIndexState, parseState, IndexVerifierState.write, bind_ok_iff, ofOption_ok_iff,
    require_ok_iff, pure_ok_iff, exists_const, Bool.and_eq_true, decide_eq_true_eq]
  exact ⟨stateSchema, rfl, rfl, _, rfl, ⟨h, united_isChain _ _⟩, rfl⟩

end Merge

/-! ### Runs -/

section Runs

variable {κ ν ρ : Type} {host : Host κ ν ρ} {s t : TrustStore ν ρ} {e : Event}

/-- The stored catalog state, where the file can be read. -/
def TrustStore.heldCatalog (s : TrustStore ν ρ) : Option CatalogState :=
  held CatalogState.default parseCatalogState s.catalogFile

def TrustStore.heldIndex (s : TrustStore ν ρ) : Option IndexVerifierState :=
  held IndexVerifierState.default parseIndexState s.indexFile

theorem recordCatalog_ahead (verified : VerifiedCatalog ν ρ) (io : RecordIo) (s : TrustStore ν ρ) :
    Ahead CatalogState.Le s.heldCatalog
      (held default parseCatalogState (recordCatalog verified io s.catalogFile).1) :=
  recordState_ahead _ CatalogState.Le.refl (merge_le verified)
  (parseCatalogState_write verified) io _

theorem recordIndex_ahead (verified : VerifiedIndex) (io : RecordIo) (s : TrustStore ν ρ) :
    Ahead IndexVerifierState.Le s.heldIndex
      (held IndexVerifierState.default parseIndexState (recordIndex verified io s.indexFile).1) :=
  recordState_ahead _ IndexVerifierState.Le.refl (IndexVerifierState.merge_le verified)
    (parseIndexState_write verified) io _

/-- A document that is verified leaves the files alone, and is accepted only
against the stored state. -/
theorem verifyCatalog_cases (s : TrustStore ν ρ) (bytes : Bytes) (now : ℕ)
    (read : Option RegistryError) : s.verifyCatalog host bytes now read = s ∨
      ∃ stored verified, s.heldCatalog = some stored ∧
      verifyCatalogDocument host bytes stored now = .ok verified ∧
        s.verifyCatalog host bytes now read =
        { s with catalogs := s.catalogs ++ [⟨bytes, now, stored, verified⟩] } := by
  unfold TrustStore.verifyCatalog
  split
  · exact .inl rfl
  · rename_i stored hload
    split
    · exact .inl rfl
    · rename_i verified hverified
      exact .inr ⟨stored, verified, loadState_ok hload, hverified, rfl⟩

theorem verifyIndex_cases (s : TrustStore ν ρ) (bytes : Bytes) (now : ℕ)
    (readCatalog readIndex : Option RegistryError) :
    s.verifyIndex host bytes now readCatalog readIndex = s ∨
      ∃ catalogStored stored verified, s.heldCatalog = some catalogStored ∧
      s.heldIndex = some stored ∧
        verifyIndexDocument host bytes catalogStored stored now = .ok verified ∧
        s.verifyIndex host bytes now readCatalog readIndex =
          { s with indexes := s.indexes ++ [⟨bytes, now, catalogStored, stored, verified⟩] } := by
  unfold TrustStore.verifyIndex
  split
  · rename_i catalogStored stored hcatalog hindex
    split
    · exact .inl rfl
    · rename_i verified hverified
      exact .inr ⟨catalogStored, stored, verified, loadState_ok hcatalog, loadState_ok hindex,
        hverified, rfl⟩
  · exact .inl rfl

/-- What one step does to the files and to the accepted documents. -/
structure Effect (host : Host κ ν ρ) (s t : TrustStore ν ρ) : Prop where
  catalogFile : Ahead CatalogState.Le s.heldCatalog t.heldCatalog
  indexFile : Ahead IndexVerifierState.Le s.heldIndex t.heldIndex
  catalogs : t.catalogs = s.catalogs ∨ ∃ a : AcceptedCatalog ν ρ, t.catalogs = s.catalogs ++ [a] ∧
    s.heldCatalog = some a.stored ∧ verifyCatalogDocument host a.bytes a.stored a.now =
    .ok a.verified
  indexes : t.indexes = s.indexes ∨ ∃ a : AcceptedIndex, t.indexes = s.indexes ++ [a] ∧
    s.heldCatalog = some a.catalogStored ∧ s.heldIndex = some a.stored ∧
    verifyIndexDocument host a.bytes a.catalogStored a.stored a.now = .ok a.verified

theorem Effect.refl (s : TrustStore ν ρ) : Effect host s s :=
  ⟨.refl CatalogState.Le.refl _, .refl IndexVerifierState.Le.refl _, .inl rfl, .inl rfl⟩

theorem held_damaged {φ σ : Type} {empty : σ} {parse : StateText φ → Except RegistryError σ}
    {text : StateText φ} (h : ¬ (parse text).isOk) : held empty parse (some text) = none := by
  cases hparse : parse text with
  | ok a =>
    rw [hparse] at h
    exact absurd rfl h
  | error e =>
    show (parse text).toOption = none
    rw [hparse]
    rfl

theorem step_effect (h : s.step host e = some t) : Effect host s t := by
  cases e with
  | verifyCatalog bytes now read =>
    cases h
    rcases @verifyCatalog_cases _ _ _ host s bytes now read with hsame | ⟨stored, verified, hheld,
      hverified, heq⟩
    · rw [hsame]
      exact .refl s
    · rw [heq]
      exact ⟨.refl CatalogState.Le.refl _, .refl IndexVerifierState.Le.refl _,
        .inr ⟨_, rfl, hheld, hverified⟩, .inl rfl⟩
  | verifyIndex bytes now readCatalog readIndex =>
    cases h
    rcases @verifyIndex_cases _ _ _ host s bytes now readCatalog readIndex with
      hsame | ⟨catalogStored, stored, verified, hcatalog, hindex, hverified, heq⟩
    · rw [hsame]
      exact .refl s
    · rw [heq]
      exact ⟨.refl CatalogState.Le.refl _, .refl IndexVerifierState.Le.refl _, .inl rfl,
        .inr ⟨_, rfl, hcatalog, hindex, hverified⟩⟩
  | recordCatalog k io =>
    obtain ⟨accepted, -, rfl⟩ := Option.map_eq_some_iff.mp h
    exact ⟨recordCatalog_ahead accepted.verified io s, .refl IndexVerifierState.Le.refl _,
      .inl rfl, .inl rfl⟩
  | recordIndex k io =>
    obtain ⟨accepted, -, rfl⟩ := Option.map_eq_some_iff.mp h
    exact ⟨.refl CatalogState.Le.refl _, recordIndex_ahead accepted.verified io s,
      .inl rfl, .inl rfl⟩
  | damageCatalog text =>
    rw [step] at h
    split_ifs at h with hok
    cases h
    refine ⟨?_, .refl IndexVerifierState.Le.refl _, .inl rfl, .inl rfl⟩
    rw [show heldCatalog { s with catalogFile := some text } = none from held_damaged hok]
    exact .of_none
  | damageIndex text =>
    rw [step] at h
    split_ifs at h with hok
    cases h
    refine ⟨.refl CatalogState.Le.refl _, ?_, .inl rfl, .inl rfl⟩
    rw [show heldIndex { s with indexFile := some text } = none from held_damaged hok]
    exact .of_none

/-- **Along every run** the files move up. -/
theorem ahead_run {events : List Event} (h : TrustRun host s events t) :
    Ahead CatalogState.Le s.heldCatalog t.heldCatalog ∧
    Ahead IndexVerifierState.Le s.heldIndex t.heldIndex := by
  refine Run.invariant ⟨.refl CatalogState.Le.refl _, .refl IndexVerifierState.Le.refl _⟩ ?_ h
  rintro t e u ⟨hcatalog, hindex⟩ hstep
  have heffect := step_effect hstep
  exact ⟨hcatalog.trans (fun h h' => h.trans h') heffect.catalogFile,
    hindex.trans (fun h h' => h.trans h') heffect.indexFile⟩

end Runs

/-! ### Accepted documents -/

section Accepted

variable {κ ν ρ : Type} (host : Host κ ν ρ)

/-- A catalog has a signature through a chain of keys none of which is in
`revoked`. -/
def CatalogSignedOutside (bytes : Bytes) (revoked : List KeyId) : Prop :=
  ∃ (anchor : TrustAnchor host.ed) (envelope : CatalogEnvelope) (message : Bytes),
    anchor.roots = host.roots ∧
    parseCatalog host.parseStrict host.catalogEnvelope bytes = .ok (envelope, message) ∧
    ∃ entry ∈ envelope.signatures, ∃ link rest,
    Endorsed host.ed anchor envelope.keyChain (link :: rest) ∧
      Signs host.ed link message entry ∧ ∀ l ∈ link :: rest, l.1 ∉ revoked

/-- A record introduces an index key that the endorser vouches for. -/
structure Introduces {κ : Type} (ed : Ed25519 κ) (endorser : RootKey ed) (record : IndexKeyRecord)
    (id : KeyId)
    (trusted : TrustedIndexKey κ) : Prop where
  id_eq : record.keyId = id
  key_eq : recordKey ed record.publicKey record.keyId IndexError.malformedKeyMaterial
    .keyIdMismatch = .ok trusted.key
  endorsed_by : record.endorsedBy = endorser.id
  endorsed : ∃ signature, decodeHex signatureBytes record.signature = some signature ∧
    ed.verifyStrict endorser.key (indexKeyRecordSigningMessage record) signature

/-- An index has a signature of a key that the endorser has introduced, neither
of which is in `revoked`. -/
def IndexSignedOutside (bytes : Bytes) (revoked : List KeyId) : Prop :=
  ∃ (endorser : RootKey host.ed) (parsed : ParsedIndex), host.endorser = some endorser ∧
    parseDocument host.parseStrict host.indexEnvelope bytes = .ok parsed ∧ endorser.id ∉ revoked ∧
    ∃ entry ∈ parsed.envelope.signatures, entry.keyId ∉ revoked ∧
    ∃ record ∈ parsed.envelope.keyRecords, ∃ trusted,
      Introduces host.ed endorser record entry.keyId trusted ∧
    ∃ signature, decodeHex signatureBytes entry.signature = some signature ∧
      host.ed.verifyStrict trusted.key parsed.indexMessage signature

variable {host}

variable {bytes : Bytes} {revoked revoked' : List KeyId}

theorem CatalogSignedOutside.mono
    (h : CatalogSignedOutside host bytes revoked) (hsub : revoked' ⊆ revoked) :
    CatalogSignedOutside host bytes revoked' := by
  obtain ⟨anchor, envelope, message, hroots, hparse, entry, hentry, link, rest, hchain, hsigns,
    houtside⟩ := h
  exact ⟨anchor, envelope, message, hroots, hparse, entry, hentry, link, rest, hchain, hsigns,
    fun l hl hmem => houtside l hl (hsub hmem)⟩

theorem IndexSignedOutside.mono
    (h : IndexSignedOutside host bytes revoked) (hsub : revoked' ⊆ revoked) :
    IndexSignedOutside host bytes revoked' := by
  obtain ⟨endorser, parsed, hendorser, hparse, houtside, entry, hentry, hid, hrest⟩ := h
  exact ⟨endorser, parsed, hendorser, hparse, fun hmem => houtside (hsub hmem), entry, hentry,
    fun hmem => hid (hsub hmem), hrest⟩

theorem anchor_ok {persisted : List KeyId} {anchor : TrustAnchor host.ed}
    (h : host.anchor persisted = .ok anchor) :
    anchor.roots = host.roots ∧ anchor.revoked = host.revoked ∪ persisted := by
  rw [Host.anchor, TrustAnchor.new] at h
  split_ifs at h
  cases h
  exact ⟨rfl, rfl⟩

theorem catalog_accepted {stored : CatalogState} {now : ℕ} {verified : VerifiedCatalog ν ρ}
    (h : verifyCatalogDocument host bytes stored now = .ok verified) :
    (∀ mark, stored.highWater = some mark → mark ≤ verified.sequence) ∧
      CatalogSignedOutside host bytes stored.revokedKeyIds := by
  simp only [verifyCatalogDocument, bind_ok_iff, mapError_ok_iff] at h
  obtain ⟨anchor, hanchor, hverify⟩ := h
  obtain ⟨hroots, hrevoked⟩ := anchor_ok hanchor
  obtain ⟨envelope, message, keys, hparse, hkeys, hsigner, hmark, -⟩ := verifyCatalog_ok hverify
  obtain ⟨entry, hentry, -, hone⟩ := acceptSignatures_ok hsigner
  obtain ⟨link, rest, hchain, hlive, hsigns⟩ := (verifyOne_iff hkeys).mp hone
  refine ⟨hmark, anchor, envelope, message, hroots, hparse, entry, hentry, link, rest, hchain,
    hsigns, ?_⟩
  intro l hl hmem
  refine (hlive l hl).1 (mem_append_left _ ?_)
  rw [hrevoked]
  exact mem_union_iff.mpr (.inr hmem)

theorem checkKeyRecord_ok {ed : Ed25519 κ} {endorser : RootKey ed} {record : IndexKeyRecord}
    {duplicate : Bool}
    {key : κ} (h : checkKeyRecord ed record endorser duplicate = .ok key) :
    Introduces ed endorser record record.keyId ⟨key, record.notBefore, record.notAfter⟩ := by
  simp only [checkKeyRecord, bind_ok_iff, require_ok_iff, ofOption_ok_iff, pure_ok_iff, exists_const,
    decide_eq_true_eq] at h
  obtain ⟨key', hkey, -, -, -, -, hendorser, signature, hsignature, hverify, rfl⟩ := h
  exact ⟨rfl, hkey, hendorser, signature, hsignature, hverify⟩

/-- Every index key was introduced by a record. -/
theorem buildIndexKeySet_introduces {ed : Ed25519 κ} {endorser : RootKey ed} :
    ∀ {records : List IndexKeyRecord} {keys keys' : IndexKeySet κ} {id : KeyId} {trusted : TrustedIndexKey κ},
      records.foldlM (admitIndexKey ed endorser) keys = .ok keys' → keys'.lookup id = some trusted →
      keys.lookup id = some trusted ∨ ∃ record ∈ records, Introduces ed endorser record id trusted
  | [], keys, keys', id, trusted, h, hlookup => by
    cases h
    exact .inl hlookup
  | record :: records, keys, keys', id, trusted, h, hlookup => by
    rw [foldlM_cons, bind_ok_iff] at h
    obtain ⟨next, hadmit, hrest⟩ := h
    simp only [admitIndexKey, bind_ok_iff, pure_ok_iff] at hadmit
    obtain ⟨key, hkey, rfl⟩ := hadmit
    rcases buildIndexKeySet_introduces hrest hlookup with hknown | ⟨found, hfound, hintroduces⟩
    · rw [lookup_cons] at hknown
      by_cases hid : id = record.keyId
      · subst hid
        rw [beq_self_eq_true, some.injEq] at hknown
        exact .inr ⟨record, mem_cons_self, hknown ▸ checkKeyRecord_ok hkey⟩
      · rw [beq_eq_false_iff_ne.mpr hid] at hknown
        exact .inl hknown
    · exact .inr ⟨found, mem_cons_of_mem _ hfound, hintroduces⟩

theorem index_accepted {catalogStored : CatalogState} {stored : IndexVerifierState} {now : ℕ}
    {verified : VerifiedIndex}
    (h : verifyIndexDocument host bytes catalogStored stored now = .ok verified) :
    (∀ mark, stored.indexHighWater = some mark → mark ≤ verified.sequence) ∧
      (∀ mark, stored.revocationHighWater = some mark → mark ≤ verified.revocationSequence) ∧
      IndexSignedOutside host bytes (catalogStored.revokedKeyIds ++ stored.revokedKeyIds) := by
  simp only [verifyIndexDocument, bind_ok_iff, ofOption_ok_iff, mapError_ok_iff] at h
  obtain ⟨endorser, hendorser, hverify⟩ := h
  simp only [verifyIndex, checkBody, bind_ok_iff, require_ok_iff, mapError_ok_iff, pure_ok_iff,
    exists_const, Bool.not_eq_true', contains_eq_mem, decide_eq_false_iff_not] at hverify
  obtain ⟨parsed, hparse, -, -, -, -, hrevocation, houtside, keys, hkeys, signer, hsigner,
    ⟨-, hmark, -⟩, -, -, rfl⟩ := hverify
  obtain ⟨entry, hentry, -, hone⟩ := acceptSignatures_ok hsigner
  simp only [verifyOneIndex, bind_ok_iff, ofOption_ok_iff, require_ok_iff, exists_const,
    Bool.not_eq_true', contains_eq_mem, decide_eq_false_iff_not] at hone
  obtain ⟨trusted, hlookup, hrevoked, -, -, signature, hsignature, hverify⟩ := hone
  -- what was recorded is part of what is given to the verifier
  have hsub : catalogStored.revokedKeyIds ++
    stored.revokedKeyIds ⊆ host.revoked ∪ catalogStored.revokedKeyIds ++
      stored.revokedKeyIds ++ parsed.envelope.revocations.revocations.revokedKeyIds := by
    intro id hid
    simp only [mem_append, mem_union_iff] at hid ⊢
    tauto
  refine ⟨?_, ?_, endorser, parsed, hendorser, hparse, fun hmem => houtside (hsub hmem), entry, hentry,
    fun hmem => hrevoked (hsub hmem), ?_⟩
  · intro mark hstored
    rw [hstored] at hmark
    simpa using hmark
  · intro mark hstored
    rw [hstored] at hrevocation
    simpa using hrevocation
  · rcases buildIndexKeySet_introduces hkeys hlookup with hnil | ⟨record, hrecord, hintroduces⟩
    · exact nomatch hnil
    · exact ⟨record, hrecord, trusted, hintroduces, signature, hsignature, hverify⟩

/-- **No way back.** In every run of verifications, records and failures:
the marks of both files do not fall and their revoked ids are kept; a document
is accepted at or above the marks stored when it is verified, and through keys
whose revocation had not been recorded at any earlier moment of the run; a file
that is damaged or cannot be read is never replaced. -/
theorem anti_rollback {s t : TrustStore ν ρ} {events : List Event} (h : TrustRun host s events t) :
    ((∀ a b, s.heldCatalog = some a → t.heldCatalog = some b → a.Le b) ∧
      ∀ a b, s.heldIndex = some a → t.heldIndex = some b → a.Le b) ∧
    (∃ new, t.catalogs = s.catalogs ++ new ∧ ∀ a ∈ new, ∃ earlier later moment,
      events = earlier ++ later ∧
      TrustRun host s earlier moment ∧ moment.heldCatalog = some a.stored ∧
      (∀ mark, a.stored.highWater = some mark → mark ≤ a.verified.sequence) ∧
      ∀ recorded, s.heldCatalog = some recorded → recorded.Le a.stored ∧
        CatalogSignedOutside host a.bytes recorded.revokedKeyIds) ∧
    (∃ new, t.indexes = s.indexes ++ new ∧ ∀ a ∈ new, ∃ earlier later moment,
    events = earlier ++ later ∧ TrustRun host s earlier moment ∧ moment.heldIndex = some a.stored ∧
      (∀ mark, a.stored.indexHighWater = some mark → mark ≤ a.verified.sequence) ∧
      (∀ mark, a.stored.revocationHighWater = some mark → mark ≤ a.verified.revocationSequence) ∧
      ∀ catalogRecorded recorded, s.heldCatalog = some catalogRecorded →
        s.heldIndex = some recorded → recorded.Le a.stored ∧
        IndexSignedOutside host a.bytes (catalogRecorded.revokedKeyIds ++ recorded.revokedKeyIds)) ∧
    ((s.heldCatalog = none → t.heldCatalog = none) ∧ (s.heldIndex = none → t.heldIndex = none) ∧
      (∀ (verified : VerifiedCatalog ν ρ) io file e, catalogState io.read file = .error e →
        (recordCatalog verified io file).1 = file) ∧
      ∀ verified io file e, indexState io.read file = .error e →
      (recordIndex verified io file).1 = file) := by
  obtain ⟨hcatalog, hindex⟩ := ahead_run h
  refine ⟨⟨hcatalog.up, hindex.up⟩, ?_, ?_, hcatalog.damaged, hindex.damaged, ?_, ?_⟩
  · obtain ⟨new, hnew, hall⟩ := Run.appended (fun hstep => (step_effect hstep).catalogs) h
    refine ⟨new, hnew, fun a ha => ?_⟩
    obtain ⟨earlier, later, moment, hcut, hrun, hstored, hverified⟩ := hall a ha
    obtain ⟨hmark, hsigned⟩ := catalog_accepted hverified
    refine ⟨earlier, later, moment, hcut, hrun, hstored, hmark, fun recorded hrecorded => ?_⟩
    have hle := (ahead_run hrun).1.up recorded a.stored hrecorded hstored
    exact ⟨hle, hsigned.mono hle.revoked⟩
  · obtain ⟨new, hnew, hall⟩ := Run.appended (fun hstep => (step_effect hstep).indexes) h
    refine ⟨new, hnew, fun a ha => ?_⟩
    obtain ⟨earlier, later, moment, hcut, hrun, hcatalogStored, hstored, hverified⟩ := hall a ha
    obtain ⟨hmark, hrevocation, hsigned⟩ := index_accepted hverified
    refine ⟨earlier, later, moment, hcut, hrun, hstored, hmark, hrevocation,
      fun catalogRecorded recorded hc hi => ?_⟩
    have hcle := (ahead_run hrun).1.up catalogRecorded a.catalogStored hc hcatalogStored
    have hle := (ahead_run hrun).2.up recorded a.stored hi hstored
    refine ⟨hle, hsigned.mono fun id hid => ?_⟩
    rcases mem_append.mp hid with hid | hid
    · exact mem_append_left _ (hcle.revoked hid)
    · exact mem_append_right _ (hle.revoked hid)
  · exact fun verified io file e hload => recordState_unreadable _ _ _ _ hload
  · exact fun verified io file e hload => recordState_unreadable _ _ _ _ hload

end Accepted

/-! ### Three catalogs -/

namespace Sample

/-- A catalog of the given sequence, signed by the root; the seventh revokes a
key. -/
def catalogOf (sequence : ℕ) : CatalogEnvelope :=
  ⟨2, ⟨2, sequence, 10, release, if sequence = 7 then [parentId] else [], [], []⟩, [],
    [⟨rootId, List.replicate 128 48⟩]⟩

/-- A host that reads the fifth and the seventh. -/
def host : Host Bytes Bytes Bytes where
  ed := ed
  semver := semver
  parseStrict := parseStrict [catalogOf 5, catalogOf 7]
  catalogEnvelope := fromValue [catalogOf 5, catalogOf 7]
  indexEnvelope _ := none
  roots := anchor.roots
  revoked := []
  endorser := none

def fresh : TrustStore Bytes Bytes := ⟨none, none, [], []⟩

def done : RecordIo := ⟨none, none, none, .committed⟩

/-- The fifth catalog is presented. -/
def five (now : ℕ) : Event := .verifyCatalog (document (catalogOf 5)) now none

def seven (now : ℕ) : Event := .verifyCatalog (document (catalogOf 7)) now none

end Sample

open Sample in
/-- The fifth catalog is recorded; then the seventh is, and the fifth is refused. -/
theorem anti_rollback_replayed : ∃ s t,
    TrustRun host fresh [five 1, .recordCatalog 0 done] s ∧
    TrustRun host s [seven 2, .recordCatalog 1 done, five 3] t ∧
    s.heldCatalog = some ⟨some 5, []⟩ ∧ t.heldCatalog = some ⟨some 7, [parentId]⟩ ∧
    t.catalogs.length = 2 ∧ CatalogState.Le ⟨some 5, []⟩ ⟨some 7, [parentId]⟩ := by
  have hs : TrustRun host fresh [five 1, .recordCatalog 0 done] _ :=
    steps_get _ _ _ (by decide +kernel)
  have ht : TrustRun host
    ((steps (step host) fresh [five 1, .recordCatalog 0 done]).get (by decide +kernel))
      [seven 2, .recordCatalog 1 done, five 3] _ :=
    steps_get _ _ _ (by decide +kernel)
  obtain ⟨⟨hup, -⟩, -⟩ := anti_rollback ht
  exact ⟨_, _, hs, ht, by decide +kernel, by decide +kernel, by decide +kernel,
    hup _ _ (by decide +kernel) (by decide +kernel)⟩

end Pohunek.Package

/-
# Which keys may sign a catalog

The key set of `build_key_set` is the table of a pass over the key chain of a
document (`buildKeySet_iff`), so `Delegation` says what it holds: the keys with
a chain of endorsements up to a root of the anchor. A signature then counts iff
it verifies under a key with such a chain in which every key is unrevoked and
inside its window (`verifyOne_iff`).

The records have to come behind their endorsers: the pass fails on a record
that does not (`buildKeySet_ok_iff`), and with it the whole document.

Key theorems: `buildKeySet_iff`, `verifyOne_iff`, `buildKeySet_ok_iff`,
`catalog_key_chain`.
-/
import Pohunek.Package.Catalog
import Pohunek.Lib.Delegation

namespace Pohunek.Package

open Fallible Delegation List Option

/-! ### Endorsements -/

/-- A key with its window. -/
structure KeyWindow (κ : Type) where
  key : κ
  notBefore : ℕ
  notAfter : ℕ

def TrustedKey.toWindow {κ : Type} (trusted : TrustedKey κ) : KeyWindow κ :=
  ⟨trusted.key, trusted.notBefore, trusted.notAfter⟩

section Rules

variable {κ : Type} (ed : Ed25519 κ)

/-- The key a record introduces, if its text is that of a usable key with the
record's id. -/
def usableKey (record : SignedKeyRecord) : Option κ :=
  ((decodeHex publicKeyBytes record.publicKey).bind ed.fromBytes).filter fun key =>
    !ed.isWeak key && ed.derive key = record.keyId

/-- The records of a key chain as delegations. -/
def rules : Rules KeyId (KeyWindow κ) SignedKeyRecord where
  id := SignedKeyRecord.keyId
  parent := SignedKeyRecord.endorsedBy
  node record :=
    if record.notBefore < record.notAfter then
      (usableKey ed record).map fun key => ⟨key, record.notBefore, record.notAfter⟩
    else none
  endorses endorser record :=
    (decodeHex signatureBytes record.signature).any
      (ed.verifyStrict endorser.key (keyRecordSigningMessage record))

def rootWindow (anchor : TrustAnchor ed) (id : KeyId) : Option (KeyWindow κ) :=
  (anchor.roots.find? (·.id = id)).map fun root => ⟨root.key, root.notBefore, root.notAfter⟩

/-- A chain of endorsements from a key up to a root of the anchor; each verifies
under its parent key. -/
abbrev Endorsed (anchor : TrustAnchor ed) (records : List SignedKeyRecord)
    (links : List (KeyId × KeyWindow κ)) : Prop :=
  Chain (rules ed) (rootWindow ed anchor) records links

/-- Every key of a chain is unrevoked and inside its window. -/
def Live (revoked : List KeyId) (now : ℕ) (links : List (KeyId × KeyWindow κ)) : Prop :=
  ∀ link ∈ links, link.1 ∉ revoked ∧ link.2.notBefore ≤ now ∧ now < link.2.notAfter

/-- A detached signature is of the given key and verifies over the message. -/
def Signs (link : KeyId × KeyWindow κ) (message : Bytes) (entry : CatalogSignature) : Prop :=
  link.1 = entry.keyId ∧
    ∃ signature, decodeHex signatureBytes entry.signature = some signature ∧
      ed.verifyStrict link.2.key message signature

end Rules

section Pass

variable {κ : Type} {ed : Ed25519 κ}

/-! ### The pass over the key chain -/

/-- The key set as a table. -/
def table (keys : KeySet κ) : KeyId → Option (Known KeyId (KeyWindow κ)) :=
  fun id => (keys.lookup id).map fun trusted => ⟨trusted.toWindow, trusted.lineage⟩

theorem table_cons (id : KeyId) (trusted : TrustedKey κ) (keys : KeySet κ) :
    table ((id, trusted) :: keys) = Function.update (table keys) id
    (some ⟨trusted.toWindow, trusted.lineage⟩) := by
  funext id'
  rw [table, lookup_cons]
  by_cases h : id' = id
  · subst h
    simp
  · have hne : (id' == id) = false := beq_eq_false_iff_ne.mpr h
    rw [Function.update_of_ne h, hne]
    rfl

theorem table_rootKeys (anchor : TrustAnchor ed) :
    table (rootKeys ed anchor.roots) = fun id => (rootWindow ed anchor id).map (⟨·, [id]⟩) := by
  funext id
  rw [table, rootWindow, rootKeys]
  induction anchor.roots with
  | nil => rfl
  | cons root roots ih =>
    rw [map_cons, lookup_cons, find?_cons]
    by_cases h : root.id = id
    · subst h
      simp [TrustedKey.toWindow]
    · have hne : (id == root.id) = false := beq_eq_false_iff_ne.mpr (Ne.symm h)
      have hne' : decide (root.id = id) = false := decide_eq_false h
      rw [hne, hne']
      exact ih

variable {record : SignedKeyRecord} {ε : Type}

theorem recordKey_ok_iff {malformed mismatch : ε} {key : κ} :
    recordKey ed record.publicKey record.keyId malformed mismatch = .ok key ↔
    usableKey ed record = some key := by
  simp only [recordKey, bind_ok_iff, ofOption_ok_iff, require_ok_iff, pure_ok_iff,
    exists_const, usableKey,
    filter_eq_some_iff, bind_eq_some_iff, Bool.and_eq_true, decide_eq_true_eq]
  constructor
  · rintro ⟨raw, hraw, key', hkey, hweak, hid, rfl⟩
    exact ⟨⟨raw, hraw, hkey⟩, hweak, hid⟩
  · rintro ⟨⟨raw, hraw, hkey⟩, hweak, hid⟩
    exact ⟨raw, hraw, key, hkey, hweak, hid, rfl⟩

theorem node_eq_some_iff {n : KeyWindow κ} : (rules ed).node record = some n ↔
    record.notBefore < record.notAfter ∧ ∃ key, usableKey ed record = some key ∧
      ⟨key, record.notBefore, record.notAfter⟩ = n := by
  show (if _ then _ else _) = _ ↔ _
  split_ifs with hwindow
  · rw [map_eq_some_iff]
    exact ⟨fun h => ⟨hwindow, h⟩, fun h => h.2⟩
  · exact ⟨nofun, fun h => absurd h.1 hwindow⟩

theorem node_window {n : KeyWindow κ} (h : (rules ed).node record = some n) :
    n = ⟨n.key, record.notBefore, record.notAfter⟩ := by
  obtain ⟨-, key, -, rfl⟩ := node_eq_some_iff.mp h
  rfl

variable {keys : KeySet κ}

/-- One turn of the pass admits a record as `Built.extend` does. -/
theorem admitRecord_ok_iff {keys' : KeySet κ} :
    admitRecord ed keys record = .ok keys' ↔
      ∃ key endorser, (rules ed).node record = some ⟨key, record.notBefore, record.notAfter⟩ ∧
        keys.lookup record.keyId = none ∧ keys.lookup record.endorsedBy = some endorser ∧
        (rules ed).endorses endorser.toWindow record ∧
        keys' = (record.keyId,
        ⟨key, record.notBefore, record.notAfter, record.keyId :: endorser.lineage⟩) :: keys := by
  have hnode : ∀ key, (rules ed).node record = some ⟨key, record.notBefore, record.notAfter⟩ ↔
      record.notBefore < record.notAfter ∧ usableKey ed record = some key := by
    intro key
    simp only [node_eq_some_iff, KeyWindow.mk.injEq, and_true, exists_eq_right]
  have hvouch : ∀ endorser : TrustedKey κ, (rules ed).endorses endorser.toWindow record = true ↔
      ∃ signature, decodeHex signatureBytes record.signature = some signature ∧
        ed.verifyStrict endorser.key (keyRecordSigningMessage record) signature :=
    fun endorser => any_eq_true _ _
  simp only [admitRecord, bind_ok_iff, recordKey_ok_iff, require_ok_iff, ofOption_ok_iff,
    pure_ok_iff, exists_const, isNone_iff_eq_none, decide_eq_true_eq, hnode, hvouch]
  constructor
  · rintro ⟨key, hkey, hfree, hwindow, endorser, hendorser, signature, hsignature, hverify, rfl⟩
    exact ⟨key, endorser, ⟨hwindow, hkey⟩, hfree, hendorser, ⟨signature, hsignature, hverify⟩, rfl⟩
  · rintro ⟨key, endorser, ⟨hwindow, hkey⟩, hfree, hendorser, ⟨signature, hsignature, hverify⟩, rfl⟩
    exact ⟨key, hkey, hfree, hwindow, endorser, hendorser, signature, hsignature, hverify, rfl⟩

variable {records : List SignedKeyRecord} {anchor : TrustAnchor ed}

/-- **The key set is the table of a pass over the key chain.** -/
theorem buildKeySet_iff {known : KeyId → Option (Known KeyId (KeyWindow κ))} :
    (∃ keys, buildKeySet ed records anchor = .ok keys ∧ table keys = known) ↔
      Built (rules ed) (rootWindow ed anchor) records known := by
  induction records using reverseRecOn generalizing known with
  | nil =>
    have hroots : buildKeySet ed [] anchor = .ok (rootKeys ed anchor.roots) := rfl
    simp only [hroots, Except.ok.injEq, exists_eq_left', table_rootKeys]
    constructor
    · rintro rfl
      exact .start
    · intro h
      generalize hnil : ([] : List SignedKeyRecord) = records at h
      cases h with
      | start => rfl
      | extend => exact absurd hnil (by simp)
  | append_singleton records record ih =>
    have hsnoc : ∀ keys', buildKeySet ed (records ++ [record]) anchor = .ok keys' ↔
        ∃ keys, buildKeySet ed records anchor = .ok keys ∧
        admitRecord ed keys record = .ok keys' := by
      intro keys'
      rw [buildKeySet, foldlM_append, bind_ok_iff]
      simp only [foldlM_cons, foldlM_nil, bind_pure, buildKeySet]
    constructor
    · rintro ⟨keys', hkeys', rfl⟩
      obtain ⟨keys, hkeys, hadmit⟩ := (hsnoc keys').mp hkeys'
      obtain ⟨key, endorser, hnode, hfree, hendorser, hvouch, rfl⟩ := admitRecord_ok_iff.mp hadmit
      rw [table_cons]
      refine (ih.mp ⟨keys, hkeys, rfl⟩).extend hnode ?_
        (e := ⟨endorser.toWindow, endorser.lineage⟩) ?_ hvouch
      · show (keys.lookup record.keyId).map _ = none
        rw [hfree, map_none]
      · show (keys.lookup record.endorsedBy).map _ = _
        rw [hendorser, map_some]
    · intro h
      generalize hall : records ++ [record] = all at h
      cases h with
      | start => exact absurd hall (by simp)
      | @extend records' known' record' n e hbuilt hnode hfree hparent hvouch =>
        obtain ⟨rfl, heq⟩ := append_inj' hall rfl
        obtain rfl := (cons.inj heq).1
        obtain ⟨keys, hkeys, rfl⟩ := ih.mpr hbuilt
        obtain ⟨endorser, hendorser, rfl⟩ := map_eq_some_iff.mp hparent
        have hn := node_window hnode
        rw [hn] at hnode
        refine ⟨_, (hsnoc _).mpr ⟨keys, hkeys, admitRecord_ok_iff.mpr ⟨n.key, endorser, hnode,
          map_eq_none_iff.mp hfree, hendorser, hvouch, rfl⟩⟩, ?_⟩
        have hwindow : (⟨n.key, record.notBefore, record.notAfter,
          record.keyId :: endorser.lineage⟩ :
            TrustedKey κ).toWindow = n := hn.symm
        rw [table_cons, hwindow]
        rfl

theorem built_of_buildKeySet
    (h : buildKeySet ed records anchor = .ok keys) :
    Built (rules ed) (rootWindow ed anchor) records (table keys) :=
  buildKeySet_iff.mp ⟨keys, h, rfl⟩

theorem table_eq_some_iff {id : KeyId} {e : Known KeyId (KeyWindow κ)} :
    table keys id = some e ↔ ∃ trusted, keys.lookup id = some trusted ∧ trusted.toWindow = e.node ∧
      trusted.lineage = e.lineage := by
  rw [table, map_eq_some_iff]
  constructor
  · rintro ⟨trusted, hlookup, rfl⟩
    exact ⟨trusted, hlookup, rfl, rfl⟩
  · rintro ⟨trusted, hlookup, hnode, hlineage⟩
    exact ⟨trusted, hlookup, by rw [hnode, hlineage]⟩

/-! ### Signatures -/

variable {revoked : List KeyId} {now : ℕ}

theorem checkAncestor_ok_iff {id : KeyId} {u : Unit} :
    checkAncestor keys revoked now id = .ok u ↔
      id ∉ revoked ∧ ∃ ancestor, keys.lookup id = some ancestor ∧ ancestor.notBefore ≤ now ∧
      now < ancestor.notAfter := by
  simp only [checkAncestor, bind_ok_iff, require_ok_iff, ofOption_ok_iff, exists_const,
    Bool.not_eq_true', contains_eq_mem, decide_eq_false_iff_not, decide_eq_true_eq]

theorem verifyOne_ok_iff {message : Bytes} {entry : CatalogSignature} :
    verifyOne ed keys revoked message now entry = .ok () ↔
      ∃ trusted, keys.lookup entry.keyId = some trusted ∧
        (∀ id ∈ trusted.lineage, checkAncestor keys revoked now id = .ok ()) ∧
        Signs ed (entry.keyId, trusted.toWindow) message entry := by
  simp only [verifyOne, bind_ok_iff, ofOption_ok_iff, require_ok_iff, forM_ok_iff, exists_const,
    Signs, true_and, TrustedKey.toWindow]

/-- **A signature counts** iff it verifies under a key with a live chain. -/
theorem verifyOne_iff (hbuild : buildKeySet ed records anchor = .ok keys) {message : Bytes}
    {entry : CatalogSignature} :
    verifyOne ed keys revoked message now entry = .ok () ↔
      ∃ link rest, Endorsed ed anchor records (link :: rest) ∧ Live revoked now (link :: rest) ∧
        Signs ed link message entry := by
  have hbuilt := built_of_buildKeySet hbuild
  rw [verifyOne_ok_iff]
  constructor
  · rintro ⟨trusted, hlookup, hancestors, hsigns⟩
    obtain ⟨rest, hchain, hlineage⟩ :=
      hbuilt.sound (table_eq_some_iff.mpr ⟨trusted, hlookup, rfl, rfl⟩ : table keys entry.keyId =
        some ⟨_, _⟩)
    refine ⟨_, rest, hchain, fun link hlink => ?_, hsigns⟩
    -- a link is in the lineage, and the table has its window
    have hid : link.1 ∈ trusted.lineage := by
      rw [show trusted.lineage = _ from hlineage]
      exact mem_map_of_mem hlink
    obtain ⟨hrevoked, ancestor, hancestor, hbefore, hafter⟩ :=
      checkAncestor_ok_iff.mp (hancestors link.1 hid)
    obtain ⟨e, he, hnode⟩ := hbuilt.known_of_chain hchain link hlink
    obtain ⟨known, hknown, hwindow, -⟩ := table_eq_some_iff.mp he
    cases hancestor.symm.trans hknown
    rw [← hnode, ← hwindow]
    exact ⟨hrevoked, hbefore, hafter⟩
  · rintro ⟨link, rest, hchain, hlive, hsigns⟩
    obtain ⟨trusted, hlookup, hwindow, hlineage⟩ := table_eq_some_iff.mp (hbuilt.complete hchain)
    have hid : link.1 = entry.keyId := hsigns.1
    refine ⟨trusted, hid ▸ hlookup, fun id hmem => ?_, ?_⟩
    · rw [show trusted.lineage = (link :: rest).map Prod.fst from hlineage] at hmem
      obtain ⟨ancestor, hancestor, rfl⟩ := mem_map.mp hmem
      obtain ⟨hrevoked, hbefore, hafter⟩ := hlive ancestor hancestor
      obtain ⟨t, ht, hnode⟩ := hbuilt.known_of_chain hchain ancestor hancestor
      obtain ⟨known, hknown, hw, -⟩ := table_eq_some_iff.mp ht
      rw [checkAncestor_ok_iff]
      refine ⟨hrevoked, known, hknown, ?_⟩
      rw [← hnode, ← hw] at hbefore hafter
      exact ⟨hbefore, hafter⟩
    · refine ⟨rfl, ?_⟩
      rw [hwindow]
      exact hsigns.2

theorem firstVerified_ok {unknown : ε} {verify : CatalogSignature → Except ε Unit}
    {signer : KeyId} : ∀ {signatures : List CatalogSignature} {failure : Option ε},
      firstVerified unknown verify failure signatures = .ok signer →
      ∃ entry ∈ signatures, entry.keyId = signer ∧ verify entry = .ok ()
  | [], _, h => nomatch h
  | entry :: signatures, failure, h => by
    rw [firstVerified] at h
    cases hverify : verify entry with
    | ok u =>
      rw [hverify] at h
      exact ⟨entry, mem_cons_self, Except.ok.inj h, hverify⟩
    | error e =>
      rw [hverify] at h
      obtain ⟨found, hfound, hid, hok⟩ := firstVerified_ok h
      exact ⟨found, mem_cons_of_mem _ hfound, hid, hok⟩

theorem firstVerified_of_mem {unknown : ε} {verify : CatalogSignature → Except ε Unit}
    {entry : CatalogSignature} (hok : verify entry = .ok ()) :
    ∀ {signatures : List CatalogSignature} {failure : Option ε}, entry ∈ signatures →
      ∃ signer, firstVerified unknown verify failure signatures = .ok signer
  | first :: signatures, failure, hmem => by
    rw [firstVerified]
    cases hverify : verify first with
    | ok u => exact ⟨first.keyId, rfl⟩
    | error e =>
      rcases mem_cons.mp hmem with rfl | hmem
      · rw [hok] at hverify
        exact nomatch hverify
      · exact firstVerified_of_mem hok hmem

variable {signatures : List CatalogSignature} {missing duplicate unknown : ε}

theorem acceptSignatures_ok {verify : CatalogSignature → Except ε Unit}
    {signer : KeyId}
    (h : acceptSignatures missing duplicate unknown verify signatures = .ok signer) :
    ∃ entry ∈ signatures, entry.keyId = signer ∧ verify entry = .ok () := by
  simp only [acceptSignatures, bind_ok_iff, require_ok_iff, exists_const] at h
  exact firstVerified_ok h.2.2

theorem acceptSignatures_of_mem {verify : CatalogSignature → Except ε Unit}
    {entry : CatalogSignature} (hdistinct : (signatures.map (·.keyId)).Nodup)
    (hmem : entry ∈ signatures) (hok : verify entry = .ok ()) :
    ∃ signer, acceptSignatures missing duplicate unknown verify signatures = .ok signer := by
  obtain ⟨signer, hfirst⟩ := @firstVerified_of_mem _ unknown _ _ hok signatures none hmem
  refine ⟨signer, ?_⟩
  simp only [acceptSignatures, bind_ok_iff, require_ok_iff, exists_const, decide_eq_true_eq,
    Bool.not_eq_true', isEmpty_eq_false_iff]
  exact ⟨ne_nil_of_mem hmem, hdistinct, hfirst⟩

/-! ### The order of the key chain -/

theorem buildKeySet_ok_iff :
    (∃ keys, buildKeySet ed records anchor = .ok keys) ↔
      ∀ before record after, records = before ++ record :: after →
        Fits (rules ed) (rootWindow ed anchor) before record := by
  rw [← exists_built_iff]
  constructor
  · rintro ⟨keys, h⟩
    exact ⟨_, built_of_buildKeySet h⟩
  · rintro ⟨known, h⟩
    obtain ⟨keys, hkeys, -⟩ := buildKeySet_iff.mpr h
    exact ⟨keys, hkeys⟩

/-- Key sets with the same table accept the same signatures. -/
theorem verifyOne_congr {keys' : KeySet κ} (h : table keys = table keys') (revoked : List KeyId)
    (message : Bytes) (now : ℕ) (entry : CatalogSignature) :
    verifyOne ed keys revoked message now entry = verifyOne ed keys' revoked message now entry := by
  have hlookup : ∀ id, keys.lookup id = keys'.lookup id := by
    intro id
    have hinj : Function.Injective fun trusted : TrustedKey κ =>
        (⟨trusted.toWindow, trusted.lineage⟩ : Known KeyId (KeyWindow κ)) := by
      rintro ⟨key, notBefore, notAfter, lineage⟩ ⟨key', notBefore', notAfter', lineage'⟩ heq
      simpa only [TrustedKey.toWindow, Known.mk.injEq, KeyWindow.mk.injEq, TrustedKey.mk.injEq,
        and_assoc] using heq
    exact map_injective hinj (congrFun h id)
  have hancestor : checkAncestor keys revoked now = checkAncestor keys' revoked now := by
    funext id
    rw [checkAncestor, checkAncestor, hlookup]
  rw [verifyOne, verifyOne, hlookup, hancestor]

/-! ### Catalogs -/

section Main

variable {ν ρ : Type} {semver : Semver ν ρ} {parseStrict : Bytes → Except JsonError Value}
  {fromValue : Value → Option CatalogEnvelope}

/-- What the signatures of a parsed document cover. -/
theorem parseCatalog_ok {bytes message : Bytes} {envelope : CatalogEnvelope}
    (h : parseCatalog parseStrict fromValue bytes = .ok (envelope, message)) :
    ∃ value member, parseStrict bytes = .ok value ∧ fromValue value = some envelope ∧
      value.get (ascii "catalog") = some member ∧
      message = catalogDomain ++ canonicalBytes member := by
  simp only [parseCatalog, bind_ok_iff, require_ok_iff, mapError_ok_iff, ofOption_ok_iff,
    pure_ok_iff, exists_const, Prod.mk.injEq] at h
  obtain ⟨-, value, hvalue, -, envelope', henvelope, -, -, -, member, hmember, rfl, rfl⟩ := h
  exact ⟨value, member, hvalue, henvelope, hmember, rfl⟩

/-- The checks a verified catalog has passed that are about keys and sequences. -/
theorem verifyCatalog_ok {bytes : Bytes} {anchor : TrustAnchor ed} {now : ℕ} {mark : Option ℕ}
    {verified : VerifiedCatalog ν ρ}
    (h : verifyCatalog ed semver parseStrict fromValue bytes anchor now mark = .ok verified) :
    ∃ envelope message keys, parseCatalog parseStrict fromValue bytes = .ok (envelope, message) ∧
      buildKeySet ed envelope.keyChain anchor = .ok keys ∧
      verifySignatures ed envelope.signatures keys
      (anchor.revoked ++ envelope.catalog.revokedKeyIds) message now =
        .ok verified.signer ∧
      (∀ highWater, mark = some highWater → highWater ≤ verified.sequence) ∧
      verified.sequence = envelope.catalog.sequence ∧
      verified.revokedKeyIds = envelope.catalog.revokedKeyIds := by
  simp only [verifyCatalog, bind_ok_iff, require_ok_iff, mapError_ok_iff, pure_ok_iff, exists_const,
    Prod.exists] at h
  obtain ⟨envelope, message, hparse, keys, hkeys, signer, hsigner, hmark, -, release, -, entries,
    -, rfl⟩ := h
  refine ⟨envelope, message, keys, hparse, hkeys, hsigner, ?_, rfl, rfl⟩
  rintro highWater rfl
  simpa using hmark

variable (ed) (semver) (parseStrict) (fromValue)

/-- **The key chain of a catalog.** A catalog is accepted only with a signature
that verifies over the domain and the canonical bytes of its body, under a key
with a chain of endorsements in which every key is unrevoked and inside its
window. A key without such a chain never counts. In a key chain that is
accepted every key with such a chain counts, whatever the order of the records.
A key chain is accepted iff each record, behind those before it, introduces a
new key that one of them or a root endorses. -/
theorem catalog_key_chain :
    (∀ bytes anchor now mark (verified : VerifiedCatalog ν ρ),
      verifyCatalog ed semver parseStrict fromValue bytes anchor now mark = .ok verified →
      ∃ value envelope member, parseStrict bytes = .ok value ∧ fromValue value = some envelope ∧
        value.get (ascii "catalog") = some member ∧
        ∃ entry ∈ envelope.signatures, entry.keyId = verified.signer ∧
        ∃ link rest, Endorsed ed anchor envelope.keyChain (link :: rest) ∧
          Live (anchor.revoked ++ envelope.catalog.revokedKeyIds) now (link :: rest) ∧
          Signs ed link (catalogDomain ++ canonicalBytes member) entry) ∧
    (∀ records anchor keys, buildKeySet ed records anchor = .ok keys →
      (∀ revoked message now entry,
        (∀ link rest, Endorsed ed anchor records (link :: rest) → link.1 = entry.keyId →
          ¬ Live revoked now (link :: rest)) →
        verifyOne ed keys revoked message now entry ≠ .ok ()) ∧
      (∀ revoked message now entry link rest, Endorsed ed anchor records (link :: rest) →
        Live revoked now (link :: rest) → Signs ed link message entry →
        verifyOne ed keys revoked message now entry = .ok () ∧
          ∀ signatures, (signatures.map CatalogSignature.keyId).Nodup → entry ∈ signatures →
            ∃ signer, verifySignatures ed signatures keys revoked message now = .ok signer) ∧
      (∀ records' keys', (∀ record, record ∈ records ↔ record ∈ records') →
        buildKeySet ed records' anchor = .ok keys' →
        ∀ signatures revoked message now, verifySignatures ed signatures keys revoked message now =
          verifySignatures ed signatures keys' revoked message now)) ∧
    (∀ records anchor, (∃ keys, buildKeySet ed records anchor = .ok keys) ↔
      ∀ before record after, records = before ++ record :: after →
        Fits (rules ed) (rootWindow ed anchor) before record) := by
  refine ⟨?_, ?_, fun records anchor => buildKeySet_ok_iff⟩
  · intro bytes anchor now mark verified h
    obtain ⟨envelope, message, keys, hparse, hkeys, hsigner, -⟩ := verifyCatalog_ok h
    obtain ⟨value, member, hvalue, henvelope, hmember, rfl⟩ := parseCatalog_ok hparse
    obtain ⟨entry, hentry, hid, hone⟩ := acceptSignatures_ok hsigner
    exact ⟨value, envelope, member, hvalue, henvelope, hmember, entry, hentry, hid,
      (verifyOne_iff hkeys).mp hone⟩
  · intro records anchor keys hkeys
    refine ⟨?_, ?_, ?_⟩
    · intro revoked message now entry hdead hone
      obtain ⟨link, rest, hchain, hlive, hsigns⟩ := (verifyOne_iff hkeys).mp hone
      exact hdead link rest hchain hsigns.1 hlive
    · intro revoked message now entry link rest hchain hlive hsigns
      have hone := (verifyOne_iff hkeys).mpr ⟨link, rest, hchain, hlive, hsigns⟩
      exact ⟨hone, fun signatures hdistinct hmem => acceptSignatures_of_mem hdistinct hmem hone⟩
    · intro records' keys' hsame hkeys' signatures revoked message now
      have htable := (built_of_buildKeySet hkeys).unique (built_of_buildKeySet hkeys') hsame
      rw [verifySignatures, verifySignatures, funext (verifyOne_congr htable revoked message now)]

end Main

end Pass

/-! ### Two records under one root -/

namespace Sample

def rootId : KeyId := ⟨List.replicate 64 97, by decide⟩
def parentId : KeyId := ⟨List.replicate 64 98, by decide⟩
def childId : KeyId := ⟨List.replicate 64 99, by decide⟩

/-- A scheme in which a signature repeats the first byte of its key. -/
def ed : Ed25519 Bytes where
  fromBytes := some
  isWeak _ := false
  derive key :=
    if key = List.replicate 32 17 then parentId else if key = List.replicate 32 34 then childId
      else rootId
  verifyStrict key _ signature := signature = List.replicate 64 (key.headD 0)

def anchor : TrustAnchor ed where
  roots := [⟨List.replicate 32 0, rootId, 0, 10, rfl, by decide, by decide⟩]
  revoked := []
  nonempty := nofun
  bounded := by decide
  distinct := nodup_singleton _

/-- A key the root endorses. -/
def parent : SignedKeyRecord :=
  ⟨parentId, List.replicate 64 49, 0, 10, rootId, List.replicate 128 48⟩

/-- A key the first one endorses. -/
def child : SignedKeyRecord :=
  ⟨childId, List.replicate 64 50, 0, 10, parentId, List.replicate 128 49⟩

def signature : CatalogSignature := ⟨childId, List.replicate 128 50⟩

def links : List (KeyId × KeyWindow Bytes) :=
  [(parentId, ⟨List.replicate 32 17, 0, 10⟩), (rootId, ⟨List.replicate 32 0, 0, 10⟩)]

/-- The second key is endorsed whichever record comes first. -/
theorem endorsed {records : List SignedKeyRecord} (hparent : parent ∈ records)
    (hchild : child ∈ records) :
    Endorsed ed anchor records ((childId, ⟨replicate 32 34, 0, 10⟩) :: links) := by
  have hroot : Endorsed ed anchor records [(rootId, ⟨replicate 32 0, 0, 10⟩)] := .root rfl
  have hlink : Endorsed ed anchor records links :=
    .endorsed hparent rfl hroot rfl (by decide +kernel)
  exact .endorsed hchild rfl hlink rfl (by decide +kernel)

theorem live : Live [] 5 ((childId, (⟨replicate 32 34, 0, 10⟩ : KeyWindow Bytes)) :: links) := by
  intro link hlink
  rcases mem_cons.mp hlink with rfl | hlink
  · exact ⟨nofun, by decide⟩
  rcases mem_cons.mp hlink with rfl | hlink
  · exact ⟨nofun, by decide⟩
  · rw [mem_singleton.mp hlink]
    exact ⟨nofun, by decide⟩

theorem signs (message : Bytes) :
    Signs ed (childId, ⟨replicate 32 34, 0, 10⟩) message signature := by
  have hverify : decide (replicate 64 34 = replicate 64 ((replicate 32 (34 : UInt8)).headD 0)) := by
    decide +kernel
  exact ⟨rfl, replicate 64 34, by decide +kernel, hverify⟩

def release : Release :=
  ⟨ascii "1.0.0", replicate 40 48,
    [⟨ascii "x86_64-unknown-linux-gnu", ascii "sha256:" ++ replicate 64 48⟩]⟩

def envelope (records : List SignedKeyRecord) : CatalogEnvelope :=
  ⟨2, ⟨2, 1, 10, release, [], [], []⟩, records, [signature]⟩

/-- The signed body of a catalog without entries and revoked digests. -/
def bodyValue (catalog : Catalog) : Value := .object
  [(ascii "schema_version", .number catalog.schemaVersion),
    (ascii "sequence", .number catalog.sequence), (ascii "expires_at", .number catalog.expiresAt),
    (ascii "release", .object [(ascii "version", .string catalog.release.version),
      (ascii "commit", .string catalog.release.commit),
      (ascii "binary_sets", .array (catalog.release.binarySets.map fun set =>
        .object [(ascii "target", .string set.target), (ascii "digest", .string set.digest)]))]),
    (ascii "revoked_key_ids", .array (catalog.revokedKeyIds.map fun id => .string id.text)),
    (ascii "revoked_digests", .array []), (ascii "entries", .array [])]

def value (envelope : CatalogEnvelope) : Value := .object
  [(ascii "schema_version", .number envelope.schemaVersion),
  (ascii "catalog", bodyValue envelope.catalog),
    (ascii "key_chain", .array (envelope.keyChain.map fun record => .object
      [(ascii "key_id", .string record.keyId.text), (ascii "public_key", .string record.publicKey),
        (ascii "not_before", .number record.notBefore),
        (ascii "not_after", .number record.notAfter),
        (ascii "endorsed_by", .string record.endorsedBy.text),
        (ascii "signature", .string record.signature)])),
    (ascii "signatures", .array (envelope.signatures.map fun entry => .object
      [(ascii "key_id", .string entry.keyId.text), (ascii "signature", .string entry.signature)]))]

def document (envelope : CatalogEnvelope) : Bytes := canonicalBytes (value envelope)

/-- A parser of these documents. -/
def parseStrict (known : List CatalogEnvelope) (bytes : Bytes) : Except JsonError Value :=
  (ofOption .syntaxError (known.find? fun envelope => document envelope = bytes)).map value

def fromValue (known : List CatalogEnvelope) (parsed : Value) : Option CatalogEnvelope :=
  known.find? fun envelope => document envelope = canonicalBytes parsed

/-- A crate that knows one version and one range. -/
def semver : Semver Bytes Bytes where
  parse text := if text = ascii "1.0.0" then some text else none
  plain _ := true
  display := id
  parseReq text := if text = ascii "^1" then some text else none
  comparators _ := 1
  isMatch _ _ := true

/-- `verify_catalog` of a document with these records at the time 5. -/
def verify (records : List SignedKeyRecord) : Except CatalogError (VerifiedCatalog Bytes Bytes) :=
  verifyCatalog ed semver (parseStrict [envelope records]) (fromValue [envelope records])
    (document (envelope records)) anchor 5 none

end Sample

/-- A key with a live chain, whose signature verifies, does not count when its
record comes before that of its endorser: the document is refused. -/
theorem late_endorser_rejected :
    (∃ link rest, Endorsed Sample.ed Sample.anchor
    (Sample.envelope [Sample.child, Sample.parent]).keyChain (link :: rest) ∧
      Live [] 5 (link :: rest) ∧ Signs Sample.ed link
      (domainMessage catalogDomain (Sample.bodyValue (Sample.envelope []).catalog))
      Sample.signature) ∧
    Sample.verify [Sample.child, Sample.parent] = .error .unknownEndorser := by
  refine ⟨⟨_, _, Sample.endorsed ?_ ?_, Sample.live, Sample.signs _⟩, by decide +kernel⟩
  · exact mem_cons_of_mem _ (mem_singleton_self _)
  · exact mem_cons_self

/-- In the order of endorsement the same signature counts, and the document is
accepted. -/
theorem catalog_key_chain_in_order : ∃ keys,
    buildKeySet Sample.ed [Sample.parent, Sample.child] Sample.anchor = .ok keys ∧
    verifyOne Sample.ed keys [] [] 5 Sample.signature = .ok () ∧
    (∃ signer, verifySignatures Sample.ed [Sample.signature] keys [] [] 5 = .ok signer) ∧
    Sample.verify [Sample.parent, Sample.child] =
      .ok ⟨1, 10, ⟨Sample.release.version, Sample.release.commit, Sample.release.binarySets⟩,
      Sample.childId, [], [], []⟩ := by
  have hbuild : (buildKeySet Sample.ed [Sample.parent, Sample.child] Sample.anchor).isOk := by
    decide +kernel
  obtain ⟨keys, hkeys⟩ := isOk_iff.mp hbuild
  obtain ⟨-, hset, -⟩ := catalog_key_chain Sample.ed Sample.semver (Sample.parseStrict [])
    (Sample.fromValue [])
  obtain ⟨-, hcomplete, -⟩ := hset _ _ _ hkeys
  have hendorsed := @Sample.endorsed [Sample.parent, Sample.child] mem_cons_self
    (mem_cons_of_mem _ (mem_singleton_self _))
  obtain ⟨hone, hsigner⟩ :=
    hcomplete [] [] 5 Sample.signature _ _ hendorsed Sample.live (Sample.signs [])
  exact ⟨keys, hkeys, hone, hsigner _ (nodup_singleton _) (mem_singleton_self _), by decide +kernel⟩

end Pohunek.Package

/-
# Listing in pages

`NotificationStore::list` of `crates/daemon/src/notifications/store.rs`, as a
client uses it that follows `next_cursor` until there is none, while other
calls change the store between the pages.

The cursor is the creation time and the id of a page's last record. No
operation changes either, so what a client has seen is settled by the order of
these pairs alone (`Keyset`); the record itself may be deleted, or no longer
match, before the next page.

Creation times are compared as texts, as the source compares them. What is
assumed: no creation time has the cursor's separator in it (`timestamp_now`
writes none), and an id is minted for one record, with a text that is not empty
(`next_id` puts the process id, the time and a counter into it).
-/
import Pohunek.Notifications.Compaction
import Pohunek.Lib.Keyset
import Pohunek.Lib.Fallible

namespace Pohunek.Notifications

open List Keyset

open Runs (Run Label)

/-! ### What no operation changes -/

/-- A record with a minted id, created at the time of its id, which a cursor can
carry. -/
def Good (f : String → String) (r : NotificationRecord) : Prop :=
  r.id ≠ "" ∧ r.createdAt = f r.id ∧ '|' ∉ r.createdAt.toList

structure Known (f : String → String) (m : Records) : Prop where
  keyed : Keyed m
  good : ∀ {k : String} {r : NotificationRecord}, m[k]? = some r → Good f r

@[simp] theorem applyStatus_createdAt (r : NotificationRecord) (status : NotificationStatus)
    (now : String) : (applyStatus r status now).createdAt = r.createdAt := by
  cases status <;> rfl

section Known

variable {f : String → String} {m : Records} {r : NotificationRecord}

theorem Good.applyStatus (h : Good f r) (status : NotificationStatus) (now : String) :
    Good f (applyStatus r status now) := by
  rw [Good, applyStatus_id, applyStatus_createdAt]
  exact h

theorem Known.mem (h : Known f m) (hr : r ∈ m.list) : Good f r := by
  obtain ⟨k, hk⟩ := mem_list.mp hr
  exact h.good hk

theorem Known.empty : Known f ∅ := ⟨Keyed.empty, fun h => by simp at h⟩

theorem Known.puts (h : Known f m) {rs : List NotificationRecord} (hrs : ∀ r ∈ rs, Good f r) :
    Known f (rs.foldl Records.put m) where
  keyed := h.keyed.puts rs
  good hk := by
    rcases puts_source rs hk with hmem | hold
    · exact hrs _ hmem
    · exact h.good hold

theorem Known.supersede (h : Known f m) (dedupeKey : String) (kind : NotificationKind)
    (supersededBy now : String) :
    ∀ r ∈ supersedeUnreadRecords m dedupeKey kind supersededBy now, Good f r := by
  intro r hr
  obtain ⟨old, hold, rfl⟩ := mem_map.mp hr
  exact (h.mem (mem_of_mem_filter hold)).applyStatus .acknowledged now

theorem findMerge_upgrade {E : Rfc3339} {priority : SourcePriority} {dedupeKey : String}
    {createdAt : ℤ} {window : ℕ} {existing : NotificationRecord} : ∀ {rs : List NotificationRecord},
    findMerge E priority dedupeKey createdAt window rs = .ok (some (.upgrade existing)) →
    existing ∈ rs
  | r :: rs, h => by
    unfold findMerge at h
    split at h
    · exact mem_cons_of_mem _ (findMerge_upgrade h)
    · split at h
      · exact mem_cons_of_mem _ (findMerge_upgrade h)
      · split at h
        · cases h
        · exact mem_cons_of_mem _ (findMerge_upgrade h)
        · split at h
          · cases h
            exact mem_cons_self
          iterate 3 cases h
          iterate 3 exact mem_cons_of_mem _ (findMerge_upgrade h)

end Known

namespace Store

variable {J : Json} {E : Rfc3339} {f : String → String} {s t u : Store}

/-- From `s` to `t` every record kept its id and time. -/
structure Keeps (f : String → String) (s t : Store) : Prop where
  known : Known f s.records → Known f t.records
  unavailable : t.unavailable = s.unavailable

theorem Keeps.refl (s : Store) : Keeps f s s := ⟨id, rfl⟩

theorem Keeps.trans (h : Keeps f s t) (h' : Keeps f t u) : Keeps f s u :=
  ⟨fun hs => h'.known (h.known hs), h'.unavailable.trans h.unavailable⟩

theorem Keeps.of_eq (hrecords : t.records = s.records) (h : t.unavailable = s.unavailable) :
    Keeps f s t :=
  ⟨fun hs => hrecords ▸ hs, h⟩

variable {result : Except NotificationError Unit}

theorem append_keeps {a : StoreAction}
    (h : s.appendActionLocked J a = (t, result))
    (ha : Known f s.records → ∀ r ∈ a.records, Good f r) : Keeps f s t := by
  unfold appendActionLocked at h
  split at h
  · cases h
    exact .refl s
  · split at h
    · cases h
      exact .of_eq rfl rfl
    · cases h
      refine ⟨fun hs => ?_, rfl⟩
      rw [applyAction_eq]
      exact hs.puts (ha hs)

theorem appendAll_keeps : ∀ {actions : List StoreAction} {s : Store},
    s.appendAll J actions = (t, result) → (∀ a ∈ actions, ∀ r ∈ a.records, Good f r) → Keeps f s t
  | [], _, h, _ => by
    cases h
    exact .refl _
  | a :: actions, s, h, hgood => by
    rw [appendAll] at h
    split at h
    · rename_i heq
      cases h
      exact append_keeps heq fun _ => hgood a mem_cons_self
    · rename_i heq
      have happend := append_keeps (f := f) heq fun _ => hgood a mem_cons_self
      exact happend.trans (appendAll_keeps h fun b hb => hgood b (mem_cons_of_mem _ hb))

theorem noteContribution_keeps (s : Store) (candidate : NotificationRecord) (id : String)
    (minted : ℕ) : Keeps f s (s.noteContribution candidate id minted) := by
  unfold noteContribution
  split
  · exact .of_eq rfl rfl
  · exact .refl s

theorem commit_keeps {a : StoreAction} (ha : Known f s.records → ∀ r ∈ a.records, Good f r)
    (candidate : NotificationRecord) (id : String) (minted : ℕ) (outcome : CreateOutcome) :
    Keeps f s (s.commit J a candidate id minted outcome).1 := by
  unfold commit
  split
  · rename_i heq
    exact append_keeps heq ha
  · rename_i heq
    exact (append_keeps heq ha).trans (noteContribution_keeps _ candidate id minted)

theorem createOrDedupe_keeps {candidate : NotificationRecord} (hgood : Good f candidate)
    (window minted : ℕ) : Keeps f s (s.createOrDedupe J E candidate window minted).1 := by
  have hcreate : Known f s.records → ∀ r ∈ (StoreAction.created candidate).records, Good f r := by
    intro _ r hr
    obtain rfl := mem_singleton.mp hr
    exact hgood
  fun_cases s.createOrDedupe J E candidate window minted
  · exact .refl s
  · exact .refl s
  · exact commit_keeps hcreate _ _ _ _
  · unfold createSupersedingTurns
    dsimp only
    split
    · exact commit_keeps hcreate _ _ _ _
    · refine commit_keeps (fun hs r hr => ?_) _ _ _ _
      rcases mem_cons.mp hr with rfl | hr
      · exact hgood
      · exact hs.supersede _ _ _ _ r hr
  · exact .refl s
  · exact .refl s
  next existing hmerge =>
    refine commit_keeps (fun hs r hr => ?_) _ _ _ _
    obtain rfl := mem_singleton.mp hr
    -- an upgrade keeps the id and the time of the record it is of
    have hexisting : Good f existing := hs.mem (findMerge_upgrade hmerge)
    exact hexisting
  · exact noteContribution_keeps s _ _ _
  · exact commit_keeps hcreate _ _ _ _

theorem supersedeTurnsForAttention_keeps {s : Store} (hs : Known f s.records)
    (attention : NotificationRecord) (now : String) :
    Keeps f s (s.supersedeTurnsForAttention J attention now).1 := by
  have hgood : ∀ key,
    ∀ a ∈ (supersedeUnreadRecords s.records key .turnCompleted attention.id now).map
      StoreAction.updated, ∀ r ∈ a.records, Good f r := by
    intro key a ha r hr
    obtain ⟨x, hx, rfl⟩ := mem_map.mp ha
    obtain rfl := mem_singleton.mp hr
    exact hs.supersede _ _ _ _ r hx
  fun_cases s.supersedeTurnsForAttention J attention now
  iterate 3 exact .refl s
  iterate 2 next heq => exact appendAll_keeps heq (hgood _)

theorem updateTransition_keeps (id : String) (status : NotificationStatus) (now : String) :
    Keeps f s (s.updateTransition J id status now).1 := by
  fun_cases s.updateTransition J id status now with
  | case1 | case2 | case3 => exact .refl s
  | case4 _ record hrecord _ updated action _ haction _ _ heq
  | case5 _ record hrecord _ updated action _ haction _ heq =>
    -- the action is `deleted` or `updated`; both carry the one record
    have hone : action.records = [updated] := by
      split at haction <;> (cases haction; rfl)
    exact append_keeps heq fun hs r hr => mem_singleton.mp (hone ▸ hr) ▸
      (hs.good hrecord).applyStatus status now

theorem deleteTransition_keeps (id now : String) : Keeps f s (s.deleteTransition J id now).1 := by
  fun_cases s.deleteTransition J id now with
  | case1 | case2 | case3 => exact .refl s
  | case4 _ record hrecord _ _ _ heq | case5 _ record hrecord _ _ heq =>
    exact append_keeps heq fun hs r hr => mem_singleton.mp hr ▸
      (hs.good hrecord).applyStatus .deleted now

theorem resolveLoop_keeps (now : String) :
    ∀ (ids : List String) (s : Store) (resolved : List NotificationRecord),
    Keeps f s (s.resolveLoop J now ids resolved).1
  | [], s, _ => .refl s
  | id :: ids, s, resolved => by
    rw [resolveLoop]
    split
    · exact resolveLoop_keeps now ids s resolved
    · rename_i record hrecord
      have hgood : Known f s.records →
          ∀ r ∈ (StoreAction.updated (applyStatus record .acknowledged now)).records, Good f r :=
        fun hs r hr => mem_singleton.mp hr ▸ (hs.good hrecord).applyStatus .acknowledged now
      split
      · rename_i heq
        exact append_keeps heq hgood
      · rename_i heq
        exact (append_keeps heq hgood).trans (resolveLoop_keeps now ids _ _)

theorem resolveSessionNotifications_keeps (dedupeKey now : String) (asOf : Option ℕ) :
    Keeps f s (s.resolveSessionNotifications J dedupeKey now asOf).1 := by
  unfold resolveSessionNotifications
  dsimp only
  split
  · rename_i heq
    exact (congrArg Prod.fst heq) ▸ resolveLoop_keeps now _ s []
  · rename_i heq
    have hloop : Keeps f s _ := (congrArg Prod.fst heq) ▸ resolveLoop_keeps now _ s []
    exact hloop.trans (.of_eq rfl rfl)

theorem compactIfNeeded_keeps (minimumActions : ℕ) (sources : Option (List SessionRecord)) :
    Keeps f s (s.compactIfNeeded J E minimumActions sources).1 := by
  obtain ⟨t, b, heq, hcompacted⟩ := compact_cases (E := E) J s minimumActions sources
  rw [heq]
  cases hcompacted with
  | skipped warned => exact .of_eq rfl rfl
  | done warned =>
    exact ⟨fun hs => Known.empty.puts fun r hr => hs.mem (retained_subset s sources hr), rfl⟩

/-- The record a call wants to create. -/
def candidates : Operation → List NotificationRecord
  | .createOrDedupe candidate _ _ => [candidate]
  | _ => []

theorem step_keeps {l : Label Call Result} (h : s.Step J E l t) (hs : Known f s.records)
    (hgood : ∀ r ∈ candidates l.call.operation, Good f r) : Keeps f s t := by
  have hperform : Keeps f { s with faults := l.call.faults }
      ({ s with faults := l.call.faults }.perform J E l.call.operation).1 := by
    cases hop : l.call.operation with
    | createOrDedupe candidate window minted =>
      exact createOrDedupe_keeps (hgood candidate (by rw [hop]; exact mem_cons_self)) window minted
    | supersedeTurnsForAttention attention now =>
      exact supersedeTurnsForAttention_keeps
        (s := { s with faults := l.call.faults }) hs attention now
    | updateTransition id status now => exact updateTransition_keeps id status now
    | deleteTransition id now => exact deleteTransition_keeps id now
    | resolveSessionNotifications dedupeKey now asOf =>
      exact resolveSessionNotifications_keeps dedupeKey now asOf
    | compactIfNeeded minimumActions sources => exact compactIfNeeded_keeps minimumActions sources
    | list params => exact .refl _
  have heq : ({ s with faults := l.call.faults }.perform J E l.call.operation).1 = t :=
    congrArg Prod.fst h
  rw [heq] at hperform
  exact ⟨hperform.known, hperform.unavailable⟩

end Store

/-! ### The order of a list -/

/-- The place of a record in the list. -/
def NotificationRecord.place (r : NotificationRecord) : Cursor := ⟨r.createdAt, r.id⟩

open NotificationRecord (place)

def Cursor.text (c : Cursor) : String := c.createdAt ++ "|" ++ c.id

/-- `a` is listed before `b`: created later, or at the same time with the smaller id. -/
def Cursor.lt (a b : Cursor) : Prop := b.createdAt < a.createdAt ∨
    (b.createdAt = a.createdAt ∧ a.id < b.id)

instance : DecidableRel Cursor.lt := fun _ _ => inferInstanceAs (Decidable (_ ∨ _))

instance : IsTrans Cursor Cursor.lt where
  trans a b c hab hbc := by
    rcases hab with hab | ⟨hab, hid⟩ <;> rcases hbc with hbc | ⟨hbc, hid'⟩
    · exact .inl (String.lt_trans hbc hab)
    · exact .inl (hbc ▸ hab)
    · exact .inl (hab ▸ hbc)
    · exact .inr ⟨hbc.trans hab, String.lt_trans hid hid'⟩

instance : Std.Irrefl Cursor.lt where
  irrefl a h := by
    rcases h with h | ⟨-, h⟩
    · exact String.lt_irrefl _ h
    · exact String.lt_irrefl _ h

instance : Std.Total listedBefore where
  total a b := by
    by_cases hab : b.createdAt < a.createdAt
    · exact .inl (.inl hab)
    · by_cases hba : a.createdAt < b.createdAt
      · exact .inr (.inl hba)
      · have heq : a.createdAt = b.createdAt :=
          String.le_antisymm (String.not_lt.mp hab) (String.not_lt.mp hba)
        rcases String.le_total a.id b.id with hid | hid
        · exact .inl (.inr ⟨heq, hid⟩)
        · exact .inr (.inr ⟨heq.symm, hid⟩)

instance : IsTrans NotificationRecord listedBefore where
  trans a b c hab hbc := by
    rcases hab with hab | ⟨hab, hid⟩ <;> rcases hbc with hbc | ⟨hbc, hid'⟩
    · exact .inl (String.lt_trans hbc hab)
    · exact .inl (hbc ▸ hab)
    · exact .inl (hab ▸ hbc)
    · exact .inr ⟨hab.trans hbc, String.le_trans hid hid'⟩

theorem lt_of_listedBefore {a b : NotificationRecord} (h : listedBefore a b) (hne : a.id ≠ b.id) :
    Cursor.lt a.place b.place := by
  rcases h with h | ⟨heq, hid⟩
  · exact .inl h
  · refine .inr ⟨heq.symm, ?_⟩
    by_contra hnot
    exact hne (String.le_antisymm hid (String.not_lt.mp hnot))

/-- The ids of a store's records are distinct. -/
theorem Keyed.pairwise_list {m : Records} (h : Keyed m) :
    m.list.Pairwise fun a b => a.id ≠ b.id := by
  rw [Records.list, pairwise_map]
  refine (Std.ExtTreeMap.distinct_keys_toList (t := m)).imp_of_mem fun {a b} ha hb hne heq => hne ?_
  rw [Std.ExtTreeMap.mem_toList_iff_getElem?_eq_some] at ha hb
  rw [Std.LawfulEqCmp.compare_eq_iff_eq, ← h _ _ ha, ← h _ _ hb]
  exact heq

theorem pairwise_sorted {selected : List NotificationRecord}
    (h : selected.Pairwise fun a b => a.id ≠ b.id) :
    (selected.insertionSort listedBefore).Pairwise fun a b => Cursor.lt a.place b.place := by
  have hids : (selected.insertionSort listedBefore).Pairwise fun a b => a.id ≠ b.id :=
    (perm_insertionSort listedBefore selected).symm.pairwise h fun hne => hne.symm
  exact (pairwise_insertionSort listedBefore selected).imp₂ (fun _ _ => lt_of_listedBefore) hids

theorem listPage_eq (selected : List NotificationRecord) (cursor : Option Cursor)
    (limit : Option ℕ) : listPage selected cursor limit =
      ⟨Keyset.page place Cursor.lt limit cursor (selected.insertionSort listedBefore),
        (Keyset.next place Cursor.lt limit cursor (selected.insertionSort listedBefore)).map
        Cursor.text⟩ := by
  have hnext : ∀ (records : List NotificationRecord) (n : ℕ),
      (if n < records.length ∧ 0 < n then records[n - 1]?.map encodeCursor else none) =
        (if n < records.length ∧ 0 < n then records[n - 1]?.map place else none).map
        Cursor.text := by
    intro records n
    split
    · rw [Option.map_map]
      rfl
    · rfl
  cases limit with
  | none => cases cursor <;> rfl
  | some n => cases cursor <;> exact congrArg _ (hnext _ n)

/-! ### The cursor -/

theorem splitOnce_append {c : Char} {a b : String} (h : c ∉ a.toList) :
    splitOnce c (a ++ String.singleton c ++ b) = some (a, b) := by
  have hspan : (a ++ String.singleton c ++ b).toList.span (· != c) = (a.toList, c :: b.toList) := by
    have htake : ∀ x ∈ a.toList, (x != c) = true := fun x hx => by
      rw [bne_iff_ne]
      rintro rfl
      exact h hx
    simp [takeWhile_append_of_pos htake, dropWhile_append_of_pos htake]
  rw [splitOnce, hspan]
  simp

/-- What the records of a list have, so that a cursor made of one is accepted. -/
structure Cursor.Accepted (E : Rfc3339) (c : Cursor) : Prop where
  time : ∃ instant, E.parse c.createdAt = some instant
  named : c.id ≠ ""
  plain : '|' ∉ c.createdAt.toList

theorem parseCursor_text {E : Rfc3339} {c : Cursor} (h : c.Accepted E) :
    parseCursor E c.text = .ok c := by
  obtain ⟨⟨instant, htime⟩, hid, hplain⟩ := h
  have hsplit : splitOnce '|' c.text = some (c.createdAt, c.id) := splitOnce_append hplain
  rw [parseCursor, hsplit]
  simp only [parseTimestamp, htime, if_neg hid]
  rfl

/-! ### One request -/

/-- The filters, once their times are parsed. -/
def NotificationListParams.times (E : Rfc3339) (params : NotificationListParams) :
    Except NotificationError (Option ℤ × Option ℤ) := do
  let createdAfter ← parseOptional (parseTimestamp E) params.createdAfter
  let createdBefore ← parseOptional (parseTimestamp E) params.createdBefore
  return (createdAfter, createdBefore)

/-- The record passes the filters of a list. -/
def NotificationListParams.covers (E : Rfc3339) (params : NotificationListParams)
    (record : NotificationRecord) : Bool :=
  match params.times E with
  | .ok (createdAfter, createdBefore) =>
    params.selects record && recordInTimeRange E createdAfter createdBefore record
  | .error _ => false

/-- The records of the list, in order. -/
def Store.listed (E : Rfc3339) (s : Store) (params : NotificationListParams) :
    List NotificationRecord :=
  (s.records.list.filter (params.covers E)).insertionSort listedBefore

section Request

variable {E : Rfc3339} {s : Store} {params : NotificationListParams}

theorem mem_listed {r : NotificationRecord} : r ∈ s.listed E params ↔ r ∈ s.records.list ∧
    params.covers E r := by
  rw [Store.listed, mem_insertionSort, mem_filter]

theorem Keyed.pairwise_listed (h : Keyed s.records) :
    (s.listed E params).Pairwise fun a b => Cursor.lt a.place b.place :=
  pairwise_sorted (h.pairwise_list.sublist filter_sublist)

theorem accepted_of_mem_listed {f : String → String} (h : Known f s.records)
    {r : NotificationRecord} (hr : r ∈ s.listed E params) : r.place.Accepted E := by
  obtain ⟨hmem, hcovers⟩ := mem_listed.mp hr
  refine ⟨?_, (h.mem hmem).1, (h.mem hmem).2.2⟩
  unfold NotificationListParams.covers at hcovers
  split at hcovers
  · rw [Bool.and_eq_true] at hcovers
    have hrange := hcovers.2
    unfold recordInTimeRange at hrange
    split at hrange
    · cases hrange
    · exact ⟨_, ‹_›⟩
  · cases hcovers

/-- What a request answers, given a cursor that is none or of the list. -/
theorem list_eq {cursor : Option Cursor} (hcursor : ∀ c, cursor = some c → c.Accepted E) :
    s.list E { params with cursor := cursor.map Cursor.text } =
      (do
        s.ensureAvailable
        let _ ← params.times E
        return ⟨Keyset.page place Cursor.lt params.limit cursor (s.listed E params),
          (Keyset.next place Cursor.lt params.limit cursor (s.listed E params)).map
          Cursor.text⟩) := by
  have hparse : parseOptional (parseCursor E) (cursor.map Cursor.text) = .ok cursor := by
    cases cursor with
    | none => rfl
    | some c =>
      show (parseCursor E c.text).map some = .ok (some c)
      rw [parseCursor_text (hcursor c rfl)]
      rfl
  unfold Store.list
  rw [hparse]
  unfold Store.listed NotificationListParams.covers NotificationListParams.times
  cases s.ensureAvailable with
  | error e => rfl
  | ok _ =>
    cases hafter : parseOptional (parseTimestamp E) params.createdAfter with
    | error e => rfl
    | ok createdAfter =>
      cases hbefore : parseOptional (parseTimestamp E) params.createdBefore with
      | error e => rfl
      | ok createdBefore =>
        show Except.ok (listPage ((s.records.list.filter params.selects).filter
          (recordInTimeRange E createdAfter createdBefore)) cursor params.limit) = _
        rw [listPage_eq, filter_filter]
        simp only [Bool.and_comm]
        rfl

theorem list_ok {c : Cursor} (hc : c.Accepted E) (havailable : s.unavailable = none)
    {times : Option ℤ × Option ℤ} (htimes : params.times E = .ok times) :
    ∃ result, s.list E { params with cursor := some c.text } = .ok result := by
  have hcursor : ∀ c', some c = some c' → c'.Accepted E := fun c' h => Option.some.inj h ▸ hc
  have hlist : s.list E { params with cursor := some c.text } = _ := list_eq hcursor
  rw [Store.ensureAvailable, havailable, htimes] at hlist
  exact ⟨_, hlist⟩

end Request

/-! ### Following the cursor -/

/-- A page, with the store it was taken from. -/
structure Visit where
  store : Store
  page : List NotificationRecord

/-- A client that asks for page after page, with any calls of others before and
between them. `position` is what the client asks for next: the first page,
the page after a cursor, or nothing any more. -/
inductive Traversal (J : Json) (E : Rfc3339) (params : NotificationListParams) (s : Store) :
    List Visit → List (Label Call Result) → Store → Option (Option String) → Prop
  | start : Traversal J E params s [] [] s (some none)
  | other {visits tr t u position} {l : Label Call Result}
      (h : Traversal J E params s visits tr t position)
      (hstep : t.Step J E l u) : Traversal J E params s visits (tr ++ [l]) u position
  | page {visits tr t cursor page nextCursor} (h : Traversal J E params s visits tr t (some cursor))
      (hpage : t.list E { params with cursor := cursor } = .ok ⟨page, nextCursor⟩) :
      Traversal J E params s (visits ++ [⟨t, page⟩]) tr t (nextCursor.map some)

/-- The records returned, in order. -/
def returnedRecords (visits : List Visit) : List NotificationRecord := visits.flatMap (·.page)

/-- The records that calls want to create. -/
def createCandidates (tr : List (Label Call Result)) : List NotificationRecord :=
  tr.flatMap fun l => Store.candidates l.call.operation

/-- An id is minted for one record, created at one time, and is not empty. -/
structure Minted (s : Store) (tr : List (Label Call Result)) : Prop where
  once : ∀ a ∈ s.records.list ++ createCandidates tr, ∀ b ∈ s.records.list ++ createCandidates tr,
    a.id = b.id → a.createdAt = b.createdAt
  named : ∀ a ∈ s.records.list ++ createCandidates tr, a.id ≠ ""
  plain : ∀ a ∈ s.records.list ++ createCandidates tr, '|' ∉ a.createdAt.toList

theorem Minted.exists_good {s : Store} {tr : List (Label Call Result)} (h : Minted s tr) :
    ∃ f, ∀ r ∈ s.records.list ++ createCandidates tr, Good f r := by
  classical
  refine ⟨fun id => if hex : ∃ r ∈ s.records.list ++ createCandidates tr,
    r.id = id then hex.choose.createdAt else "", fun r hr => ⟨h.named r hr, ?_, h.plain r hr⟩⟩
  have hex : ∃ x ∈ s.records.list ++ createCandidates tr, x.id = r.id := ⟨r, hr, rfl⟩
  show r.createdAt = dite _ _ _
  rw [dif_pos hex]
  exact h.once r hr _ hex.choose_spec.1 hex.choose_spec.2.symm

section Traversal

variable {J : Json} {E : Rfc3339} {params : NotificationListParams} {f : String → String}
    {s t : Store}
  {visits : List Visit} {tr : List (Label Call Result)} {position : Option (Option String)}

/-- What a client knows between two requests. -/
structure Followed (E : Rfc3339) (params : NotificationListParams) (f : String → String)
    (visits : List Visit) (t : Store) (position : Option (Option String)) : Prop where
  known : Known f t.records
  visited : ∀ v ∈ visits, Known f v.store.records ∧ v.page ⊆ v.store.listed E params
  usable : visits ≠ [] → t.unavailable = none ∧ ∃ times, params.times E = .ok times
  seen : ∃ p : Option (Option Cursor), position = p.map (Option.map Cursor.text) ∧
    (∀ c, p = some (some c) → c.Accepted E ∧ visits ≠ []) ∧
    Keyset.Seen Cursor.lt (visits.map fun v => (v.store.listed E params).map place)
      ((returnedRecords visits).map place) p

theorem Followed.other (h : Followed E params f visits t position) {u : Store}
    {l : Label Call Result} (hstep : t.Step J E l u)
    (hgood : ∀ r ∈ Store.candidates l.call.operation, Good f r) :
    Followed E params f visits u position where
  known := (Store.step_keeps hstep h.known hgood).known h.known
  visited := h.visited
  usable hne := by
    rw [(Store.step_keeps hstep h.known hgood).unavailable]
    exact h.usable hne
  seen := h.seen

theorem Followed.page (hlimit : params.limit ≠ some 0) {cursor nextCursor : Option String}
    {page : List NotificationRecord} (h : Followed E params f visits t (some cursor))
    (hpage : t.list E { params with cursor := cursor } = .ok ⟨page, nextCursor⟩) :
    Followed E params f (visits ++ [⟨t, page⟩]) t (nextCursor.map some) := by
  obtain ⟨p, hp, haccepted, hseen⟩ := h.seen
  obtain ⟨after, rfl⟩ : ∃ after, p = some after := by
    cases p with
    | none => cases hp
    | some after => exact ⟨after, rfl⟩
  cases hp
  rw [list_eq fun c hc => (haccepted c (congrArg some hc)).1] at hpage
  obtain ⟨⟨⟩, havailable, hpage⟩ := Fallible.bind_ok_iff.mp hpage
  obtain ⟨times, htimes, hpage⟩ := Fallible.bind_ok_iff.mp hpage
  cases hpage
  have hsub : Keyset.page place Cursor.lt params.limit after (t.listed E params) ⊆
      t.listed E params := by
    obtain ⟨more, hrest, -⟩ := page_append place Cursor.lt after (t.listed E params) hlimit
    intro r hr
    exact (mem_rest.mp (hrest ▸ mem_append_left more hr)).1
  refine ⟨h.known, List.forall_mem_snoc h.visited ⟨h.known, hsub⟩, fun _ => ⟨?_, times, htimes⟩, ?_⟩
  · unfold Store.ensureAvailable at havailable
    split at havailable
    · cases havailable
    · assumption
  · refine ⟨(Keyset.next place Cursor.lt params.limit after (t.listed E params)).map some,
      ?_, ?_, ?_⟩
    · rw [Option.map_map, Option.map_map]
      rfl
    · intro c hc
      obtain ⟨more, -, ⟨hnone, -⟩ | ⟨front, x, hfront, hnext⟩⟩ :=
        page_append place Cursor.lt after (t.listed E params) hlimit
      · rw [hnone] at hc
        cases hc
      · rw [hnext] at hc
        cases Option.some.inj hc
        have hx : x ∈ t.listed E params := hsub (hfront ▸ mem_append_right front mem_cons_self)
        exact ⟨accepted_of_mem_listed h.known hx, by simp⟩
    · have hsorted : (t.listed E params).Pairwise fun a b => Cursor.lt a.place b.place :=
        h.known.keyed.pairwise_listed
      have hnext := hseen.page hsorted hlimit
      have hreturned : returnedRecords
        (visits ++ [⟨t, Keyset.page place Cursor.lt params.limit after
          (t.listed E params)⟩]) = returnedRecords visits ++
          Keyset.page place Cursor.lt params.limit after (t.listed E params) := by
        simp [returnedRecords]
      rw [hreturned, map_append, map_append]
      exact hnext

theorem Traversal.followed (hlimit : params.limit ≠ some 0) (hs : Known f s.records)
    (h : Traversal J E params s visits tr t position)
    (hgood : ∀ r ∈ createCandidates tr, Good f r) : Followed E params f visits t position := by
  induction h with
  | start => exact ⟨hs, nofun, fun hne => absurd rfl hne, some none, rfl, nofun, .nil⟩
  | other _ hstep ih =>
    rw [createCandidates, flatMap_append] at hgood
    refine (ih fun r hr => hgood r (mem_append_left _ hr)).other hstep fun r hr => ?_
    exact hgood r (mem_append_right _ (by simpa using hr))
  | page _ hpage ih => exact (ih hgood).page hlimit hpage

theorem keyed_open (J : Json) (dir : Dir) : Keyed (Store.«open» J dir).records := by
  fun_cases Store.«open» J dir
  · exact Keyed.empty
  · exact Keyed.empty
  · exact Keyed.empty
  next replayed hreplay =>
    unfold replay at hreplay
    split at hreplay
    · cases hreplay
    · split at hreplay
      · rename_i hscan
        cases hreplay
        have happly : ∀ (s : ReplayState) (a : StoreAction), Keyed s.records →
          Keyed (s.apply a).records :=
          fun s a hs => hs.apply a
        exact LineLog.Format.scan_invariant _ happly _ _ ⟨∅, 0⟩ Keyed.empty hscan
      · cases hreplay

/-- Distinct places are distinct ids. -/
theorem nodup_ids {rs : List NotificationRecord} (hgood : ∀ r ∈ rs, Good f r)
    (h : rs.Pairwise fun a b => Cursor.lt a.place b.place) : (rs.map (·.id)).Nodup := by
  refine pairwise_map.mpr (h.imp_of_mem fun {a b} ha hb hlt heq => ?_)
  have hplace : a.place = b.place := by
    rw [place, place, (hgood a ha).2.1, (hgood b hb).2.1, heq]
  exact irrefl_of Cursor.lt _ (hplace ▸ hlt)

/-- **A client that follows the cursor sees every record once.** While other
calls change the store, the records returned are in list order within a page
and from page to page, no id is returned twice, and each was in the list of
its moment. A cursor that was handed out is accepted. When there is no next
cursor, an id whose record passed the filters at every page was returned
exactly once. -/
theorem pagination_exact {dir : Dir} (hlimit : params.limit ≠ some 0)
    (h : Traversal J E params (Store.«open» J dir) visits tr t position)
    (hids : Minted (Store.«open» J dir) tr) :
    ((returnedRecords visits).Pairwise fun a b => Cursor.lt a.place b.place) ∧
    ((returnedRecords visits).map (·.id)).Nodup ∧
    (∀ v ∈ visits, ∀ r ∈ v.page, v.store.records[r.id]? = some r ∧ params.covers E r) ∧
    (∀ text, position = some (some text) → ∃ result,
      t.list E { params with cursor := some text } = .ok result) ∧
    (position = none → ∀ id,
    (∀ v ∈ visits, ∃ r, v.store.records[id]? = some r ∧ params.covers E r) →
      ((returnedRecords visits).map (·.id)).count id = 1) := by
  obtain ⟨f, hf⟩ := hids.exists_good
  have hopen : Known f (Store.«open» J dir).records :=
    ⟨keyed_open J dir, fun hk => hf _ (mem_append_left _ (mem_list.mpr ⟨_, hk⟩))⟩
  have hfollowed := h.followed hlimit hopen fun r hr => hf r (mem_append_right _ hr)
  obtain ⟨p, hp, haccepted, hseen⟩ := hfollowed.seen
  have hgood : ∀ r ∈ returnedRecords visits, Good f r := by
    intro r hr
    obtain ⟨v, hv, hrv⟩ := mem_flatMap.mp hr
    obtain ⟨hknown, hpage⟩ := hfollowed.visited v hv
    exact hknown.mem (mem_listed.mp (hpage hrv)).1
  have hsorted := pairwise_map.mp hseen.sorted
  have hnodup := nodup_ids hgood hsorted
  refine ⟨hsorted, hnodup, ?_, ?_, ?_⟩
  · intro v hv r hr
    obtain ⟨hknown, hpage⟩ := hfollowed.visited v hv
    obtain ⟨hmem, hcovers⟩ := mem_listed.mp (hpage hr)
    obtain ⟨k, hk⟩ := mem_list.mp hmem
    exact ⟨by rw [hknown.keyed k r hk]; exact hk, hcovers⟩
  · rintro text rfl
    obtain ⟨c, rfl, rfl⟩ : ∃ c, p = some (some c) ∧ text = c.text := by
      match p, hp with
      | some (some c), hp => exact ⟨c, rfl, Option.some.inj (Option.some.inj hp)⟩
    obtain ⟨hc, hne⟩ := haccepted c rfl
    obtain ⟨havailable, times, htimes⟩ := hfollowed.usable hne
    exact list_ok hc havailable htimes
  · rintro rfl id hid
    obtain rfl : p = none := by
      cases p with
      | none => rfl
      | some _ => cases hp
    -- the id's place is the same at every page
    have hplace : ∀ snapshot ∈ visits.map fun v => (v.store.listed E params).map place,
        (⟨f id, id⟩ : Cursor) ∈ snapshot := by
      intro snapshot hsnapshot
      obtain ⟨v, hv, rfl⟩ := mem_map.mp hsnapshot
      obtain ⟨r, hr, hcovers⟩ := hid v hv
      have hknown := (hfollowed.visited v hv).1
      have hrid : r.id = id := hknown.keyed id r hr
      have heq : r.place = ⟨f id, id⟩ := by
        rw [place, (hknown.good hr).2.1, hrid]
      exact heq ▸ mem_map_of_mem (mem_listed.mpr ⟨mem_list.mpr ⟨id, hr⟩, hcovers⟩)
    have hcount := hseen.count_eq_one hplace
    have hmem : (⟨f id, id⟩ : Cursor) ∈ (returnedRecords visits).map place :=
      count_pos_iff.mp (by omega)
    obtain ⟨r, hr, hrplace⟩ := mem_map.mp hmem
    exact count_eq_one_of_mem hnodup (mem_map.mpr ⟨r, hr, congrArg Cursor.id hrplace⟩)

end Traversal

/-- Two records listed one at a time; the first one is deleted between the
pages, and the second page is taken after its place all the same. -/
theorem pagination_exact_deleted : ∃ visits tr t,
    Traversal sampleJson sampleTime { limit := some 1 }
    (Store.«open» sampleJson sampleDir) visits tr t none ∧
    visits.map (fun v => v.page.map (·.id)) = [["n1"], ["n2"]] ∧
    t.records.list.map (·.status) = [.deleted, .unread] ∧
    ((returnedRecords visits).map (·.id)).count "n2" = 1 := by
  let s := ((Store.«open» sampleJson sampleDir).execAll sampleJson sampleTime
    (sampleCalls.take 2)).1
  let t := (s.exec sampleJson sampleTime ⟨.deleteTransition "n1" "2026-01-01T00:00:05Z", []⟩).1
  have hfirst : s.list sampleTime { limit := some 1 } =
      .ok ⟨[sampleRecord "n1"], some "2026-01-01T00:00:00Z|n1"⟩ := by decide +kernel
  have hsecond : t.list sampleTime { limit := some 1, cursor := some "2026-01-01T00:00:00Z|n1" } =
      .ok ⟨[sampleRecord "n2"], none⟩ := by decide +kernel
  have htraversal : Traversal sampleJson sampleTime { limit := some 1 }
    (Store.«open» sampleJson sampleDir)
      [⟨s, [sampleRecord "n1"]⟩, ⟨t, [sampleRecord "n2"]⟩]
      ((Store.«open» sampleJson sampleDir).execAll sampleJson sampleTime sampleCalls).2 t none := by
    have hstep : ∀ (s : Store) (call : Call),
      s.Step sampleJson sampleTime ⟨call, (s.exec sampleJson sampleTime call).2⟩
        (s.exec sampleJson sampleTime call).1 := fun _ _ => rfl
    have hstart : Traversal sampleJson sampleTime { limit := some 1 }
      (Store.«open» sampleJson sampleDir) [] []
        (Store.«open» sampleJson sampleDir) (some none) := .start
    have hcreated := (hstart.other (hstep _ ⟨.createOrDedupe (sampleRecord "n1") 0 0, []⟩)).other
      (hstep _ ⟨.createOrDedupe (sampleRecord "n2") 0 0, []⟩)
    have hpaged := hcreated.page hfirst
    exact (hpaged.other (hstep _ ⟨.deleteTransition "n1" "2026-01-01T00:00:05Z", []⟩)).page hsecond
  refine ⟨_, _, t, htraversal, rfl, by decide +kernel, ?_⟩
  have hids : Minted (Store.«open» sampleJson sampleDir)
      ((Store.«open» sampleJson sampleDir).execAll sampleJson sampleTime sampleCalls).2 :=
    ⟨by decide +kernel, by decide +kernel, by decide +kernel⟩
  refine (pagination_exact (by simp) htraversal hids).2.2.2.2 rfl "n2" fun v hv =>
    ⟨sampleRecord "n2", ?_⟩
  rcases mem_cons.mp hv with rfl | hv
  · decide +kernel
  · obtain rfl := mem_singleton.mp hv
    decide +kernel

end Pohunek.Notifications

/-
# The text of an action

`serde_json::to_string` of a `StoreAction` (`encodeAction`): the tag first,
then the fields in the order of the structs, without the empty ones. The
control characters are escaped, so an action is one line (`encodeAction_plain`).

`Json.ofTable` reads the texts of given actions: the text of one of them is
that action, a proper start of one ends too early, and anything else is
refused. Where no text of the table starts or ends another (`Unambiguous`),
it is a lawful encoding (`ofTable_lawful`).
-/
import Pohunek.Notifications.Log

namespace Pohunek.Notifications

open List

/-! ### Writing -/

def doubleQuote : Char := Char.ofNat 0x22

def backslash : Char := Char.ofNat 0x5c

/-- A character inside a string. -/
def escapeChar (c : Char) : List Char :=
  if c = doubleQuote ∨ c = backslash then [backslash, c]
  else if c.toNat = 0x08 then [backslash, 'b']
  else if c.toNat = 0x09 then [backslash, 't']
  else if c.toNat = 0x0a then [backslash, 'n']
  else if c.toNat = 0x0c then [backslash, 'f']
  else if c.toNat = 0x0d then [backslash, 'r']
  else if c.toNat < 0x20 then
    [backslash, 'u', '0', '0', Nat.digitChar (c.toNat / 16), Nat.digitChar (c.toNat % 16)]
  else [c]

def quote (s : String) : List Char := doubleQuote :: s.toList.flatMap escapeChar ++ [doubleQuote]

def commaJoin : List (List Char) → List Char
  | [] => []
  | [x] => x
  | x :: y :: xs => x ++ ',' :: commaJoin (y :: xs)

def object (fields : List (String × List Char)) : List Char :=
  '{' :: commaJoin (fields.map fun field => quote field.1 ++ ':' :: field.2) ++ ['}']

def array (items : List (List Char)) : List Char := '[' :: commaJoin items ++ [']']

/-- `skip_serializing_if = "Option::is_none"`. -/
def optional (name : String) (value : Option String) : List (String × List Char) :=
  value.toList.map fun text => (name, quote text)

def NotificationSeverity.asStr : NotificationSeverity → String
  | info => "info"
  | success => "success"
  | warning => "warning"
  | error => "error"
  | actionRequired => "action_required"
  | unknown => "unknown"

def NotificationStatus.asStr : NotificationStatus → String
  | unread => "unread"
  | read => "read"
  | acknowledged => "acknowledged"
  | archived => "archived"
  | deleted => "deleted"
  | unknown => "unknown"

def encodeSource (source : NotificationSource) : List Char :=
  object [("provider", quote source.provider), ("provider_event", quote source.providerEvent),
    ("host_local_source_id", quote source.hostLocalSourceId)]

def encodeRecord (record : NotificationRecord) : List Char :=
  object ([("id", quote record.id), ("source", encodeSource record.source),
      ("kind", quote record.kind.asStr), ("severity", quote record.severity.asStr),
      ("status", quote record.status.asStr), ("title", quote record.title),
      ("body", quote record.body)] ++
    (if record.metadata = [] then []
      else [("metadata", object (record.metadata.map fun entry => (entry.1, quote entry.2)))]) ++
    [("created_at", quote record.createdAt)] ++
    optional "session_id" record.sessionId ++ optional "agent_kind" record.agentKind ++
    optional "source_id" record.sourceId ++ optional "dedupe_key" record.dedupeKey ++
    optional "project_id" record.projectId ++ optional "read_at" record.readAt ++
    optional "acked_at" record.ackedAt ++ optional "archived_at" record.archivedAt ++
    optional "deleted_at" record.deletedAt ++ optional "superseded_by" record.supersededBy ++
    if record.hookAdmitted then [("hook_admitted", "true".toList)] else [])

def encodeAction : StoreAction → List Char
  | .created record => object [("action", quote "created"), ("record", encodeRecord record)]
  | .createdWithUpdates record updated =>
    object [("action", quote "created_with_updates"), ("record", encodeRecord record),
      ("updated", array (updated.map encodeRecord))]
  | .updated record => object [("action", quote "updated"), ("record", encodeRecord record)]
  | .deleted record => object [("action", quote "deleted"), ("record", encodeRecord record)]

/-! ### No control characters -/

/-- Text without control characters. -/
def Plain (text : List Char) : Prop := ∀ c ∈ text, 0x20 ≤ c.toNat

@[simp] theorem plain_nil : Plain [] := forall_mem_nil _

@[simp] theorem plain_cons {c : Char} {a : List Char} : Plain (c :: a) ↔ 0x20 ≤ c.toNat ∧ Plain a :=
  forall_mem_cons

@[simp] theorem plain_append {a b : List Char} : Plain (a ++ b) ↔ Plain a ∧ Plain b :=
  forall_mem_append

theorem escapeChar_plain (c : Char) : Plain (escapeChar c) := by
  have hdigit : ∀ n < 16, 0x20 ≤ (Nat.digitChar n).toNat := by decide
  have hback : 0x20 ≤ backslash.toNat := by decide
  unfold escapeChar
  split
  · rename_i h
    rcases h with rfl | rfl <;> simp [doubleQuote, backslash]
  · split_ifs with h8 h9 ha hc hd hlow
    · simp [hback]
    · simp [hback]
    · simp [hback]
    · simp [hback]
    · simp [hback]
    · simp [hback, hdigit (c.toNat / 16) (by omega), hdigit (c.toNat % 16) (by omega)]
    · simpa using hlow

@[simp] theorem quote_plain (s : String) : Plain (quote s) := by
  have hflat : Plain (s.toList.flatMap escapeChar) := by
    intro c hc
    obtain ⟨d, -, hc⟩ := mem_flatMap.mp hc
    exact escapeChar_plain d c hc
  simp [quote, hflat, doubleQuote]

theorem commaJoin_plain {items : List (List Char)} (h : ∀ x ∈ items, Plain x) :
    Plain (commaJoin items) := by
  fun_induction commaJoin items with
  | case1 => simp
  | case2 x => exact h x mem_cons_self
  | case3 x y xs ih => simp [h x mem_cons_self, ih fun z hz => h z (mem_cons_of_mem x hz)]

/-- Fields whose values are written without control characters. -/
def PlainFields (fields : List (String × List Char)) : Prop := ∀ field ∈ fields, Plain field.2

@[simp] theorem plainFields_nil : PlainFields [] := forall_mem_nil _

variable {fields more : List (String × List Char)}

@[simp] theorem plainFields_cons {field : String × List Char} :
    PlainFields (field :: fields) ↔ Plain field.2 ∧ PlainFields fields := forall_mem_cons

@[simp] theorem plainFields_append : PlainFields (fields ++ more) ↔ PlainFields fields ∧
    PlainFields more :=
  forall_mem_append

@[simp] theorem plainFields_optional {name : String} {value : Option String} :
    PlainFields (optional name value) := by
  cases value <;> simp [optional]

theorem object_plain (h : PlainFields fields) : Plain (object fields) := by
  have hjoined : Plain (commaJoin (fields.map fun field => quote field.1 ++ ':' :: field.2)) := by
    refine commaJoin_plain fun x hx => ?_
    obtain ⟨field, hf, rfl⟩ := mem_map.mp hx
    simp [h field hf]
  simp [object, hjoined]

@[simp] theorem encodeSource_plain (source : NotificationSource) : Plain (encodeSource source) :=
  object_plain (by simp)

@[simp] theorem encodeRecord_plain (record : NotificationRecord) : Plain (encodeRecord record) := by
  have hmetadata : Plain (object (record.metadata.map fun entry => (entry.1, quote entry.2))) := by
    refine object_plain fun field hf => ?_
    obtain ⟨entry, -, rfl⟩ := mem_map.mp hf
    exact quote_plain entry.2
  refine object_plain ?_
  split <;> split <;> simp [hmetadata]

/-- **An action is written without control characters.** -/
theorem encodeAction_plain (a : StoreAction) : Plain (encodeAction a) := by
  cases a with
  | createdWithUpdates record updated =>
    have hjoined : Plain (commaJoin (updated.map encodeRecord)) := by
      refine commaJoin_plain fun x hx => ?_
      obtain ⟨r, -, rfl⟩ := mem_map.mp hx
      exact encodeRecord_plain r
    exact object_plain (by simp [array, hjoined])
  | created record => exact object_plain (by simp)
  | updated record => exact object_plain (by simp)
  | deleted record => exact object_plain (by simp)

theorem encodeAction_brace (a : StoreAction) : ∃ rest, encodeAction a = '{' :: rest := by
  cases a <;> exact ⟨_, rfl⟩

/-! ### Reading the texts of given actions -/

/-- No text of the table starts or ends the text of another action. -/
def Unambiguous (table : List StoreAction) : Prop :=
  ∀ a ∈ table, ∀ b ∈ table,
    (encodeAction a <+: encodeAction b ∨ encodeAction a <:+ encodeAction b) → a = b

instance (table : List StoreAction) : Decidable (Unambiguous table) :=
  inferInstanceAs (Decidable (∀ a ∈ table, ∀ b ∈ table, _ → a = b))

def Json.ofTable (table : List StoreAction) : Json where
  encode := encodeAction
  parse line :=
    match table.find? fun a => encodeAction a = line with
    | some a => .ok a
    | none =>
      if table.any fun a => line.isPrefixOf (encodeAction a) then .eof "EOF while parsing an object"
      else .invalid "expected value"

section Table

variable {table : List StoreAction}

theorem Json.ofTable_ok {line : List Char} {a : StoreAction}
    (h : (Json.ofTable table).parse line = .ok a) : a ∈ table ∧ encodeAction a = line := by
  unfold Json.ofTable at h
  simp only at h
  split at h
  · rename_i b hb
    cases h
    exact ⟨mem_of_find?_eq_some hb, by simpa using find?_some hb⟩
  · split at h <;> cases h

/-- A start of an action's text has no control characters and is not blank. -/
theorem start_visible {a : StoreAction} {p : List Char} (hp : p <+: encodeAction a) (hne : p ≠ [])
    {q : List Char} (hq : Plain q) :
    stripCarriageReturn (p ++ q) = p ++ q ∧ (p ++ q).all isWhitespace = false := by
  have hplain : Plain (p ++ q) :=
    plain_append.mpr ⟨fun c hc => encodeAction_plain a c (hp.subset hc), hq⟩
  constructor
  · unfold stripCarriageReturn
    rw [if_neg]
    intro hlast
    have hcr : 0x20 ≤ '\r'.toNat := hplain _ (mem_of_getLast? hlast)
    exact absurd hcr (by decide)
  · obtain ⟨rest, hrest⟩ := encodeAction_brace a
    obtain ⟨c, p, rfl⟩ := exists_cons_of_ne_nil hne
    obtain ⟨more, hmore⟩ := hp
    rw [hrest, cons_append, List.cons.injEq] at hmore
    rw [hmore.1, cons_append, all_cons]
    rfl

/-- **The table is a lawful encoding of its actions.** -/
theorem ofTable_lawful (h : Unambiguous table) :
    (Json.ofTable table).format.Lawful (· ∈ table) where
  oneLine a _ hmem := by
    have hnl : 0x20 ≤ '\n'.toNat := encodeAction_plain a _ hmem
    exact absurd hnl (by decide)
  nonempty a _ hnil := by
    obtain ⟨rest, hrest⟩ := encodeAction_brace a
    have hnil : encodeAction a = [] := hnil
    rw [hrest] at hnil
    cases hnil
  clean a _ p hp := by
    by_cases hne : p = []
    · rw [hne]
      rfl
    · have hclean := (start_visible hp hne plain_nil).1
      rw [append_nil] at hclean
      exact hclean
  visible a _ p hp hne := by
    have hblank := (start_visible hp hne plain_nil).2
    rw [append_nil] at hblank
    exact hblank
  roundTrip a ha := by
    change (Json.ofTable table).parse (encodeAction a) = .ok a
    unfold Json.ofTable
    simp only
    cases hf : table.find? fun b => decide (encodeAction b = encodeAction a) with
    | none => simpa using find?_eq_none.mp hf a ha
    | some b =>
      have hb : encodeAction b = encodeAction a := by simpa using find?_some hf
      rw [h b (mem_of_find?_eq_some hf) a ha (.inl (hb ▸ prefix_refl _))]
  torn a ha p hp hne hwhole := by
    change ∃ m, (Json.ofTable table).parse p = .eof m
    unfold Json.ofTable
    simp only
    cases hf : table.find? fun b => decide (encodeAction b = p) with
    | none =>
      have hany : (table.any fun b => p.isPrefixOf (encodeAction b)) = true :=
        any_eq_true.mpr ⟨a, ha, isPrefixOf_iff_prefix.mpr hp⟩
      simp only [hany, if_true]
      exact ⟨_, rfl⟩
    | some b =>
      have hb : encodeAction b = p := by simpa using find?_some hf
      have hba : b = a := h b (mem_of_find?_eq_some hf) a ha (.inl (hb ▸ hp))
      exact absurd (hba ▸ hb.symm) hwhole
  glued a b _ hb p hp hne := by
    obtain ⟨hclean, hblank⟩ := start_visible hp hne (encodeAction_plain b)
    change (stripCarriageReturn (p ++ encodeAction b)).all isWhitespace = false ∧
      ∀ c, (Json.ofTable table).parse (stripCarriageReturn (p ++ encodeAction b)) ≠ .ok c
    rw [hclean]
    refine ⟨hblank, fun c hc => ?_⟩
    obtain ⟨hmem, henc⟩ := Json.ofTable_ok hc
    have hbc : b = c := h b hb c hmem (.inr ⟨p, henc.symm⟩)
    rw [hbc] at henc
    exact hne (append_left_eq_self.mp henc.symm)

end Table

/-! ### A sample

Two records, one of which is deleted. -/

def sampleRecord (id : String) : NotificationRecord where
  id := id
  source := ⟨"script", "note", "local-1"⟩
  kind := .system
  severity := .info
  status := .unread
  title := "Backup"
  body := "done"
  metadata := []
  createdAt := "2026-01-01T00:00:00Z"
  sessionId := none
  agentKind := none
  sourceId := none
  dedupeKey := none
  projectId := none
  readAt := none
  ackedAt := none
  archivedAt := none
  deletedAt := none
  supersededBy := none
  hookAdmitted := false

/-- The moment of the sample records, in nanoseconds. -/
def sampleTime : Rfc3339 where
  parse s := if s = "2026-01-01T00:00:00Z" then some 1767225600000000000 else none

def sampleDeleted : NotificationRecord :=
  applyStatus (sampleRecord "n1") .deleted "2026-01-01T00:00:05Z"

def sampleActions : List StoreAction :=
  [.created (sampleRecord "n1"), .created (sampleRecord "n2"), .deleted sampleDeleted,
    .created sampleDeleted]

def sampleJson : Json := .ofTable sampleActions

def sampleDir : Dir := ⟨"notifications.jsonl", none, none, ByteArray.empty⟩

/-- Two creations and a deletion. -/
def sampleCalls : List Call :=
  [⟨.createOrDedupe (sampleRecord "n1") 0 0, []⟩, ⟨.createOrDedupe (sampleRecord "n2") 0 0, []⟩,
    ⟨.deleteTransition "n1" "2026-01-01T00:00:05Z", []⟩]

theorem sampleJson_lawful : sampleJson.format.Lawful (· ∈ sampleActions) :=
  ofTable_lawful (by decide +kernel)

theorem sampleActions_closed : Closed (· ∈ sampleActions) := by
  unfold Closed
  decide +kernel

theorem sampleDir_holds : sampleDir.Holds sampleJson (· ∈ sampleActions) [] :=
  ⟨rfl, rfl, rfl, fun _ h => absurd h not_mem_nil⟩

end Pohunek.Notifications

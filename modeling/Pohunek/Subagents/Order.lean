/-
# Subagent claims do not depend on their order

Below the capacities the worker keeps of each subagent the latest claim
(`Tracks`): its record has the sequence of the latest claim and runs iff that
claim is a start; without a record the latest claim is a stop that required a
start, and its sequence is the remembered orphan stop. A claim of another
subagent leaves both alone, so claims of any subagents may come in between.

Key theorems: `deliver_cases` (what one delivery does), `Tracks.deliver`,
`tracks_deliverAll`, `subagent_claims_order_independent`.
-/
import Pohunek.Subagents.Claims

namespace Pohunek.Subagents

open Keyed OrphanStops List Bool Option Worker

/-- A subagent, as the claims name it. -/
structure Key where
  provider : String
  id : String
  deriving DecidableEq

namespace Hook

def claim : Hook → SubagentClaim
  | start claim _ _ => claim
  | stop claim _ => claim

def key (h : Hook) : Key := ⟨h.claim.provider, h.claim.id⟩

def sequence (h : Hook) : ℕ := h.claim.sequence

def isStart : Hook → Bool
  | start _ _ _ => true
  | stop _ _ => false

end Hook

def Key.names (key : Key) (item : SubagentRecord) :
    Bool := item.provider == key.provider && item.id == key.id

namespace Worker

def recordOf (w : Worker) (key : Key) : Option SubagentRecord := w.journal.subagents.find? key.names

def orphanOf (w : Worker) (key : Key) : Option ℕ := w.orphanStops.sequence key.provider key.id

/-- The sequence a claim is ordered against. -/
def recordedOf (w : Worker) (h : Hook) : Option ℕ :=
  match w.recordOf h.key with
  | some record => some record.sequence
  | none => if h.isStart then w.orphanOf h.key else none

end Worker

/-- The worker is below its capacities when the claim comes. -/
structure Below (w : Worker) (d : Delivery) : Prop where
  running : d.hook.isStart → (w.journal.running d.hook.claim.provider).length <
    activeSubagentCapacity
  orphans : w.orphanStops.length < orphanStopCapacity
  terminal : (w.journal.subagents.filter (·.phase != .running)).length < terminalSubagentCapacity

/-! ### One record is put -/

/-- `l'` is `l` with the record of the key put to `r`. -/
inductive Put (key : Key) (l l' : List SubagentRecord) (r : SubagentRecord) : Prop
  | changed (f : SubagentRecord →
    SubagentRecord) (old : SubagentRecord) (found : l.find? key.names = some old)
      (keeps : ∀ item, (f item).provider = item.provider ∧ (f item).id = item.id)
      (value : f old = r) (list : l' = modifyFirst key.names f l)
  | added (found : l.find? key.names = none) (named : r.provider = key.provider ∧ r.id = key.id)
      (list : l' = l ++ [r])

variable {key : Key}

theorem names_iff {item : SubagentRecord} :
    key.names item = true ↔ item.provider = key.provider ∧ item.id = key.id := by
  simp [Key.names]

theorem names_of_ne {key' : Key} (hne : key ≠ key') {item : SubagentRecord} (h : key.names item) :
    key'.names item = false := by
  by_contra h'
  obtain ⟨hp, hi⟩ := names_iff.mp h
  obtain ⟨hp', hi'⟩ := names_iff.mp (not_eq_false _ ▸ h')
  apply hne
  cases key
  cases key'
  simp_all

namespace Put

variable {key : Key} {l l' : List SubagentRecord} {r : SubagentRecord}

theorem found (h : Put key l l' r) : l'.find? key.names = some r := by
  cases h with
  | changed f old found keeps value list =>
    have hf : ∀ item, key.names item → key.names (f item) := by
      intro item hitem
      obtain ⟨hp, hi⟩ := keeps item
      rw [names_iff] at hitem ⊢
      rw [hp, hi]
      exact hitem
    rw [list, find?_modifyFirst hf, found, map_some, value]
  | added found named list =>
    rw [list, find?_append, found, none_or, find?_cons_of_pos (names_iff.mpr named)]

theorem other (h : Put key l l' r) {key' : Key} (hne : key ≠ key') :
    l'.find? key'.names = l.find? key'.names := by
  cases h with
  | changed f old found keeps value list =>
    rw [list, find?_modifyFirst_of_ne]
    intro item hitem
    obtain ⟨hp, hi⟩ := keeps item
    have hf : key.names (f item) := by
      rw [names_iff] at hitem ⊢
      rw [hp, hi]
      exact hitem
    exact ⟨names_of_ne hne hitem, names_of_ne hne hf⟩
  | added found named list =>
    have hr : key'.names r = false := names_of_ne hne (names_iff.mpr named)
    rw [list, find?_append, find?_cons_of_neg (by simp [hr]), find?_nil, or_none]

theorem filter_le (h : Put key l l' r) (q : SubagentRecord → Bool) :
    (l'.filter q).length ≤ (l.filter q).length + 1 := by
  cases h with
  | changed f old found keeps value list =>
    rw [list]
    exact filter_modifyFirst_le q l
  | added found named list =>
    rw [list, filter_append, length_append]
    have hone : ([r].filter q).length ≤ 1 := length_filter_le q [r]
    omega

end Put

theorem put_update {journal : Journal} {claim : SubagentClaim} {old : SubagentRecord}
    (hfound : journal.subagents.find? claim.names = some old) (f : SubagentRecord → SubagentRecord)
    (hf : ∀ item, (f item).provider = item.provider ∧ (f item).id = item.id) (revision : ℕ) :
    Put ⟨claim.provider, claim.id⟩ journal.subagents
    (journal.update claim f revision).subagents (f old) :=
  .changed f old hfound hf rfl rfl

theorem put_push {journal : Journal} {claim : SubagentClaim}
    (hfound : journal.subagents.find? claim.names = none) (record : SubagentRecord)
    (hrecord : record.provider = claim.provider ∧ record.id = claim.id) (revision : ℕ) :
    Put ⟨claim.provider, claim.id⟩ journal.subagents
    (journal.push record revision).subagents record :=
  .added hfound hrecord rfl

/-! ### The two claims -/

/-- What a claim is ordered after. -/
def Ordered (recorded : Option ℕ) (sequence : ℕ) : Prop := ∀ s, recorded = some s → s < sequence

variable {sequence : ℕ} {rule : SubagentSequence}

theorem staleStart_iff {recorded : Option ℕ} :
    (!rule.admitsStart recorded sequence) = true ↔ ¬Ordered recorded sequence := by
  cases recorded <;> simp [SubagentSequence.admitsStart, Ordered]

theorem staleStop_iff {recorded : Option ℕ} :
    (!rule.admitsStop recorded sequence) = true ↔ ¬Ordered recorded sequence := by
  cases recorded <;> simp [SubagentSequence.admitsStop, Ordered]

section Claims

variable {journal : Journal} {claim : SubagentClaim}

/-- A start with room for it is stale, or it puts a running record. -/
theorem startSubagent_cases (now : ℕ) (rule : SubagentSequence) (claim : SubagentClaim)
    (parentId agentType : Option String) (orphanStop : Option ℕ) (occurredAtMs : ℕ)
    (hroom : (journal.running claim.provider).length < activeSubagentCapacity) :
    let recorded := match journal.subagents.find? claim.names with
      | some record => some record.sequence
      | none => orphanStop
    let result := startSubagent now journal rule claim parentId agentType orphanStop occurredAtMs
    (¬Ordered recorded claim.sequence ∧
      result = (journal, .ignored .staleSequence recorded false)) ∨
    (Ordered recorded claim.sequence ∧ result.2.persists ∧
      ∃ r, Put ⟨claim.provider, claim.id⟩ journal.subagents result.1.subagents r ∧
        r.phase = .running ∧ r.sequence = subagentMark now claim.sequence) := by
  intro recorded
  fun_cases startSubagent now journal rule claim parentId agentType orphanStop occurredAtMs with
  | case1 _ _ hstale => exact .inl ⟨staleStart_iff.mp hstale, rfl⟩
  | case2 _ _ _ hordered hrunning =>
    -- a run is going on: only the sequence is raised
    obtain ⟨old, hfound, hphase⟩ := (any_eq_true _ _).mp hrunning
    exact .inr ⟨not_not.mp (mt staleStart_iff.mpr hordered), rfl, _,
      put_update hfound (.advance _) (fun _ => ⟨rfl, rfl⟩) _, eq_of_beq hphase, rfl⟩
  | case3 _ _ _ _ hfull => exact absurd hroom (Nat.not_lt_of_le hfull)
  | case4 _ _ _ hordered _ _ _ old hfound =>
    exact .inr ⟨not_not.mp (mt staleStart_iff.mpr hordered), rfl, _,
      put_update hfound (.reopen _ _ _ _ _) (fun _ => ⟨rfl, rfl⟩) _, rfl, rfl⟩
  | case5 _ _ _ hordered _ _ _ hfound =>
    exact .inr ⟨not_not.mp (mt staleStart_iff.mpr hordered), rfl, _,
      put_push hfound _ ⟨rfl, rfl⟩ _, rfl, rfl⟩

/-- Below the retention bound nothing is pruned. -/
theorem pruneTerminalSubagents_eq
    (h : (journal.subagents.filter (·.phase != .running)).length ≤ terminalSubagentCapacity) :
    pruneTerminalSubagents journal = journal := by
  unfold pruneTerminalSubagents
  simp only
  rw [getElem?_eq_none]
  simpa using h

/-- A stop requires a start that is not there, or it is stale, or it puts a
terminal record. -/
theorem stopSubagent_cases (now : ℕ) (rule : SubagentSequence) (policy : StopPolicy)
    (claim : SubagentClaim) (phase : TerminalPhase) (occurredAtMs : ℕ)
    (hroom : (journal.subagents.filter (·.phase != .running)).length < terminalSubagentCapacity) :
    let found := journal.subagents.find? claim.names
    let result := stopSubagent now journal rule policy claim phase occurredAtMs
    (found = none ∧ policy.requiresStart ∧
      result = (journal, .ignored .stopWithoutStart none false)) ∨
    (¬Ordered (found.map (·.sequence)) claim.sequence ∧
      result = (journal, .ignored .staleSequence (found.map (·.sequence)) false)) ∨
    ((found = none → policy.requiresStart = false) ∧
      Ordered (found.map (·.sequence)) claim.sequence ∧
      result.2.persists ∧ result.2.reason ≠ some .stopWithoutStart ∧
      ∃ r, Put ⟨claim.provider, claim.id⟩ journal.subagents result.1.subagents r ∧
        r.phase ≠ .running ∧ r.sequence = subagentMark now claim.sequence) := by
  intro found
  -- putting one record prunes nothing
  have hprune : ∀ {j : Journal} {r},
    Put ⟨claim.provider, claim.id⟩ journal.subagents j.subagents r →
      pruneTerminalSubagents j = j := by
    intro j r hput
    apply pruneTerminalSubagents_eq
    have hle := hput.filter_le (·.phase != .running)
    omega
  fun_cases stopSubagent now journal rule policy claim phase occurredAtMs with
  | case1 _ recorded hmissing =>
    have hrecorded : recorded = found.map (·.sequence) := rfl
    obtain ⟨hnone, hrequires⟩ := and_eq_true_iff.mp hmissing
    have hnone : found = none := isNone_iff_eq_none.mp hnone
    exact .inl ⟨hnone, hrequires, by simp [hrecorded, hnone]⟩
  | case2 _ _ _ hstale => exact .inr (.inl ⟨staleStop_iff.mp hstale, rfl⟩)
  | case3 _ _ _ _ hordered hterminal =>
    -- already terminal, and the stop is no turn of its own
    obtain ⟨old, hfound, hphase⟩ := (any_eq_true _ _).mp (and_eq_true_iff.mp hterminal).1
    exact .inr (.inr ⟨fun hnone => (some_ne_none old (hfound.symm.trans hnone)).elim,
      not_not.mp (mt staleStop_iff.mpr hordered), rfl, nofun, _,
      put_update hfound (.advance _) (fun _ => ⟨rfl, rfl⟩) _, bne_iff_ne.mp hphase, rfl⟩)
  | case4 _ _ _ _ hordered _ _ old hfound =>
    have hput := put_update hfound (.finish phase (subagentMark now claim.sequence)
      (saturatingSucc journal.subagentRevision) occurredAtMs) (fun _ => ⟨rfl, rfl⟩)
      (saturatingSucc journal.subagentRevision)
    refine .inr (.inr ⟨fun hnone => (some_ne_none old (hfound.symm.trans hnone)).elim,
      not_not.mp (mt staleStop_iff.mpr hordered), rfl, nofun, ?_⟩)
    rw [hprune hput]
    exact ⟨_, hput, phase.2, rfl⟩
  | case5 _ _ _ hmissing hordered _ _ hfound =>
    have hrequires : ¬(found.isNone && policy.requiresStart) = true := hmissing
    refine .inr (.inr
      ⟨fun hnone => by simpa [hnone] using hrequires,
      not_not.mp (mt staleStop_iff.mpr hordered), rfl, nofun, ?_⟩)
    rw [hprune (put_push hfound _ ⟨rfl, rfl⟩ _)]
    exact ⟨_, put_push hfound _ ⟨rfl, rfl⟩ _, phase.2, rfl⟩

end Claims

/-! ### Orphan stops -/

section Orphans

variable {entries : OrphanStops} {key key' : Key}

theorem orphan_names_of_ne (hne : key ≠ key') {entry : OrphanStop}
    (h : names key.provider key.id entry) :
    names key'.provider key'.id entry = false := by
  by_contra h'
  simp only [names, not_eq_false, and_eq_true, beq_iff_eq] at h h'
  apply hne
  cases key
  cases key'
  simp_all

theorem sequence_record (hroom : entries.length < orphanStopCapacity) :
    (entries.record key.provider key.id sequence).sequence key.provider key.id =
      some (match entries.sequence key.provider key.id with
        | some s => max s sequence
        | none => sequence) := by
  unfold OrphanStops.record OrphanStops.sequence
  cases hfound : entries.find? (names key.provider key.id) with
  | some entry =>
    simp only [isSome_some, if_true]
    rw [find?_modifyFirst, hfound]
    · rfl
    · exact fun entry hentry => hentry
  | none =>
    have hnot : ¬orphanStopCapacity ≤ entries.length := Nat.not_le_of_lt hroom
    simp only [isSome_none, false_eq_true, if_false, hnot]
    rw [find?_append, hfound, none_or, find?_cons_of_pos (by simp [names])]
    rfl

theorem sequence_record_of_ne (hne : key ≠ key') (hroom : entries.length < orphanStopCapacity) :
    (entries.record key.provider key.id sequence).sequence key'.provider key'.id =
      entries.sequence key'.provider key'.id := by
  unfold OrphanStops.record OrphanStops.sequence
  have hnot : ¬orphanStopCapacity ≤ entries.length := Nat.not_le_of_lt hroom
  split
  · rw [find?_modifyFirst_of_ne]
    intro entry hentry
    exact ⟨orphan_names_of_ne hne hentry, orphan_names_of_ne hne hentry⟩
  · rw [find?_append, find?_cons_of_neg, find?_nil, or_none]
    rw [orphan_names_of_ne hne (by simp [names])]
    exact false_ne_true

theorem sequence_forget_of_ne (hne : key ≠ key') :
    (entries.forget key.provider key.id).sequence key'.provider key'.id =
      entries.sequence key'.provider key'.id := by
  unfold OrphanStops.forget OrphanStops.sequence
  rw [find?_filter]
  congr 2
  funext entry
  by_cases hentry : names key'.provider key'.id entry
  · have hother := orphan_names_of_ne hne.symm hentry
    simp [hentry, hother]
  · simp [hentry]

end Orphans

/-! ### One delivery -/

variable {rule : SubagentSequence} {policy : String → StopPolicy}

variable {w : Worker} {d : Delivery}

/-- **What one delivery does**, below the capacities: nothing, when the claim
is not ordered after the recorded one or the journal cannot be written; it
remembers a stop without a start; or it puts the record of its subagent. -/
theorem deliver_cases (hbelow : Below w d) :
    let w' := (deliver rule policy w d).1
    (w' = w ∧ (d.persisted → ¬Ordered (w.recordedOf d.hook) d.hook.sequence)) ∨
    (d.hook.isStart = false ∧ w.recordOf d.hook.key = none ∧
      (policy d.hook.key.provider).requiresStart ∧ w'.journal = w.journal ∧
      w'.orphanStops = w.orphanStops.record d.hook.key.provider d.hook.key.id
        (subagentMark d.now d.hook.sequence)) ∨
    (Ordered (w.recordedOf d.hook) d.hook.sequence ∧
      (d.hook.isStart = false → w.recordOf d.hook.key = none →
        (policy d.hook.key.provider).requiresStart = false) ∧
      (∃ r, Put d.hook.key w.journal.subagents w'.journal.subagents r ∧
        (r.phase = .running ↔ d.hook.isStart) ∧ r.sequence = subagentMark d.now d.hook.sequence) ∧
      (w'.orphanStops = w.orphanStops ∨
        w'.orphanStops = w.orphanStops.forget d.hook.key.provider d.hook.key.id)) := by
  obtain ⟨hook, now, occurredAtMs, persisted⟩ := d
  cases hook with
  | start claim parentId agentType =>
    have hcases := startSubagent_cases now rule claim parentId agentType
      (w.orphanStops.sequence claim.provider claim.id) occurredAtMs (hbelow.running rfl)
    have hrecorded : w.recordedOf (.start claim parentId agentType) =
        match w.journal.subagents.find? claim.names with
        | some record => some record.sequence
        | none => w.orphanStops.sequence claim.provider claim.id := rfl
    unfold deliver
    simp only
    generalize startSubagent now w.journal rule claim parentId agentType _ occurredAtMs =
      result at hcases
    obtain ⟨journal, outcome⟩ := result
    rcases hcases with ⟨hstale, hresult⟩ | ⟨hordered, hpersists, r, hput, hphase, hmark⟩
    · cases hresult
      exact .inl ⟨rfl, fun _ => hstale⟩
    · cases persisted with
      | false =>
        refine .inl ⟨?_, fun h => absurd h Bool.false_ne_true⟩
        simp only [hpersists, Bool.not_false, Bool.and_self, if_true]
      | true =>
        refine .inr (.inr ⟨hordered, nofun, ⟨r, ?_, ?_, hmark⟩, ?_⟩)
        · simp only [hpersists, Bool.not_true, Bool.and_false, Bool.false_eq_true,
            if_false, if_true]
          exact hput
        · simp [hphase, Hook.isStart]
        · simp only [Bool.not_true, Bool.and_false, Bool.false_eq_true, if_false]
          split
          · exact .inr rfl
          · exact .inl rfl
  | stop claim phase =>
    have hcases := stopSubagent_cases now rule (policy claim.provider) claim (phase.getD completed)
      occurredAtMs hbelow.terminal
    have hrecorded : w.recordedOf (.stop claim phase) = (w.journal.subagents.find? claim.names).map
      (·.sequence) := by
      change (match w.journal.subagents.find? claim.names with | some record => _ | none => _) = _
      cases w.journal.subagents.find? claim.names <;> rfl
    simp only at hcases
    rw [← hrecorded] at hcases
    unfold deliver
    simp only
    generalize stopSubagent now w.journal rule (policy claim.provider) claim _ occurredAtMs =
      result at hcases
    obtain ⟨journal, outcome⟩ := result
    rcases hcases with ⟨hnone, hrequires, hresult⟩ | ⟨hstale, hresult⟩ |
      ⟨hmissing, hordered, hpersists, hreason, r, hput, hphase, hmark⟩
    · cases hresult
      exact .inr (.inl ⟨rfl, hnone, hrequires, rfl, rfl⟩)
    · cases hresult
      exact .inl ⟨rfl, fun _ => hstale⟩
    · cases persisted with
      | false =>
        refine .inl ⟨?_, fun h => absurd h Bool.false_ne_true⟩
        simp only [hpersists, Bool.not_false, Bool.and_self, if_true]
      | true =>
        refine .inr (.inr ⟨hordered, fun _ => hmissing, ⟨r, ?_, ?_, hmark⟩, .inl ?_⟩)
        · simp only [hpersists, Bool.not_true, Bool.and_false, Bool.false_eq_true,
            if_false, if_true]
          exact hput
        · simp [hphase, Hook.isStart]
        · simp only [Bool.not_true, Bool.and_false, Bool.false_eq_true, if_false, hreason]

/-- A claim of another subagent leaves a subagent alone. -/
theorem deliver_of_ne (rule : SubagentSequence) (policy : String → StopPolicy)
    (hbelow : Below w d) (hne : d.hook.key ≠ key) :
    (deliver rule policy w d).1.recordOf key = w.recordOf key ∧
      (deliver rule policy w d).1.orphanOf key = w.orphanOf key := by
  rcases deliver_cases hbelow with ⟨hsame, -⟩ | ⟨-, -, -, hjournal, horphans⟩ | ⟨-, -,
    ⟨r, hput, -⟩, horphans⟩
  · rw [hsame]
    exact ⟨rfl, rfl⟩
  · unfold recordOf orphanOf
    rw [hjournal, horphans]
    exact ⟨rfl, sequence_record_of_ne hne hbelow.orphans⟩
  · refine ⟨hput.other hne, ?_⟩
    unfold orphanOf
    rcases horphans with horphans | horphans
    · rw [horphans]
    · rw [horphans]
      exact sequence_forget_of_ne hne

/-! ### The latest claim -/

/-- What the worker has of a subagent whose latest claim is given. -/
inductive Tracks (policy : String → StopPolicy) (key : Key) (w : Worker) : Option Hook → Prop
  | unknown (record : w.recordOf key = none) (orphan : w.orphanOf key = none) :
    Tracks policy key w none
  | orphan (h : Hook) (stop : h.isStart = false) (requires : (policy key.provider).requiresStart)
      (record : w.recordOf key = none) (orphan : w.orphanOf key = some h.sequence) :
      Tracks policy key w (some h)
  | recorded (h : Hook) (r : SubagentRecord)
      (record : w.recordOf key = some r) (sequence : r.sequence = h.sequence)
      (phase : r.phase = .running ↔ h.isStart) : Tracks policy key w (some h)

variable {g : Option Hook}

theorem Tracks.frame {w' : Worker} (h : Tracks policy key w g)
    (hrecord : w'.recordOf key = w.recordOf key) (horphan : w'.orphanOf key = w.orphanOf key) :
    Tracks policy key w' g := by
  cases h with
  | unknown record orphan => exact .unknown (hrecord.trans record) (horphan.trans orphan)
  | orphan h stop requires record orphan =>
    exact .orphan h stop requires (hrecord.trans record) (horphan.trans orphan)
  | recorded h r record sequence phase => exact .recorded h r (hrecord.trans record) sequence phase

theorem Tracks.of_record (h : Tracks policy key w g) {r : SubagentRecord}
    (hr : w.recordOf key = some r) :
    ∃ x, g = some x ∧ r.sequence = x.sequence ∧ (r.phase = .running ↔ x.isStart) := by
  cases h with
  | unknown record | orphan _ _ _ record => exact absurd (record.symm.trans hr) nofun
  | recorded x r' record sequence phase =>
    obtain rfl : r' = r := some.inj (record.symm.trans hr)
    exact ⟨x, rfl, sequence, phase⟩

theorem Tracks.of_latest {x : Hook} (h : Tracks policy key w (some x)) :
    (w.recordOf key = none ∧ x.isStart = false ∧ (policy key.provider).requiresStart) ∨
    ∃ r, w.recordOf key = some r ∧ (r.phase = .running ↔ x.isStart) := by
  cases h with
  | orphan _ stop requires record => exact .inl ⟨record, stop, requires⟩
  | recorded _ r record _ phase => exact .inr ⟨r, record, phase⟩

theorem newer_of_lt {h h' : Hook} (hlt : h.sequence < h'.sequence) :
    newer Hook.sequence (some h) h' = some h' :=
  if_pos hlt

theorem newer_of_le {h h' : Hook} (hle : h'.sequence ≤ h.sequence) :
    newer Hook.sequence (some h) h' = some h :=
  if_neg (Nat.not_lt_of_le hle)

/-- **A delivery keeps the latest claim.** -/
theorem Tracks.deliver (h : Tracks policy key w g)
    (hkey : d.hook.key = key) (hbelow : Below w d) (hpersisted : d.persisted)
    (hclock : d.hook.sequence ≤ d.now) :
    Tracks policy key (deliver rule policy w d).1 (newer Hook.sequence g d.hook) := by
  subst hkey
  have hmark : subagentMark d.now d.hook.sequence = d.hook.sequence := Nat.min_eq_left hclock
  rcases deliver_cases hbelow with ⟨hsame, hstale⟩ | ⟨hstop, hnone, hrequires, hjournal, horphans⟩ |
    ⟨hordered, hmissing, ⟨r, hput, hphase, hsequence⟩, -⟩
  · -- the claim is stale: it is ordered before the latest one
    obtain ⟨s, hs, hle⟩ : ∃ s, w.recordedOf d.hook = some s ∧ d.hook.sequence ≤ s := by
      simpa [Ordered] using hstale hpersisted
    rw [hsame]
    unfold recordedOf at hs
    cases h with
    | unknown record orphan =>
      rw [record, orphan] at hs
      simp at hs
    | orphan h stop requires record orphan =>
      rw [record, orphan] at hs
      obtain ⟨-, rfl⟩ : _ ∧ h.sequence = s := by simpa using hs
      rw [newer_of_le hle]
      exact .orphan h stop requires record orphan
    | recorded h r record sequence phase =>
      rw [record] at hs
      cases hs
      rw [newer_of_le (sequence ▸ hle)]
      exact .recorded h r record sequence phase
  · -- a stop without a start is remembered
    have hrecord : (Subagents.deliver rule policy w d).1.recordOf d.hook.key = none := by
      unfold recordOf
      rw [hjournal]
      exact hnone
    have horphan : (Subagents.deliver rule policy w d).1.orphanOf d.hook.key =
        some (match w.orphanOf d.hook.key with
          | some s => max s d.hook.sequence
          | none => d.hook.sequence) := by
      unfold orphanOf
      rw [horphans, hmark]
      exact sequence_record hbelow.orphans
    cases h with
    | unknown record orphan =>
      rw [orphan] at horphan
      exact .orphan d.hook hstop hrequires hrecord horphan
    | orphan h stop requires record orphan =>
      rw [orphan] at horphan
      have hmax : (Subagents.deliver rule policy w d).1.orphanOf d.hook.key =
          some (max h.sequence d.hook.sequence) := horphan
      rcases Nat.lt_or_ge h.sequence d.hook.sequence with hlt | hge
      · rw [max_eq_right hlt.le] at hmax
        rw [newer_of_lt hlt]
        exact .orphan d.hook hstop hrequires hrecord hmax
      · rw [max_eq_left hge] at hmax
        rw [newer_of_le hge]
        exact .orphan h stop requires hrecord hmax
    | recorded h r record => exact absurd (hnone.symm.trans record) nofun
  · -- the record is put to the claim, which is the latest one
    have hnewest : newer Hook.sequence g d.hook = some d.hook := by
      cases h with
      | unknown => rfl
      | orphan h stop requires record orphan =>
        have hstart : d.hook.isStart := by
          by_contra hstop
          have hfalse := hmissing (eq_false_iff.mpr hstop) record
          rw [requires] at hfalse
          exact absurd hfalse nofun
        apply newer_of_lt
        apply hordered
        unfold recordedOf
        rw [record, orphan]
        exact if_pos hstart
      | recorded h r record sequence phase =>
        apply newer_of_lt
        rw [← sequence]
        apply hordered
        unfold recordedOf
        rw [record]
    rw [hnewest]
    exact .recorded d.hook r hput.found (hsequence.trans hmark) hphase

/-! ### Every order -/

/-- The worker is below its capacities at every delivery. -/
def Within (rule : SubagentSequence) (policy : String → StopPolicy) : Worker → List Delivery → Prop
  | _, [] => True
  | w, d :: ds => Below w d ∧ Within rule policy (deliver rule policy w d).1 ds

instance (w : Worker) (d : Delivery) : Decidable (Below w d) :=
  decidable_of_iff
    ((d.hook.isStart → (w.journal.running d.hook.claim.provider).length < activeSubagentCapacity) ∧
      w.orphanStops.length < orphanStopCapacity ∧
      (w.journal.subagents.filter (·.phase != .running)).length < terminalSubagentCapacity)
    ⟨fun ⟨running, orphans, terminal⟩ => ⟨running, orphans, terminal⟩,
      fun ⟨running, orphans, terminal⟩ => ⟨running, orphans, terminal⟩⟩

instance decidableWithin (rule : SubagentSequence) (policy : String → StopPolicy) :
    ∀ (w : Worker) (ds : List Delivery), Decidable (Within rule policy w ds)
  | _, [] => isTrue trivial
  | w, d :: ds =>
    have := decidableWithin rule policy (deliver rule policy w d).1 ds
    inferInstanceAs (Decidable (Below w d ∧ Within rule policy (deliver rule policy w d).1 ds))

/-- The claims of a subagent, in the order of their delivery. -/
def claimsOf (key : Key) (ds : List Delivery) :
    List Hook := (ds.map (·.hook)).filter fun h => h.key = key

theorem deliverAll_snoc (w : Worker) (ds : List Delivery) (d : Delivery) :
    deliverAll rule policy w
    (ds ++ [d]) = (deliver rule policy (deliverAll rule policy w ds) d).1 := by
  simp [deliverAll]

theorem within_snoc : ∀ (ds : List Delivery) {w : Worker} {d : Delivery},
    Within rule policy w (ds ++ [d]) →
    Within rule policy w ds ∧ Below (deliverAll rule policy w ds) d
  | [], w, d, h => ⟨trivial, h.1⟩
  | e :: ds, w, d, h => by
    obtain ⟨hrest, hbelow⟩ := within_snoc ds h.2
    exact ⟨⟨h.1, hrest⟩, hbelow⟩

theorem claimsOf_snoc (key : Key) (ds : List Delivery) (d : Delivery) :
    claimsOf key (ds ++ [d]) = claimsOf key ds ++ if d.hook.key = key then [d.hook] else [] := by
  unfold claimsOf
  rw [map_append, filter_append, map_singleton, filter_cons, filter_nil]
  simp

/-- After every delivery the worker has the latest claim of the subagent. -/
theorem tracks_deliverAll (hrecord : w.recordOf key = none) (horphan : w.orphanOf key = none)
    (ds : List Delivery) (hwithin : Within rule policy w ds)
    (hclock : ∀ d ∈ ds, d.hook.key = key → d.persisted ∧ d.hook.sequence ≤ d.now) :
    Tracks policy key (deliverAll rule policy w ds) (latest Hook.sequence (claimsOf key ds)) := by
  induction ds using List.reverseRecOn with
  | nil => exact .unknown hrecord horphan
  | append_singleton ds d ih =>
    obtain ⟨hbefore, hbelow⟩ := within_snoc ds hwithin
    have htracks := ih hbefore fun e he => hclock e (mem_append_left _ he)
    rw [deliverAll_snoc, claimsOf_snoc]
    by_cases hkey : d.hook.key = key
    · obtain ⟨hpersisted, htime⟩ := hclock d (by simp) hkey
      rw [if_pos hkey, latest_snoc]
      exact htracks.deliver hkey hbelow hpersisted htime
    · obtain ⟨hsameRecord, hsameOrphan⟩ := deliver_of_ne rule policy hbelow hkey
      rw [if_neg hkey, append_nil]
      exact htracks.frame hsameRecord hsameOrphan

/-- A record that is there in the end was put by one of the claims. -/
theorem exists_creator (hrecord : w.recordOf key = none) (ds : List Delivery)
    (hwithin : Within rule policy w ds)
    (hfinal : (deliverAll rule policy w ds).recordOf key ≠ none) :
    ∃ before d after, ds = before ++ d :: after ∧ d.hook.key = key ∧
      (deliverAll rule policy w before).recordOf key = none ∧
      (deliverAll rule policy w (before ++ [d])).recordOf key ≠ none := by
  induction ds using List.reverseRecOn with
  | nil => exact absurd hrecord hfinal
  | append_singleton ds d ih =>
    obtain ⟨hbefore, hbelow⟩ := within_snoc ds hwithin
    by_cases hnone : (deliverAll rule policy w ds).recordOf key = none
    · refine ⟨ds, d, [], rfl, ?_, hnone, hfinal⟩
      by_contra hkey
      have hsame := (deliver_of_ne rule policy hbelow hkey).1
      rw [deliverAll_snoc, hsame] at hfinal
      exact hfinal hnone
    · obtain ⟨before, e, after, rfl, hkey, hmissing, hthere⟩ := ih hbefore hnone
      exact ⟨before, e, after ++ [d], by simp, hkey, hmissing, hthere⟩

/-- The claim is the latest of the list. -/
def IsLatest (h : Hook) (claims : List Hook) : Prop := h ∈ claims ∧ ∀ h' ∈ claims,
    h'.sequence ≤ h.sequence

/-- **Subagent claims are order independent.** Whatever the order of the
claims of a subagent, and whatever claims of other subagents come between
them, below the capacities the subagent is running in the end iff its latest
claim is a start. If that is a stop, the subagent is terminal, or absent when
stops require a start. A record has the greatest sequence of the claims from
the one on that put it there. -/
theorem subagent_claims_order_independent {w : Worker} {key : Key} {ds : List Delivery}
    (hrecord : w.recordOf key = none) (horphan : w.orphanOf key = none)
    (hwithin : Within rule policy w ds)
    (hclock : ∀ d ∈ ds, d.hook.key = key → d.persisted ∧ d.hook.sequence ≤ d.now)
    (hdistinct : ((claimsOf key ds).map Hook.sequence).Nodup) :
    ((∃ r, (deliverAll rule policy w ds).recordOf key = some r ∧ r.phase = .running) ↔
      ∃ h, IsLatest h (claimsOf key ds) ∧ h.isStart) ∧
    (∀ h, IsLatest h (claimsOf key ds) → h.isStart = false →
      ((deliverAll rule policy w ds).recordOf key = none ∧ (policy key.provider).requiresStart) ∨
      ∃ r, (deliverAll rule policy w ds).recordOf key = some r ∧ r.phase ≠ .running) ∧
    ∀ r, (deliverAll rule policy w ds).recordOf key = some r →
      ∃ before creator after, ds = before ++ creator :: after ∧ creator.hook.key = key ∧
        (deliverAll rule policy w before).recordOf key = none ∧
        (deliverAll rule policy w (before ++ [creator])).recordOf key ≠ none ∧
        IsGreatest { s | ∃ h ∈ claimsOf key ds, creator.hook.sequence ≤ h.sequence ∧
        h.sequence = s } r.sequence := by
  have htracks := tracks_deliverAll hrecord horphan ds hwithin hclock
  have hlatest : ∀ h, latest Hook.sequence (claimsOf key ds) = some h ↔
    IsLatest h (claimsOf key ds) :=
    latest_eq_some_iff hdistinct
  refine ⟨⟨?_, ?_⟩, ?_, ?_⟩
  · rintro ⟨r, hr, hrunning⟩
    obtain ⟨x, hx, -, hphase⟩ := htracks.of_record hr
    exact ⟨x, (hlatest x).mp hx, hphase.mp hrunning⟩
  · rintro ⟨h, hh, hstart⟩
    rw [(hlatest h).mpr hh] at htracks
    rcases htracks.of_latest with ⟨-, hstop, -⟩ | ⟨r, hr, hphase⟩
    · rw [hstart] at hstop
      exact absurd hstop nofun
    · exact ⟨r, hr, hphase.mpr hstart⟩
  · intro h hh hstop
    rw [(hlatest h).mpr hh] at htracks
    rcases htracks.of_latest with ⟨hnone, -, hrequires⟩ | ⟨r, hr, hphase⟩
    · exact .inl ⟨hnone, hrequires⟩
    · refine .inr ⟨r, hr, fun hrunning => ?_⟩
      rw [hphase.mp hrunning] at hstop
      exact absurd hstop nofun
  · intro r hr
    obtain ⟨x, hx, hsequence, -⟩ := htracks.of_record hr
    obtain ⟨hmem, hmax⟩ := (hlatest x).mp hx
    obtain ⟨before, creator, after, hsplit, hkey, hbefore, hthere⟩ :=
      exists_creator hrecord ds hwithin (by rw [hr]; exact nofun)
    have hcreator : creator.hook ∈ claimsOf key ds := by
      rw [hsplit]
      simp [claimsOf, hkey]
    refine ⟨before, creator, after, hsplit, hkey, hbefore, hthere, ?_, ?_⟩
    · exact ⟨x, hmem, hmax creator.hook hcreator, hsequence.symm⟩
    · rintro s ⟨h', hh', -, rfl⟩
      rw [hsequence]
      exact hmax h' hh'

/-! ### A delivery out of order -/

/-- A stop comes before the start it ends, with a claim of another subagent in
between; the subagent is started again, and an older start comes last. -/
def sampleDeliveries : List Delivery :=
  [⟨.stop ⟨"claude", "s1", 20⟩ none, 25, 1, true⟩,
    ⟨.start ⟨"claude", "s2", 5⟩ none none, 30, 2, true⟩,
    ⟨.start ⟨"claude", "s1", 10⟩ none (some "reviewer"), 35, 3, true⟩,
    ⟨.start ⟨"claude", "s1", 30⟩ none (some "reviewer"), 40, 4, true⟩,
    ⟨.start ⟨"claude", "s1", 28⟩ (some "s2") none, 45, 5, true⟩]

def samplePolicy (_ : String) : StopPolicy := ⟨true, false⟩

theorem subagent_claims_out_of_order :
    ∃ r, (deliverAll .stopAfterStart samplePolicy ⟨⟨[], 0⟩, []⟩ sampleDeliveries).recordOf
    ⟨"claude", "s1"⟩ = some r ∧
      r.phase = .running := by
  have hwithin : Within .stopAfterStart samplePolicy ⟨⟨[], 0⟩, []⟩ sampleDeliveries := by
    decide +kernel
  have hclock : ∀ d ∈ sampleDeliveries, d.hook.key = ⟨"claude", "s1"⟩ →
      d.persisted ∧ d.hook.sequence ≤ d.now := by decide +kernel
  have hdistinct : ((claimsOf ⟨"claude", "s1"⟩ sampleDeliveries).map Hook.sequence).Nodup := by
    decide +kernel
  rw [(subagent_claims_order_independent rfl rfl hwithin hclock hdistinct).1]
  refine ⟨.start ⟨"claude", "s1", 30⟩ none (some "reviewer"), ⟨?_, ?_⟩, rfl⟩
  · simp [sampleDeliveries, claimsOf, Hook.key, Hook.claim]
  · simp [sampleDeliveries, claimsOf, Hook.key, Hook.claim, Hook.sequence]

end Pohunek.Subagents

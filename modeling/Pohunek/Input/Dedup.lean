/-
# Deduplication of control input

The data of `crates/session-worker/src/input.rs`: fragments, plans, errors,
the fingerprint of a plan, and `DedupState` with the filter of evicted ids.
Every function here runs under the state lock.

SHA-256 is a parameter. A fingerprint is the digest of an encoding that tells
fragment lists apart (`fingerprintInput_inj`), so two plans with one
fingerprint have the same fragments unless their encodings collide. The
filter has no false negatives: an inserted id is found (`insert_finds`) and
stays found (`insert_keeps`).

Key theorems: `fingerprintInput_inj`, `trim_spec`.
-/
import Mathlib.Tactic

namespace Pohunek.Input

/-! ### Plans -/

/-- `std::time::Duration`: seconds in 64 bits and a part of a second. -/
structure Duration where
  nanos : ℕ
  bounded : nanos < 2 ^ 64 * 10 ^ 9
  deriving DecidableEq

structure InputFragment where
  bytes : List UInt8
  delayAfter : Duration
  bounded : bytes.length < 2 ^ 64
  deriving DecidableEq

structure InputPlan where
  writeId : String
  fragments : List InputFragment
  deriving DecidableEq

structure WriteReceipt where
  submitMarkNs : Option ℕ
  deriving DecidableEq

/-- `std::io::ErrorKind`; a kind the coordinator does not look at is only named. -/
inductive ErrorKind
  | timedOut | interrupted | writeZero | other
  | named (name : String)
  deriving DecidableEq

structure IoError where
  kind : ErrorKind
  message : String
  deriving DecidableEq

inductive InputError
  | invalidCapacity
  | conflict (writeId : String)
  | outcomeUnknown (writeId : String)
  | io (error : IoError)
  | stalled (written total : ℕ) (stall : Duration)
  | writerTask
  deriving DecidableEq

/-- An error as it is kept for the callers that join. -/
inductive StoredError
  | io (message : String)
  | writerTask
  | stalled (written total : ℕ) (stall : Duration)
  deriving DecidableEq

def StoredError.fromInput : InputError → StoredError
  | .io source => .io source.message
  | .writerTask => .writerTask
  | .stalled written total stall => .stalled written total stall
  | .invalidCapacity => .io "input deduplication capacity must be greater than zero"
  | .conflict writeId => .io ("write id `" ++ writeId ++ "` was reused with different content")
  | .outcomeUnknown writeId => .io ("write outcome is unknown for expired id `" ++ writeId ++ "`")

def StoredError.intoInput : StoredError → InputError
  | .io message => .io ⟨.other, message⟩
  | .writerTask => .writerTask
  | .stalled written total stall => .stalled written total stall

/-- `result.map_err(StoredError::from_input)`. -/
def stored (result : Except InputError WriteReceipt) : Except StoredError WriteReceipt :=
  result.mapError StoredError.fromInput

/-- The result of a write as a call that joins it gets it: the receipt, or the
error with its text. -/
def joined (result : Except StoredError WriteReceipt) : Except InputError WriteReceipt :=
  result.mapError StoredError.intoInput

/-- The errors a write ends with. -/
def InputError.fromWrite : InputError → Bool
  | .io _ | .stalled _ _ _ | .writerTask => true
  | .invalidCapacity | .conflict _ | .outcomeUnknown _ => false

/-- The result a call that joins has of `result`: the same, but of an I/O error
only the text. -/
def SameResult (result result' : Except InputError WriteReceipt) : Prop :=
  result' = result ∨ ∃ error, result = .error (.io error) ∧
    result' = .error (.io ⟨.other, error.message⟩)

theorem joined_stored {result : Except InputError WriteReceipt}
    (h : ∀ e, result = .error e → e.fromWrite) : SameResult result (joined (stored result)) := by
  cases result with
  | ok receipt => exact .inl rfl
  | error e =>
    have he := h e rfl
    cases e with
    | io error => exact .inr ⟨error, rfl, rfl⟩
    | stalled | writerTask => exact .inl rfl
    | invalidCapacity | conflict | outcomeUnknown => cases he

/-! ### The fingerprint -/

/-- `to_be_bytes`. -/
def beBytes : ℕ → ℕ → List UInt8
  | 0, _ => []
  | width + 1, n => UInt8.ofNat (n / 256 ^ width) :: beBytes width (n % 256 ^ width)

/-- `from_be_bytes`. -/
def beValue (bytes : List UInt8) : ℕ := bytes.foldl (fun value byte => 256 * value + byte.toNat) 0

abbrev Digest := Vector UInt8 32

/-- What `fingerprint` feeds to the digest for one fragment. -/
def InputFragment.encoding (fragment : InputFragment) : List UInt8 :=
  beBytes 8 (min fragment.bytes.length (2 ^ 64 - 1)) ++ fragment.bytes ++
    beBytes 16 fragment.delayAfter.nanos

def fingerprintInput (fragments : List InputFragment) : List UInt8 :=
  fragments.flatMap InputFragment.encoding

def fingerprint (sha256 : List UInt8 → Digest) (plan : InputPlan) : Digest :=
  sha256 (fingerprintInput plan.fragments)

theorem beBytes_length : ∀ width n : ℕ, (beBytes width n).length = width
  | 0, _ => rfl
  | width + 1, n => by rw [beBytes, List.length_cons, beBytes_length]

theorem beBytes_inj : ∀ (width : ℕ) {m n : ℕ}, m < 256 ^ width → n < 256 ^ width →
    beBytes width m = beBytes width n → m = n
  | 0, m, n, hm, hn, _ => by
    omega
  | width + 1, m, n, hm, hn, h => by
    rw [beBytes, beBytes, List.cons.injEq] at h
    have hpos : 0 < 256 ^ width := Nat.pow_pos (by omega)
    have hhigh : ∀ k : ℕ, k < 256 ^ (width + 1) → k / 256 ^ width < 256 := by
      intro k hk
      rw [Nat.div_lt_iff_lt_mul hpos]
      omega
    have htop : m / 256 ^ width = n / 256 ^ width := by
      have hnat := congrArg UInt8.toNat h.1
      rw [UInt8.toNat_ofNat', UInt8.toNat_ofNat', Nat.mod_eq_of_lt (hhigh m hm),
        Nat.mod_eq_of_lt (hhigh n hn)] at hnat
      exact hnat
    have hlow : m % 256 ^ width = n % 256 ^ width :=
      beBytes_inj width (Nat.mod_lt m hpos) (Nat.mod_lt n hpos) h.2
    calc m = 256 ^ width * (m / 256 ^ width) + m % 256 ^ width := (Nat.div_add_mod m _).symm
      _ = 256 ^ width * (n / 256 ^ width) + n % 256 ^ width := by rw [htop, hlow]
      _ = n := Nat.div_add_mod n _

/-- A fragment can be told from the start of a sequence of fragments. -/
theorem encoding_inj {f g : InputFragment} {x y : List UInt8}
    (h : f.encoding ++ x = g.encoding ++ y) : f = g ∧ x = y := by
  unfold InputFragment.encoding at h
  rw [Nat.min_eq_left (Nat.le_sub_one_of_lt f.bounded),
    Nat.min_eq_left (Nat.le_sub_one_of_lt g.bounded)] at h
  simp only [List.append_assoc] at h
  obtain ⟨hlen, h⟩ := List.append_inj h (by rw [beBytes_length, beBytes_length])
  have hlen' : f.bytes.length = g.bytes.length :=
    beBytes_inj 8 (by have := f.bounded; omega) (by have := g.bounded; omega) hlen
  obtain ⟨hbytes, h⟩ := List.append_inj h hlen'
  obtain ⟨hdelay, hrest⟩ := List.append_inj h (by rw [beBytes_length, beBytes_length])
  have hnanos : f.delayAfter.nanos = g.delayAfter.nanos :=
    beBytes_inj 16 (by have := f.delayAfter.bounded; omega)
      (by have := g.delayAfter.bounded; omega) hdelay
  refine ⟨?_, hrest⟩
  obtain ⟨fb, ⟨fd, _⟩, _⟩ := f
  obtain ⟨gb, ⟨gd, _⟩, _⟩ := g
  obtain rfl : fb = gb := hbytes
  obtain rfl : fd = gd := hnanos
  rfl

theorem encoding_ne_nil (f : InputFragment) : f.encoding ≠ [] := by
  intro h
  have hlen := congrArg List.length h
  simp only [InputFragment.encoding, List.length_append, beBytes_length, List.length_nil] at hlen
  omega

/-- **The digest's input tells fragment lists apart.** -/
theorem fingerprintInput_inj : ∀ {fs gs : List InputFragment},
    fingerprintInput fs = fingerprintInput gs → fs = gs
  | [], [], _ => rfl
  | [], g :: gs, h => by
    have hnil := (List.append_eq_nil_iff.mp h.symm).1
    exact absurd hnil (encoding_ne_nil g)
  | f :: fs, [], h => by
    have hnil := (List.append_eq_nil_iff.mp h).1
    exact absurd hnil (encoding_ne_nil f)
  | f :: fs, g :: gs, h => by
    obtain ⟨rfl, hrest⟩ :=
      encoding_inj (show f.encoding ++ fingerprintInput fs = g.encoding ++ _ from h)
    rw [fingerprintInput_inj hrest]

/-! ### The filter of evicted ids -/

/-- `LEGACY_EVICTED_FILTER_WORDS`. -/
def legacyEvictedFilterWords : ℕ := 256

structure EvictedFilter where
  words : Fin legacyEvictedFilterWords → BitVec 64

/-- A bit of the filter: its word and its place there. -/
abbrev FilterIndex := Fin (legacyEvictedFilterWords * 64)

def FilterIndex.word (i : FilterIndex) : Fin legacyEvictedFilterWords := ⟨i / 64, by omega⟩

def FilterIndex.mask (i : FilterIndex) : BitVec 64 := 1#64 <<< (i.val % 64)

def filterIndices (sha256 : List UInt8 → Digest) (writeId : String) : List FilterIndex :=
  let digest := (sha256 writeId.toUTF8.toList).toList
  [0, 8, 16].map fun offset =>
    ⟨beValue ((digest.drop offset).take 8) % (legacyEvictedFilterWords * 64),
      Nat.mod_lt _ (by decide)⟩

namespace EvictedFilter

def new : EvictedFilter := ⟨fun _ => 0⟩

/-- `words[index / 64] |= 1 << (index % 64)`. -/
def mark (f : EvictedFilter) (i : FilterIndex) : EvictedFilter :=
  ⟨Function.update f.words i.word (f.words i.word ||| i.mask)⟩

/-- `words[index / 64] & (1 << (index % 64)) != 0`. -/
def marked (f : EvictedFilter) (i : FilterIndex) : Bool := f.words i.word &&& i.mask ≠ 0

def insert (sha256 : List UInt8 → Digest) (f : EvictedFilter) (writeId : String) : EvictedFilter :=
  (filterIndices sha256 writeId).foldl mark f

def mightContain (sha256 : List UInt8 → Digest) (f : EvictedFilter) (writeId : String) : Bool :=
  (filterIndices sha256 writeId).all f.marked

theorem marked_iff (f : EvictedFilter) (i : FilterIndex) :
    f.marked i = true ↔ (f.words i.word).getLsbD (i.val % 64) := by
  have hlt : i.val % 64 < 64 := Nat.mod_lt _ (by omega)
  have hmask : i.mask = BitVec.twoPow 64 (i.val % 64) := (BitVec.twoPow_eq _ _).symm
  unfold marked
  rw [decide_eq_true_iff, hmask, BitVec.and_twoPow]
  split
  · rename_i hbit
    simp only [hbit, iff_true]
    intro hzero
    have hget := congrArg (fun w : BitVec 64 => w.getLsbD (i.val % 64)) hzero
    simp [hlt] at hget
  · rename_i hbit
    simp [hbit]

theorem mark_marks (f : EvictedFilter) (i : FilterIndex) : (f.mark i).marked i := by
  have hlt : i.val % 64 < 64 := Nat.mod_lt _ (by omega)
  rw [marked_iff]
  simp [mark, FilterIndex.mask, hlt]

theorem mark_keeps {f : EvictedFilter} {j : FilterIndex} (h : f.marked j) (i : FilterIndex) :
    (f.mark i).marked j := by
  rw [marked_iff] at h ⊢
  unfold mark
  by_cases hw : j.word = i.word
  · rw [hw] at h ⊢
    simp [h]
  · simp [Function.update_of_ne hw, h]

theorem foldl_mark_keeps : ∀ (is : List FilterIndex) {f : EvictedFilter} {j : FilterIndex},
    f.marked j → (is.foldl mark f).marked j
  | [], _, _, h => h
  | i :: is, _, _, h => foldl_mark_keeps is (mark_keeps h i)

theorem foldl_mark_marks : ∀ (is : List FilterIndex) {f : EvictedFilter} {j : FilterIndex},
    j ∈ is → (is.foldl mark f).marked j
  | i :: is, f, j, h => by
    rcases List.mem_cons.mp h with rfl | h
    · exact foldl_mark_keeps is (mark_marks f j)
    · exact foldl_mark_marks is h

variable {sha256 : List UInt8 → Digest}

/-- An inserted id is found. -/
theorem insert_finds (f : EvictedFilter) (writeId : String) :
    (f.insert sha256 writeId).mightContain sha256 writeId :=
  List.all_eq_true.mpr fun _ hi => foldl_mark_marks _ hi

/-- An id that is found stays found. -/
theorem insert_keeps {f : EvictedFilter} {id : String} (h : f.mightContain sha256 id)
    (writeId : String) : (f.insert sha256 writeId).mightContain sha256 id :=
  List.all_eq_true.mpr fun i hi => foldl_mark_keeps _ (List.all_eq_true.mp h i hi)

end EvictedFilter

/-! ### The state -/

inductive DedupMode
  | monotonic | legacy
  deriving DecidableEq

/-- An entry; `sender` is the call whose result the channel carries. -/
structure DedupEntry where
  fingerprint : Digest
  sender : ℕ
  deriving DecidableEq

structure DedupState where
  entries : Std.ExtTreeMap String DedupEntry
  completed : List String
  namespaceId : Option String
  mode : Option DedupMode
  highWatermark : ℕ
  legacyEvicted : EvictedFilter
  capacity : ℕ

/-- What a call that is not refused does: it waits for the result of `sender`,
or it writes. -/
inductive Action
  | join (sender : ℕ)
  | execute
  deriving DecidableEq

namespace DedupState

def new (capacity : ℕ) : DedupState := ⟨∅, [], none, none, 0, .new, capacity⟩

/-- Whether the namespace and the mode are the ones in use. -/
def selected (s : DedupState) (namespaceId : String) (mode : DedupMode) : Bool :=
  s.namespaceId = some namespaceId ∧ s.mode = some mode

def selectNamespace (s : DedupState) (namespaceId : String) (mode : DedupMode) : DedupState :=
  if s.selected namespaceId mode then s
  else
    { s with
      entries := ∅
      completed := []
      namespaceId := some namespaceId
      mode := some mode
      highWatermark := 0
      legacyEvicted := .new }

/-- The part under the lock that `execute_control` and `execute_legacy` share:
`expired` refuses an id that is not retained, `advance` is what an admitted
call leaves behind. -/
def dedupe (mode : DedupMode) (expired : DedupState → Bool) (advance : DedupState → DedupState)
    (s : DedupState) (namespaceId writeId : String) (fingerprint : Digest) (sender : ℕ) :
    DedupState × Except InputError Action :=
  let s := s.selectNamespace namespaceId mode
  match s.entries[writeId]? with
  | some entry =>
    if entry.fingerprint ≠ fingerprint then (s, .error (.conflict writeId))
    else (s, .ok (.join entry.sender))
  | none =>
    if expired s then (s, .error (.outcomeUnknown writeId))
    else ({ advance s with entries := s.entries.insert writeId ⟨fingerprint, sender⟩ },
      .ok .execute)

/-- The four ways a call goes, from the state in which its namespace is
selected. -/
inductive Admission (s : DedupState) (expired : Bool) (advanced : DedupState) (writeId : String)
    (fingerprint : Digest) (sender : ℕ) : DedupState × Except InputError Action → Prop
  | conflict {entry : DedupEntry} : s.entries[writeId]? = some entry →
    entry.fingerprint ≠ fingerprint →
    Admission s expired advanced writeId fingerprint sender (s, .error (.conflict writeId))
  | join {entry : DedupEntry} : s.entries[writeId]? = some entry → entry.fingerprint = fingerprint →
    Admission s expired advanced writeId fingerprint sender (s, .ok (.join entry.sender))
  | expired : s.entries[writeId]? = none → expired →
    Admission s expired advanced writeId fingerprint sender (s, .error (.outcomeUnknown writeId))
  | execute : s.entries[writeId]? = none → expired = false →
    Admission s expired advanced writeId fingerprint sender
      ({ advanced with entries := s.entries.insert writeId ⟨fingerprint, sender⟩ }, .ok .execute)

theorem dedupe_cases (mode : DedupMode) (expired : DedupState → Bool)
    (advance : DedupState → DedupState) (s : DedupState) (namespaceId writeId : String)
    (fingerprint : Digest) (sender : ℕ) :
    Admission (s.selectNamespace namespaceId mode) (expired (s.selectNamespace namespaceId mode))
      (advance (s.selectNamespace namespaceId mode)) writeId fingerprint sender
      (s.dedupe mode expired advance namespaceId writeId fingerprint sender) := by
  unfold dedupe
  generalize s.selectNamespace namespaceId mode = s
  simp only
  split
  · rename_i entry hentry
    split
    · rename_i hne
      exact .conflict hentry hne
    · rename_i heq
      exact .join hentry (not_not.mp heq)
  · rename_i hnone
    split
    · rename_i hexpired
      exact .expired hnone hexpired
    · rename_i hexpired
      exact .execute hnone (Bool.eq_false_iff.mpr hexpired)

variable (sha256 : List UInt8 → Digest)

def dedupeControl (s : DedupState) (namespaceId : String) (sequence : ℕ) (plan : InputPlan)
    (sender : ℕ) : DedupState × Except InputError Action :=
  s.dedupe .monotonic (fun s => sequence ≤ s.highWatermark)
    (fun s => { s with highWatermark := sequence })
    namespaceId plan.writeId (fingerprint sha256 plan) sender

def dedupeLegacy (s : DedupState) (namespaceId : String) (plan : InputPlan) (sender : ℕ) :
    DedupState × Except InputError Action :=
  s.dedupe .legacy (fun s => s.legacyEvicted.mightContain sha256 plan.writeId) id
    namespaceId plan.writeId (fingerprint sha256 plan) sender

/-- The body of the loop of `complete`. -/
def evict (s : DedupState) (id : String) : DedupState :=
  { s with
    entries := s.entries.erase id
    legacyEvicted := if s.mode = some .legacy then s.legacyEvicted.insert sha256 id
      else s.legacyEvicted }

/-- `while completed.len() > capacity`. -/
def trim : DedupState → List String → DedupState
  | s, [] => { s with completed := [] }
  | s, id :: rest =>
    if s.capacity < (id :: rest).length then trim (s.evict sha256 id) rest
    else { s with completed := id :: rest }

def complete (s : DedupState) (writeId : String) :
    DedupState := s.trim sha256 (s.completed ++ [writeId])

/-- What the loop of `complete` leaves of a state whose completed ids are
`ids`: the newest `capacity` of them; the entries of the others are gone and,
in legacy mode, their ids are in the filter. -/
structure Trimmed (s : DedupState) (ids : List String) (t : DedupState) : Prop where
  completed : t.completed = ids.drop (ids.length - s.capacity)
  entries : ∀ id : String, t.entries[id]? =
    if id ∈ ids.take (ids.length - s.capacity) then none else s.entries[id]?
  namespaceId : t.namespaceId = s.namespaceId
  mode : t.mode = s.mode
  highWatermark : t.highWatermark = s.highWatermark
  capacity : t.capacity = s.capacity
  keeps : ∀ id, s.legacyEvicted.mightContain sha256 id → t.legacyEvicted.mightContain sha256 id
  finds : s.mode = some .legacy → ∀ id ∈ ids.take (ids.length - s.capacity),
    t.legacyEvicted.mightContain sha256 id

variable {sha256}

theorem evict_entries (s : DedupState) (id k : String) :
    (s.evict sha256 id).entries[k]? = if id = k then none else s.entries[k]? := by
  unfold evict
  rw [Std.ExtTreeMap.getElem?_erase]
  simp only [Std.LawfulEqCmp.compare_eq_iff_eq]

theorem evict_keeps {s : DedupState} {k : String} (h : s.legacyEvicted.mightContain sha256 k)
    (id : String) : (s.evict sha256 id).legacyEvicted.mightContain sha256 k := by
  unfold evict
  split
  · exact EvictedFilter.insert_keeps h id
  · exact h

/-- **The loop of `complete`.** -/
theorem trim_spec : ∀ (ids : List String) (s : DedupState), s.Trimmed sha256 ids (s.trim sha256 ids)
  | [], s => by
    refine ⟨List.drop_nil.symm, fun id => ?_, rfl, rfl, rfl, rfl, fun _ h => h, fun _ id h => ?_⟩
    · simp [trim]
    · simp at h
  | id :: rest, s => by
    rw [trim]
    by_cases hlong : s.capacity < (id :: rest).length
    · rw [if_pos hlong]
      have ih := trim_spec rest (s.evict sha256 id)
      have hcapacity : (s.evict sha256 id).capacity = s.capacity := rfl
      -- one id more is evicted than from the rest
      have hcount : (id :: rest).length - s.capacity = (rest.length - s.capacity) + 1 := by
        rw [List.length_cons] at hlong ⊢
        omega
      refine ⟨?_, fun k => ?_, ih.namespaceId, ih.mode, ih.highWatermark, ih.capacity,
        fun k hk => ?_, fun hmode k hk => ?_⟩
      · rw [ih.completed, hcapacity, hcount, List.drop_succ_cons]
      · rw [ih.entries, evict_entries, hcapacity, hcount, List.take_succ_cons]
        by_cases hid : id = k
        · simp [hid]
        · simp [hid, Ne.symm hid]
      · exact ih.keeps k (evict_keeps hk id)
      · rw [hcount, List.take_succ_cons] at hk
        rcases List.mem_cons.mp hk with rfl | hk
        · refine ih.keeps k ?_
          unfold evict
          rw [if_pos hmode]
          exact EvictedFilter.insert_finds _ _
        · exact ih.finds hmode k hk
    · rw [if_neg hlong]
      have hcount : (id :: rest).length - s.capacity = 0 := by omega
      refine ⟨?_, fun k => ?_, rfl, rfl, rfl, rfl, fun _ h => h, fun _ k hk => ?_⟩
      · rw [hcount, List.drop_zero]
      · rw [hcount]
        simp
      · rw [hcount] at hk
        simp at hk

end DedupState
end Pohunek.Input

/-
# Shortcuts in the attach client's input

`crates/cli/src/commands/attach/shortcut.rs`: the decoder keeps a CSI sequence
that is cut off until more bytes come, a timeout passes or it is too long. What
has been parsed does not depend on what follows (`parseAt_append`), so a stream
may be cut anywhere (`pushes_eq_scan`). A detach byte inside an unfinished
sequence is not looked at, and it is forwarded with the sequence if that is
given up; one behind a shortcut for the menu is dropped (`detach_forwarded`).
Every other one detaches (`detach_reaches_client`).
-/
import Mathlib.Tactic

namespace Pohunek.Client

open List

def esc : UInt8 := 0x1b

def csiOpen : UInt8 := 0x5b

def csiUFinal : UInt8 := 0x75

def menuByte : UInt8 := 0x1c

def detachByte : UInt8 := 0x1d

def menuKey : ℕ := 92

def detachKey : ℕ := 93

def eventPress : ℕ := 1

def eventRepeat : ℕ := 2

def maxPendingBytes : ℕ := 64

inductive MenuInputMode
  | unavailable | closed | opened
  deriving DecidableEq

inductive Shortcut
  | detach | menu
  deriving DecidableEq

inductive Parse
  | shortcut (shortcut : Shortcut)
  | normalized (byte : UInt8) (consumed : ℕ)
  | consumed (consumed : ℕ)
  | pending
  | pass
  deriving DecidableEq

structure CsiUKey where
  key : ℕ
  modifiers : ℕ
  event : ℕ

def CsiUKey.hasCtrl (key : CsiUKey) : Bool := key.modifiers &&& 4 ≠ 0

def CsiUKey.isActionable (key : CsiUKey) : Bool := key.event = eventPress ∨ key.event = eventRepeat

/-- The result of `u32` arithmetic that checks for overflow. -/
def checked (n : ℕ) : Option ℕ := if n < 2 ^ 32 then some n else none

def parseDecimal (bytes : List UInt8) : Option ℕ :=
  if bytes = [] then none
  else bytes.foldlM (fun value byte =>
    if 0x30 ≤ byte ∧ byte ≤ 0x39 then (checked (value * 10)).bind fun tens =>
      checked (tens + (byte.toNat - 0x30))
    else none) 0

def parseCsiU (params : List UInt8) : Option CsiUKey := do
  let fields := params.splitOn 0x3b
  let key ← parseDecimal (← ((← fields[0]?).splitOn 0x3a)[0]?)
  match fields[1]? with
  | none => some ⟨key, 0, eventPress⟩
  | some field =>
    let modifierFields := field.splitOn 0x3a
    let encoded ← parseDecimal (← modifierFields[0]?)
    let event ← modifierFields[1]?.elim (some eventPress) parseDecimal
    if encoded = 0 then none else some ⟨key, encoded - 1, event⟩

/-- What a complete key report of `consumed` bytes is. -/
def CsiUKey.parse (key : CsiUKey) (mode : MenuInputMode) (consumed : ℕ) : Parse :=
  if key.isActionable && key.hasCtrl && key.key = detachKey then .shortcut .detach
  else if key.isActionable && key.hasCtrl && key.key = menuKey && mode = .closed then
    .shortcut .menu
  else if mode ≠ .opened then .pass
  else if key.isActionable && key.modifiers = 0 && key.key < 256 then
    .normalized (.ofNat key.key) consumed
  else .consumed consumed

def isFinal (byte : UInt8) : Bool := 0x40 ≤ byte ∧ byte ≤ 0x7e

/-- `parse_csi`, of the bytes after the escape. -/
def parseCsi (mode : MenuInputMode) : List UInt8 → Parse
  | [] => .pending
  | second :: rest =>
    if second ≠ csiOpen then .pass
    else
      match rest.findIdx? isFinal with
      | none => .pending
      | some offset =>
        if rest[offset]? ≠ some csiUFinal then .pass
        else ((parseCsiU (rest.take offset)).map (·.parse mode (offset + 3))).getD .pass

/-- `parse_at`. The loop calls it on what is left, which is not empty. -/
def parseAt (mode : MenuInputMode) : List UInt8 → Parse
  | [] => .pending
  | first :: rest =>
    if first = detachByte then .shortcut .detach
    else if first = menuByte ∧ mode = .closed then .shortcut .menu
    else if first = esc then parseCsi mode rest
    else .pass

/-- What the loop of `push` finds; `candidate` is the rest from an unfinished
sequence on. -/
structure Scan where
  bytes : List UInt8
  shortcut : Option Shortcut
  candidate : List UInt8
  deriving DecidableEq

def Scan.after (s : Scan) (bytes : List UInt8) : Scan := { s with bytes := bytes ++ s.bytes }

/-- The loop of `push`; `skip` bytes are consumed already. -/
def scan (mode : MenuInputMode) : ℕ → List UInt8 → Scan
  | _, [] => ⟨[], none, []⟩
  | skip + 1, _ :: rest => scan mode skip rest
  | 0, first :: rest =>
    match parseAt mode (first :: rest) with
    | .shortcut shortcut => ⟨[], some shortcut, []⟩
    | .pending => ⟨[], none, first :: rest⟩
    | .normalized byte consumed => (scan mode (consumed - 1) rest).after [byte]
    | .consumed consumed => scan mode (consumed - 1) rest
    | .pass => (scan mode 0 rest).after [first]

structure DecodedInput where
  bytes : List UInt8
  shortcut : Option Shortcut
  deriving DecidableEq

structure ShortcutDecoder where
  pending : List UInt8
  deriving DecidableEq

namespace ShortcutDecoder

def new : ShortcutDecoder := ⟨[]⟩

def push (d : ShortcutDecoder) (input : List UInt8) (mode : MenuInputMode) :
    DecodedInput × ShortcutDecoder :=
  let s := scan mode 0 (d.pending ++ input)
  if s.candidate.length ≤ maxPendingBytes then (⟨s.bytes, s.shortcut⟩, ⟨s.candidate⟩)
  else (⟨s.bytes ++ s.candidate, s.shortcut⟩, ⟨[]⟩)

def flush (d : ShortcutDecoder) : List UInt8 × ShortcutDecoder := (d.pending, ⟨[]⟩)

end ShortcutDecoder

/-! ### The parser and what follows -/

variable {mode : MenuInputMode} {a b : List UInt8}

variable {n : ℕ}

/-- The bytes of a key report that the open menu takes. -/
def Parse.Takes (parse : Parse) (n : ℕ) : Prop := (∃ byte, parse = .normalized byte n) ∨
    parse = .consumed n

theorem CsiUKey.parse_takes {key : CsiUKey} {k : ℕ} (h : (key.parse mode n).Takes k) :
    mode = .opened ∧ k = n := by
  unfold CsiUKey.parse Parse.Takes at h
  split_ifs at h <;> simp_all

/-- **What is parsed stays parsed**, whatever bytes come after it. -/
theorem parseAt_append (h : parseAt mode a ≠ .pending) :
    parseAt mode (a ++ b) = parseAt mode a := by
  revert h
  fun_cases parseAt mode a with
  | case4 rest =>
    fun_cases parseCsi mode rest with
    | case4 second rest _ offset hfound | case5 second rest _ offset hfound =>
      have hlt : offset < rest.length := (List.findIdx?_eq_some_iff_findIdx_eq.mp hfound).1
      simp_all [parseAt, parseCsi, getElem?_append_left hlt, take_append_of_le_length hlt.le]
    | _ => simp_all [parseAt, parseCsi]
  | _ => simp_all [parseAt]

theorem parseAt_takes (h : (parseAt mode a).Takes n) : mode = .opened ∧ n ≤ a.length := by
  revert h
  fun_cases parseAt mode a with
  | case4 rest =>
    fun_cases parseCsi mode rest with
    | case5 second rest _ offset hfound =>
      have hlt : offset < rest.length := (List.findIdx?_eq_some_iff_findIdx_eq.mp hfound).1
      cases parseCsiU (rest.take offset) with
      | none => simp [Parse.Takes]
      | some key =>
        intro h
        obtain ⟨hmode, rfl⟩ := CsiUKey.parse_takes h
        exact ⟨hmode, by simp; omega⟩
    | _ => simp [Parse.Takes]
  | _ => simp [Parse.Takes]

/-- Where the menu is not open nothing is rewritten or swallowed. -/
theorem parseAt_cases (h : mode ≠ .opened) :
    (∃ shortcut, parseAt mode a = .shortcut shortcut) ∨ parseAt mode a = .pending ∨
    parseAt mode a = .pass := by
  cases hparse : parseAt mode a with
  | normalized byte n => exact absurd (parseAt_takes (.inl ⟨byte, hparse⟩)).1 h
  | consumed n => exact absurd (parseAt_takes (.inr hparse)).1 h
  | _ => simp

/-! ### A stream in pieces -/

/-- The scan goes on with what it left. -/
def Scan.andThen (s : Scan) (next : List UInt8 → Scan) : Scan :=
  match s.shortcut with
  | some _ => s
  | none => (next s.candidate).after s.bytes

theorem Scan.after_andThen (s : Scan) (bytes : List UInt8) (next : List UInt8 → Scan) :
    (s.after bytes).andThen next = (s.andThen next).after bytes := by
  unfold andThen after
  cases h : s.shortcut <;> simp [h]

theorem Scan.andThen_assoc (s : Scan) (f g : List UInt8 → Scan) :
    (s.andThen f).andThen g = s.andThen fun rest => (f rest).andThen g := by
  cases h : s.shortcut with
  | some => simp [andThen, h]
  | none =>
    simp only [andThen, h]
    exact Scan.after_andThen ..

/-- **A scan of two pieces** is the scan of the first, and from what it left
unfinished the scan of the second. -/
theorem scan_append (b : List UInt8) : ∀ (a : List UInt8) {skip : ℕ}, skip ≤ a.length →
    scan mode skip (a ++ b) = (scan mode skip a).andThen fun rest => scan mode 0 (rest ++ b)
  | [], 0, _ => by simp [scan, Scan.andThen, Scan.after]
  | first :: rest, skip + 1, h => scan_append b rest (by simpa using h)
  | first :: rest, 0, _ => by
    by_cases hpending : parseAt mode (first :: rest) = .pending
    · simp [scan, hpending, Scan.andThen, Scan.after]
    · have hparse : parseAt mode (first :: (rest ++ b)) = parseAt mode (first :: rest) :=
        parseAt_append hpending
      simp only [cons_append, scan, hparse]
      cases hcase : parseAt mode (first :: rest) with
      | pending => exact absurd hcase hpending
      | shortcut shortcut => rfl
      | normalized byte n =>
        have hle := (parseAt_takes (.inl ⟨byte, hcase⟩)).2
        dsimp only
        rw [scan_append b rest (by simp at hle; omega), Scan.after_andThen]
      | consumed n =>
        have hle := (parseAt_takes (.inr hcase)).2
        exact scan_append b rest (by simp at hle; omega)
      | pass => rw [scan_append b rest (Nat.zero_le _), Scan.after_andThen]

/-- What a scan leaves is an unfinished sequence at the end of its input. -/
theorem scan_candidate (mode : MenuInputMode) : ∀ (skip : ℕ) (a : List UInt8),
    parseAt mode (scan mode skip a).candidate = .pending ∧ (scan mode skip a).candidate <:+ a
  | _, [] => ⟨rfl, List.nil_suffix⟩
  | skip + 1, first :: rest =>
    (scan_candidate mode skip rest).imp_right (·.trans (List.suffix_cons ..))
  | 0, first :: rest => by
    have hrest := fun skip => (scan_candidate mode skip rest).imp_right
      (·.trans (List.suffix_cons first rest))
    simp only [scan]
    cases hcase : parseAt mode (first :: rest) with
    | shortcut shortcut => exact ⟨rfl, List.nil_suffix⟩
    | pending => exact ⟨hcase, List.suffix_refl _⟩
    | normalized byte n => exact hrest (n - 1)
    | consumed n => exact hrest (n - 1)
    | pass => exact hrest 0

/-- Pushes up to the first shortcut: the bytes forwarded before it, the
shortcut, and what is pending at the end. -/
def pushes (mode : MenuInputMode) : ShortcutDecoder → List (List UInt8) → Scan
  | d, [] => ⟨[], none, d.pending⟩
  | d, input :: inputs =>
    let (decoded, next) := d.push input mode
    Scan.andThen ⟨decoded.bytes, decoded.shortcut, next.pending⟩ fun pending =>
      pushes mode ⟨pending⟩ inputs

/-- Every incomplete sequence in the stream fits into the decoder. -/
def Short (mode : MenuInputMode) (stream : List UInt8) : Prop :=
  ∀ c, c <:+: stream → parseAt mode c = .pending → c.length ≤ maxPendingBytes

/-- **Pushes make one scan** of all that was pushed. -/
theorem pushes_eq_scan : ∀ (inputs : List (List UInt8)) (a : List UInt8),
    Short mode (a ++ inputs.flatten) →
    ((scan mode 0 a).andThen fun pending => pushes mode ⟨pending⟩ inputs) = scan mode 0
    (a ++ inputs.flatten)
  | [], a, _ => by
    cases h : (scan mode 0 a).shortcut with
    | some => simp [Scan.andThen, h]
    | none =>
      simp only [Scan.andThen, h]
      simp [Scan.after, pushes, ← h]
  | input :: inputs, a, hshort => by
    rw [flatten_cons, ← append_assoc] at hshort ⊢
    rw [← pushes_eq_scan inputs (a ++ input) hshort, scan_append input a (Nat.zero_le _),
      Scan.andThen_assoc]
    cases hnone : (scan mode 0 a).shortcut with
    | some => simp only [Scan.andThen, hnone]
    | none =>
      obtain ⟨hpending, hsuffix⟩ := scan_candidate mode 0 (a ++ input)
      have hle := hshort _ (hsuffix.isInfix.trans (prefix_append ..).isInfix) hpending
      rw [scan_append input a (Nat.zero_le _), Scan.andThen, hnone] at hle
      simp only [Scan.andThen, hnone, pushes, ShortcutDecoder.push]
      rw [if_pos (show (scan mode 0 ((scan mode 0 a).candidate ++ input)).candidate.length ≤
        _ from hle)]

/-- **Shortcuts do not depend on how the input is cut.** -/
theorem pushes_chunking (mode : MenuInputMode) (inputs inputs' : List (List UInt8))
    (hsame : inputs.flatten = inputs'.flatten) (hshort : Short mode inputs.flatten) :
    pushes mode .new inputs = pushes mode .new inputs' := by
  have hscan : ∀ pieces : List (List UInt8), Short mode pieces.flatten →
      pushes mode .new pieces = scan mode 0 pieces.flatten :=
      fun pieces h => pushes_eq_scan pieces [] h
  rw [hscan inputs hshort, hscan inputs' (hsame ▸ hshort), hsame]

/-- Ctrl-\ as a key report, cut in two places. -/
theorem pushes_chunking_sample :
    pushes .closed .new [[0x61, 0x1b], [0x5b, 0x39, 0x32], [0x3b, 0x35, 0x75]] =
        pushes .closed .new [[0x61, 0x1b, 0x5b, 0x39, 0x32, 0x3b, 0x35, 0x75]] ∧
      pushes .closed .new [[0x61, 0x1b, 0x5b, 0x39, 0x32, 0x3b, 0x35, 0x75]] =
      ⟨[0x61], some .menu, []⟩ := by
  refine ⟨pushes_chunking _ _ _ rfl fun c hc _ => ?_, by decide +kernel⟩
  exact hc.length_le.trans (by decide)

/-! ### The detach byte -/

/-- What reaches the decoder: bytes of the terminal, or the timeout of a
pending sequence (also the end of the input), with the mode the menu is in. -/
inductive StdinEvent
  | input (bytes : List UInt8) (mode : MenuInputMode)
  | shortcutTimeout (mode : MenuInputMode)

def StdinEvent.typed : StdinEvent → List UInt8
  | .input bytes _ => bytes
  | .shortcutTimeout _ => []

/-- `route_stdin_input`: an open menu takes the bytes, otherwise they go to the
remote terminal. -/
def route (mode : MenuInputMode) (bytes : List UInt8) :
    List UInt8 := if mode = .opened then [] else bytes

/-- The bytes an event forwards. -/
def ShortcutDecoder.handle (d : ShortcutDecoder) : StdinEvent → List UInt8 × ShortcutDecoder
  | .input bytes mode => (d.push bytes mode).map (fun decoded => route mode decoded.bytes) id
  | .shortcutTimeout mode => d.flush.map (route mode) id

/-- The bytes forwarded by events one after the other. -/
def forwarded : ShortcutDecoder → List StdinEvent → List UInt8
  | _, [] => []
  | d, event :: events => (d.handle event).1 ++ forwarded (d.handle event).2 events

def ShortcutDecoder.after (d : ShortcutDecoder) (events : List StdinEvent) : ShortcutDecoder :=
  events.foldl (fun d event => (d.handle event).2) d

/-- A detach byte stands behind the start of a sequence that is not finished
before it. -/
def Escaped (bytes : List UInt8) : Prop :=
  ∃ params, (∀ byte ∈ params, isFinal byte = false) ∧
    esc :: csiOpen :: (params ++ [detachByte]) <:+: bytes

/-- The menu byte, or a key report, which may be that of the menu's key. -/
def MayOpenMenu (bytes : List UInt8) : Prop :=
  menuByte ∈ bytes ∨
    ∃ params, (∀ byte ∈ params, isFinal byte = false) ∧
    esc :: csiOpen :: (params ++ [csiUFinal]) <:+: bytes

theorem Escaped.mono (h : Escaped a) (hab : a <:+: b) : Escaped b :=
  h.imp fun _ h => h.imp_right (·.trans hab)

theorem MayOpenMenu.mono (h : MayOpenMenu a) (hab : a <:+: b) : MayOpenMenu b :=
  h.imp (fun h => hab.subset h) fun h => h.imp fun _ h => h.imp_right (·.trans hab)

theorem escaped_of_mem {params : List UInt8} (hparams : ∀ byte ∈ params, isFinal byte = false)
    (h : detachByte ∈ params) (rest : List UInt8) :
    Escaped (esc :: csiOpen :: (params ++ rest)) := by
  obtain ⟨front, back, rfl⟩ := append_of_mem h
  exact ⟨front, fun byte hb => hparams byte (mem_append_left _ hb), [], back ++ rest, by simp⟩

/-- The bytes before the first final one. -/
theorem take_findIdx? {rest : List UInt8} {offset : ℕ} (h : rest.findIdx? isFinal = some offset) :
    ∀ byte ∈ rest.take offset, isFinal byte = false := by
  intro byte hb
  obtain ⟨hlt, -, hbefore⟩ := findIdx?_eq_some_iff_getElem.mp h
  obtain ⟨j, hj, rfl⟩ := mem_take_iff_getElem.mp hb
  simpa using hbefore j (by omega)

/-- An unfinished sequence holds no detach byte that is not escaped. -/
theorem detach_notMem_of_pending (h : parseAt mode a = .pending) (hescaped : ¬ Escaped a) :
    detachByte ∉ a := by
  revert h
  fun_cases parseAt mode a with
  | case1 => exact fun _ => not_mem_nil
  | case4 rest =>
    fun_cases parseCsi mode rest with
    | case1 => exact fun _ => by decide
    | case3 second rest hopen hnone =>
      rintro - hmem
      rw [ne_eq, not_not] at hopen
      subst hopen
      rw [findIdx?_eq_none_iff] at hnone
      have hmem : detachByte ∈ rest := by simpa [esc, csiOpen, detachByte] using hmem
      exact hescaped (append_nil rest ▸ escaped_of_mem hnone hmem [])
    | case5 second rest hopen offset hfound =>
      cases hkey : parseCsiU (rest.take offset) with
      | none => nofun
      | some key =>
        show key.parse mode (offset + 3) = .pending → _
        fun_cases key.parse mode (offset + 3) <;> nofun
    | _ => nofun
  | _ => nofun

theorem scan_bytes (h : mode ≠ .opened) : ∀ a : List UInt8, detachByte ∉ (scan mode 0 a).bytes
  | [] => not_mem_nil
  | first :: rest => by
    simp only [scan]
    rcases parseAt_cases (a := first :: rest) h with ⟨shortcut, hcase⟩ | hcase | hcase <;>
      rw [hcase]
    · exact not_mem_nil
    · exact not_mem_nil
    · have hne : detachByte ≠ first := by
        rintro rfl
        simp [parseAt] at hcase
      simpa [Scan.after, hne] using scan_bytes h rest

/-- What is pending was typed last, and is an unfinished sequence. -/
def ShortcutDecoder.Keeps (d : ShortcutDecoder) (past : List UInt8) : Prop :=
  d.pending <:+ past ∧ ∃ mode, parseAt mode d.pending = .pending

variable {d : ShortcutDecoder} {past : List UInt8}

theorem ShortcutDecoder.Keeps.joined (h : d.Keeps past) (bytes : List UInt8) :
    d.pending ++ bytes <:+ past ++ bytes := by
  obtain ⟨front, hfront⟩ := h.1
  exact ⟨front, by rw [← append_assoc, hfront]⟩

theorem ShortcutDecoder.Keeps.handle (h : d.Keeps past) (event : StdinEvent) :
    (d.handle event).2.Keeps (past ++ event.typed) := by
  have hnew : ShortcutDecoder.Keeps ⟨[]⟩ (past ++ event.typed) := ⟨nil_suffix, .closed, rfl⟩
  cases event with
  | shortcutTimeout mode => exact hnew
  | input bytes mode =>
    obtain ⟨hpending, hsuffix⟩ := scan_candidate mode 0 (d.pending ++ bytes)
    simp only [ShortcutDecoder.handle, ShortcutDecoder.push, Prod.map]
    split_ifs
    · exact ⟨hsuffix.trans (h.joined bytes), mode, hpending⟩
    · exact hnew

theorem ShortcutDecoder.Keeps.after (h : d.Keeps past) (events : List StdinEvent) :
    (d.after events).Keeps (past ++ events.flatMap StdinEvent.typed) := by
  induction events generalizing d past with
  | nil => exact (append_nil past).symm ▸ h
  | cons event events ih =>
    rw [flatMap_cons, ← append_assoc]
    exact ih (h.handle event)

/-- The decoder forwards no detach byte that is not escaped. -/
theorem forwarded_detach (h : d.Keeps past) : ∀ events : List StdinEvent,
    ¬ Escaped (past ++ events.flatMap StdinEvent.typed) → detachByte ∉ forwarded d events := by
  intro events hescaped
  induction events generalizing d past with
  | nil => exact not_mem_nil
  | cons event events ih =>
    rw [flatMap_cons, ← append_assoc] at hescaped
    rw [forwarded, mem_append, not_or]
    refine ⟨?_, ih (h.handle event) hescaped⟩
    have hsofar : ¬ Escaped (past ++ event.typed) :=
      fun he => hescaped (he.mono (prefix_append _ _).isInfix)
    cases event with
    | shortcutTimeout mode =>
      have hpending := detach_notMem_of_pending h.2.choose_spec fun he =>
        hsofar (he.mono (h.1.isInfix.trans (prefix_append _ _).isInfix))
      simp only [ShortcutDecoder.handle, ShortcutDecoder.flush, Prod.map, route]
      split_ifs
      · exact not_mem_nil
      · exact hpending
    | input bytes mode =>
      by_cases hmode : mode = .opened
      · simp [ShortcutDecoder.handle, route, hmode]
      · obtain ⟨hpending, hsuffix⟩ := scan_candidate mode 0 (d.pending ++ bytes)
        have hcandidate := detach_notMem_of_pending hpending fun he =>
          hsofar (he.mono (hsuffix.trans (h.joined bytes)).isInfix)
        have hscan := scan_bytes hmode (d.pending ++ bytes)
        simp only [ShortcutDecoder.handle, ShortcutDecoder.push, route, if_neg hmode, Prod.map]
        split_ifs <;> simp [hscan, hcandidate]

/-- Before a detach byte that is not escaped nothing is kept back, and a report
that is taken or that passes does not hold it. -/
theorem parseAt_unescaped {first : UInt8} {rest : List UInt8} (hfirst : first ≠ detachByte)
    (hmem : detachByte ∈ rest) (hescaped : ¬ Escaped (first :: rest))
    (hmenu : mode = .closed → ¬ MayOpenMenu (first :: rest.takeWhile (· ≠ detachByte))) :
    parseAt mode (first :: rest) = .pass ∨ parseAt mode (first :: rest) = .shortcut .detach ∨
      ∃ n, (parseAt mode (first :: rest)).Takes n ∧ detachByte ∉ rest.take (n - 1) := by
  rw [parseAt, if_neg hfirst]
  split
  · rename_i hbyte
    exact absurd (.inl (by rw [hbyte.1]; exact mem_cons_self)) (hmenu hbyte.2)
  split
  · rename_i hesc
    subst hesc
    fun_cases parseCsi mode rest with
    | case1 => cases hmem
    | case3 second rest hopen hnone =>
      rw [ne_eq, not_not] at hopen
      subst hopen
      rw [findIdx?_eq_none_iff] at hnone
      have hmem : detachByte ∈ rest := by simpa [csiOpen, detachByte] using hmem
      exact absurd (append_nil rest ▸ escaped_of_mem hnone hmem []) hescaped
    | case5 second rest hopen offset hfound hfinal =>
      rw [ne_eq, not_not] at hopen hfinal
      subst hopen
      have hbefore := take_findIdx? hfound
      have hparams : detachByte ∉ rest.take offset := fun h =>
        hescaped (take_append_drop offset rest ▸ escaped_of_mem hbefore h (rest.drop offset))
      have hreport : rest.take (offset + 1) = rest.take offset ++ [csiUFinal] := by
        rw [take_add_one, hfinal]
        rfl
      have hall : ∀ byte ∈ rest.take (offset + 1), byte ≠ detachByte := by
        rintro byte hb rfl
        rw [hreport, mem_append, mem_singleton] at hb
        exact hb.elim hparams (by decide)
      have htake : detachByte ∉ (csiOpen :: rest).take (offset + 3 - 1) := fun h =>
        (mem_cons.mp h).elim (by decide) fun h => hall _ h rfl
      cases hkey : parseCsiU (rest.take offset) with
      | none => exact .inl rfl
      | some key =>
        show key.parse mode (offset + 3) = .pass ∨ key.parse mode (offset + 3) = .shortcut .detach ∨
          ∃ n, (key.parse mode (offset + 3)).Takes n ∧ _
        fun_cases key.parse mode (offset + 3) with
        | case1 => exact .inr (.inl rfl)
        | case2 _ hclosed =>
          refine absurd (.inr ⟨_, hbefore, ?_⟩)
            (hmenu (by simpa using (Bool.and_eq_true_iff.mp hclosed).2))
          rw [← hreport, takeWhile_cons_of_pos (by decide)]
          nth_rewrite 2 [← take_append_drop (offset + 1) rest]
          rw [takeWhile_append_of_pos (by simpa using hall)]
          exact (prefix_append (esc :: csiOpen :: rest.take (offset + 1)) _).isInfix
        | case3 => exact .inl rfl
        | case4 => exact .inr (.inr ⟨_, .inl ⟨_, rfl⟩, htake⟩)
        | case5 => exact .inr (.inr ⟨_, .inr rfl, htake⟩)
    | _ => exact .inl rfl
  · exact .inl rfl

/-- A scan comes to the first detach byte. -/
theorem scan_reaches : ∀ (a : List UInt8) (skip : ℕ), detachByte ∈ a → detachByte ∉ a.take skip →
    ¬ Escaped a → (mode = .closed → ¬ MayOpenMenu (a.takeWhile (· ≠ detachByte))) →
    (scan mode skip a).shortcut = some .detach := by
  intro a
  induction a with
  | nil => exact fun _ hmem => absurd hmem not_mem_nil
  | cons first rest ih =>
    intro skip hmem htake hescaped hmenu
    by_cases hfirst : first = detachByte
    · subst hfirst
      cases skip with
      | zero => simp [scan, parseAt]
      | succ skip => simp at htake
    rw [takeWhile_cons_of_pos (by simpa using hfirst)] at hmenu
    have hmem : detachByte ∈ rest := (mem_cons.mp hmem).resolve_left (Ne.symm hfirst)
    have hnext : ∀ skip, detachByte ∉ rest.take skip →
      (scan mode skip rest).shortcut = some .detach := fun skip htake =>
      ih skip hmem htake (fun he => hescaped (he.mono (suffix_cons ..).isInfix))
        fun hmode ho => hmenu hmode (ho.mono (suffix_cons ..).isInfix)
    cases skip with
    | succ skip => exact hnext skip fun h => htake (mem_cons_of_mem _ h)
    | zero =>
      rw [scan]
      rcases parseAt_unescaped hfirst hmem hescaped hmenu with
        hparse | hparse | ⟨n, ⟨byte, hparse⟩ | hparse, htake⟩ <;> rw [hparse]
      · exact hnext 0 not_mem_nil
      · exact hnext (n - 1) htake
      · exact hnext (n - 1) htake

/-- **The detach key reaches the client** where no detach byte is typed behind
an unfinished sequence: none is ever forwarded, and a push whose bytes have one
ends in the detach shortcut, unless the menu is closed and what may open it
comes first. -/
theorem detach_reaches_client (events : List StdinEvent)
    (hescaped : ¬ Escaped (events.flatMap StdinEvent.typed)) : detachByte ∉ forwarded .new events ∧
    ∀ before bytes mode after, events = before ++ .input bytes mode :: after → detachByte ∈ bytes →
      (mode = .closed →
        ¬ MayOpenMenu (((ShortcutDecoder.new.after before).pending ++ bytes).takeWhile
        (· ≠ detachByte))) →
      ((ShortcutDecoder.new.after before).push bytes mode).1.shortcut = some .detach := by
  have hnew : ShortcutDecoder.new.Keeps [] := ⟨suffix_refl _, .closed, rfl⟩
  refine ⟨forwarded_detach hnew events hescaped, ?_⟩
  rintro before bytes mode after rfl hmem hmenu
  have hkeeps := (hnew.after before).joined bytes
  have hsofar : ¬ Escaped ((ShortcutDecoder.new.after before).pending ++ bytes) := by
    refine fun he => hescaped (he.mono (hkeeps.isInfix.trans ?_))
    rw [nil_append, flatMap_append, flatMap_cons, ← append_assoc]
    exact (prefix_append _ _).isInfix
  have hreach := scan_reaches _ 0 (mem_append_right _ hmem) not_mem_nil hsofar hmenu
  simp only [ShortcutDecoder.push]
  split_ifs <;> exact hreach

/-- Escape, `[` and the detach key, and the timeout: it is forwarded. Behind
the menu's key, and in a report that the open menu takes, it is lost. -/
theorem detach_forwarded :
    detachByte ∈ forwarded .new
      [.input [esc, csiOpen, detachByte] .closed, .shortcutTimeout .closed] ∧
    ShortcutDecoder.new.push [menuByte, detachByte] .closed = (⟨[], some .menu⟩, .new) ∧
    ShortcutDecoder.new.push
      [esc, csiOpen, 0x39, 0x37, 0x3b, 0x31, 0x3a, 0x31, 0x3b, detachByte, csiUFinal] .opened =
      (⟨[0x61], none⟩, .new) := by
  decide +kernel

theorem detach_reaches_client_sample :
    detachByte ∉ forwarded .new [.input [0x61, esc] .closed, .input [detachByte] .closed] ∧
    ((ShortcutDecoder.new.after [.input [0x61, esc] .closed]).push [detachByte] .closed).1.shortcut =
      some .detach := by
  -- without a `[` there is no sequence
  have hescaped : ¬ Escaped [0x61, esc, detachByte] :=
    fun ⟨_, _, h⟩ => absurd (h.subset (a := csiOpen) (by simp)) (by decide)
  obtain ⟨hforwarded, hpush⟩ :=
    detach_reaches_client [.input [0x61, esc] .closed, .input [detachByte] .closed] hescaped
  refine ⟨hforwarded, hpush [_] _ _ [] rfl (by decide) fun _ ho => ?_⟩
  have hbefore : ((ShortcutDecoder.new.after [.input [0x61, esc] .closed]).pending ++
      [detachByte]).takeWhile (· ≠ detachByte) = [esc] := by decide +kernel
  rw [hbefore] at ho
  exact ho.elim (by decide) fun ⟨_, _, h⟩ => absurd (h.subset (a := csiOpen) (by simp)) (by decide)

end Pohunek.Client

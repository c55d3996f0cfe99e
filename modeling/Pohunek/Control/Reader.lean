/-
# The control reader

`ControlReader::read` of `crates/worker-protocol/src/codec.rs`. A read awaits
bytes in one place only, so a dropped future leaves nothing behind but the
reader's own buffers; `Reading` is a reader with the read that is in progress,
if any, and the stream it reads from, which delivers any pieces.

`reference` is the reader's specification: the whole text cut into lines, each
line judged on its own, up to the first that fails. Whatever the pieces and
whichever reads are dropped, what the reads return is what the reference
returns (`reads_exact`). A last line without its newline counts once the
stream has ended.
-/
import Pohunek.Control.Exchange

namespace Pohunek.Control

open List Bool

open Runs (Run)
open LineLog

inductive ControlCodecError
  | io
  | json (message : String)
  | lineTooLong (actual maximum : ℕ)
  | pendingLine
  | invalidLimit (requested protocolMaximum : ℕ)
  deriving DecidableEq

def carriageReturn : UInt8 := 13

/-- The reader; `inner` is what its buffered stream holds. -/
structure ControlReader where
  inner : List UInt8
  buffer : List UInt8
  maximum : ℕ
  deriving DecidableEq

inductive ReadResult (τ : Type*)
  | value (v : τ)
  | endOfStream
  | failed (error : ControlCodecError)
  deriving DecidableEq

section Reader

variable {τ : Type*} (decode : List UInt8 → Except String τ)

def decodeLine (bytes : List UInt8) : ReadResult τ :=
  match decode bytes with
  | .ok v => .value v
  | .error message => .failed (.json message)

namespace ControlReader

/-- The bytes held up to the first newline. -/
def lineHeld (r : ControlReader) : List UInt8 := r.inner.takeWhile (· ≠ newline)

/-- One pass of the loop of `read` over the bytes held; without a result the
loop awaits more. -/
def pass (r : ControlReader) : ControlReader × Option (ReadResult τ) :=
  if r.lineHeld.length < r.inner.length then
    if r.maximum < r.buffer.length + r.lineHeld.length then
      ({ r with buffer := [] },
        some (.failed (.lineTooLong (r.buffer.length + r.lineHeld.length) r.maximum)))
    else
      ({ r with inner := r.inner.drop (r.lineHeld.length + 1), buffer := [] },
        some (decodeLine decode (chomp carriageReturn (r.buffer ++ r.lineHeld))))
  else if r.maximum < r.buffer.length + r.inner.length then
    ({ r with buffer := [] },
      some (.failed (.lineTooLong (r.buffer.length + r.inner.length) r.maximum)))
  else ({ r with inner := [], buffer := r.buffer ++ r.inner }, none)

/-- The pass at the end of the stream. -/
def finish (r : ControlReader) : ControlReader × ReadResult τ :=
  if r.buffer.isEmpty then (r, .endOfStream)
    else ({ r with buffer := [] }, decodeLine decode r.buffer)

end ControlReader

/-- A reader in use. `active` says whether a read awaits bytes, `received` is
what the stream delivered so far, `results` what the reads returned. -/
structure Reading (τ : Type*) where
  reader : ControlReader
  active : Bool
  ended : Bool
  received : List UInt8
  results : List (ReadResult τ)

/-- A read is called or dropped; the stream delivers a piece, ends or fails. -/
inductive ReadEvent
  | call | drop
  | bytes (piece : List UInt8)
  | eof | fault
  deriving DecidableEq

namespace Reading

def initial (maximum : ℕ) : Reading τ := ⟨⟨[], [], maximum⟩, false, false, [], []⟩

/-- The read goes on with a pass. -/
def passed (s : Reading τ) (r : ControlReader) : Reading τ :=
  match r.pass decode with
  | (r, none) => { s with reader := r, active := true }
  | (r, some result) => { s with reader := r, active := false, results := s.results ++ [result] }

def step (s : Reading τ) : ReadEvent → Option (Reading τ)
  | .call =>
    if s.active then none
    else if s.reader.inner.isEmpty then some { s with active := true }
    else some (s.passed decode s.reader)
  | .drop => if s.active then some { s with active := false } else none
  | .bytes piece =>
    if s.active && !s.ended && !piece.isEmpty then
      some ({ s with received := s.received ++ piece }.passed decode { s.reader with inner := piece })
    else none
  | .eof =>
    if s.active then
      some { s with reader := (s.reader.finish decode).1, active := false, ended := true,
                    results := s.results ++ [(s.reader.finish decode).2] }
    else none
  | .fault =>
    if s.active then
      some { s with
        reader := { s.reader with buffer := [] }, active := false
        results := s.results ++ [.failed .io] }
    else none

def Step (s : Reading τ) (e : ReadEvent) (t : Reading τ) : Prop := s.step decode e = some t

end Reading

/-! ### The reference -/

/-- The values before the first error. -/
def okPrefix {ε α : Type*} : List (Except ε α) → List α
  | .ok a :: rest => a :: okPrefix rest
  | .error _ :: _ => []
  | [] => []

/-- One line, judged on its own. -/
def judge (maximum : ℕ) (line : List UInt8 × Bool) : Except ControlCodecError τ :=
  if maximum < line.1.length then .error (.lineTooLong line.1.length maximum)
  else (decode (if line.2 then chomp carriageReturn line.1 else line.1)).mapError .json

/-- The values of a text: of its lines that have their newline, and of the last
one without it if the stream has `ended`. -/
def reference (maximum : ℕ) (text : List UInt8) (ended : Bool) : List τ :=
  okPrefix (((split newline text).filter fun line => line.2 || ended).map (judge decode maximum))

/-- The values that reads returned up to the first error. -/
def returned : List (ReadResult τ) → List τ
  | .value v :: rest => v :: returned rest
  | .endOfStream :: rest => returned rest
  | .failed _ :: _ => []
  | [] => []

/-- The first error that reads returned. -/
def firstError : List (ReadResult τ) → Option ControlCodecError
  | .value _ :: rest | .endOfStream :: rest => firstError rest
  | .failed e :: _ => some e
  | [] => none

theorem okPrefix_append_ok {ε α : Type*} (rest : List (Except ε α)) : ∀ as : List α,
    okPrefix (as.map .ok ++ rest) = as ++ okPrefix rest
  | [] => rfl
  | a :: as => by
    rw [map_cons, cons_append, okPrefix, okPrefix_append_ok rest as]
    rfl

theorem returned_append (rest : List (ReadResult τ)) : ∀ results : List (ReadResult τ),
    firstError results = none →
    returned (results ++ rest) = returned results ++ returned rest ∧ firstError
    (results ++ rest) = firstError rest
  | [], _ => ⟨rfl, rfl⟩
  | .value v :: results, h => by
    obtain ⟨hreturned, herror⟩ := returned_append rest results h
    exact ⟨congrArg (v :: ·) hreturned, herror⟩
  | .endOfStream :: results, h => returned_append rest results h

theorem returned_append_failed (rest : List (ReadResult τ)) {e : ControlCodecError} :
    ∀ results : List (ReadResult τ),
    firstError results = some e → returned (results ++ rest) = returned results ∧ firstError
    (results ++ rest) = some e
  | .value v :: results, h => by
    obtain ⟨hreturned, herror⟩ := returned_append_failed rest results h
    exact ⟨congrArg (v :: ·) hreturned, herror⟩
  | .endOfStream :: results, h => returned_append_failed rest results h
  | .failed _ :: _, h => ⟨rfl, h⟩

variable {decode} {maximum : ℕ}

/-- Lines that decode come first in the reference. -/
theorem reference_unlines {lines : List (List UInt8)} {vs : List τ}
    (hlines : ∀ line ∈ lines, newline ∉ line)
    (hjudged : lines.map (fun line => judge decode maximum (line, true)) = vs.map .ok)
    (t : List UInt8) (ended : Bool) :
    reference decode maximum
    (unlines newline lines ++ t) ended = vs ++ reference decode maximum t ended := by
  have hall : (lines.map (·, true)).filter (fun line => line.2 || ended) = lines.map (·, true) :=
    filter_eq_self.mpr (by simp)
  rw [reference, split_unlines_append t hlines, filter_append, hall, map_append, map_map]
  simp only [Function.comp_def, hjudged]
  exact okPrefix_append_ok _ vs

theorem reference_nil (ended : Bool) : reference decode maximum [] ended = [] := rfl

/-- A line that fails ends the reference. -/
theorem reference_of_error {line t : List UInt8} {e : ControlCodecError} (hline : newline ∉ line)
    (h : judge decode maximum (line, true) = .error e) (ended : Bool) :
    reference decode maximum (line ++ newline :: t) ended = [] := by
  rw [reference, split_line t hline, filter_cons_of_pos (by rfl), map_cons, h]
  rfl

/-- Part of a line that is too long ends the reference. -/
theorem reference_of_long {part : List UInt8} (hpart : newline ∉ part)
    (hlong : maximum < part.length) (t : List UInt8) (ended : Bool) :
    reference decode maximum (part ++ t) ended = [] := by
  have hne : part ≠ [] := ne_nil_of_length_pos (by omega)
  obtain ⟨more, terminated, rest, hsplit, hrest⟩ := split_open_append hpart hne t
  have hjudge : judge decode maximum (part ++ more, terminated) =
    .error (.lineTooLong (part ++ more).length maximum) :=
    if_pos (by rw [length_append]; omega)
  rw [reference, hsplit]
  by_cases hkept : (terminated || ended) = true
  · rw [filter_cons_of_pos (by exact hkept), map_cons, hjudge]
    rfl
  · rw [not_eq_true, or_eq_false_iff] at hkept
    rw [filter_cons_of_neg (by simp [hkept]), hrest hkept.1]
    rfl

/-- A last line without its newline. -/
theorem reference_open {part : List UInt8} (hpart : newline ∉ part) (hne : part ≠ [])
    (ended : Bool) :
    reference decode maximum part ended = if ended then okPrefix
    [judge decode maximum (part, false)] else [] := by
  rw [reference, split_open hpart hne]
  cases ended <;> rfl

/-! ### Every read -/

namespace Reading

variable {s t : Reading τ} {e : ReadEvent}

/-- A text the stream may turn out to be, and whether it has then ended. -/
def Continues (s : Reading τ) (text : List UInt8) (ended : Bool) : Prop :=
  if s.ended then text = s.received ∧ ended = true else s.received <+: text

/-- No read failed so far, and every line before the bytes held was returned. -/
structure Open (decode : List UInt8 → Except String τ) (s : Reading τ) (lines : List (List UInt8)) :
    Prop where
  received : s.received = unlines newline lines ++ (s.reader.buffer ++ s.reader.inner)
  whole : ∀ line ∈ lines, newline ∉ line
  started : newline ∉ s.reader.buffer
  fits : s.reader.buffer.length ≤ s.reader.maximum
  judged : lines.map (fun line => judge decode s.reader.maximum (line, true)) =
    (returned s.results).map .ok
  healthy : firstError s.results = none
  awaits : s.active → s.reader.inner = []
  drained : s.ended → s.reader.inner = [] ∧ s.reader.buffer = []
  last : .endOfStream ∈ s.results → s.ended

/-- The last line was returned although it has no newline. -/
structure Finished (decode : List UInt8 → Except String τ) (s : Reading τ) : Prop where
  ended : s.ended
  inner : s.reader.inner = []
  buffer : s.reader.buffer = []
  healthy : firstError s.results = none
  values : returned s.results = reference decode s.reader.maximum s.received true

/-- A read failed. -/
structure Failed (decode : List UInt8 → Except String τ) (s : Reading τ) : Prop where
  error : ∃ e, firstError s.results = some e ∧ ∀ text ended, s.Continues text ended →
    returned s.results <+: reference decode s.reader.maximum text ended ∧
    (e ≠ .io → returned s.results = reference decode s.reader.maximum text ended)

def Inv (decode : List UInt8 → Except String τ) (s : Reading τ) : Prop :=
  (∃ lines, Open decode s lines) ∨ Finished decode s ∨ Failed decode s

variable {lines : List (List UInt8)} {text : List UInt8} {ended : Bool}

theorem Open.reference_eq (h : Open decode s lines) (hended : s.ended = false)
    (hcont : s.Continues text ended) : ∃ more, reference decode s.reader.maximum text ended =
      returned s.results ++ reference decode s.reader.maximum
      (s.reader.buffer ++ s.reader.inner ++ more) ended := by
  rw [Continues, if_neg (by simp [hended])] at hcont
  obtain ⟨more, rfl⟩ := hcont
  refine ⟨more, ?_⟩
  rw [h.received, append_assoc, reference_unlines h.whole h.judged]

theorem Open.reference_received (h : Open decode s lines) (ended : Bool) :
    reference decode s.reader.maximum s.received ended =
      returned s.results ++ reference decode s.reader.maximum
      (s.reader.buffer ++ s.reader.inner) ended := by
  rw [h.received, reference_unlines h.whole h.judged]

theorem Open.values_prefix (h : Open decode s lines) (hcont : s.Continues text ended) :
    returned s.results <+: reference decode s.reader.maximum text ended := by
  by_cases hended : s.ended
  · rw [Continues, if_pos hended] at hcont
    rw [hcont.1, h.reference_received]
    exact prefix_append _ _
  · obtain ⟨more, href⟩ := h.reference_eq (eq_false_iff.mpr hended) hcont
    rw [href]
    exact prefix_append _ _

theorem results_failed (h : firstError s.results = none) (e : ControlCodecError) :
    returned (s.results ++ [.failed e]) = returned s.results ∧ firstError
    (s.results ++ [.failed e]) = some e := by
  obtain ⟨hreturned, herror⟩ := returned_append [.failed e] _ h
  exact ⟨hreturned.trans (append_nil _), herror⟩

/-- A pass that fails leaves nothing for the reference to return either. -/
theorem Open.fail (h : Open decode s lines) (hended : s.ended = false) {e : ControlCodecError}
    (r : ControlReader)
    (hmax : r.maximum = s.reader.maximum) (hnone : ∀ more ended, reference decode s.reader.maximum
      (s.reader.buffer ++ s.reader.inner ++ more) ended = []) :
    Failed decode { s with reader := r, active := false, results := s.results ++ [.failed e] } := by
  obtain ⟨hreturned, herror⟩ := results_failed h.healthy e
  refine ⟨e, herror, fun text ended hcont => ?_⟩
  obtain ⟨more, href⟩ := h.reference_eq hended hcont
  have heq : returned (s.results ++ [.failed e]) = reference decode s.reader.maximum text ended := by
    rw [hreturned, href, hnone, append_nil]
  rw [hmax, ← heq]
  exact ⟨prefix_rfl, fun _ => rfl⟩

theorem judge_of_le {line : List UInt8} (hle : line.length ≤ maximum) (terminated : Bool) :
    judge decode maximum (line, terminated) =
      (decode (if terminated then chomp carriageReturn line else line)).mapError .json :=
  if_neg (Nat.not_lt.mpr hle)

theorem Open.passed (h : Open decode s lines) (hended : s.ended = false) :
    Inv decode (s.passed decode s.reader) := by
  obtain ⟨hheld, hnewline, hnone⟩ := takeWhile_ne_sep newline s.reader.inner
  rw [Reading.passed]
  have hpart : newline ∉ s.reader.buffer ++ s.reader.lineHeld := fun hm =>
    (mem_append.mp hm).elim h.started hheld
  unfold ControlReader.pass
  by_cases hfound : s.reader.lineHeld.length < s.reader.inner.length
  · have htext : ∀ more, s.reader.buffer ++ s.reader.inner ++ more =
      (s.reader.buffer ++ s.reader.lineHeld) ++
        newline :: (s.reader.inner.drop (s.reader.lineHeld.length + 1) ++ more) := by
      intro more
      conv_lhs => rw [hnewline hfound]
      simp [ControlReader.lineHeld]
    rw [if_pos hfound]
    by_cases hlong : s.reader.maximum < s.reader.buffer.length + s.reader.lineHeld.length
    · rw [if_pos hlong]
      refine .inr (.inr (h.fail hended _ rfl fun more ended => ?_))
      rw [htext]
      exact reference_of_error hpart (if_pos (by rwa [length_append])) ended
    · rw [if_neg hlong]
      have hfits : (s.reader.buffer ++ s.reader.lineHeld).length ≤ s.reader.maximum := by
        rw [length_append]
        omega
      have hjudge : judge decode s.reader.maximum (s.reader.buffer ++ s.reader.lineHeld, true) = _ :=
        judge_of_le hfits true
      rw [decodeLine]
      cases hdecode : decode (chomp carriageReturn (s.reader.buffer ++ s.reader.lineHeld)) with
      | error message =>
        rw [if_pos rfl, hdecode] at hjudge
        refine .inr (.inr (h.fail hended _ rfl fun more ended => ?_))
        rw [htext]
        exact reference_of_error hpart hjudge ended
      | ok v =>
        rw [if_pos rfl, hdecode] at hjudge
        obtain ⟨hreturned, herror⟩ := returned_append [.value v] _ h.healthy
        refine .inl ⟨lines ++ [s.reader.buffer ++ s.reader.lineHeld], ?_, ?_, by simp,
          Nat.zero_le _, ?_, herror, nofun,
          fun hend => absurd hend (by simp [hended]), fun hlast => h.last (by simpa using hlast)⟩
        · have hreceived := h.received
          have htext0 := htext []
          rw [append_nil, append_nil] at htext0
          rw [htext0] at hreceived
          simp [hreceived, unlines_append]
        · exact List.forall_mem_snoc h.whole hpart
        · rw [hreturned, map_append, map_append, h.judged, map_singleton, hjudge]
          rfl
  · have hall : s.reader.lineHeld = s.reader.inner := hnone hfound
    rw [if_neg hfound]
    have hbuffer : newline ∉ s.reader.buffer ++ s.reader.inner := hall ▸ hpart
    by_cases hlong : s.reader.maximum < s.reader.buffer.length + s.reader.inner.length
    · rw [if_pos hlong]
      refine .inr (.inr (h.fail hended _ rfl fun more ended => ?_))
      exact reference_of_long hbuffer (by rwa [length_append]) more ended
    · rw [if_neg hlong]
      refine .inl ⟨lines, ⟨?_, h.whole, hbuffer, ?_, h.judged, h.healthy, fun _ => rfl,
        fun hend => absurd hend (by simp [hended]), h.last⟩⟩
      · simpa using h.received
      · dsimp only
        rw [length_append]
        omega

/-- The reader holds a piece. -/
def fed (s : Reading τ) (piece : List UInt8) : Reading τ :=
  { s with reader := { s.reader with inner := piece }, active := false, received := s.received ++ piece }

theorem Open.eof (h : Open decode s lines) (hactive : s.active) :
    Inv decode { s with reader := (s.reader.finish decode).1, active := false, ended := true,
                        results := s.results ++ [(s.reader.finish decode).2] } := by
  have hinner := h.awaits hactive
  have href := h.reference_received true
  rw [hinner, append_nil] at href
  unfold ControlReader.finish
  by_cases hempty : s.reader.buffer = []
  · rw [if_pos (by simp [hempty])]
    obtain ⟨hreturned, herror⟩ := returned_append [.endOfStream] _ h.healthy
    refine .inl ⟨lines, h.received, h.whole, h.started, h.fits, ?_, herror, nofun,
      fun _ => ⟨hinner, hempty⟩, fun _ => rfl⟩
    rw [hreturned, returned, returned, append_nil]
    exact h.judged
  · rw [reference_open h.started hempty, if_pos rfl, judge_of_le h.fits] at href
    rw [if_neg (by simpa using hempty), decodeLine]
    cases hdecode : decode s.reader.buffer with
    | error message =>
      obtain ⟨hreturned, herror⟩ := results_failed h.healthy (.json message)
      refine .inr (.inr ⟨_, herror, fun text ended hcont => ?_⟩)
      obtain ⟨rfl, rfl⟩ := hcont
      have heq : returned (s.results ++ [.failed (.json message)]) =
          reference decode s.reader.maximum s.received true := by
        rw [hreturned, href]
        simp [hdecode, okPrefix, Except.mapError]
      exact ⟨heq ▸ prefix_rfl, fun _ => heq⟩
    | ok v =>
      obtain ⟨hreturned, herror⟩ := returned_append [.value v] _ h.healthy
      refine .inr (.inl ⟨rfl, hinner, rfl, herror, ?_⟩)
      rw [hreturned]
      rw [href]
      simp [hdecode, okPrefix, returned, Except.mapError]

/-- What every step keeps: the bytes received, the results returned. -/
theorem Step.grows (h : s.Step decode e t) : (∃ extra, t.results = s.results ++ extra) ∧
    t.reader.maximum = s.reader.maximum ∧ ∀ text ended, t.Continues text ended →
      s.Continues text ended := by
  have hmax : ∀ r : ControlReader, (r.pass decode).1.maximum = r.maximum := by
    intro r
    fun_cases r.pass decode <;> rfl
  have hpassed : ∀ (s' : Reading τ) (r : ControlReader),
    (∃ extra, (s'.passed decode r).results = s'.results ++ extra) ∧
      (s'.passed decode r).reader.maximum = r.maximum ∧ (s'.passed decode r).ended = s'.ended ∧
      (s'.passed decode r).received = s'.received := by
    intro s' r
    have hr := hmax r
    unfold Reading.passed
    split
    · rename_i heq
      rw [heq] at hr
      exact ⟨⟨[], (append_nil _).symm⟩, hr, rfl, rfl⟩
    · rename_i heq
      rw [heq] at hr
      exact ⟨⟨_, rfl⟩, hr, rfl, rfl⟩
  have hfinish : (s.reader.finish decode).1.maximum = s.reader.maximum := by
    unfold ControlReader.finish
    split <;> rfl
  revert h
  unfold Step
  fun_cases step decode s e with
  | case2 | case4 => rintro ⟨⟩; exact ⟨⟨[], (append_nil _).symm⟩, rfl, fun _ _ => id⟩
  | case3 =>
    rintro ⟨⟩
    obtain ⟨hresults, hmaximum, hended, hreceived⟩ := hpassed s s.reader
    refine ⟨hresults, hmaximum, fun text ended hcont => ?_⟩
    rwa [Continues, hended, hreceived] at hcont
  | case6 piece hopen =>
    rintro ⟨⟩
    obtain ⟨hresults, hmaximum, hended, hreceived⟩ :=
      hpassed { s with received := s.received ++ piece } { s.reader with inner := piece }
    refine ⟨hresults, hmaximum, fun text ended hcont => ?_⟩
    simp only [and_eq_true, not_eq_true'] at hopen
    have hnot : s.ended = false := hopen.1.2
    rw [Continues, hended, hreceived, if_neg (by simp [hnot])] at hcont
    rw [Continues, if_neg (by simp [hnot])]
    exact (prefix_append _ _).trans hcont
  | case8 =>
    rintro ⟨⟩
    refine ⟨⟨_, rfl⟩, hfinish, fun text ended hcont => ?_⟩
    rw [Continues]
    split
    · exact hcont
    · exact hcont.1 ▸ prefix_rfl
  | case10 => rintro ⟨⟩; exact ⟨⟨_, rfl⟩, rfl, fun _ _ => id⟩
  | _ => rintro ⟨⟩

theorem Failed.step (h : Failed decode s) (hstep : s.Step decode e t) : Failed decode t := by
  obtain ⟨error, herror, hvalues⟩ := h.error
  obtain ⟨⟨extra, hresults⟩, hmax, hcont⟩ := hstep.grows
  obtain ⟨hreturned, hfirst⟩ := returned_append_failed extra _ herror
  rw [← hresults] at hreturned hfirst
  refine ⟨error, hfirst, fun text ended ht => ?_⟩
  rw [hreturned, hmax]
  exact hvalues text ended (hcont text ended ht)

theorem Inv.step (h : Inv decode s) (hstep : s.Step decode e t) : Inv decode t := by
  rcases h with ⟨lines, h⟩ | h | h
  · revert hstep
    unfold Step
    fun_cases Reading.step decode s e with
    | case2 _ hempty => rintro ⟨⟩; exact .inl ⟨lines, { h with awaits := fun _ => by simpa using hempty }⟩
    | case3 _ hheld =>
      rintro ⟨⟩
      refine h.passed (eq_false_iff.mpr fun hend => ?_)
      exact hheld (by simp [(h.drained hend).1])
    | case4 => rintro ⟨⟩; exact .inl ⟨lines, { h with awaits := nofun }⟩
    | case6 piece hopen =>
      rintro ⟨⟩
      simp only [and_eq_true, not_eq_true'] at hopen
      obtain ⟨⟨hactive, hended⟩, -⟩ := hopen
      have hfed : Open decode (s.fed piece) lines := by
        refine { h with
        received := ?_, awaits := nofun, drained := fun hend => absurd hend (by simp [fed, hended]) }
        simp [fed, h.received, h.awaits hactive]
      exact hfed.passed hended
    | case8 hactive => rintro ⟨⟩; exact h.eof hactive
    | case10 =>
      rintro ⟨⟩
      obtain ⟨hreturned, herror⟩ := results_failed h.healthy .io
      refine .inr (.inr ⟨.io, herror, fun text ended hcont => ⟨?_, fun hio => absurd rfl hio⟩⟩)
      rw [hreturned]
      exact h.values_prefix hcont
    | _ => rintro ⟨⟩
  · revert hstep
    unfold Step
    fun_cases Reading.step decode s e with
    | case2 | case4 => rintro ⟨⟩; exact .inr (.inl { h with })
    | case3 _ hheld => exact absurd (by simp [h.inner]) hheld
    | case6 piece hopen => simp [h.ended] at hopen
    | case8 =>
      rintro ⟨⟩
      obtain ⟨hreturned, herror⟩ := returned_append [.endOfStream] _ h.healthy
      unfold ControlReader.finish
      rw [if_pos (by simp [h.buffer])]
      refine .inr (.inl ⟨rfl, h.inner, h.buffer, herror, ?_⟩)
      rw [hreturned, returned, returned, append_nil]
      exact h.values
    | case10 =>
      rintro ⟨⟩
      obtain ⟨hreturned, herror⟩ := results_failed h.healthy .io
      refine .inr (.inr ⟨.io, herror, fun text ended hcont => ⟨?_, fun hio => absurd rfl hio⟩⟩)
      rw [Continues, if_pos h.ended] at hcont
      obtain ⟨rfl, rfl⟩ := hcont
      rw [hreturned, h.values]
    | _ => rintro ⟨⟩
  · exact .inr (.inr (h.step hstep))

variable {tr : List ReadEvent}

theorem inv_of_run (h : Run (Step decode) (initial maximum) tr s) :
    Inv decode s ∧ s.reader.maximum = maximum := by
  refine h.invariant ⟨.inl ⟨[], ?_⟩, rfl⟩
    fun hs hstep => ⟨hs.1.step hstep, hstep.grows.2.1.trans hs.2⟩
  exact ⟨rfl, nofun, nofun, Nat.zero_le _, rfl, rfl, nofun, nofun, nofun⟩

/-- **Reads return what the reference returns.** At any moment the values are
the first ones of the reference, whatever the stream still brings; they are
all of them once a line was refused or the stream is over, and all of the
lines received while a read awaits more. -/
theorem reads_exact (h : Run (Step decode) (initial maximum) tr s)
    (hcont : s.Continues text ended) :
    returned s.results <+: reference decode maximum text ended ∧
    ((∃ e, firstError s.results = some e ∧ e ≠ .io) ∨ firstError s.results = none ∧
      .endOfStream ∈ s.results → returned s.results = reference decode maximum text ended) ∧
    (firstError s.results = none → s.active → s.ended = false →
      returned s.results = reference decode maximum s.received false) := by
  obtain ⟨hinv, hmax⟩ := inv_of_run h
  rw [← hmax]
  rcases hinv with ⟨lines, h⟩ | h | h
  · refine ⟨h.values_prefix hcont, fun hfinal => ?_, fun _ hactive hended => ?_⟩
    · rcases hfinal with ⟨e, he, -⟩ | ⟨-, hlast⟩
      · cases h.healthy.symm.trans he
      · have hended := h.last hlast
        rw [Continues, if_pos hended] at hcont
        obtain ⟨hinner, hbuffer⟩ := h.drained hended
        rw [hcont.1, h.reference_received, hinner, hbuffer, append_nil, reference_nil, append_nil]
    · rw [h.reference_received, h.awaits hactive, append_nil]
      by_cases hempty : s.reader.buffer = []
      · rw [hempty, reference_nil, append_nil]
      · rw [reference_open h.started hempty, if_neg (by simp), append_nil]
  · rw [Continues, if_pos h.ended] at hcont
    obtain ⟨rfl, rfl⟩ := hcont
    exact ⟨h.values ▸ prefix_rfl, fun _ => h.values, fun _ _ hended => absurd h.ended (by simp [hended])⟩
  · obtain ⟨e, he, hvalues⟩ := h.error
    obtain ⟨hfront, hall⟩ := hvalues text ended hcont
    refine ⟨hfront, fun hfinal => ?_, fun hnone => by cases hnone.symm.trans he⟩
    rcases hfinal with ⟨e', he', hio⟩ | ⟨hnone, -⟩
    · cases he.symm.trans he'
      exact hall hio
    · cases hnone.symm.trans he

/-! ### Reads after an error

An error scrubs what is buffered of its line; only a line of malformed JSON is
consumed with it. What is left of a line over the limit is taken for a line by
the next read, or refused again and again (`fragment_decoded`). Where the lines
fit and the stream ends or fails between lines only, each read takes the next
line. -/

/-- What a read says of a line. -/
def outcome? : ReadResult τ → Option (Except ControlCodecError τ)
  | .value v => some (.ok v)
  | .endOfStream | .failed .io => none
  | .failed e => some (.error e)

/-- The lines that come fit the limit, and the stream ends or fails between
lines. -/
def fitting (s : Reading τ) : ReadEvent → Bool
  | .bytes piece => (split newline (s.received ++ piece)).all (·.1.length ≤ s.reader.maximum)
  | .eof | .fault => s.received.getLast?.all (· = newline)
  | .call | .drop => true

/-- The lines taken so far are the first of the text, and each read that
returned said what is to say of its line. -/
structure Taken (decode : List UInt8 → Except String τ) (s : Reading τ)
    (lines : List (List UInt8)) : Prop where
  received : s.received = unlines newline lines ++ (s.reader.buffer ++ s.reader.inner)
  whole : ∀ line ∈ lines, newline ∉ line
  started : newline ∉ s.reader.buffer
  fits : ∀ line ∈ split newline s.received, line.1.length ≤ s.reader.maximum
  outcomes : s.results.filterMap outcome? = lines.map fun line => judge decode s.reader.maximum
    (line, true)
  awaits : s.active → s.reader.inner = []

theorem Taken.passed (h : Taken decode s lines) :
    ∃ lines, Taken decode (s.passed decode s.reader) lines := by
  obtain ⟨hheld, hnewline, hnone⟩ := takeWhile_ne_sep newline s.reader.inner
  have hpart : newline ∉ s.reader.buffer ++ s.reader.lineHeld :=
    fun hm => (mem_append.mp hm).elim h.started hheld
  have hfits := h.fits
  rw [h.received, split_unlines_append _ h.whole, forall_mem_append] at hfits
  -- the line in hand fits, with its newline or without
  have hline : s.reader.lineHeld.length < s.reader.inner.length →
      (s.reader.buffer ++ s.reader.lineHeld).length ≤ s.reader.maximum := by
    intro hfound
    refine hfits.2 (_, true) ?_
    rw [hnewline hfound, ← append_assoc]
    exact split_line _ hpart ▸ mem_cons_self
  have hopen : ¬ s.reader.lineHeld.length < s.reader.inner.length →
      (s.reader.buffer ++ s.reader.inner).length ≤ s.reader.maximum := by
    intro hfound
    have hall : s.reader.lineHeld = s.reader.inner := hnone hfound
    by_cases hempty : s.reader.buffer ++ s.reader.inner = []
    · simp [hempty]
    · exact hfits.2 (_, false) (split_open (hall ▸ hpart) hempty ▸ mem_cons_self)
  rw [length_append] at hline hopen
  rw [Reading.passed]
  fun_cases s.reader.pass decode with
  | case1 hfound hlong => exact absurd (hline hfound) (Nat.not_le.mpr hlong)
  | case2 hfound hlong =>
    -- a whole line: consumed, whether it decodes or not
    refine ⟨lines ++ [s.reader.buffer ++ s.reader.lineHeld], ?_,
      List.forall_mem_snoc h.whole hpart, by simp, h.fits, ?_, nofun⟩
    · have hreceived := h.received
      rw [hnewline hfound] at hreceived
      simpa [ControlReader.lineHeld, unlines_append] using hreceived
    · dsimp only
      rw [filterMap_append, h.outcomes, map_append, map_singleton,
        judge_of_le (by rw [length_append]; omega), decodeLine, if_pos rfl]
      cases decode (chomp carriageReturn (s.reader.buffer ++ s.reader.lineHeld)) <;> rfl
  | case3 hfound hlong => exact absurd (hopen hfound) (Nat.not_le.mpr hlong)
  | case4 hfound =>
    exact ⟨lines, { h with
      received := by simpa using h.received, started := hnone hfound ▸ hpart, awaits := fun _ => rfl }⟩

/-- Between two lines nothing is buffered. -/
theorem Taken.buffer_eq_nil (h : Taken decode s lines) (hactive : s.active)
    (hlast : s.received.getLast?.all (· = newline) = true) : s.reader.buffer = [] := by
  rw [h.received, h.awaits hactive, append_nil] at hlast
  by_contra hne
  rw [getLast?_append_of_ne_nil _ hne, getLast?_eq_some_getLast hne] at hlast
  exact h.started (of_decide_eq_true hlast ▸ getLast_mem hne)

theorem Taken.step (h : Taken decode s lines) (hstep : s.Step decode e t) (hfitting : s.fitting e) :
    ∃ lines, Taken decode t lines := by
  revert hstep
  unfold Step
  fun_cases Reading.step decode s e with
  | case2 _ hempty => rintro ⟨⟩; exact ⟨lines, { h with awaits := fun _ => by simpa using hempty }⟩
  | case3 => rintro ⟨⟩; exact h.passed
  | case4 => rintro ⟨⟩; exact ⟨lines, { h with awaits := nofun }⟩
  | case6 piece hopen =>
    rintro ⟨⟩
    have hactive : s.active = true := by simp_all
    have hfed : Taken decode (s.fed piece) lines := by
      refine { h with received := ?_, fits := by simpa [fitting, fed] using hfitting, awaits := nofun }
      simp [fed, h.received, h.awaits hactive]
    exact hfed.passed
  | case8 hactive =>
    rintro ⟨⟩
    rw [ControlReader.finish, if_pos (by simp [h.buffer_eq_nil hactive hfitting])]
    refine ⟨lines, { h with outcomes := ?_, awaits := nofun }⟩
    rw [filterMap_append, h.outcomes]
    exact append_nil _
  | case10 hactive =>
    rintro ⟨⟩
    have hbuffer := h.buffer_eq_nil hactive hfitting
    refine ⟨lines, { h with
      received := by simpa [hbuffer] using h.received, started := by simp, outcomes := ?_,
                            awaits := nofun }⟩
    rw [filterMap_append, h.outcomes]
    exact append_nil _
  | _ => rintro ⟨⟩

/-- **Each read takes the next line** where all lines fit the limit and the
stream ends or fails between lines only: apart from the end and the failures of
the stream, the reads return, also after errors, what the first lines of the
text are judged to be, each line once and whole. -/
theorem values_of_whole_lines {tr : List ReadEvent}
    (h : Run (fun s e t => s.Step decode e t ∧ s.fitting e) (initial maximum) tr s) :
    ∃ lines : List (List UInt8), lines.map (·, true) <+: split newline s.received ∧
      s.results.filterMap outcome? = lines.map fun line => judge decode maximum (line, true) := by
  have hmax : s.reader.maximum = maximum := h.invariant rfl fun hs hstep => hstep.1.grows.2.1.trans hs
  obtain ⟨lines, h⟩ := h.invariant (I := fun s => ∃ lines, Taken decode s lines)
    ⟨[], rfl, by simp, by simp [initial], by simp [initial, split], rfl, fun _ => rfl⟩
      fun ⟨_, hs⟩ hstep => hs.step hstep.1 hstep.2
  refine ⟨lines, ?_, hmax ▸ h.outcomes⟩
  rw [h.received, split_unlines_append _ h.whole]
  exact prefix_append _ _

/-- A value in two pieces, a line that is not JSON, a fault and a value. -/
theorem values_of_whole_lines_sample : ∃ s : Reading (List UInt8),
    s.results = [.value [49, 50], .failed (.json "expected value"), .failed .io, .value [51],
      .endOfStream] ∧
    ∃ lines : List (List UInt8), lines.map (·, true) <+: split newline s.received ∧
      s.results.filterMap outcome? =
      lines.map fun line => judge (fun bytes => if bytes = [120] then .error "expected value"
        else .ok bytes) 4 (line, true) :=
  ⟨_, by decide, values_of_whole_lines ((@Runs.steps_run _ _ (Runs.guarded (step _) fitting)
    [.call, .bytes [49], .bytes [50, newline, 120, newline], .call, .call,
      .fault, .call, .bytes [51, newline], .call, .eof]
    _ _ rfl).mono Runs.guarded_eq_some)⟩

/-- A line over its limit of four bytes: in two pieces, its second piece is
decoded after the error; in one, every read refuses it and the line behind it
is not returned. -/
theorem fragment_decoded : (∃ s : Reading (List UInt8), Run (Step .ok) (initial 4)
    [.call, .bytes [49, 50], .bytes [51, 52, 53, newline], .call] s ∧
    s.results = [.failed (.lineTooLong 5 4), .value [51, 52, 53]] ∧
    split newline s.received = [([49, 50, 51, 52, 53], true)]) ∧
    ∃ s : Reading (List UInt8), Run (Step .ok) (initial 4)
      [.call, .bytes [49, 50, 51, 52, 53, newline, 54, newline], .call, .call] s ∧
      s.results = [.failed (.lineTooLong 5 4), .failed (.lineTooLong 5 4),
      .failed (.lineTooLong 5 4)] :=
  ⟨⟨_, @Runs.steps_run _ _ (step .ok) _ _ _ rfl, by decide, by decide⟩,
    _, @Runs.steps_run _ _ (step .ok) _ _ _ rfl, by decide⟩

end Reading

end Reader

end Pohunek.Control

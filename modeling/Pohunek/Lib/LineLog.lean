/-
# Logs of one record a line

A log is a sequence of encoded records, each ended by a separator. It is read
back line by line: blank lines are skipped, a line that parses is applied,
and a last line without its separator may be the start of a record that was
not written to its end. `Format` is how records are written and read,
`Format.scan` the reader, `Format.Lawful` what is asked of an encoding.

Apart from records, a text of whole lines is read back line by line
(`lines_unlines`).

A log of whole records reads as the fold of its records
(`Format.Lawful.scan_records`). A torn last record reads as nothing, or as
itself when only its separator is missing (`Format.Lawful.scan_torn`). A
record written behind a torn one makes one line of both, which is refused
(`Format.Lawful.scan_glued`).
-/
import Mathlib.Tactic

namespace LineLog

open List

variable {α β σ : Type*}

/-! ### Lines -/

/-- The lines of a text, each with whether its separator is there. -/
def split [DecidableEq α] (sep : α) : List α → List (List α × Bool)
  | [] => []
  | x :: xs =>
    if x = sep then ([], true) :: split sep xs
    else
      match split sep xs with
      | [] => [([x], false)]
      | (line, terminated) :: rest => (x :: line, terminated) :: rest

variable {sep : α}

theorem split_line [DecidableEq α] (t : List α) : ∀ {line : List α}, sep ∉ line →
    split sep (line ++ sep :: t) = (line, true) :: split sep t
  | [], _ => by simp [split]
  | x :: line, h => by
    have hx : x ≠ sep := fun e => h (e ▸ mem_cons_self)
    have hl : sep ∉ line := fun hm => h (mem_cons_of_mem _ hm)
    rw [cons_append, split, if_neg hx, split_line t hl]

theorem split_open [DecidableEq α] : ∀ {line : List α}, sep ∉ line → line ≠ [] →
    split sep line = [(line, false)]
  | [x], h, _ => by
    have hx : x ≠ sep := fun e => h (e ▸ mem_cons_self)
    rw [split, if_neg hx]
    rfl
  | x :: y :: line, h, _ => by
    have hx : x ≠ sep := fun e => h (e ▸ mem_cons_self)
    have hl : sep ∉ y :: line := fun hm => h (mem_cons_of_mem _ hm)
    rw [split, if_neg hx, split_open hl (by simp)]

theorem sep_notMem_split [DecidableEq α] : ∀ (text : List α), ∀ line ∈ split sep text, sep ∉ line.1
  | [], line, h => by simp [split] at h
  | x :: xs, line, h => by
    have ih : ∀ line ∈ split sep xs, sep ∉ line.1 := sep_notMem_split xs
    rw [split] at h
    split at h
    · rcases mem_cons.mp h with rfl | h
      · simp
      · exact ih line h
    · rename_i hx
      cases hs : split sep xs with
      | nil =>
        rw [hs] at h
        rw [mem_singleton.mp h]
        simpa using Ne.symm hx
      | cons first rest =>
        rw [hs] at h ih
        rcases mem_cons.mp h with rfl | h
        · have hfirst := ih first mem_cons_self
          simpa [Ne.symm hx] using hfirst
        · exact ih line (mem_cons_of_mem _ h)

/-- A text that starts with part of a line has a first line that starts with
it; a first line without its separator is the only one. -/
theorem split_open_append [DecidableEq α] {part : List α} (hpart : sep ∉ part) (hne : part ≠ [])
    (t : List α) :
    ∃ more terminated rest, split sep (part ++ t) = (part ++ more, terminated) :: rest ∧
      (terminated = false → rest = []) := by
  by_cases ht : sep ∈ t
  · obtain ⟨front, back, rfl, hfront⟩ := eq_append_cons_of_mem ht
    refine ⟨front, true, split sep back, ?_, nofun⟩
    rw [← append_assoc]
    exact split_line back (by simp [hpart, hfront])
  · exact ⟨t, false, [], split_open (by simp [hpart, ht]) (by simp [hne]), fun _ => rfl⟩

/-- What stands before the first separator. -/
theorem takeWhile_ne_sep [DecidableEq α] (sep : α) :
    ∀ text : List α, sep ∉ text.takeWhile (· ≠ sep) ∧
    ((text.takeWhile (· ≠ sep)).length < text.length →
      text = text.takeWhile (· ≠ sep) ++ sep :: text.drop ((text.takeWhile (· ≠ sep)).length + 1)) ∧
    (¬ (text.takeWhile (· ≠ sep)).length < text.length → text.takeWhile (· ≠ sep) = text)
  | [] => by simp
  | x :: xs => by
    by_cases hx : x = sep
    · subst hx
      simp
    · have ih := takeWhile_ne_sep sep xs
      have htake : (x :: xs).takeWhile (· ≠ sep) = x :: xs.takeWhile (· ≠ sep) := by simp [hx]
      rw [htake]
      refine ⟨by simpa [Ne.symm hx] using ih.1, fun hlt => ?_, fun hnot => ?_⟩
      · have hlt' : (xs.takeWhile (· ≠ sep)).length < xs.length := by simpa using hlt
        simpa using ih.2.1 hlt'
      · have hnot' : ¬ (xs.takeWhile (· ≠ sep)).length < xs.length := by simpa using hnot
        rw [ih.2.2 hnot']

/-! ### Texts of whole lines -/

/-- The text of whole lines. -/
def unlines (sep : α) (ls : List (List α)) : List α := ls.flatMap fun line => line ++ [sep]

@[simp] theorem unlines_nil : unlines sep [] = [] := rfl

@[simp] theorem unlines_cons (line : List α) (ls : List (List α)) :
    unlines sep (line :: ls) = line ++ sep :: unlines sep ls := by
  simp [unlines]

theorem unlines_append (as bs : List (List α)) :
    unlines sep (as ++ bs) = unlines sep as ++ unlines sep bs := by
  simp [unlines]

/-- Whole lines in front of a text are its first lines. -/
theorem split_unlines_append [DecidableEq α] (t : List α) : ∀ {ls : List (List α)},
    (∀ line ∈ ls, sep ∉ line) → split sep (unlines sep ls ++ t) = ls.map (·, true) ++ split sep t
  | [], _ => rfl
  | line :: ls, h => by
    rw [unlines_cons, append_assoc, cons_append, split_line _ (h line mem_cons_self),
      split_unlines_append t fun l hl => h l (mem_cons_of_mem _ hl)]
    rfl

section Text

variable [DecidableEq α] (sep ret : α)

/-- The line without one trailing `ret`. -/
def chomp (line : List α) : List α := if line.getLast? = some ret then line.dropLast else line

/-- The lines of a text that is ended by `sep` or by `ret` and `sep`; a last
line without `sep` stands as it is. -/
def lines (text : List α) : List (List α) :=
  (split sep text).map fun line => if line.2 then chomp ret line.1 else line.1

variable {sep ret}

/-- **Whole lines are read back**, each without a trailing `ret`. -/
theorem lines_unlines : ∀ {ls : List (List α)}, (∀ line ∈ ls, sep ∉ line) →
    lines sep ret (unlines sep ls) = ls.map (chomp ret)
  | [], _ => rfl
  | line :: ls, h => by
    have hline : sep ∉ line := h line mem_cons_self
    have hls : ∀ l ∈ ls, sep ∉ l := fun l hl => h l (mem_cons_of_mem _ hl)
    have ih : lines sep ret (unlines sep ls) = ls.map (chomp ret) := lines_unlines hls
    rw [unlines_cons, lines, split_line _ hline, map_cons, map_cons]
    exact congrArg (chomp ret line :: ·) ih

variable {line : List α}

theorem mem_of_mem_chomp {x : α} (h : x ∈ chomp ret line) : x ∈ line := by
  unfold chomp at h
  split at h
  · exact dropLast_subset _ h
  · exact h

theorem sep_notMem_lines {text : List α} (h : line ∈ lines sep ret text) : sep ∉ line := by
  obtain ⟨⟨raw, terminated⟩, hraw, rfl⟩ := mem_map.mp h
  have hsep := sep_notMem_split text _ hraw
  cases terminated with
  | false => exact hsep
  | true => exact fun hm => hsep (mem_of_mem_chomp hm)

theorem chomp_of_getLast? (h : line.getLast? ≠ some ret) : chomp ret line = line := if_neg h

theorem chomp_append (line : List α) : chomp ret (line ++ [ret]) = line := by
  simp [chomp]

end Text

/-! ### Records -/

/-- What parsing one line gives: a record, the end of the text in the middle
of one, or an error in the text. -/
inductive Parsed (β : Type*)
  | ok (b : β)
  | eof (message : String)
  | invalid (message : String)

/-- How records are written on lines and read from them. `clean` is what is
taken off a line before it is looked at, `blank` the lines that are skipped. -/
structure Format (α β : Type*) where
  sep : α
  clean : List α → List α
  blank : List α → Bool
  encode : β → List α
  parse : List α → Parsed β

namespace Format

variable (F : Format α β)

/-- One record, as it is appended. -/
def line (b : β) : List α := F.encode b ++ [F.sep]

/-- A log of whole records. -/
def render (bs : List β) : List α := bs.flatMap F.line

theorem render_append (as bs : List β) : F.render (as ++ bs) = F.render as ++ F.render bs := by
  simp [render]

theorem render_single (b : β) : F.render [b] = F.line b := by simp [render]

/-- Reads lines from the `n`-th on; an error names its line. -/
def scan (step : σ → β → σ) : ℕ → σ → List (List α × Bool) → Except (ℕ × String) σ
  | _, s, [] => .ok s
  | n, s, (raw, terminated) :: rest =>
    if F.blank (F.clean raw) then scan step (n + 1) s rest
    else
      match F.parse (F.clean raw) with
      | .ok b => scan step (n + 1) (step s b) rest
      | .eof message => if terminated then .error (n, message) else scan step (n + 1) s rest
      | .invalid message => .error (n, message)

/-- What every record keeps, a scan keeps. -/
theorem scan_invariant {P : σ → Prop} {step : σ → β → σ}
    (hstep : ∀ s b, P s → P (step s b)) {s' : σ} :
    ∀ (lines : List (List α × Bool)) (n : ℕ) (s : σ), P s → F.scan step n s lines = .ok s' → P s'
  | [], _, s, hs, h => Except.ok.inj h ▸ hs
  | (raw, terminated) :: rest, n, s, hs, h => by
    rw [scan] at h
    split at h
    · exact scan_invariant hstep rest (n + 1) s hs h
    · split at h
      · exact scan_invariant hstep rest (n + 1) _ (hstep s _ hs) h
      · split at h
        · cases h
        · exact scan_invariant hstep rest (n + 1) s hs h
      · cases h

/-- What is asked of the encoding of the records in `A`. -/
structure Lawful (A : β → Prop) : Prop where
  oneLine : ∀ b, A b → F.sep ∉ F.encode b
  nonempty : ∀ b, A b → F.encode b ≠ []
  clean : ∀ b, A b → ∀ p, p <+: F.encode b → F.clean p = p
  visible : ∀ b, A b → ∀ p, p <+: F.encode b → p ≠ [] → F.blank p = false
  roundTrip : ∀ b, A b → F.parse (F.encode b) = .ok b
  torn : ∀ b, A b → ∀ p, p <+: F.encode b → p ≠ [] → p ≠ F.encode b → ∃ m, F.parse p = .eof m
  glued : ∀ a b, A a → A b → ∀ p, p <+: F.encode a → p ≠ [] →
    F.blank (F.clean (p ++ F.encode b)) = false ∧ ∀ c, F.parse (F.clean (p ++ F.encode b)) ≠ .ok c

variable {F} [DecidableEq α] {A : β → Prop} (hF : F.Lawful A) (step : σ → β → σ)

include hF

/-- **Whole records at the start of a log read as their fold.** -/
theorem Lawful.scan_records (t : List α) : ∀ (bs : List β) (n : ℕ) (s : σ), (∀ b ∈ bs, A b) →
    F.scan step n s (split F.sep (F.render bs ++ t)) =
      F.scan step (n + bs.length) (bs.foldl step s) (split F.sep t)
  | [], n, s, _ => by simp [render]
  | b :: bs, n, s, h => by
    have hb : A b := h b mem_cons_self
    have hbs : ∀ c ∈ bs, A c := fun c hc => h c (mem_cons_of_mem _ hc)
    have hself : F.encode b <+: F.encode b := prefix_refl _
    have hcut : F.render (b :: bs) ++ t = F.encode b ++ F.sep :: (F.render bs ++ t) := by
      simp [render, line]
    rw [hcut, split_line _ (hF.oneLine b hb), scan, hF.clean b hb _ hself,
      hF.visible b hb _ hself (hF.nonempty b hb), hF.roundTrip b hb]
    simp only [Bool.false_eq_true, if_false]
    rw [scan_records t bs (n + 1) (step s b) hbs, foldl_cons, length_cons]
    congr 1
    omega

/-- **A torn last record** reads as nothing, or as the record when only its
separator is missing. -/
theorem Lawful.scan_torn {b : β} (hb : A b) {p : List α} (hp : p <+: F.encode b) (n : ℕ) (s : σ) :
    F.scan step n s (split F.sep p) = .ok (if p = F.encode b then step s b else s) := by
  by_cases hnil : p = []
  · subst hnil
    rw [if_neg (fun h => hF.nonempty b hb h.symm)]
    rfl
  · have hsep : F.sep ∉ p := fun h => hF.oneLine b hb (hp.subset h)
    rw [split_open hsep hnil, scan, hF.clean b hb p hp, hF.visible b hb p hp hnil]
    by_cases hwhole : p = F.encode b
    · rw [if_pos hwhole, hwhole, hF.roundTrip b hb]
      rfl
    · obtain ⟨m, hm⟩ := hF.torn b hb p hp hnil hwhole
      rw [if_neg hwhole, hm]
      rfl

/-- **A record written behind a torn one** makes a line that is refused. -/
theorem Lawful.scan_glued {a b : β} (ha : A a) (hb : A b) {p : List α} (hp : p <+: F.encode a)
    (hne : p ≠ []) (t : List α) (n : ℕ) (s : σ) :
    ∃ m, F.scan step n s (split F.sep (p ++ F.line b ++ t)) = .error (n, m) := by
  obtain ⟨hblank, hparse⟩ := hF.glued a b ha hb p hp hne
  have hsep : F.sep ∉ p ++ F.encode b := by
    intro h
    rcases mem_append.mp h with h | h
    · exact hF.oneLine a ha (hp.subset h)
    · exact hF.oneLine b hb h
  have hcut : p ++ F.line b ++ t = (p ++ F.encode b) ++ F.sep :: t := by simp [line]
  rw [hcut, split_line _ hsep, scan, hblank]
  cases hr : F.parse (F.clean (p ++ F.encode b)) with
  | ok c => exact absurd hr (hparse c)
  | eof m => exact ⟨m, rfl⟩
  | invalid m => exact ⟨m, rfl⟩

end Format
end LineLog

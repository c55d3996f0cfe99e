/-
# The list in time

A list is ordered by the texts of the creation times. `timestamp_now` writes an
instant in UTC without the trailing zeros of its fraction, so within one second
the texts differ in length, and the final `Z` is greater than a point or a
digit. Where the digits of one instant start those of another the earlier one
has the greater text, and the list shows it first (`list_not_chronological`).
Between any two other instants the texts are ordered as the instants are, so a
list is chronological if and only if it has no such two (`list_chronological`).
-/
import Mathlib.Data.List.DropRight
import Mathlib.Data.String.Basic
import Pohunek.Notifications.Listing

namespace Pohunek.Notifications

open List

open Runs (Label)
open NotificationRecord (place)

/-! ### Instants and their texts -/

/-- The fields of a date and time, with what is written before each and its width. -/
def layout : List (List Char × ℕ) :=
  [([], 4), (['-'], 2), (['-'], 2), (['T'], 2), ([':'], 2), ([':'], 2)]

/-- An instant in UTC: year, month, day, hour, minute and second, which are
compared in this order, and the nanosecond. A year of more than four digits
is none the formatter takes. -/
structure Instant where
  civil : List ℕ
  nanosecond : ℕ
  fits : List.Forall₂ (fun n field => n < 10 ^ field.2) civil layout
  subsecond : nanosecond < 10 ^ 9

def Instant.Before (a b : Instant) : Prop :=
  a.civil < b.civil ∨ a.civil = b.civil ∧ a.nanosecond < b.nanosecond

/-- A number of a given width. -/
def padded : ℕ → ℕ → List Char
  | 0, _ => []
  | w + 1, n => padded w (n / 10) ++ [Nat.digitChar (n % 10)]

def render : List (List Char × ℕ) → List ℕ → List Char
  | (before, w) :: fields, n :: ns => before ++ padded w n ++ render fields ns
  | _, _ => []

/-- The digits of the fraction, without trailing zeros. -/
def Instant.digits (a : Instant) : List Char := (padded 9 a.nanosecond).rdropWhile (· = '0')

/-- `timestamp_now`, at an instant. -/
def Instant.timestamp (a : Instant) : String :=
  .ofList (render layout a.civil ++ (if a.nanosecond = 0 then [] else '.' :: a.digits) ++ ['Z'])

/-- The digits of neither start those of the other, unless the instants are of
different seconds or the same. -/
def Instant.Clear (a b : Instant) : Prop :=
  a.civil = b.civil → a.nanosecond ≠ b.nanosecond → ¬ a.digits <+: b.digits ∧
    ¬ b.digits <+: a.digits

instance (a b : Instant) : Decidable (a.Clear b) := inferInstanceAs (Decidable (_ → _ → _))

theorem padded_lt {w a b : ℕ} (h : a < b) (hb : b < 10 ^ w) (x y : List Char) :
    padded w a ++ x < padded w b ++ y := by
  induction w generalizing a b x y with
  | zero => simp at hb; omega
  | succ w ih =>
    have hdigit : ∀ m < 10, ∀ n < 10, m < n → Nat.digitChar m < Nat.digitChar n := by decide
    simp only [padded, append_assoc, singleton_append]
    by_cases hsame : a / 10 = b / 10
    · rw [hsame]
      apply append_left_lt
      exact .rel (hdigit _ (by omega) _ (by omega) (by omega))
    · exact ih (by omega) (by rw [pow_succ] at hb; omega) _ _

variable {fields : List (List Char × ℕ)}

theorem render_lt {xs ys : List ℕ}
    (hxs : List.Forall₂ (fun n field => n < 10 ^ field.2) xs fields)
    (hys : List.Forall₂ (fun n field => n < 10 ^ field.2) ys fields) (h : xs < ys)
    (u v : List Char) : render fields xs ++ u < render fields ys ++ v := by
  induction hxs generalizing ys with
  | nil =>
    cases hys
    exact absurd h (not_lt_nil _)
  | @cons x field xs fields hx _ ih =>
    obtain _ | ⟨hy, hys⟩ := hys
    simp only [render, append_assoc]
    apply append_left_lt
    rcases cons_lt_cons_iff.mp h with hlt | ⟨rfl, hlt⟩
    · exact padded_lt hlt hy _ _
    · exact append_left_lt (ih hys hlt)

/-- Where neither list starts the other the first difference decides. -/
theorem lt_of_not_start : ∀ {a b p q : List Char}, a ++ p < b ++ q → ¬ a <+: b → ¬ b <+: a → ∀ u v,
    a ++ u < b ++ v
  | [], b, _, _, _, h, _, _, _ => absurd nil_prefix h
  | a, [], _, _, _, _, h, _, _ => absurd nil_prefix h
  | x :: a, y :: b, p, q, hlt, hab, hba, u, v => by
    rcases cons_lt_cons_iff.mp hlt with hxy | ⟨rfl, htail⟩
    · exact .rel hxy
    · have hrest := lt_of_not_start (a := a) (b := b) htail (mt (prefix_cons_inj x).mpr hab)
        (mt (prefix_cons_inj x).mpr hba) u v
      exact .cons hrest

theorem Instant.digits_start (a : Instant) : a.digits <+: padded 9 a.nanosecond :=
  rdropWhile_prefix _ _

variable {a b : Instant}

theorem Instant.timestamp_lt (h : a.Before b) (hclear : a.Clear b) : a.timestamp < b.timestamp := by
  rw [String.lt_iff_toList_lt]
  simp only [timestamp, String.toList_ofList, append_assoc]
  rcases h with h | ⟨hcivil, hlt⟩
  · exact render_lt a.fits b.fits h _ _
  · obtain ⟨hab, hba⟩ := hclear hcivil hlt.ne
    have hpoint : a.nanosecond ≠ 0 := by
      intro hzero
      have hnil : a.digits = [] := by rw [digits, hzero]; decide
      exact hab (hnil ▸ nil_prefix)
    obtain ⟨p, hp⟩ := a.digits_start
    obtain ⟨q, hq⟩ := b.digits_start
    have hpadded : a.digits ++ p < b.digits ++ q := by
      rw [hp, hq]
      simpa using padded_lt hlt b.subsecond [] []
    rw [hcivil, if_neg hpoint, if_neg (by omega)]
    apply append_left_lt
    exact .cons (lt_of_not_start hpadded hab hba _ _)

theorem mem_padded {c : Char} {w n : ℕ} (h : c ∈ padded w n) : '0' ≤ c ∧ c < 'Z' := by
  have hdigit : ∀ m < 10, '0' ≤ Nat.digitChar m ∧ Nat.digitChar m < 'Z' := by decide
  induction w generalizing n with
  | zero => cases h
  | succ w ih =>
    rcases mem_append.mp h with h | h
    · exact ih h
    · exact mem_singleton.mp h ▸ hdigit _ (Nat.mod_lt n (by omega))

theorem padded_length (w n : ℕ) : (padded w n).length = w := by
  induction w generalizing n with
  | zero => rfl
  | succ w ih => simp [padded, ih]

theorem zeros_le : ∀ {zs t : List Char}, zs.length = t.length → (∀ z ∈ zs, z = '0') →
    (∀ c ∈ t, '0' ≤ c) → zs ≤ t
  | [], [], _, _, _ => le_rfl
  | z :: zs, c :: t, hlen, hz, ht => by
    have hrest := zeros_le (Nat.succ.inj hlen) (fun z h => hz z (mem_cons_of_mem _ h)) fun c h =>
      ht c (mem_cons_of_mem _ h)
    rw [← not_lt, cons_lt_cons_iff, not_or, hz z mem_cons_self]
    exact ⟨not_lt.mpr (ht c mem_cons_self), fun h => not_lt.mpr hrest h.2⟩

/-- Digits that start others are of a nanosecond that is no later. -/
theorem Instant.le_of_start (h : a.digits <+: b.digits) : a.nanosecond ≤ b.nanosecond := by
  by_contra hlt
  have hpadded := padded_lt (Nat.not_le.mp hlt) a.subsecond [] []
  obtain ⟨t, ht⟩ := h.trans b.digits_start
  have hsplit : a.digits ++ _ = padded 9 a.nanosecond := rdropWhile_append_rtakeWhile
  have hle : (padded 9 a.nanosecond).rtakeWhile (· = '0') ≤ t := by
    refine zeros_le ?_ (fun z hz => by simpa using mem_rtakeWhile_imp hz) fun c hc => ?_
    · have hlen := congrArg length ht
      rw [padded_length, ← padded_length 9 a.nanosecond, ← hsplit, length_append,
        length_append] at hlen
      omega
    · exact (mem_padded (ht ▸ mem_append_right _ hc)).1
  rw [append_nil, append_nil, ← ht, ← hsplit] at hpadded
  rcases hle.lt_or_eq with hlt | heq
  · exact lt_asymm hpadded (append_left_lt hlt)
  · exact lt_irrefl _ (heq ▸ hpadded)

/-- Two instants that are not clear: the earlier one has the greater text. -/
theorem Instant.timestamp_gt (h : a.Before b) (hclear : ¬ a.Clear b) :
    b.timestamp < a.timestamp := by
  simp only [Clear, not_forall, not_and_or, not_not] at hclear
  obtain ⟨hcivil, hne, hstart⟩ := hclear
  have hlt : a.nanosecond < b.nanosecond := (h.resolve_left (hcivil ▸ lt_irrefl _)).2
  have hnot : ¬ b.digits <+: a.digits := fun hba => Nat.not_lt.mpr (le_of_start hba) hlt
  obtain ⟨t, ht⟩ := hstart.resolve_right hnot
  rw [String.lt_iff_toList_lt]
  simp only [timestamp, String.toList_ofList, append_assoc, hcivil]
  apply append_left_lt
  rw [if_neg (show b.nanosecond ≠ 0 by omega)]
  split
  · exact .rel (by decide)
  · cases t with
    | nil => exact absurd (append_nil a.digits ▸ ht ▸ prefix_rfl) hnot
    | cons c t =>
      have hc : c ∈ b.digits := ht ▸ mem_append_right _ mem_cons_self
      rw [← ht, cons_append, cons_append, append_assoc]
      exact .cons (append_left_lt (.rel (mem_padded (b.digits_start.subset hc)).2))

/-- Of two texts in the order of the list. -/
theorem Instant.not_before_iff (h : b.timestamp ≤ a.timestamp) : ¬ a.Before b ↔ a.Clear b := by
  constructor
  · intro hnot hcivil hne
    have hbefore : b.Before a :=
      .inr ⟨hcivil.symm, by_contra fun hlt => hnot (.inr ⟨hcivil, by omega⟩)⟩
    have hclear : b.Clear a := by_contra fun hclear => not_lt.mpr h (timestamp_gt hbefore hclear)
    exact (hclear hcivil.symm hne.symm).symm
  · exact fun hclear hbefore => not_lt.mpr h (timestamp_lt hbefore hclear)

theorem padded_plain (w n : ℕ) : '|' ∉ padded w n := fun h => absurd (mem_padded h).2 (by decide)

theorem render_plain (h : ∀ field ∈ fields, '|' ∉ field.1) (ns : List ℕ) :
    '|' ∉ render fields ns := by
  fun_induction render fields ns with
  | case1 before w fields n ns ih =>
    have hbefore : '|' ∉ before := h (before, w) mem_cons_self
    simp [hbefore, padded_plain, ih fun field hfield => h field (mem_cons_of_mem _ hfield)]
  | case2 => simp

/-- A time holds no separator of a cursor. -/
theorem Instant.timestamp_plain (a : Instant) : '|' ∉ a.timestamp.toList := by
  have hdigits : '|' ∉ a.digits := fun h => padded_plain _ _ (a.digits_start.subset h)
  have hcivil : '|' ∉ render layout a.civil := render_plain (by decide) a.civil
  simp only [timestamp, String.toList_ofList, mem_append, hcivil, false_or]
  split <;> simp [hdigits]

/-! ### Page after page -/

theorem listedBefore_of_lt {a b : NotificationRecord} (h : Cursor.lt a.place b.place) :
    listedBefore a b := by
  rcases h with h | ⟨heq, hid⟩
  · exact .inl h
  · exact .inr ⟨heq.symm, le_of_lt hid⟩

section

variable {J : Json} {E : Rfc3339} {params : NotificationListParams} {s t : Store}
    {visits : List Visit}
  {tr : List (Label Call Result)} {position : Option (Option String)}

/-- A page is a first part of what comes after its cursor, and the next cursor
is of its last record. -/
theorem listPage_start (selected : List NotificationRecord) (cursor : Option Cursor)
    (limit : Option ℕ) :
    (∃ more, Keyset.rest place Cursor.lt cursor (selected.insertionSort listedBefore) =
      (listPage selected cursor limit).notifications ++ more) ∧
    ∀ text, (listPage selected cursor limit).nextCursor = some text → ∃ front last,
      (listPage selected cursor limit).notifications = front ++ [last] ∧
      text = encodeCursor last := by
  rw [listPage_eq]
  by_cases hlimit : limit = some 0
  · simp [Keyset.page, Keyset.next, hlimit]
  · obtain ⟨more, hrest, hnext⟩ :=
      Keyset.page_append place Cursor.lt cursor (selected.insertionSort listedBefore) hlimit
    refine ⟨⟨more, hrest⟩, fun text htext => ?_⟩
    rcases hnext with ⟨hnone, -⟩ | ⟨front, last, hpage, hlast⟩
    · simp [hnone] at htext
    · simp only [hlast, Option.map_some, Option.some.injEq] at htext
      exact ⟨front, last, hpage, htext.symm⟩

/-- What was returned so far is in order, and a cursor is of its last record. -/
structure Descending (returned : List NotificationRecord)
    (position : Option (Option String)) : Prop where
  ordered : returned.Pairwise listedBefore
  start : position = some none → returned = []
  last : ∀ text, position = some (some text) → ∃ last ∈ returned, text = encodeCursor last ∧
    ∀ r ∈ returned, listedBefore r last

theorem Descending.page {returned page : List NotificationRecord} {cursor nextCursor : Option String}
    (h : Descending returned (some cursor)) (hplain : ∀ r ∈ returned, '|' ∉ r.createdAt.toList)
    (hpage : t.list E { params with cursor := cursor } = .ok ⟨page, nextCursor⟩) :
    Descending (returned ++ page) (nextCursor.map some) := by
  obtain ⟨_, -, hpage⟩ := Fallible.bind_ok_iff.mp hpage
  obtain ⟨_, -, hpage⟩ := Fallible.bind_ok_iff.mp hpage
  obtain ⟨_, -, hpage⟩ := Fallible.bind_ok_iff.mp hpage
  obtain ⟨after, hafter, hpage⟩ := Fallible.bind_ok_iff.mp hpage
  obtain ⟨⟨more, hrest⟩, hnext⟩ := listPage_start _ after params.limit
  rw [show listPage _ after params.limit = ⟨page, nextCursor⟩ from Except.ok.inj hpage] at hrest hnext
  have hordered : page.Pairwise listedBefore :=
    ((pairwise_insertionSort listedBefore _).sublist Keyset.rest_sublist).sublist
      (hrest ▸ sublist_append_left page more)
  -- a page begins after the last record before it
  have hcross : ∀ r ∈ returned, ∀ r' ∈ page, listedBefore r r' := by
    intro r hr r' hr'
    cases cursor with
    | none => simp [h.start rfl] at hr
    | some text =>
      obtain ⟨last, hlast, rfl, hall⟩ := h.last text rfl
      have hparsed : after = some (place last) := by
        have hsplit : splitOnce '|' (encodeCursor last) = some (last.createdAt, last.id) :=
          splitOnce_append (hplain last hlast)
        simp only [parseOptional, parseCursor, hsplit] at hafter
        cases htime : parseTimestamp E last.createdAt with
        | error e => simp [htime, bind, Except.bind, Except.map] at hafter
        | ok instant =>
          by_cases hid : last.id = ""
          · simp [htime, hid, bind, Except.bind, Except.map, throw, throwThe,
              MonadExceptOf.throw] at hafter
          · simp [htime, hid, bind, Except.bind, Except.map, pure, Except.pure] at hafter
            exact hafter.symm
      have hmem : r' ∈ Keyset.rest place Cursor.lt after _ := hrest ▸ mem_append_left more hr'
      have hlt := (Keyset.mem_rest.mp hmem).2 _ hparsed
      exact IsTrans.trans _ _ _ (hall r hr) (listedBefore_of_lt hlt)
  refine ⟨pairwise_append.mpr ⟨h.ordered, hordered, hcross⟩, by simp, fun text htext => ?_⟩
  obtain ⟨front, last, rfl, rfl⟩ := hnext text (by simpa using htext)
  refine ⟨last, by simp, rfl, fun r hr => ?_⟩
  rcases mem_append.mp hr with hr | hr
  · exact hcross r hr last (by simp)
  · rcases mem_append.mp hr with hr | hr
    · exact (pairwise_append.mp hordered).2.2 r hr last (by simp)
    · obtain rfl := mem_singleton.mp hr
      exact .inr ⟨rfl, le_rfl⟩

theorem Traversal.descending (h : Traversal J E params s visits tr t position)
    (hplain : ∀ r ∈ returnedRecords visits, '|' ∉ r.createdAt.toList) :
    Descending (returnedRecords visits) position := by
  induction h with
  | start => exact ⟨.nil, fun _ => rfl, nofun⟩
  | other _ _ ih => exact ih hplain
  | page _ hpage ih =>
    simp only [returnedRecords, flatMap_append, flatMap_singleton, mem_append] at hplain ⊢
    exact (ih fun r hr => hplain r (.inl hr)).page (fun r hr => hplain r (.inl hr)) hpage

/-- **The list is chronological** if and only if, of the creation times in one
second that it returns, no one's digits start another's: within a page and from
page to page, also while others change the store. -/
theorem list_chronological (h : Traversal J E params s visits tr t position)
    (time : NotificationRecord → Instant)
    (htimes : ∀ r ∈ returnedRecords visits, r.createdAt = (time r).timestamp) :
    ((returnedRecords visits).Pairwise fun r r' => ¬ (time r).Before (time r')) ↔
      ∀ r ∈ returnedRecords visits, ∀ r' ∈ returnedRecords visits, (time r).Clear (time r') := by
  have hplain : ∀ r ∈ returnedRecords visits, '|' ∉ r.createdAt.toList := by
    intro r hr
    rw [htimes r hr]
    exact (time r).timestamp_plain
  have hordered := (h.descending hplain).ordered
  have hiff : ∀ {r r'}, r ∈ returnedRecords visits → r' ∈ returnedRecords visits →
      listedBefore r r' → (¬ (time r).Before (time r') ↔ (time r).Clear (time r')) := by
    intro r r' hr hr' hlisted
    apply Instant.not_before_iff
    rw [← htimes r hr, ← htimes r' hr']
    exact hlisted.elim le_of_lt fun heq => heq.1.ge
  have : Std.Symm fun r r' => (time r).Clear (time r') :=
    ⟨fun _ _ h hcivil hne => (h hcivil.symm hne.symm).symm⟩
  constructor
  · intro hsorted r hr r' hr'
    have hclear := (hordered.and hsorted).imp_of_mem fun hr hr' h => (hiff hr hr' h.1).mp h.2
    exact hclear.forall_of_forall (fun r _ _ hne => absurd rfl hne) hr hr'
  · exact fun hclear => hordered.imp_of_mem fun hr hr' h => (hiff hr hr' h).mpr (hclear _ hr _ hr')

end

/-- A nanosecond of the first second of 2026. -/
def sampleInstant (nanosecond : ℕ) (h : nanosecond < 10 ^ 9) : Instant :=
  ⟨[2026, 1, 1, 0, 0, 0], nanosecond, by simp [layout], h⟩

def sampleClock : Rfc3339 where
  parse s := [("2026-01-01T00:00:00Z", 1767225600000000000),
    ("2026-01-01T00:00:00.06Z", 1767225600060000000),
    ("2026-01-01T00:00:00.5Z", 1767225600500000000)].lookup s

/-- A record of each of two instants, created through the store. -/
def sampleAt (id : String) (a : Instant) : NotificationRecord :=
  { sampleRecord id with createdAt := a.timestamp }

def sampleStore (a b : Instant) : Store :=
  ((Store.«open» sampleJson sampleDir).execAll sampleJson sampleClock
    [⟨.createOrDedupe (sampleAt "n1" a) 0 0, []⟩, ⟨.createOrDedupe (sampleAt "n2" b) 0 0, []⟩]).1

theorem list_chronological_sample :
    let a := sampleInstant 500000000 (by decide)
    let b := sampleInstant 60000000 (by decide)
    (sampleStore b a).list sampleClock {} = .ok ⟨[sampleAt "n2" a, sampleAt "n1" b], none⟩ ∧
    ¬ a.Before b := by
  intro a b
  have hlist : (sampleStore b a).list sampleClock {} =
    .ok ⟨[sampleAt "n2" a, sampleAt "n1" b], none⟩ := by
    decide +kernel
  have hstart : Traversal sampleJson sampleClock {} (sampleStore b a) [] [] _ (some none) := .start
  have hsorted := (list_chronological (hstart.page hlist) (fun r => if r.id = "n1" then b else a)
    (by decide +kernel)).mpr (by decide +kernel)
  exact ⟨hlist, by simpa [returnedRecords, sampleAt, sampleRecord] using hsorted⟩

/-- Half a second after the first record of its second, the second one is
listed behind it. -/
theorem list_not_chronological :
    let a := sampleInstant 0 (by decide)
    let b := sampleInstant 500000000 (by decide)
    a.Before b ∧ (sampleStore a b).list sampleClock {} =
    .ok ⟨[sampleAt "n1" a, sampleAt "n2" b], none⟩ :=
  ⟨.inr ⟨rfl, by decide⟩, by decide +kernel⟩

end Pohunek.Notifications

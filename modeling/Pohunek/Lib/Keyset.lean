/-
# Keyset pagination

A collection is listed in pages while it changes: a page holds the first items
after a position in the order of their keys, and the next position is the key
of the page's last item. Whatever the collection holds at each page, the keys
returned are increasing, and a key the collection holds at every page is
returned (`Seen.page`). Only the order of the keys matters: the item whose key
is the position may be gone by the next page.
-/
import Mathlib.Tactic

namespace Keyset

open List

variable {α κ : Type*} (key : α → κ) (lt : κ → κ → Prop) [DecidableRel lt]

/-- The items after a position. -/
def rest (after : Option κ) (sorted : List α) : List α :=
  match after with
  | none => sorted
  | some a => sorted.filter fun x => lt a (key x)

def page (limit : Option ℕ) (after : Option κ) (sorted : List α) : List α :=
  match limit with
  | none => rest key lt after sorted
  | some n => (rest key lt after sorted).take n

/-- The position of the next page, if there is one. -/
def next (limit : Option ℕ) (after : Option κ) (sorted : List α) : Option κ :=
  match limit with
  | none => none
  | some n =>
    if n < (rest key lt after sorted).length ∧
      0 < n then (rest key lt after sorted)[n - 1]?.map key else none

variable {key lt} {limit : Option ℕ} {after : Option κ} {sorted : List α}

theorem mem_rest {x : α} : x ∈ rest key lt after sorted ↔ x ∈ sorted ∧ ∀ a, after = some a →
    lt a (key x) := by
  unfold rest
  cases after with
  | none => simp
  | some a => simp

theorem rest_sublist : (rest key lt after sorted).Sublist sorted := by
  cases after with
  | none => exact List.Sublist.refl _
  | some a => exact filter_sublist

/-- A page is a first part of the items after the position; its last item is
the next position, and there is none when the page has them all. -/
theorem page_append (key : α → κ) (lt : κ → κ → Prop) [DecidableRel lt] (after : Option κ)
    (sorted : List α) (hlimit : limit ≠ some 0) : ∃ more,
    rest key lt after sorted = page key lt limit after sorted ++ more ∧
    ((next key lt limit after sorted = none ∧ more = []) ∨
      ∃ front x, page key lt limit after sorted = front ++ [x] ∧
      next key lt limit after sorted = some (key x)) := by
  unfold page next
  cases limit with
  | none => exact ⟨[], (append_nil _).symm, .inl ⟨rfl, rfl⟩⟩
  | some n =>
    have hpos : 0 < n := Nat.pos_of_ne_zero fun h0 => hlimit (by rw [h0])
    dsimp only
    generalize rest key lt after sorted = items
    refine ⟨items.drop n, (take_append_drop n items).symm, ?_⟩
    by_cases hn : n < items.length
    · refine .inr ⟨items.take (n - 1), items[n - 1], ?_, ?_⟩
      · have hlast : n - 1 < items.length := by omega
        have htake := take_succ_eq_append_getElem hlast
        rwa [Nat.sub_add_cancel hpos] at htake
      · rw [if_pos ⟨hn, hpos⟩, getElem?_eq_getElem (by omega)]
        rfl
    · exact .inl ⟨if_neg fun h => hn h.1, drop_eq_nil_of_le (by omega)⟩

/-! ### Following the positions -/

/-- The pages of `snapshots` returned `keys`, and the next page is asked for at
`position`: from the start, after a key, or not at all. -/
structure Seen (lt : κ → κ → Prop) (snapshots : List (List κ)) (keys : List κ)
    (position : Option (Option κ)) : Prop where
  sorted : keys.Pairwise lt
  start : position = some none → keys = []
  last : ∀ a, position = some (some a) → ∃ front, keys = front ++ [a]
  complete : ∀ k, (∀ snapshot ∈ snapshots, k ∈ snapshot) →
    k ∈ keys ∨ ∃ p, position = some p ∧ ∀ a, p = some a → lt a k

omit [DecidableRel lt] in
theorem Seen.nil : Seen lt [] [] (some none) where
  sorted := List.Pairwise.nil
  start _ := rfl
  last _ h := by cases h
  complete _ _ := .inr ⟨none, rfl, nofun⟩

variable {snapshots : List (List κ)}

/-- **The next page keeps the order and leaves nothing out.** -/
theorem Seen.page [IsTrans κ lt] {keys : List κ} (h : Seen lt snapshots keys (some after))
    (hsorted : sorted.Pairwise fun x y => lt (key x) (key y)) (hlimit : limit ≠ some 0) :
    Seen lt (snapshots ++ [sorted.map key])
    (keys ++ (Keyset.page key lt limit after sorted).map key)
      ((next key lt limit after sorted).map some) := by
  obtain ⟨more, hrest, hnext⟩ := page_append key lt after sorted hlimit
  have hitems : (rest key lt after sorted).Pairwise fun x y => lt (key x) (key y) :=
    hsorted.sublist rest_sublist
  rw [hrest, pairwise_append] at hitems
  obtain ⟨hpage, -, hmore⟩ := hitems
  have hafter : ∀ x ∈ Keyset.page key lt limit after sorted, ∀ k ∈ keys, lt k (key x) := by
    intro x hx k hk
    have hx' : x ∈ rest key lt after sorted := hrest ▸ mem_append_left more hx
    cases hposition : after with
    | none =>
      rw [h.start (by rw [hposition])] at hk
      cases hk
    | some a =>
      have hax : lt a (key x) := (mem_rest.mp hx').2 a hposition
      obtain ⟨front, rfl⟩ := h.last a (by rw [hposition])
      rcases mem_append.mp hk with hk | hk
      · exact IsTrans.trans _ _ _ ((pairwise_append.mp h.sorted).2.2 k hk a mem_cons_self) hax
      · obtain rfl := mem_singleton.mp hk
        exact hax
  refine ⟨?_, ?_, ?_, ?_⟩
  · refine pairwise_append.mpr ⟨h.sorted, pairwise_map.mpr hpage, fun k hk k' hk' => ?_⟩
    obtain ⟨x, hx, rfl⟩ := mem_map.mp hk'
    exact hafter x hx k hk
  · intro hposition
    cases hkey : next key lt limit after sorted <;> simp [hkey] at hposition
  · intro a ha
    rcases hnext with ⟨hnone, -⟩ | ⟨front, x, hfront, hkey⟩
    · rw [hnone] at ha
      cases ha
    · rw [hkey] at ha
      cases Option.some.inj ha
      exact ⟨keys ++ front.map key, by rw [hfront, map_append, append_assoc]; rfl⟩
  · intro k hk
    obtain ⟨x, hx, rfl⟩ := mem_map.mp (hk _ (mem_append_right _ mem_cons_self))
    rcases h.complete _ fun snapshot hs =>
      hk snapshot (mem_append_left _ hs) with hseen | ⟨p, hp, hpx⟩
    · exact .inl (mem_append_left _ hseen)
    · cases hp
      have hin : x ∈ rest key lt after sorted := mem_rest.mpr ⟨hx, hpx⟩
      rw [hrest] at hin
      rcases mem_append.mp hin with hin | hin
      · exact .inl (mem_append_right _ (mem_map_of_mem hin))
      · -- not on this page, so it comes after the page's last item
        rcases hnext with ⟨-, hall⟩ | ⟨front, y, hfront, hkey⟩
        · rw [hall] at hin
          cases hin
        · refine .inr ⟨some (key y), by rw [hkey]; rfl, fun a ha => ?_⟩
          cases ha
          exact hmore y (hfront ▸ mem_append_right front mem_cons_self) x hin

omit [DecidableRel lt] in
/-- Once there is no next page, a key every snapshot held was returned exactly
once. -/
theorem Seen.count_eq_one [DecidableEq κ] [Std.Irrefl lt] {keys : List κ}
    (h : Seen lt snapshots keys none) {k : κ} (hk : ∀ snapshot ∈ snapshots, k ∈ snapshot) :
    keys.count k = 1 := by
  have hnodup : keys.Nodup := by
    refine h.sorted.imp ?_
    rintro a _ hlt rfl
    exact irrefl_of lt a hlt
  rcases h.complete k hk with hmem | ⟨_, hnone, -⟩
  · exact count_eq_one_of_mem hnodup hmem
  · cases hnone

end Keyset

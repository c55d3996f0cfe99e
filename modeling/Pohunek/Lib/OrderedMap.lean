/-
# Maps with ordered keys

A map as the list of its entries by increasing key; the order is a field of
the type. `keepLast n` is what is left when entries are taken off the front
until at most `n` remain. Every operation is described by what `get` answers
afterwards.
-/
import Mathlib.Tactic

structure OrderedMap (κ ν : Type*) [LinearOrder κ] where
  entries : List (κ × ν)
  sorted : (entries.map Prod.fst).Pairwise (· < ·)

namespace OrderedMap

open List

variable {κ ν : Type*} [LinearOrder κ]

def empty : OrderedMap κ ν := ⟨[], .nil⟩

def get (m : OrderedMap κ ν) (k : κ) : Option ν := m.entries.lookup k

@[simp] theorem get_empty (k : κ) : (empty : OrderedMap κ ν).get k = none := rfl

variable {k : κ} {v : ν}

theorem lookup_eq_some_iff : ∀ {l : List (κ × ν)}, (l.map Prod.fst).Pairwise (· < ·) →
    (l.lookup k = some v ↔ (k, v) ∈ l)
  | [], _ => by simp
  | (a, w) :: l, h => by
    obtain ⟨hhead, htail⟩ := pairwise_cons.mp h
    rw [lookup_cons]
    by_cases hk : k = a
    · subst hk
      have habsent : (k, v) ∉ l := fun hmem =>
        (hhead k (mem_map.mpr ⟨_, hmem, rfl⟩)).false
      simp [habsent, eq_comm]
    · rw [beq_eq_false_iff_ne.mpr hk]
      simp [hk, lookup_eq_some_iff htail]

variable {m : OrderedMap κ ν}

theorem get_eq_some_iff : m.get k = some v ↔ (k, v) ∈ m.entries :=
  lookup_eq_some_iff m.sorted

/-! ### Changing values -/

def mapWithKey (f : κ → ν → ν) (m : OrderedMap κ ν) : OrderedMap κ ν where
  entries := m.entries.map fun e => (e.1, f e.1 e.2)
  sorted := by simpa [map_map, Function.comp_def] using m.sorted

@[simp] theorem get_mapWithKey (f : κ → ν → ν) (m : OrderedMap κ ν) (k : κ) :
    (m.mapWithKey f).get k = (m.get k).map (f k) := by
  show (m.entries.map fun e => (e.1, f e.1 e.2)).lookup k = (m.entries.lookup k).map (f k)
  induction m.entries with
  | nil => rfl
  | cons e l ih =>
    rw [map_cons, lookup_cons, lookup_cons, ih]
    by_cases hk : k = e.1
    · simp [hk]
    · rw [beq_eq_false_iff_ne.mpr hk]

/-- The value of one key is changed. -/
def modify (k : κ) (f : ν → ν) (m : OrderedMap κ ν) : OrderedMap κ ν :=
  m.mapWithKey fun k' v => if k' = k then f v else v

theorem get_modify_self (k : κ) (f : ν → ν) (m : OrderedMap κ ν) :
    (m.modify k f).get k = (m.get k).map f := by
  simp [modify]

theorem get_modify_of_ne {k' : κ} (hne : k' ≠ k) (f : ν → ν) (m : OrderedMap κ ν) :
    (m.modify k f).get k' = m.get k' := by
  simp [modify, hne]

/-! ### Adding and dropping entries -/

def insertEntry (k : κ) (v : ν) : List (κ × ν) → List (κ × ν)
  | [] => [(k, v)]
  | e :: l => if k < e.1 then (k, v) :: e :: l else if k = e.1 then (k, v) :: l
    else e :: insertEntry k v l

theorem mem_insertEntry {x : κ × ν} : ∀ {l : List (κ × ν)}, (l.map Prod.fst).Pairwise (· < ·) →
    (x ∈ insertEntry k v l ↔ x = (k, v) ∨ x ∈ l ∧ x.1 ≠ k)
  | [], _ => by simp [insertEntry]
  | e :: l, h => by
    obtain ⟨hhead, htail⟩ := pairwise_cons.mp h
    have hlater : ∀ y ∈ l, e.1 < y.1 := fun y hy => hhead y.1 (mem_map.mpr ⟨y, hy, rfl⟩)
    rw [insertEntry]
    split
    · rename_i hlt
      -- `k` is below every key of the list
      have hne : ∀ y ∈ e :: l, y.1 ≠ k := by
        intro y hy
        rcases mem_cons.mp hy with rfl | hy
        · exact hlt.ne'
        · exact (hlt.trans (hlater y hy)).ne'
      rw [mem_cons]
      exact or_congr_right ⟨fun hx => ⟨hx, hne x hx⟩, And.left⟩
    · split
      · rename_i hk
        have hne : ∀ y ∈ l, y.1 ≠ k := fun y hy => hk ▸ (hlater y hy).ne'
        rw [mem_cons, mem_cons]
        refine or_congr_right ⟨fun hx => ⟨.inr hx, hne x hx⟩, ?_⟩
        rintro ⟨rfl | hx, hx'⟩
        · exact absurd hk.symm hx'
        · exact hx
      · rename_i hk
        have he : e.1 ≠ k := fun h => hk h.symm
        rw [mem_cons, mem_cons, mem_insertEntry htail]
        constructor
        · rintro (rfl | hx | hx)
          · exact .inr ⟨.inl rfl, he⟩
          · exact .inl hx
          · exact .inr ⟨.inr hx.1, hx.2⟩
        · rintro (hx | ⟨rfl | hx, hx'⟩)
          · exact .inr (.inl hx)
          · exact .inl rfl
          · exact .inr (.inr ⟨hx, hx'⟩)

theorem insertEntry_sorted : ∀ {l : List (κ × ν)}, (l.map Prod.fst).Pairwise (· < ·) →
    ((insertEntry k v l).map Prod.fst).Pairwise (· < ·)
  | [], _ => pairwise_singleton _ _
  | e :: l, h => by
    obtain ⟨hhead, htail⟩ := pairwise_cons.mp h
    rw [insertEntry]
    split
    · rename_i hlt
      refine pairwise_cons.mpr ⟨fun k' hk' => ?_, h⟩
      rcases mem_cons.mp hk' with rfl | hk'
      · exact hlt
      · exact hlt.trans (hhead k' hk')
    · split
      · rename_i hk
        exact pairwise_cons.mpr ⟨fun k' hk' => hk ▸ hhead k' hk', htail⟩
      · rename_i hlt hk
        refine pairwise_cons.mpr ⟨fun k' hk' => ?_, insertEntry_sorted htail⟩
        obtain ⟨x, hx, rfl⟩ := mem_map.mp hk'
        rcases (mem_insertEntry htail).mp hx with rfl | ⟨hx, -⟩
        · exact lt_of_le_of_ne (not_lt.mp hlt) (Ne.symm hk)
        · exact hhead x.1 (mem_map.mpr ⟨x, hx, rfl⟩)

def insert (k : κ) (v : ν) (m : OrderedMap κ ν) : OrderedMap κ ν :=
  ⟨insertEntry k v m.entries, insertEntry_sorted m.sorted⟩

theorem get_insert_eq_some_iff {k' : κ} {w : ν} :
    (m.insert k v).get k' = some w ↔ k' = k ∧ w = v ∨ k' ≠ k ∧ m.get k' = some w := by
  rw [get_eq_some_iff, get_eq_some_iff, insert, mem_insertEntry m.sorted]
  simp [and_comm]

def keepLast (n : ℕ) (m : OrderedMap κ ν) : OrderedMap κ ν where
  entries := m.entries.drop (m.entries.length - n)
  sorted := by
    rw [map_drop]
    exact m.sorted.drop

theorem get_of_keepLast {n : ℕ} (h : (m.keepLast n).get k = some v) :
    m.get k = some v :=
  get_eq_some_iff.mpr (mem_of_mem_drop (get_eq_some_iff.mp h))

end OrderedMap

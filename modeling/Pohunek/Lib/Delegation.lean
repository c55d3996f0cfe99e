/-
# Chains of delegation

Trust starts at roots and is passed on by records: a record names an id and the
id it is endorsed by, and the node of that id must vouch for it. `Chain` says
which ids are reached, whatever the order of the records. `Built` is the table
that a single pass over the records fills, where a record must come behind its
endorser; the table holds each id with the ids from it up to its root.

The table of a pass that succeeds is exact: it holds an id iff a chain reaches
it (`Built.sound`, `Built.complete`), so it does not depend on the order of the
records (`Built.unique`). What does depend on the order is whether the pass
succeeds (`exists_built_iff`).
-/
import Mathlib.Tactic

namespace Delegation

open List

variable {ι ν ρ : Type*}

/-- Records over nodes. -/
structure Rules (ι ν ρ : Type*) where
  id : ρ → ι
  parent : ρ → ι
  /-- The node a record introduces, where it is well formed. -/
  node : ρ → Option ν
  /-- The node vouches for the record. -/
  endorses : ν → ρ → Bool

/-- The ids and nodes from one that is reached up to its root. -/
inductive Chain (R : Rules ι ν ρ) (roots : ι → Option ν) (records : List ρ) : List (ι × ν) → Prop
  | root {i : ι} {n : ν} : roots i = some n → Chain R roots records [(i, n)]
  | endorsed {r : ρ} {n : ν} {parent : ι × ν} {rest : List (ι × ν)} : r ∈ records →
    R.node r = some n →
      Chain R roots records (parent :: rest) → parent.1 = R.parent r → R.endorses parent.2 r →
      Chain R roots records ((R.id r, n) :: parent :: rest)

/-- What the table holds of an id. -/
structure Known (ι ν : Type*) where
  node : ν
  lineage : List ι

variable {R : Rules ι ν ρ} {roots : ι → Option ν} {records : List ρ}
    {known : ι → Option (Known ι ν)}

variable {links : List (ι × ν)}

theorem Chain.mono {records' : List ρ} (hsub : records ⊆ records')
    (h : Chain R roots records links) : Chain R roots records' links := by
  induction h with
  | root hroot => exact .root hroot
  | endorsed hmem hnode _ hparent hvouch ih => exact .endorsed (hsub hmem) hnode ih hparent hvouch

variable [DecidableEq ι]

/-- The table after a pass over the records. -/
inductive Built (R : Rules ι ν ρ) (roots : ι → Option ν) : List ρ → (ι → Option (Known ι ν)) → Prop
  | start : Built R roots [] fun i => (roots i).map (⟨·, [i]⟩)
  | extend {records : List ρ} {known : ι → Option (Known ι ν)} {r : ρ} {n : ν} {e : Known ι ν} :
      Built R roots records known → R.node r = some n → known (R.id r) = none →
      known (R.parent r) = some e → R.endorses e.node r →
      Built R roots (records ++ [r])
      (Function.update known (R.id r) (some ⟨n, R.id r :: e.lineage⟩))

variable {i : ι}

/-- An id that is known stays as it is. -/
theorem update_of_known {j : ι} {e : Known ι ν} {v : Option (Known ι ν)} (hfree : known i = none)
    (hknown : known j = some e) : Function.update known i v j = some e := by
  rw [Function.update_of_ne _, hknown]
  rintro rfl
  rw [hfree] at hknown
  exact nomatch hknown

/-- **The table is sound**: a known id has a chain of its lineage. -/
theorem Built.sound (h : Built R roots records known) {e : Known ι ν} (hi : known i = some e) :
    ∃ rest, Chain R roots records ((i, e.node) :: rest) ∧ e.lineage = i :: rest.map Prod.fst := by
  induction h generalizing i e with
  | start =>
    obtain ⟨n, hroot, rfl⟩ := Option.map_eq_some_iff.mp hi
    exact ⟨[], .root hroot, rfl⟩
  | @extend records known r n parent hbuilt hnode hfree hparent hvouch ih =>
    have hsub : records ⊆ records ++ [r] := subset_append_left _ _
    by_cases hid : i = R.id r
    · -- the record that was just admitted, in front of its endorser's chain
      subst hid
      rw [Function.update_self] at hi
      cases hi
      obtain ⟨rest, hchain, hlineage⟩ := ih hparent
      refine ⟨(R.parent r, parent.node) :: rest, ?_, ?_⟩
      · exact .endorsed (mem_append_right _ (mem_singleton_self r)) hnode
          (hchain.mono hsub) rfl hvouch
      · rw [hlineage, map_cons]
    · rw [Function.update_of_ne hid] at hi
      obtain ⟨rest, hchain, hlineage⟩ := ih hi
      exact ⟨rest, hchain.mono hsub, hlineage⟩

theorem Built.root (h : Built R roots records known) {n : ν} (hroot : roots i = some n) :
    known i = some ⟨n, [i]⟩ := by
  induction h with
  | start =>
    show (roots i).map _ = _
    rw [hroot, Option.map_some]
  | extend _ _ hfree _ _ ih => exact update_of_known hfree ih

/-- A record that was admitted is known behind its endorser. -/
theorem Built.record (h : Built R roots records known) {r : ρ} (hr : r ∈ records) :
    ∃ n e, R.node r = some n ∧ known (R.parent r) = some e ∧ R.endorses e.node r ∧
      known (R.id r) = some ⟨n, R.id r :: e.lineage⟩ := by
  induction h with
  | start => exact nomatch hr
  | @extend records known r' n' e' _ hnode hfree hparent hvouch ih =>
    rcases mem_append.mp hr with hr | hr
    · obtain ⟨n, e, hn, he, hv, hk⟩ := ih hr
      exact ⟨n, e, hn, update_of_known hfree he, hv, update_of_known hfree hk⟩
    · obtain rfl := mem_singleton.mp hr
      exact ⟨n', e', hnode, update_of_known hfree hparent, hvouch, Function.update_self ..⟩

/-- **The table is complete**: an id that a chain reaches is known, with the ids
of that chain. -/
theorem Built.complete (h : Built R roots records known) {link : ι × ν} {rest : List (ι × ν)}
    (hchain : Chain R roots records (link :: rest)) :
    known link.1 = some ⟨link.2, link.1 :: rest.map Prod.fst⟩ := by
  generalize hlinks : link :: rest = links at hchain
  induction hchain generalizing link rest with
  | root hroot =>
    obtain ⟨rfl, rfl⟩ := List.cons.inj hlinks
    exact h.root hroot
  | @endorsed r n parent rest' hmem hnode _ hparent _ ih =>
    obtain ⟨rfl, rfl⟩ := List.cons.inj hlinks
    obtain ⟨n', e, hn', he, -, hknown⟩ := h.record hmem
    have hup := ih rfl
    rw [hparent, he] at hup
    cases hup
    cases hnode.symm.trans hn'
    show known (R.id r) = some ⟨n, R.id r :: parent.1 :: rest'.map Prod.fst⟩
    rw [hknown, hparent]

/-- Every link of a chain is known with its node. -/
theorem Built.known_of_chain (h : Built R roots records known)
    (hchain : Chain R roots records links) : ∀ link ∈ links, ∃ e, known link.1 = some e ∧
    e.node = link.2 := by
  induction hchain with
  | root hroot =>
    intro link hlink
    rw [mem_singleton.mp hlink]
    exact ⟨_, h.root hroot, rfl⟩
  | endorsed hmem hnode hchain hparent hvouch ih =>
    intro link hlink
    rcases mem_cons.mp hlink with rfl | hlink
    · exact ⟨_, h.complete (.endorsed hmem hnode hchain hparent hvouch), rfl⟩
    · exact ih link hlink

/-- Two passes over the same records in any order fill the same table. -/
theorem Built.unique {records' : List ρ} {known' : ι → Option (Known ι ν)}
    (h : Built R roots records known) (h' : Built R roots records' known')
    (hsame : ∀ r, r ∈ records ↔ r ∈ records') : known = known' := by
  have hone : ∀ {records records' : List ρ} {known known' : ι → Option (Known ι ν)},
    Built R roots records known →
      Built R roots records' known' → records ⊆ records' → ∀ i e, known i = some e →
      known' i = some e := by
    intro records records' known known' h h' hsub i e hi
    obtain ⟨rest, hchain, hlineage⟩ := h.sound hi
    have hknown := h'.complete (hchain.mono hsub)
    rw [hknown, ← hlineage]
  funext i
  exact Option.ext fun e =>
    ⟨hone h h' (fun r hr => (hsame r).mp hr) i e, hone h' h (fun r hr => (hsame r).mpr hr) i e⟩

/-- What a record needs of those before it. -/
def Fits (R : Rules ι ν ρ) (roots : ι → Option ν) (before : List ρ) (r : ρ) : Prop :=
  (∃ n, R.node r = some n) ∧ roots (R.id r) = none ∧ (∀ r' ∈ before, R.id r' ≠ R.id r) ∧
    ∃ parent rest, Chain R roots before (parent :: rest) ∧ parent.1 = R.parent r ∧
    R.endorses parent.2 r

theorem Built.free_iff (h : Built R roots records known) :
    known i = none ↔ roots i = none ∧ ∀ r ∈ records, R.id r ≠ i := by
  constructor
  · intro hnone
    constructor
    · cases hroot : roots i with
      | none => rfl
      | some n =>
        rw [h.root hroot] at hnone
        exact nomatch hnone
    · rintro r hr rfl
      obtain ⟨n, e, -, -, -, hknown⟩ := h.record hr
      rw [hknown] at hnone
      exact nomatch hnone
  · rintro ⟨hroot, hrecords⟩
    cases hi : known i with
    | none => rfl
    | some e =>
      obtain ⟨rest, hchain, -⟩ := h.sound hi
      cases hchain with
      | root hsome =>
        rw [hroot] at hsome
        exact nomatch hsome
      | endorsed hmem => exact absurd rfl (hrecords _ hmem)

/-- A pass goes on with a record iff it fits those before it. -/
theorem Built.snoc_iff {r : ρ} : (∃ known, Built R roots (records ++ [r]) known) ↔
    (∃ known, Built R roots records known) ∧ Fits R roots records r := by
  constructor
  · rintro ⟨known, h⟩
    generalize hall : records ++ [r] = all at h
    cases h with
    | start => exact absurd hall (by simp)
    | @extend records' known' r' n e hbuilt hnode hfree hparent hvouch =>
      obtain ⟨rfl, heq⟩ := append_inj' hall rfl
      obtain rfl := (List.cons.inj heq).1
      obtain ⟨hroot, hids⟩ := hbuilt.free_iff.mp hfree
      obtain ⟨rest, hchain, -⟩ := hbuilt.sound hparent
      exact ⟨⟨known', hbuilt⟩, ⟨n, hnode⟩, hroot, hids, _, rest, hchain, rfl, hvouch⟩
  · rintro ⟨⟨known, h⟩, ⟨n, hnode⟩, hroot, hids, parent, rest, hchain, hparent, hvouch⟩
    have hknown := h.complete hchain
    rw [hparent] at hknown
    exact ⟨_, h.extend hnode (h.free_iff.mpr ⟨hroot, hids⟩) hknown hvouch⟩

/-- **A pass succeeds** iff every record fits those before it. -/
theorem exists_built_iff : (∃ known, Built R roots records known) ↔
    ∀ before r after, records = before ++ r :: after → Fits R roots before r := by
  induction records using List.reverseRecOn with
  | nil => exact ⟨fun _ before r after h => by simp at h, fun _ => ⟨_, .start⟩⟩
  | append_singleton records r ih =>
    rw [Built.snoc_iff, ih]
    constructor
    · rintro ⟨hall, hr⟩ before r' after heq
      rcases eq_nil_or_concat after with rfl | ⟨after, last, rfl⟩
      · obtain ⟨rfl, hone⟩ := append_inj' heq rfl
        obtain rfl := (List.cons.inj hone).1
        exact hr
      · rw [concat_eq_append, ← cons_append, ← append_assoc] at heq
        exact hall before r' after (append_inj' heq rfl).1
    · intro hall
      refine ⟨fun before r' after heq => hall before r' (after ++ [r]) ?_, hall records r [] rfl⟩
      rw [heq, append_assoc, cons_append]

end Delegation

import Mathlib.Tactic

/-! # Quorums

Two sets of members that together have more elements than there are members share one; with more
to spare, they share one outside of a given list.
-/

namespace Dkg.Lib

open List Finset

/-- Members, none of them twice. -/
structure Voters {κ : Type} (members voters : List κ) : Prop where
  nodup : voters.Nodup
  subset : ∀ v ∈ voters, v ∈ members

/-- **Quorum intersection.** Two lists of voters that together outnumber the members and a list of
some of them share a voter that is not in that list. -/
lemma Voters.intersect {κ : Type} [DecidableEq κ] {members left right : List κ}
    (avoided : List κ) (hl : Voters members left) (hr : Voters members right)
    (hmany : members.length + avoided.length < left.length + right.length) :
    ∃ v, v ∈ left ∧ v ∈ right ∧ v ∉ avoided := by
  have hunion : left.toFinset ∪ right.toFinset ⊆ members.toFinset := by
    intro v hv
    rw [mem_union, mem_toFinset, mem_toFinset] at hv
    rw [mem_toFinset]
    exact hv.elim (hl.subset v) (hr.subset v)
  have hcard := card_union_add_card_inter left.toFinset right.toFinset
  rw [toFinset_card_of_nodup hl.nodup, toFinset_card_of_nodup hr.nodup] at hcard
  have hmembers := (card_le_card hunion).trans (toFinset_card_le members)
  have havoided := toFinset_card_le avoided
  have hfew : avoided.toFinset.card < (left.toFinset ∩ right.toFinset).card := by omega
  obtain ⟨v, hv, hnot⟩ := exists_mem_notMem_of_card_lt_card hfew
  rw [mem_inter, mem_toFinset, mem_toFinset] at hv
  rw [mem_toFinset] at hnot
  exact ⟨v, hv.1, hv.2, hnot⟩

lemma Voters.length_le {κ : Type} {members voters : List κ} (h : Voters members voters) :
    voters.length ≤ members.length :=
  (subperm_of_subset h.nodup h.subset).length_le

end Dkg.Lib

import Mathlib

/-!
# StitchEditor.Lib.Chain

Hash chains: each item is hashed together with the hash of the items before
it, so that the last hash commits to the whole list.

No hash function is injective on all inputs, so the commitment
(`eq_of_chain_eq`) asks for no more than it uses: that the hash does not
collide on the links of the two chains compared.
-/

namespace Chain

variable {η α : Type*} (hash : Option η → α → η)

/-- The head of a chain: `none` for no items at all. -/
def chain (items : List α) : Option η :=
  items.foldl (fun parent item => some (hash parent item)) none

/-- What is hashed along the chain: each item under the head before it. -/
def links (items : List α) : List (Option η × α) :=
  items.zipIdx.map fun p => (chain hash (items.take p.2), p.1)

@[simp] theorem chain_nil : chain hash [] = none := rfl

theorem chain_concat (items : List α) (item : α) :
    chain hash (items ++ [item]) = some (hash (chain hash items) item) := by
  rw [chain, List.foldl_append]
  rfl

theorem chain_eq_none_iff {items : List α} : chain hash items = none ↔ items = [] := by
  induction items using List.reverseRecOn with
  | nil => simp
  | append_singleton items item _ => simp [chain_concat]

theorem links_concat (items : List α) (item : α) :
    links hash (items ++ [item]) = links hash items ++ [(chain hash items, item)] := by
  have hfront : ∀ p ∈ items.zipIdx, (items ++ [item]).take p.2 = items.take p.2 := by
    rintro ⟨a, i⟩ hmem
    have hlt := (List.mem_zipIdx' hmem).1
    exact List.take_append_of_le_length hlt.le
  rw [links, links, List.zipIdx_append, List.map_append]
  congr 1
  · exact List.map_congr_left fun p hp => by rw [hfront p hp]
  · simp

theorem links_isPrefix {items items' : List α} (h : items <+: items') :
    links hash items <+: links hash items' := by
  obtain ⟨more, rfl⟩ := h
  induction more using List.reverseRecOn with
  | nil => simp
  | append_singleton more item ih =>
      rw [← List.append_assoc, links_concat]
      exact ih.trans (List.prefix_append _ _)

/-- The hash tells the links of the two chains apart. -/
def Separates (items items' : List α) : Prop :=
  ∀ l ∈ links hash items, ∀ l' ∈ links hash items', hash l.1 l.2 = hash l'.1 l'.2 → l = l'

theorem Separates.of_isPrefix {items items' front front' : List α}
    (hsep : Separates hash items items')
    (h : front <+: items) (h' : front' <+: items') : Separates hash front front' := by
  intro l hl l' hl'
  have hmem : l ∈ links hash items := (links_isPrefix hash h).subset hl
  have hmem' : l' ∈ links hash items' := (links_isPrefix hash h').subset hl'
  exact hsep l hmem l' hmem'

/-- **The head commits to the chain.** -/
theorem eq_of_chain_eq {items items' : List α} (hsep : Separates hash items items')
    (h : chain hash items = chain hash items') : items = items' := by
  induction items using List.reverseRecOn generalizing items' with
  | nil => exact ((chain_eq_none_iff hash).mp h.symm).symm
  | append_singleton items item ih =>
      induction items' using List.reverseRecOn with
      | nil => simp [chain_concat] at h
      | append_singleton items' item' _ =>
          rw [chain_concat, chain_concat, Option.some.injEq] at h
          rw [Separates, links_concat, links_concat] at hsep
          have hlink := hsep (chain hash items, item) (by simp) (chain hash items', item')
              (by simp) h
          obtain ⟨hparent, rfl⟩ := Prod.mk.inj hlink
          rw [ih (fun l hl l' hl' => hsep l (by simp [hl]) l' (by simp [hl'])) hparent]

/-- **No head comes twice** along one chain. -/
theorem eq_of_chain_take_eq {items : List α} (hsep : Separates hash items items) {i j : Nat}
    (hi : i ≤ items.length) (hj : j ≤ items.length)
    (h : chain hash (items.take i) = chain hash (items.take j)) : i = j := by
  have hfronts := hsep.of_isPrefix hash (items.take_prefix i) (items.take_prefix j)
  have hlen := congrArg List.length (eq_of_chain_eq hash hfronts h)
  rw [List.length_take_of_le hi, List.length_take_of_le hj] at hlen
  exact hlen

end Chain

import PolyTerm.ForestEdit

/-!
# Addresses in an arena tree

An address says which child to take on the way from the root down. A graph of
nodes is a tree below `root` exactly when every node present has one address
(`isTree_iff_address`), which rules out cycles, shared children and children
listed twice all at once.
-/

namespace Forest

open Relation

variable {ι β : Type*} {g : Arena ι β} {root : ι}

/-- The node with this address; the last step stands first. -/
inductive Address (g : Arena ι β) (root : ι) : List Nat → ι → Prop where
  | root : Address g root [] root
  | child {ks : List Nat} {k : Nat} {a b : ι} :
      Address g root ks a → (children g a)[k]? = some b → Address g root (k :: ks) b

/-- An address has one node. -/
theorem Address.node_unique {ks : List Nat} {a b : ι} (ha : Address g root ks a)
    (hb : Address g root ks b) : a = b := by
  induction ha generalizing b with
  | root =>
      cases hb
      rfl
  | child _ hk ih =>
      cases hb with
      | child hb hk' =>
          obtain rfl := ih hb
          exact Option.some.inj (hk.symm.trans hk')

theorem Address.isBelow {ks : List Nat} {a : ι} (h : Address g root ks a) : Below g root a := by
  induction h with
  | root => exact .refl
  | child _ hk ih => exact ih.tail (List.mem_of_getElem? hk)

/-- An address goes on along a path. -/
theorem Address.extend {ks : List Nat} {a b : ι} (h : Address g root ks a) (hab : Below g a b) :
    ∃ ks', Address g root (ks' ++ ks) b := by
  induction hab with
  | refl => exact ⟨[], h⟩
  | tail _ hbc ih =>
      obtain ⟨ks', hks'⟩ := ih
      obtain ⟨k, hk⟩ := List.mem_iff_getElem?.mp hbc
      exact ⟨k :: ks', .child hks' hk⟩

theorem exists_address {a : ι} (h : Below g root a) : ∃ ks, Address g root ks a := by
  obtain ⟨ks, hks⟩ := Address.extend .root h
  exact ⟨_, hks⟩

/-- In a tree a node has one address. -/
theorem IsTree.address_unique (h : IsTree g root) {ks ks' : List Nat} {a : ι}
    (hks : Address g root ks a) (hks' : Address g root ks' a) : ks = ks' := by
  induction hks generalizing ks' with
  | root =>
      cases hks' with
      | root => rfl
      | child _ hk => exact absurd (List.mem_of_getElem? hk) h.root_orphan
  | @child _ k p c _ hk ih =>
      cases hks' with
      | root => exact absurd (List.mem_of_getElem? hk) h.root_orphan
      | @child _ k' p' _ hp' hk' =>
          obtain rfl : p = p' :=
            h.forest.parent_unique (List.mem_of_getElem? hk) (List.mem_of_getElem? hk')
          obtain rfl := ih hp'
          have hlt : k < (children g p).length := (List.getElem?_eq_some_iff.mp hk).1
          rw [(List.getElem?_inj hlt (h.forest.children_nodup p)).mp (hk.trans hk'.symm)]

/-- A tree is a graph whose nodes have one address each. -/
theorem isTree_iff_address : IsTree g root ↔
    g root ≠ none ∧ (∀ {a b}, Child g a b → g b ≠ none) ∧
      ∀ {a}, g a ≠ none → ∃! ks, Address g root ks a := by
  constructor
  · intro h
    refine ⟨h.present, h.closed, fun ha => ?_⟩
    obtain ⟨ks, hks⟩ := exists_address (h.rooted ha)
    exact ⟨ks, hks, fun _ hks' => h.address_unique hks' hks⟩
  · rintro ⟨hroot, hclosed, haddress⟩
    -- two ways into a child are two addresses of it
    have hinto : ∀ {p q c : ι} {k k' : Nat}, (children g p)[k]? = some c →
        (children g q)[k']? = some c → k = k' ∧ p = q := by
      intro p q c k k' hk hk'
      have hp : Child g p c := List.mem_of_getElem? hk
      have hq : Child g q c := List.mem_of_getElem? hk'
      obtain ⟨ks, hks, -⟩ := haddress hp.present
      obtain ⟨ks', hks', -⟩ := haddress hq.present
      obtain ⟨rfl, rfl⟩ := List.cons.inj
        ((haddress (hclosed hp)).unique (.child hks hk) (.child hks' hk'))
      exact ⟨rfl, hks.node_unique hks'⟩
    refine ⟨⟨fun a hcycle => ?_, fun {p q c} hp hq => ?_, fun a => ?_⟩, hroot, hclosed,
      fun ha => ?_⟩
    · -- once more around the cycle is another address
      obtain ⟨b, hab, hba⟩ := TransGen.head'_iff.mp hcycle
      obtain ⟨ks, hks, hunique⟩ := haddress hab.present
      obtain ⟨k, hk⟩ := List.mem_iff_getElem?.mp hab
      obtain ⟨ks', hks'⟩ := (Address.child hks hk).extend hba
      have hlength := congrArg List.length (hunique _ hks')
      simp at hlength
      omega
    · obtain ⟨k, hk⟩ := List.mem_iff_getElem?.mp hp
      obtain ⟨k', hk'⟩ := List.mem_iff_getElem?.mp hq
      exact (hinto hk hk').2
    · refine List.nodup_iff_getElem?_ne_getElem?.mpr fun i j hij hj heq => ?_
      have hi := List.getElem?_eq_getElem (hij.trans hj)
      exact absurd (hinto hi (heq.symm.trans hi)).1 hij.ne
    · obtain ⟨ks, hks, -⟩ := haddress ha
      exact hks.isBelow

end Forest

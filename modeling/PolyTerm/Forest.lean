import Mathlib.Data.Finset.Card
import Mathlib.Data.List.Infix
import Mathlib.Data.List.Nodup
import Mathlib.Logic.Relation

/-!
# Arena forests

Trees stored in an arena: a partial map from ids to nodes, where a branch
lists the ids of its children. Nothing in the representation forbids cycles,
shared children or dangling ids, so the traversals below carry fuel, and
`IsForest` says what a well-shaped arena is. The three facts everything else
rests on:

- **one path up** (`below_total`): two nodes above a common node are one
  above the other;
- **enough fuel** (`leaves_fuel`, `reaches_iff`): on an acyclic arena with a
  finite support, fuel beyond the support's size changes nothing, so the
  traversals compute the subtree they are meant to;
- **leaves nest** (`leaves_nested`): the leaf list of a node is a contiguous
  block of the leaf list of every node above it, so among nested nodes
  comparing lengths is comparing subtrees (`leaves_eq_of_length_le`).
-/

namespace Forest

open Relation

/-- A node of an arena: a leaf with its payload, or a branch with its ordered
children. -/
inductive Node (ι β : Type*) where
  | leaf (payload : β)
  | branch (children : List ι)
deriving Repr, DecidableEq

/-- An arena: which node, if any, each id holds. -/
abbrev Arena (ι β : Type*) := ι → Option (Node ι β)

variable {ι β : Type*}

/-- The children an id lists; none for a leaf or an absent id. -/
def children (g : Arena ι β) (a : ι) : List ι :=
  match g a with
  | some (.branch cs) => cs
  | _ => []

def Child (g : Arena ι β) (a b : ι) : Prop := b ∈ children g a

/-- `b` lies in the subtree of `a` (`a` itself included). -/
def Below (g : Arena ι β) (a b : ι) : Prop := ReflTransGen (Child g) a b

/-- No cycles, at most one parent, and no child listed twice. -/
structure IsForest (g : Arena ι β) : Prop where
  acyclic : ∀ a, ¬TransGen (Child g) a a
  parent_unique : ∀ {p q c}, Child g p c → Child g q c → p = q
  children_nodup : ∀ a, (children g a).Nodup

/-- No payload sits in two leaves. -/
def LeafInj (g : Arena ι β) : Prop :=
  ∀ {a b x}, g a = some (.leaf x) → g b = some (.leaf x) → a = b

theorem children_leaf {g : Arena ι β} {a : ι} {x : β} (h : g a = some (.leaf x)) :
    children g a = [] := by
  simp [children, h]

theorem children_branch {g : Arena ι β} {a : ι} {cs : List ι}
    (h : g a = some (.branch cs)) : children g a = cs := by
  simp [children, h]

theorem children_absent {g : Arena ι β} {a : ι} (h : g a = none) :
    children g a = [] := by
  simp [children, h]

/-- Only a branch has children. -/
theorem Child.branch {g : Arena ι β} {a b : ι} (h : Child g a b) :
    ∃ cs, g a = some (.branch cs) ∧ b ∈ cs := by
  unfold Child children at h
  split at h
  · rename_i cs hcs
    exact ⟨cs, hcs, h⟩
  · exact absurd h List.not_mem_nil

/-- A depth that grows along every edge rules cycles out. -/
theorem acyclic_of_depth {g : Arena ι β} (depth : ι → Nat)
    (h : ∀ {a b}, Child g a b → depth a < depth b) (a : ι) : ¬TransGen (Child g) a a := by
  have hlt : ∀ {b}, TransGen (Child g) a b → depth a < depth b := fun hab => by
    induction hab with
    | single h1 => exact h h1
    | tail _ h1 ih => exact ih.trans (h h1)
  exact fun haa => lt_irrefl _ (hlt haa)

/-! ## One path up -/

theorem below_total {g : Arena ι β} (hg : IsForest g) {a b c : ι}
    (hac : Below g a c) (hbc : Below g b c) : Below g a b ∨ Below g b a := by
  have hright : Relator.RightUnique (fun x y => Child g y x) :=
    fun _ _ _ h1 h2 => hg.parent_unique h1 h2
  have hup := ReflTransGen.total_of_right_unique hright
    (reflTransGen_swap.mpr hac) (reflTransGen_swap.mpr hbc)
  exact hup.symm.imp reflTransGen_swap.mp reflTransGen_swap.mp

theorem below_antisymm {g : Arena ι β} (hg : IsForest g) {a b : ι}
    (hab : Below g a b) (hba : Below g b a) : a = b := by
  rcases reflTransGen_iff_eq_or_transGen.mp hab with h | h
  · exact h.symm
  · exact absurd (h.trans_left hba) (hg.acyclic a)

/-- A child and a node below another child of the same branch are apart. -/
theorem siblings_apart {g : Arena ι β} (hg : IsForest g) {a c d t : ι}
    (hc : Child g a c) (hd : Child g a d) (hne : c ≠ d)
    (hct : Below g c t) (hdt : Below g d t) : False := by
  have key : ∀ {c d : ι}, Child g a c → Child g a d → c ≠ d → Below g c d → False := by
    intro c d hc hd hne hcd
    rcases ReflTransGen.cases_tail hcd with h | ⟨p, hcp, hpd⟩
    · exact hne h.symm
    · obtain rfl := hg.parent_unique hpd hd
      exact hg.acyclic p (TransGen.head' hc hcp)
  rcases below_total hg hct hdt with h | h
  · exact key hc hd hne h
  · exact key hd hc hne.symm h

/-- Among the listed nodes above `t`, one is innermost: every other one is above
it. -/
theorem exists_innermost {g : Arena ι β} (hg : IsForest g) {t : ι} : ∀ {l : List ι},
    (∃ u ∈ l, Below g u t) → ∃ s ∈ l, Below g s t ∧ ∀ u ∈ l, Below g u t → Below g u s
  | [], ⟨_, hu, _⟩ => absurd hu List.not_mem_nil
  | a :: l, hex => by
      by_cases hl : ∃ u ∈ l, Below g u t
      · obtain ⟨s, hs, hst, hmax⟩ := exists_innermost hg hl
        by_cases has : Below g a t → Below g a s
        · exact ⟨s, List.mem_cons_of_mem _ hs, hst, List.forall_mem_cons.mpr ⟨has, hmax⟩⟩
        · rw [Classical.not_imp] at has
          have hsa := (below_total hg has.1 hst).resolve_left has.2
          exact ⟨a, List.mem_cons_self, has.1, List.forall_mem_cons.mpr
            ⟨fun _ => .refl, fun u hu hut => (hmax u hu hut).trans hsa⟩⟩
      · obtain ⟨u, hu, hut⟩ := hex
        obtain rfl : u = a := (List.mem_cons.mp hu).resolve_right fun h => hl ⟨u, h, hut⟩
        exact ⟨u, List.mem_cons_self, hut, List.forall_mem_cons.mpr
          ⟨fun _ => .refl, fun v hv hvt => absurd ⟨v, hv, hvt⟩ hl⟩⟩

/-! ## Rank: how deep a subtree can go

On an acyclic arena every chain visits distinct ids, so the number of
supported ids strictly below a node bounds the depth of its subtree. -/

section Rank

variable {g : Arena ι β} {S : Finset ι}

open Classical in
/-- How many ids of the support lie strictly below `a`. -/
noncomputable def rank (g : Arena ι β) (S : Finset ι) (a : ι) : Nat :=
  (S.filter (TransGen (Child g) a)).card

theorem rank_le (a : ι) : rank g S a ≤ S.card := by
  classical
  unfold rank
  exact Finset.card_filter_le _ _

theorem rank_lt (hacyc : ∀ a, ¬TransGen (Child g) a a) {a b : ι}
    (hab : Child g a b) (hb : b ∈ S) : rank g S b < rank g S a := by
  classical
  unfold rank
  refine Finset.card_lt_card ⟨fun t ht => ?_, fun hsub => ?_⟩
  · simp only [Finset.mem_filter] at ht ⊢
    exact ⟨ht.1, TransGen.head hab ht.2⟩
  · have hbb := hsub (Finset.mem_filter.mpr ⟨hb, TransGen.single hab⟩)
    exact hacyc b (Finset.mem_filter.mp hbb).2

end Rank

/-! ## Traversals -/

/-- The payloads of the leaves in `a`'s subtree, in tree order. -/
def leaves (g : Arena ι β) : Nat → ι → List β
  | 0, _ => []
  | n + 1, a =>
      match g a with
      | some (.leaf x) => [x]
      | some (.branch cs) => cs.flatMap (leaves g n)
      | none => []

/-- Whether `t` lies in `a`'s subtree, by walking down from `a`. -/
def reaches [DecidableEq ι] (g : Arena ι β) : Nat → ι → ι → Bool
  | 0, a, t => a == t
  | n + 1, a, t => a == t || (children g a).any fun c => reaches g n c t

theorem leaves_leaf {g : Arena ι β} {n : Nat} {a : ι} {x : β}
    (h : g a = some (.leaf x)) : leaves g (n + 1) a = [x] := by
  simp [leaves, h]

theorem leaves_absent {g : Arena ι β} {a : ι} (h : g a = none) :
    ∀ n, leaves g n a = []
  | 0 => rfl
  | n + 1 => by simp [leaves, h]

theorem leaves_branch {g : Arena ι β} {n : Nat} {a : ι} {cs : List ι}
    (h : g a = some (.branch cs)) :
    leaves g (n + 1) a = cs.flatMap (leaves g n) := by
  simp [leaves, h]

/-- What walking down finds is in the subtree. -/
theorem below_of_reaches [DecidableEq ι] {g : Arena ι β} {t : ι} : ∀ {n : Nat} {a : ι},
    reaches g n a t = true → Below g a t
  | 0, a, h => by
      rw [reaches, beq_iff_eq] at h
      exact h ▸ .refl
  | n + 1, a, h => by
      rw [reaches, Bool.or_eq_true, beq_iff_eq, List.any_eq_true] at h
      rcases h with rfl | ⟨c, hc, hct⟩
      · exact .refl
      · exact .head hc (below_of_reaches hct)

section Fuel

variable {g : Arena ι β} {S : Finset ι}
  (hacyc : ∀ a, ¬TransGen (Child g) a a) (hS : ∀ a, g a ≠ none → a ∈ S)

include hacyc hS

/-- Beyond the rank, fuel does not matter. -/
theorem leaves_fuel : ∀ {n m : Nat} {a : ι},
    rank g S a < n → rank g S a < m → leaves g n a = leaves g m a
  | 0, _, _, hn, _ => absurd hn (Nat.not_lt_zero _)
  | _, 0, _, _, hm => absurd hm (Nat.not_lt_zero _)
  | n + 1, m + 1, a, hn, hm => by
      cases hga : g a with
      | none => rw [leaves_absent hga, leaves_absent hga]
      | some node =>
          cases node with
          | leaf x => rw [leaves_leaf hga, leaves_leaf hga]
          | branch cs =>
              rw [leaves_branch hga, leaves_branch hga]
              refine List.flatMap_congr fun c hc => ?_
              by_cases hgc : g c = none
              · rw [leaves_absent hgc, leaves_absent hgc]
              · have hlt := rank_lt hacyc
                  (show Child g a c by rw [Child, children_branch hga]; exact hc)
                  (hS c hgc)
                exact leaves_fuel (by omega) (by omega)

/-- The unfolding equation with the fuel left alone. -/
theorem leaves_branch_eq {n : Nat} (hn : S.card < n) {a : ι} {cs : List ι}
    (h : g a = some (.branch cs)) : leaves g n a = cs.flatMap (leaves g n) := by
  rw [leaves_fuel hacyc hS (m := n + 1) ((rank_le a).trans_lt hn)
    ((rank_le a).trans_lt (Nat.lt_succ_of_lt hn)), leaves_branch h]

theorem leaves_leaf_eq {n : Nat} (hn : S.card < n) {a : ι} {x : β}
    (h : g a = some (.leaf x)) : leaves g n a = [x] := by
  rw [leaves_fuel hacyc hS (m := n + 1) ((rank_le a).trans_lt hn)
    ((rank_le a).trans_lt (Nat.lt_succ_of_lt hn)), leaves_leaf h]

theorem leaves_nested {n : Nat} (hn : S.card < n) {a b : ι} (hab : Below g a b) :
    leaves g n b <:+: leaves g n a := by
  induction hab using ReflTransGen.head_induction_on with
  | refl => exact List.infix_rfl
  | head hac _ ih =>
      obtain ⟨cs, hcs, hc⟩ := hac.branch
      obtain ⟨l, r, rfl⟩ := List.append_of_mem hc
      rw [leaves_branch_eq hacyc hS hn hcs, List.flatMap_append, List.flatMap_cons]
      exact ih.trans ⟨_, _, List.append_assoc ..⟩

/-- Among nested nodes, the outer one having no more leaves than the inner one
means that they have the same leaves. -/
theorem leaves_eq_of_length_le {n : Nat} (hn : S.card < n) {a b : ι}
    (hab : Below g a b) (hle : (leaves g n a).length ≤ (leaves g n b).length) :
    leaves g n a = leaves g n b :=
  ((leaves_nested hacyc hS hn hab).eq_of_length_le hle).symm

theorem mem_leaves {n : Nat} (hn : S.card < n) {a : ι} {x : β} :
    x ∈ leaves g n a ↔ ∃ t, Below g a t ∧ g t = some (.leaf x) := by
  constructor
  · intro hx
    clear hn hacyc hS
    induction n generalizing a with
    | zero => exact absurd hx List.not_mem_nil
    | succ n ih =>
        cases hga : g a with
        | none => rw [leaves_absent hga] at hx; exact absurd hx List.not_mem_nil
        | some node =>
            cases node with
            | leaf y =>
                rw [leaves_leaf hga, List.mem_singleton] at hx
                exact ⟨a, .refl, by rw [hga, hx]⟩
            | branch cs =>
                rw [leaves_branch hga, List.mem_flatMap] at hx
                obtain ⟨c, hc, hxc⟩ := hx
                obtain ⟨t, hct, ht⟩ := ih hxc
                exact ⟨t, .head (by rw [Child, children_branch hga]; exact hc) hct, ht⟩
  · rintro ⟨t, hat, ht⟩
    refine (leaves_nested hacyc hS hn hat).subset ?_
    rw [leaves_leaf_eq hacyc hS hn ht]
    exact List.mem_singleton.mpr rfl

/-- Walking down finds exactly the subtree. -/
theorem reaches_iff [DecidableEq ι] {n : Nat} (hn : S.card < n) {a t : ι} :
    reaches g n a t = true ↔ Below g a t := by
  constructor
  · exact below_of_reaches
  · intro h
    have hr : rank g S a < n := (rank_le a).trans_lt hn
    clear hn
    induction h using ReflTransGen.head_induction_on generalizing n with
    | refl => cases n <;> simp [reaches]
    | @head a c hac hct ih =>
        cases n with
        | zero => omega
        | succ n =>
            rw [reaches, Bool.or_eq_true, List.any_eq_true]
            refine Or.inr ⟨c, hac, ?_⟩
            by_cases hgc : g c = none
            · rcases ReflTransGen.cases_head hct with rfl | ⟨d, hcd, -⟩
              · cases n <;> simp [reaches]
              · rw [Child, children_absent hgc] at hcd
                exact absurd hcd List.not_mem_nil
            · have hlt := rank_lt hacyc hac (hS c hgc)
              exact ih (by omega)

end Fuel

/-- With payloads in one leaf each, a subtree lists each of them once. -/
theorem leaves_nodup {g : Arena ι β} {S : Finset ι} (hg : IsForest g)
    (hinj : LeafInj g) (hS : ∀ a, g a ≠ none → a ∈ S) {N : Nat} (hN : S.card < N) :
    ∀ {n : Nat} {a : ι}, rank g S a < n → (leaves g n a).Nodup
  | 0, _, hn => absurd hn (Nat.not_lt_zero _)
  | n + 1, a, hn => by
      cases hga : g a with
      | none => rw [leaves_absent hga]; exact List.nodup_nil
      | some node =>
          cases node with
          | leaf x => rw [leaves_leaf hga]; exact List.nodup_singleton x
          | branch cs =>
              have hchild : ∀ {c}, c ∈ cs → Child g a c := fun hc => by
                rw [Child, children_branch hga]; exact hc
              have hrank : ∀ {c}, c ∈ cs → g c ≠ none → rank g S c < n := fun hc hgc => by
                have := rank_lt hg.acyclic (hchild hc) (hS _ hgc)
                omega
              have hmem : ∀ {c x}, c ∈ cs → x ∈ leaves g n c →
                  ∃ t, Below g c t ∧ g t = some (.leaf x) := fun {c x} hc hx => by
                by_cases hgc : g c = none
                · rw [leaves_absent hgc] at hx
                  exact absurd hx List.not_mem_nil
                · rw [leaves_fuel hg.acyclic hS (hrank hc hgc)
                    ((rank_le c).trans_lt hN)] at hx
                  exact (mem_leaves hg.acyclic hS hN).mp hx
              rw [leaves_branch hga, List.nodup_flatMap]
              refine ⟨fun c hc => ?_, ?_⟩
              · by_cases hgc : g c = none
                · rw [leaves_absent hgc]; exact List.nodup_nil
                · exact leaves_nodup hg hinj hS hN (hrank hc hgc)
              · have hnd : cs.Nodup := children_branch hga ▸ hg.children_nodup a
                refine hnd.imp_of_mem fun {c d} hc hd hne x hxc hxd => ?_
                obtain ⟨t, hct, ht⟩ := hmem hc hxc
                obtain ⟨u, hdu, hu⟩ := hmem hd hxd
                obtain rfl := hinj ht hu
                exact siblings_apart hg (hchild hc) (hchild hd) hne hct hdu

end Forest

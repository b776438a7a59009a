import PolyTerm.Forest

/-!
# Editing an arena tree

`IsTree` is a forest whose nodes all hang below one root, with no dangling
child. Three edits keep it one, and keep a forest one: `Grown` puts fresh
leaves below a node, `Rerooted` puts a fresh branch above the root, `Pruned`
takes out a subtree. A fourth one, `Swept`, makes a tree of a forest. Each is
given by what it does to the arena, so it does not matter how the arena is
stored.
-/

namespace Forest

open Relation

variable {ι β : Type*} {g h : Arena ι β} {root p r t : ι} {news : List ι}

structure IsTree (g : Arena ι β) (root : ι) : Prop where
  forest : IsForest g
  present : g root ≠ none
  closed : ∀ {a b}, Child g a b → g b ≠ none
  rooted : ∀ {a}, g a ≠ none → Below g root a

theorem Child.present {a b : ι} (hab : Child g a b) : g a ≠ none := by
  obtain ⟨cs, hcs, -⟩ := hab.branch
  rw [hcs]
  exact nofun

/-- The root has no parent. -/
theorem IsTree.root_orphan (hg : IsTree g root) {a : ι} : ¬Child g a root := by
  intro ha
  have hbelow : Below g root a := hg.rooted ha.present
  exact hg.forest.acyclic root (TransGen.tail' hbelow ha)

/-- Below a node without children there is only itself. -/
theorem below_childless {a b : ι} (ha : children g a = []) (hab : Below g a b) : b = a := by
  rcases ReflTransGen.cases_head hab with rfl | ⟨c, hac, -⟩
  · rfl
  · rw [Child, ha] at hac
    cases hac

/-- The parent of a node below `t` is below `t` too, unless the node is `t`. -/
theorem below_parent (hg : IsForest g) {a b : ι} (hb : Below g t b) (hne : b ≠ t)
    (hab : Child g a b) : Below g t a := by
  rcases ReflTransGen.cases_tail hb with rfl | ⟨c, hc, hcb⟩
  · exact absurd rfl hne
  · exact hg.parent_unique hcb hab ▸ hc

/-- A path that ends in `p` does not see a change of the relation at `p`. -/
theorem path_agree {R R' : ι → ι → Prop} (hacyc : ¬TransGen R p p)
    (hagree : ∀ a b, a ≠ p → R a b → R' a b) {a : ι} (h : ReflTransGen R a p) :
    ReflTransGen R' a p := by
  induction h using ReflTransGen.head_induction_on with
  | refl => exact .refl
  | head hac hcp ih =>
      refine ReflTransGen.head (hagree _ _ ?_ hac) ih
      rintro rfl
      exact hacyc (TransGen.head' hac hcp)

/-- A path to a node that is not below `t` sees no change below `t`. -/
theorem path_outside {R R' : ι → ι → Prop} (hR : ∀ {a b}, R a b → Child g a b)
    (hkeep : ∀ {a b}, ¬Below g t a → b ≠ t → R a b → R' a b) {a b : ι}
    (hab : ReflTransGen R a b) (hout : ¬Below g t b) : ReflTransGen R' a b := by
  have hbelow : ∀ {x}, ReflTransGen R x b → Below g x b :=
    fun hx => ReflTransGen.mono (fun _ _ hc => hR hc) _ _ hx
  induction hab using ReflTransGen.head_induction_on with
  | refl => exact .refl
  | @head x y hxy hyb ih =>
      have hx : ¬Below g t x := fun ht => hout (ht.trans (hbelow (.head hxy hyb)))
      have hy : y ≠ t := by
        rintro rfl
        exact hout (hbelow hyb)
      exact .head (hkeep hx hy hxy) ih

/-- Edges that go leave a forest. -/
theorem IsForest.thin (hg : IsForest g) (hsub : ∀ {a b}, Child h a b → Child g a b)
    (hnodup : ∀ a, (children h a).Nodup) : IsForest h where
  acyclic := fun a hcycle => hg.acyclic a (TransGen.mono (fun _ _ hc => hsub hc) _ _ hcycle)
  parent_unique := fun ha hb => hg.parent_unique (hsub ha) (hsub hb)
  children_nodup := hnodup

/-! ## Growing -/

/-- `h` is `g` with the fresh leaves `news` put behind the children of `p`;
a leaf `p` becomes a branch. -/
structure Grown (g h : Arena ι β) (p : ι) (news : List ι) : Prop where
  present : g p ≠ none
  stays : h p ≠ none
  children : children h p = children g p ++ news
  other : ∀ {a}, a ≠ p → a ∉ news → h a = g a
  fresh : ∀ {n}, n ∈ news → g n = none
  unlisted : ∀ {a n}, n ∈ news → ¬Child g a n
  leaf : ∀ {n}, n ∈ news → ∃ x, h n = some (.leaf x)
  nodup : news.Nodup

theorem Grown.child (hgr : Grown g h p news) {a b : ι} :
    Child h a b ↔ Child g a b ∨ (a = p ∧ b ∈ news) := by
  unfold Child
  by_cases hp : a = p
  · subst hp
    rw [hgr.children, List.mem_append]
    simp
  · by_cases ha : a ∈ news
    · obtain ⟨x, hx⟩ := hgr.leaf ha
      simp [children_leaf hx, children_absent (hgr.fresh ha), hp]
    · have hsame : Forest.children h a = Forest.children g a := by
        simp only [Forest.children, hgr.other hp ha]
      simp [hsame, hp]

theorem Grown.below (hgr : Grown g h p news) {a b : ι} (hab : Below g a b) : Below h a b :=
  ReflTransGen.mono (fun _ _ hc => hgr.child.mpr (Or.inl hc)) _ _ hab

/-- A path ends in a new leaf, or was there before. -/
theorem Grown.trans (hgr : Grown g h p news) {a b : ι} (hab : TransGen (Child h) a b) :
    TransGen (Child g) a b ∨ b ∈ news := by
  induction hab with
  | single hc =>
      rcases hgr.child.mp hc with hold | ⟨-, hnew⟩
      · exact Or.inl (TransGen.single hold)
      · exact Or.inr hnew
  | tail _ hbc ih =>
      rcases hgr.child.mp hbc with hold | ⟨-, hnew⟩
      · rcases ih with hbefore | hnew
        · exact Or.inl (hbefore.tail hold)
        · exact absurd (hgr.fresh hnew) hold.present
      · exact Or.inr hnew

theorem Grown.present_of (hgr : Grown g h p news) {a : ι} (ha : g a ≠ none) : h a ≠ none := by
  by_cases hp : a = p
  · exact hp ▸ hgr.stays
  · have hold : a ∉ news := fun hn => ha (hgr.fresh hn)
    rwa [hgr.other hp hold]

theorem Grown.leaf_childless (hgr : Grown g h p news) {n b : ι} (hn : n ∈ news) :
    ¬Child h n b := by
  intro hc
  obtain ⟨x, hx⟩ := hgr.leaf hn
  rw [Child, children_leaf hx] at hc
  cases hc

theorem IsForest.grow (hg : IsForest g) (hgr : Grown g h p news) : IsForest h := by
  refine ⟨fun a hcycle => ?_, fun {a b c} ha hb => ?_, fun a => ?_⟩
  · rcases hgr.trans hcycle with hold | hnew
    · exact hg.acyclic a hold
    · obtain ⟨c, hac, -⟩ := TransGen.head'_iff.mp hcycle
      exact hgr.leaf_childless hnew hac
  · rcases hgr.child.mp ha with hold | ⟨rfl, hn⟩ <;> rcases hgr.child.mp hb with hold' | ⟨rfl, hn'⟩
    · exact hg.parent_unique hold hold'
    · exact absurd hold (hgr.unlisted hn')
    · exact absurd hold' (hgr.unlisted hn)
    · rfl
  · by_cases hp : a = p
    · subst hp
      rw [hgr.children]
      refine List.nodup_append.mpr ⟨hg.children_nodup a, hgr.nodup, ?_⟩
      rintro b hb n hn rfl
      exact hgr.unlisted hn hb
    · by_cases ha : a ∈ news
      · obtain ⟨x, hx⟩ := hgr.leaf ha
        rw [children_leaf hx]
        exact List.nodup_nil
      · have hsame : Forest.children h a = Forest.children g a := by
          simp only [Forest.children, hgr.other hp ha]
        rw [hsame]
        exact hg.children_nodup a

theorem IsTree.grow (hg : IsTree g root) (hgr : Grown g h p news) : IsTree h root := by
  refine ⟨hg.forest.grow hgr, hgr.present_of hg.present, fun {a b} hab => ?_, fun {a} ha => ?_⟩
  · rcases hgr.child.mp hab with hold | ⟨-, hn⟩
    · exact hgr.present_of (hg.closed hold)
    · obtain ⟨x, hx⟩ := hgr.leaf hn
      rw [hx]
      exact Option.some_ne_none _
  · by_cases hn : a ∈ news
    · have hroot : Below h root p := hgr.below (hg.rooted hgr.present)
      exact hroot.tail (hgr.child.mpr (Or.inr ⟨rfl, hn⟩))
    · by_cases hp : a = p
      · subst hp
        exact hgr.below (hg.rooted hgr.present)
      · rw [hgr.other hp hn] at ha
        exact hgr.below (hg.rooted ha)

/-! ## A new root -/

/-- `h` is `g` with the fresh branch `r` above `root`. -/
structure Rerooted (g h : Arena ι β) (root r : ι) : Prop where
  node : h r = some (.branch [root])
  other : ∀ {a}, a ≠ r → h a = g a
  fresh : g r = none
  unlisted : ∀ {a}, ¬Child g a r

theorem Rerooted.child (hr : Rerooted g h root r) {a b : ι} :
    Child h a b ↔ Child g a b ∨ (a = r ∧ b = root) := by
  unfold Child
  by_cases ha : a = r
  · subst ha
    simp [children_branch hr.node, children_absent hr.fresh]
  · have hsame : Forest.children h a = Forest.children g a := by
      simp only [Forest.children, hr.other ha]
    simp [hsame, ha]

/-- What was below the old root is below the new one. -/
theorem Rerooted.below (hr : Rerooted g h root r) {a : ι} (ha : Below g root a) : Below h r a := by
  have hold : Below h root a :=
    ReflTransGen.mono (fun _ _ hc => hr.child.mpr (Or.inl hc)) _ _ ha
  exact ReflTransGen.head (hr.child.mpr (Or.inr ⟨rfl, rfl⟩)) hold

/-- The new root has no parent. -/
theorem Rerooted.orphan (hr : Rerooted g h root r) (hroot : g root ≠ none) {a : ι} :
    ¬Child h a r := by
  intro hc
  rcases hr.child.mp hc with hold | ⟨-, heq⟩
  · exact hr.unlisted hold
  · exact hroot (heq ▸ hr.fresh)

theorem IsForest.reroot (hg : IsForest g) (hr : Rerooted g h root r) (hroot : g root ≠ none)
    (horphan : ∀ {a}, ¬Child g a root) : IsForest h := by
  have hpath : ∀ {a b}, TransGen (Child h) a b → a ≠ r → TransGen (Child g) a b := by
    intro a b hab hne
    induction hab with
    | single hc => exact TransGen.single ((hr.child.mp hc).resolve_right fun h => hne h.1)
    | tail hab hbc ih =>
        refine ih.tail ((hr.child.mp hbc).resolve_right ?_)
        rintro ⟨rfl, -⟩
        obtain ⟨c, -, hc⟩ := TransGen.tail'_iff.mp hab
        exact hr.orphan hroot hc
  refine ⟨fun a hcycle => ?_, fun {a b c} ha hb => ?_, fun a => ?_⟩
  · by_cases hne : a = r
    · subst hne
      obtain ⟨c, -, hc⟩ := TransGen.tail'_iff.mp hcycle
      exact hr.orphan hroot hc
    · exact hg.acyclic a (hpath hcycle hne)
  · rcases hr.child.mp ha with hold | ⟨rfl, rfl⟩ <;> rcases hr.child.mp hb with hold' | ⟨rfl, hc⟩
    · exact hg.parent_unique hold hold'
    · exact absurd (hc ▸ hold) horphan
    · exact absurd hold' horphan
    · rfl
  · by_cases hne : a = r
    · subst hne
      rw [children_branch hr.node]
      exact List.nodup_singleton _
    · have hsame : Forest.children h a = Forest.children g a := by
        simp only [Forest.children, hr.other hne]
      rw [hsame]
      exact hg.children_nodup a

theorem IsTree.reroot (hg : IsTree g root) (hr : Rerooted g h root r) : IsTree h r := by
  refine ⟨hg.forest.reroot hr hg.present hg.root_orphan, ?_, fun {a b} hab => ?_, fun {a} ha => ?_⟩
  · rw [hr.node]
    exact Option.some_ne_none _
  · rcases hr.child.mp hab with hold | ⟨-, rfl⟩
    · have hne : b ≠ r := by
        rintro rfl
        exact hr.unlisted hold
      rw [hr.other hne]
      exact hg.closed hold
    · have hne : b ≠ r := by
        rintro rfl
        exact hg.present hr.fresh
      rw [hr.other hne]
      exact hg.present
  · by_cases hne : a = r
    · subst hne
      exact .refl
    · rw [hr.other hne] at ha
      exact hr.below (hg.rooted ha)

/-! ## Pruning -/

/-- `h` is `g` without the subtree of `t`, and without `t` among the children
of its parent. -/
structure Pruned (g h : Arena ι β) (t : ι) : Prop where
  gone : ∀ {a}, Below g t a → h a = none
  stays : ∀ {a}, ¬Below g t a → g a ≠ none → h a ≠ none
  absent : ∀ {a}, g a = none → h a = none
  children : ∀ {a}, ¬Below g t a → ∀ {b}, b ∈ children h a ↔ b ∈ children g a ∧ b ≠ t
  nodup : ∀ {a}, (Forest.children g a).Nodup → (Forest.children h a).Nodup

theorem Pruned.child (hp : Pruned g h t) {a b : ι} :
    Child h a b ↔ Child g a b ∧ ¬Below g t a ∧ b ≠ t := by
  by_cases ha : Below g t a
  · have hnone : Forest.children h a = [] := children_absent (hp.gone ha)
    simp [Child, hnone, ha]
  · simp [Child, hp.children ha, ha]

theorem Pruned.outside (hg : IsForest g) (hp : Pruned g h t) {a b : ι} (hc : Child h a b) :
    ¬Below g t b := by
  intro hb
  obtain ⟨hold, hab, hbt⟩ := hp.child.mp hc
  exact hab (below_parent hg hb hbt hold)

/-- What is not below `t` is below `a` as before. -/
theorem Pruned.below (hp : Pruned g h t) {a b : ι} (hab : Below g a b) (hout : ¬Below g t b) :
    Below h a b :=
  path_outside (fun hc => hc) (fun ha hb hc => hp.child.mpr ⟨hc, ha, hb⟩) hab hout

theorem IsForest.prune (hg : IsForest g) (hp : Pruned g h t) : IsForest h :=
  hg.thin (fun hc => (hp.child.mp hc).1) fun a => hp.nodup (hg.children_nodup a)

/-- An orphan is below itself only. -/
theorem not_below_orphan {a : ι} (horphan : ∀ {b}, ¬Child g b a) (hne : t ≠ a) : ¬Below g t a := by
  intro hb
  rcases ReflTransGen.cases_tail hb with heq | ⟨c, -, hc⟩
  · exact hne heq.symm
  · exact horphan hc

/-- Where `t` has lost its children, nothing else that was below it can be
reached any more. -/
theorem not_below_cut (hg : IsForest g) (hsub : ∀ {a b}, Child h a b → Child g a b)
    (ht : ∀ {b}, ¬Child h t b) (hr : ¬Below g t r) {a : ι} (ha : Below h r a) (hne : a ≠ t) :
    ¬Below g t a := by
  induction ha with
  | refl => exact hr
  | @tail b a _ hba ih =>
      intro hta
      refine ih ?_ (below_parent hg hta hne (hsub hba))
      rintro rfl
      exact ht hba

theorem IsTree.prune (hg : IsTree g root) (hp : Pruned g h t) (hne : t ≠ root) :
    IsTree h root := by
  refine ⟨hg.forest.prune hp, hp.stays (not_below_orphan hg.root_orphan hne) hg.present,
    fun {a b} hab => hp.stays (hp.outside hg.forest hab) (hg.closed (hp.child.mp hab).1),
    fun {a} ha => ?_⟩
  have hold : g a ≠ none := fun hnone => ha (hp.absent hnone)
  exact hp.below (hg.rooted hold) fun hb => ha (hp.gone hb)

/-! ## Sweeping -/

/-- `h` is what of `g` hangs below `root`, without the children that are not
there. -/
structure Swept (g h : Arena ι β) (root : ι) : Prop where
  present : ∀ {a}, h a ≠ none ↔ Below g root a ∧ g a ≠ none
  child : ∀ {a b}, Child h a b ↔ Below g root a ∧ Child g a b ∧ g b ≠ none
  nodup : ∀ {a}, (children g a).Nodup → (children h a).Nodup

theorem Swept.below (hs : Swept g h root) {a : ι} (hab : Below g root a) (ha : g a ≠ none) :
    Below h root a := by
  induction hab with
  | refl => exact .refl
  | tail hrb hbc ih => exact (ih hbc.present).tail (hs.child.mpr ⟨hrb, hbc, ha⟩)

theorem IsForest.sweep (hg : IsForest g) (hs : Swept g h root) (hroot : g root ≠ none) :
    IsTree h root where
  forest := hg.thin (fun hc => (hs.child.mp hc).2.1) fun a => hs.nodup (hg.children_nodup a)
  present := hs.present.mpr ⟨.refl, hroot⟩
  closed := fun hc => by
    obtain ⟨hbelow, hold, hb⟩ := hs.child.mp hc
    exact hs.present.mpr ⟨hbelow.tail hold, hb⟩
  rooted := fun ha => by
    obtain ⟨hbelow, hold⟩ := hs.present.mp ha
    exact hs.below hbelow hold

end Forest

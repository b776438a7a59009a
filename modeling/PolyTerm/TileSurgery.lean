import PolyTerm.TileTree

/-!
# Opening and splitting tiles

How the app puts new panes into the layout tree. A new pane joins the root's
tab group or the focused pane's; a pane that has none around it becomes a tab
group, or a split, *in place*: its tile id is taken over by the container and
the pane moves to a fresh id below it. All three are one edit (`Edited`):
fresh panes behind the children of one tile.
-/

namespace PolyTerm

open Forest Relation Tiles

/-! ## The code -/

def Tabs.new (children : List TileId) : Tabs := ⟨children, children.head?⟩
def Tabs.addChild (t : Tabs) (child : TileId) : Tabs := { t with children := t.children ++ [child] }
def Tabs.setActive (t : Tabs) (child : TileId) : Tabs := { t with active := some child }

def TileLib.insertPane (lib : TileLib) (tiles : Tiles) (s : SessionId) : TileId × Tiles :=
  (lib.freshId tiles, tiles.insert (lib.freshId tiles) (.pane s))

inductive SplitDir where
  | right
  | down
deriving DecidableEq, Repr

/-- Insert a new pane instance into the tree: as the root, as a tab of the root
group, or in a new group with the root. Returns its leaf. -/
def attachPane (lib : TileLib) (tree : Tree) (s : SessionId) : TileId × Tree :=
  let (leaf, tiles) := lib.insertPane tree.tiles s
  match tree.root with
  | none => (leaf, ⟨some leaf, tiles⟩)
  | some root =>
      match tiles.lookup root with
      | some (.container (.tabs t)) =>
          let t := (t.addChild leaf).setActive leaf
          (leaf, ⟨some root, tiles.insert root (.container (.tabs t))⟩)
      | _ =>
          let tabs := lib.freshId tiles
          let t := (Tabs.new [root, leaf]).setActive leaf
          (leaf, ⟨some tabs, tiles.insert tabs (.container (.tabs t))⟩)

/-- Wrap the pane `focused` and a new leaf in a tab group at `focused`'s id. -/
def wrapInTabs (lib : TileLib) (tree : Tree) (tiles : Tiles) (focused newLeaf : TileId) : Tree :=
  match tiles.getPane focused with
  | none => ⟨tree.root, tiles⟩
  | some held =>
      let (moved, tiles) := lib.insertPane tiles held
      let t := (Tabs.new [moved, newLeaf]).setActive newLeaf
      ⟨tree.root, tiles.insert focused (.container (.tabs t))⟩

/-- Add a new pane as a tab of the group that holds the pane `focused`. -/
def addTabBeside (lib : TileLib) (tree : Tree) (focused : TileId) (s : SessionId) :
    TileId × Tree :=
  let (newLeaf, tiles) := lib.insertPane tree.tiles s
  match lib.parentOf tiles focused with
  | some parent =>
      match tiles.lookup parent with
      | some (.container (.tabs t)) =>
          let t := (t.addChild newLeaf).setActive newLeaf
          (newLeaf, ⟨tree.root, tiles.insert parent (.container (.tabs t))⟩)
      | _ => (newLeaf, wrapInTabs lib tree tiles focused newLeaf)
  | none => (newLeaf, wrapInTabs lib tree tiles focused newLeaf)

/-- Split the pane at `tile` into a two-child linear container at its id. -/
def splitTile (lib : TileLib) (tree : Tree) (existing new : SessionId) (tile : TileId)
    (dir : SplitDir) : TileId × Tree :=
  let (moved, tiles) := lib.insertPane tree.tiles existing
  let (newLeaf, tiles) := lib.insertPane tiles new
  let dir := match dir with
    | .right => LinearDir.horizontal
    | .down => LinearDir.vertical
  (newLeaf, ⟨tree.root, tiles.insert tile (.container (.linear dir [moved, newLeaf]))⟩)

/-! ## One edit -/

/-- `tiles'` is `tiles` with the container `c` at `p`, whose children are those
`p` had and then the fresh panes `news`. -/
structure Edited (tiles tiles' : Tiles) (p : TileId) (c : Container)
    (news : List (TileId × SessionId)) : Prop where
  present : tiles.lookup p ≠ none
  here : tiles'.lookup p = some (.container c)
  children : c.children = children tiles.arena p ++ news.map Prod.fst
  new : ∀ {e}, e ∈ news → tiles'.lookup e.1 = some (.pane e.2)
  fresh : ∀ {e}, e ∈ news → tiles.lookup e.1 = none
  unlisted : ∀ {e}, e ∈ news → ∀ {a}, ¬Child tiles.arena a e.1
  other : ∀ {a}, a ≠ p → a ∉ news.map Prod.fst → tiles'.lookup a = tiles.lookup a
  nodup : (news.map Prod.fst).Nodup
  /-- a new pane's instance was nowhere but at `p` -/
  moved : ∀ {e}, e ∈ news → ∀ {b}, tiles.lookup b = some (.pane e.2) → b = p
  distinct : (news.map Prod.snd).Nodup

namespace Edited

variable {tiles tiles' : Tiles} {p : TileId} {c : Container} {news : List (TileId × SessionId)}

theorem grown (h : Edited tiles tiles' p c news) :
    Grown tiles.arena tiles'.arena p (news.map Prod.fst) where
  present := fun hnone => h.present (arena_eq_none.mp hnone)
  stays := by
    rw [arena_container h.here]
    exact nofun
  children := by rw [children_branch (arena_container h.here), h.children]
  other := fun ha hn => by rw [arena, arena, h.other ha hn]
  fresh := fun hn => by
    obtain ⟨e, he, rfl⟩ := List.mem_map.mp hn
    exact arena_eq_none.mpr (h.fresh he)
  unlisted := fun hn => by
    obtain ⟨e, he, rfl⟩ := List.mem_map.mp hn
    exact h.unlisted he
  leaf := fun hn => by
    obtain ⟨e, he, rfl⟩ := List.mem_map.mp hn
    exact ⟨e.2, arena_leaf.mpr (h.new he)⟩
  nodup := h.nodup

/-- The panes after the edit. -/
theorem pane (h : Edited tiles tiles' p c news) {a : TileId} {s : SessionId} :
    tiles'.lookup a = some (.pane s) ↔
      (a, s) ∈ news ∨ (a ≠ p ∧ tiles.lookup a = some (.pane s)) := by
  by_cases hp : a = p
  · subst hp
    have hnot : ∀ s, (a, s) ∉ news := fun s hmem => h.present (h.fresh hmem)
    simp [h.here, hnot]
  · by_cases hn : a ∈ news.map Prod.fst
    · obtain ⟨e, he, rfl⟩ := List.mem_map.mp hn
      rw [h.new he, h.fresh he]
      constructor
      · intro heq
        obtain rfl := Tile.pane.inj (Option.some.inj heq)
        exact Or.inl he
      · rintro (hmem | ⟨-, hnone⟩)
        · have hsame : e = (e.1, s) := List.inj_on_of_nodup_map h.nodup he hmem rfl
          rw [hsame]
        · cases hnone
    · rw [h.other hp hn]
      have hnot : (a, s) ∉ news := fun hmem => hn (List.mem_map.mpr ⟨_, hmem, rfl⟩)
      simp [hp, hnot]

theorem bare (h : Edited tiles tiles' p c news) {a : TileId} (ha : a ≠ p) (hbare : tiles.Bare a) :
    tiles'.Bare a := by
  intro c' hc'
  by_cases hn : a ∈ news.map Prod.fst
  · obtain ⟨e, he, rfl⟩ := List.mem_map.mp hn
    rw [h.new he] at hc'
    cases hc'
  · rw [h.other ha hn] at hc'
    exact hbare c' hc'

/-- Where there was a pane, only the new panes are now. -/
theorem below (h : Edited tiles tiles' p c news) (hbare : tiles.Bare p) {a : TileId}
    {s : SessionId} (hbelow : Below tiles'.arena p a) (ha : tiles'.lookup a = some (.pane s)) :
    (a, s) ∈ news := by
  rcases h.pane.mp ha with hnew | ⟨hne, -⟩
  · exact hnew
  · obtain ⟨b, hpb, hba⟩ := (ReflTransGen.cases_head hbelow).resolve_left fun heq => hne heq.symm
    obtain ⟨c', hc', hb⟩ := child_iff.mp hpb
    obtain rfl := Tile.container.inj (Option.some.inj (h.here.symm.trans hc'))
    rw [h.children, hbare.children, List.nil_append] at hb
    obtain ⟨e, he, rfl⟩ := List.mem_map.mp hb
    obtain rfl := below_childless (children_leaf (arena_leaf.mpr (h.new he))) hba
    obtain rfl := Tile.pane.inj (Option.some.inj ((h.new he).symm.trans ha))
    exact he

theorem leafInj (h : Edited tiles tiles' p c news) (hdistinct : LeafInj tiles.arena) :
    LeafInj tiles'.arena := by
  intro a b s ha hb
  rcases h.pane.mp (arena_leaf.mp ha) with hnew | ⟨hap, hold⟩ <;>
    rcases h.pane.mp (arena_leaf.mp hb) with hnew' | ⟨hbp, hold'⟩
  · exact congrArg Prod.fst (List.inj_on_of_nodup_map h.distinct hnew hnew' rfl)
  · exact absurd (h.moved hnew hold') hbp
  · exact absurd (h.moved hnew' hold) hap
  · exact hdistinct (arena_leaf.mpr hold) (arena_leaf.mpr hold')

theorem loose {root : Option TileId} (h : Edited tiles tiles' p c news)
    (hs : Tree.Loose ⟨root, tiles⟩) : Tree.Loose ⟨root, tiles'⟩ where
  forest := hs.forest.grow h.grown
  present := fun hr => h.grown.present_of (hs.present hr)
  orphan := fun {r} hr a hc => by
    rcases h.grown.child.mp hc with hold | ⟨-, hn⟩
    · exact hs.orphan hr hold
    · exact hs.present hr (h.grown.fresh hn)
  distinct := h.leafInj hs.distinct

theorem sound {root : Option TileId} (h : Edited tiles tiles' p c news)
    (hs : Tree.Sound ⟨root, tiles⟩) : Tree.Sound ⟨root, tiles'⟩ where
  rootless := fun hroot => absurd (hs.rootless hroot p) h.present
  rooted := fun hroot => (hs.rooted hroot).grow h.grown
  distinct := h.leafInj hs.distinct

theorem hasPane {root : Option TileId} (h : Edited tiles tiles' p c news) {s : SessionId} :
    Tree.HasPane ⟨root, tiles'⟩ s ↔
      s ∈ news.map Prod.snd ∨ ∃ a, a ≠ p ∧ tiles.lookup a = some (.pane s) := by
  constructor
  · rintro ⟨a, ha⟩
    rcases h.pane.mp ha with hnew | hold
    · exact Or.inl (List.mem_map.mpr ⟨_, hnew, rfl⟩)
    · exact Or.inr ⟨a, hold⟩
  · rintro (hnew | ⟨a, hold⟩)
    · obtain ⟨e, he, rfl⟩ := List.mem_map.mp hnew
      exact ⟨e.1, h.new he⟩
    · exact ⟨a, h.pane.mpr (Or.inr hold)⟩

/-- If the pane at `p` is among the new ones, none is lost. -/
theorem carries {root : Option TileId} (h : Edited tiles tiles' p c news)
    (hheld : ∀ {s}, tiles.lookup p = some (.pane s) → s ∈ news.map Prod.snd) {s : SessionId}
    (hs : Tree.Carries ⟨root, tiles⟩ s) : Tree.Carries ⟨root, tiles'⟩ s := by
  obtain ⟨a, ⟨r, hr, hbelow⟩, ha⟩ := hs
  have hbelow' : Below tiles'.arena r a := h.grown.below hbelow
  by_cases hap : a = p
  · subst hap
    obtain ⟨e, he, rfl⟩ := List.mem_map.mp (hheld ha)
    have hnew : Child tiles'.arena a e.1 :=
      h.grown.child.mpr (Or.inr ⟨rfl, List.mem_map.mpr ⟨e, he, rfl⟩⟩)
    exact ⟨e.1, ⟨r, hr, hbelow'.tail hnew⟩, h.new he⟩
  · exact ⟨a, ⟨r, hr, hbelow'⟩, h.pane.mpr (Or.inr ⟨hap, ha⟩)⟩

/-- Where `p` was visible, a new pane it shows is. -/
theorem onActivePath {root : Option TileId} (h : Edited tiles tiles' p c news)
    (hforest : IsForest tiles.arena) (hp : Tree.OnActivePath ⟨root, tiles⟩ p)
    {e : TileId × SessionId} (he : e ∈ news) (hshows : c.shows e.1 = true) :
    Tree.OnActivePath ⟨root, tiles'⟩ e.1 := by
  obtain ⟨r, hr, hpath⟩ := hp
  have hacyc : ¬TransGen (ActiveChild tiles) p p := fun hcycle =>
    hforest.acyclic p (TransGen.mono (fun _ _ hc => hc.child) _ _ hcycle)
  have hagree : ∀ a b, a ≠ p → ActiveChild tiles a b → ActiveChild tiles' a b := by
    rintro a b ha ⟨c', hc', hb, hs⟩
    have hn : a ∉ news.map Prod.fst := by
      intro hn
      obtain ⟨e', he', rfl⟩ := List.mem_map.mp hn
      rw [h.fresh he'] at hc'
      cases hc'
    exact ⟨c', (h.other ha hn).trans hc', hb, hs⟩
  have hmem : e.1 ∈ c.children := by
    rw [h.children]
    exact List.mem_append_right _ (List.mem_map.mpr ⟨e, he, rfl⟩)
  exact ⟨r, hr, (path_agree hacyc hagree hpath).tail ⟨c, h.here, hmem, hshows⟩⟩

/-- No path runs through a pane, so turning one into a container hides
nothing. -/
theorem keepsPath {root : Option TileId} (h : Edited tiles tiles' p c news) {held : SessionId}
    (hp : tiles.lookup p = some (.pane held)) {a : TileId}
    (ha : Tree.OnActivePath ⟨root, tiles⟩ a) : Tree.OnActivePath ⟨root, tiles'⟩ a := by
  obtain ⟨r, hr, hpath⟩ := ha
  refine ⟨r, hr, ReflTransGen.mono ?_ _ _ hpath⟩
  rintro x y ⟨c', hc', hmem, hshows⟩
  have hx : x ≠ p := by
    rintro rfl
    rw [hp] at hc'
    cases hc'
  have hnew : x ∉ news.map Prod.fst := by
    intro hnew
    obtain ⟨e, he, rfl⟩ := List.mem_map.mp hnew
    rw [h.fresh he] at hc'
    cases hc'
  exact ⟨c', (h.other hx hnew).trans hc', hmem, hshows⟩

end Edited

/-- A pane behind the children of a container. -/
theorem edited_append {tiles tiles' : Tiles} {p leaf : TileId} {c₀ c : Container} {s : SessionId}
    (hp : tiles.lookup p = some (.container c₀)) (hleaf : tiles.Unused leaf)
    (hs : ∀ b, tiles.lookup b ≠ some (.pane s))
    (hc : c.children = c₀.children ++ [leaf])
    (hlookup : ∀ a, tiles'.lookup a = if a = p then some (.container c)
      else if a = leaf then some (.pane s) else tiles.lookup a) :
    Edited tiles tiles' p c [(leaf, s)] := by
  have hne : leaf ≠ p := by
    rintro rfl
    cases hleaf.absent.symm.trans hp
  have honly : ∀ {e : TileId × SessionId}, e ∈ [(leaf, s)] → e = (leaf, s) :=
    fun he => List.mem_singleton.mp he
  refine ⟨by rw [hp]; exact nofun, by rw [hlookup, if_pos rfl], ?_, fun he => ?_, fun he => ?_,
    fun he => ?_, fun {a} ha hn => ?_, List.nodup_singleton _, fun he b hb => ?_,
    List.nodup_singleton _⟩
  · rw [children_branch (arena_container hp), hc]
    rfl
  · rw [honly he, hlookup, if_neg hne, if_pos rfl]
  · rw [honly he]
    exact hleaf.absent
  · rw [honly he]
    exact hleaf.unlisted
  · have hne' : a ≠ leaf := fun h => hn (List.mem_singleton.mpr h)
    rw [hlookup, if_neg ha, if_neg hne']
  · rw [honly he] at hb
    exact absurd hb (hs b)

/-- A pane replaced by a container that holds it, at a fresh id, and a new
one. -/
theorem edited_replace {tiles tiles' : Tiles} {p moved leaf : TileId} {c : Container}
    {held s : SessionId} (hp : tiles.lookup p = some (.pane held))
    (hmoved : tiles.Unused moved) (hleaf : tiles.Unused leaf) (hne : moved ≠ leaf)
    (hheld : ∀ b, tiles.lookup b = some (.pane held) → b = p)
    (hs : ∀ b, tiles.lookup b ≠ some (.pane s)) (hc : c.children = [moved, leaf])
    (hlookup : ∀ a, tiles'.lookup a = if a = p then some (.container c)
      else if a = moved then some (.pane held) else if a = leaf then some (.pane s)
      else tiles.lookup a) :
    Edited tiles tiles' p c [(moved, held), (leaf, s)] := by
  have hpm : moved ≠ p := by
    rintro rfl
    cases hmoved.absent.symm.trans hp
  have hpl : leaf ≠ p := by
    rintro rfl
    cases hleaf.absent.symm.trans hp
  have hsame : held ≠ s := by
    rintro rfl
    exact hs p hp
  have hcases : ∀ {e : TileId × SessionId}, e ∈ [(moved, held), (leaf, s)] →
      e = (moved, held) ∨ e = (leaf, s) := fun he => by simpa using he
  refine ⟨by rw [hp]; exact nofun, by rw [hlookup, if_pos rfl], ?_, fun he => ?_, fun he => ?_,
    fun he => ?_, fun {a} ha hn => ?_, by simpa using hne, fun he b hb => ?_, by simpa using hsame⟩
  · rw [children_leaf (arena_leaf.mpr hp), hc]
    rfl
  · rcases hcases he with rfl | rfl
    · rw [hlookup, if_neg hpm, if_pos rfl]
    · rw [hlookup, if_neg hpl, if_neg hne.symm, if_pos rfl]
  · rcases hcases he with rfl | rfl
    · exact hmoved.absent
    · exact hleaf.absent
  · rcases hcases he with rfl | rfl
    · exact hmoved.unlisted
    · exact hleaf.unlisted
  · simp only [List.map_cons, List.map_nil, List.mem_cons, List.not_mem_nil, or_false,
      not_or] at hn
    rw [hlookup, if_neg ha, if_neg hn.1, if_neg hn.2]
  · rcases hcases he with rfl | rfl
    · exact hheld b hb
    · exact absurd hb (hs b)

/-! ## What opening and splitting do -/

/-- `tree'` is `tree` with the pane `s` at the fresh tile `leaf`. -/
structure Added (tree tree' : Tree) (leaf : TileId) (s : SessionId) : Prop where
  loose : tree'.Loose
  sound : tree.Sound → tree'.Sound
  pane : tree'.tiles.lookup leaf = some (.pane s)
  hasPane : ∀ {s'}, tree'.HasPane s' ↔ tree.HasPane s' ∨ s' = s
  carries : ∀ {s'}, tree.Carries s' → tree'.Carries s'

theorem added_append {root : Option TileId} {tiles tiles' : Tiles} {p leaf : TileId}
    {c₀ c : Container} {s : SessionId} (h : Tree.Loose ⟨root, tiles⟩)
    (hp : tiles.lookup p = some (.container c₀)) (hedit : Edited tiles tiles' p c [(leaf, s)]) :
    Added ⟨root, tiles⟩ ⟨root, tiles'⟩ leaf s := by
  refine ⟨hedit.loose h, hedit.sound, hedit.new (List.mem_singleton.mpr rfl), fun {s'} => ?_,
    hedit.carries fun hpane => by rw [hp] at hpane; cases hpane⟩
  rw [hedit.hasPane, or_comm]
  refine or_congr ⟨fun ⟨a, _, ha⟩ => ⟨a, ha⟩, fun ⟨a, ha⟩ => ⟨a, ?_, ha⟩⟩ (by simp)
  rintro rfl
  rw [hp] at ha
  cases ha

section

variable {lib : TileLib} {tree : Tree} {s : SessionId}

/-- An unattached pane changes no children. -/
theorem children_insertPane {tiles : Tiles} {leaf : TileId} (hleaf : tiles.lookup leaf = none)
    (a : TileId) : children (arena (tiles.insert leaf (.pane s))) a = children tiles.arena a := by
  by_cases ha : a = leaf
  · subst ha
    rw [children_leaf (arena_leaf.mpr (AList.lookup_insert _)),
      children_absent (arena_eq_none.mpr hleaf)]
  · simp only [children, arena, AList.lookup_insert_ne ha]

theorem isForest_insertPane {tiles : Tiles} {leaf : TileId} (hleaf : tiles.lookup leaf = none)
    (h : IsForest tiles.arena) : IsForest (arena (tiles.insert leaf (.pane s))) := by
  have hchildren := children_insertPane (s := s) hleaf
  have hchild : Child (arena (tiles.insert leaf (.pane s))) = Child tiles.arena := by
    funext a b
    rw [Child, Child, hchildren]
  refine ⟨fun a => ?_, fun {p q c} hp hq => ?_, fun a => ?_⟩
  · rw [hchild]
    exact h.acyclic a
  · rw [hchild] at hp hq
    exact h.parent_unique hp hq
  · rw [hchildren]
    exact h.children_nodup a

theorem insertPane_pane {tiles : Tiles} {leaf a : TileId} {s' : SessionId}
    (hleaf : tiles.lookup leaf = none) :
    (tiles.insert leaf (.pane s)).lookup a = some (.pane s') ↔
      (a = leaf ∧ s' = s) ∨ tiles.lookup a = some (.pane s') := by
  rw [Table.lookup_insert_ite]
  split
  · rename_i ha
    subst ha
    rw [hleaf]
    simp [eq_comm]
  · rename_i ha
    simp [ha]

/-- With no root, the new pane is the root. -/
theorem added_first {tiles : Tiles} {leaf : TileId} (h : Tree.Loose ⟨none, tiles⟩)
    (hleaf : tiles.Unused leaf) (hs : ∀ b, tiles.lookup b ≠ some (.pane s)) :
    Added ⟨none, tiles⟩ ⟨some leaf, tiles.insert leaf (.pane s)⟩ leaf s := by
  have hforest := isForest_insertPane (s := s) hleaf.absent h.forest
  have hpresent : arena (tiles.insert leaf (.pane s)) leaf ≠ none := by
    rw [arena, AList.lookup_insert]
    exact Option.some_ne_none _
  have hdistinct : LeafInj (arena (tiles.insert leaf (.pane s))) := by
    intro a b x ha hb
    rcases (insertPane_pane hleaf.absent).mp (arena_leaf.mp ha) with ⟨rfl, rfl⟩ | hold <;>
      rcases (insertPane_pane hleaf.absent).mp (arena_leaf.mp hb) with ⟨rfl, hsame⟩ | hold'
    · rfl
    · exact absurd hold' (hs b)
    · exact absurd (hsame ▸ hold) (hs a)
    · exact h.distinct (arena_leaf.mpr hold) (arena_leaf.mpr hold')
  constructor
  case loose =>
    refine ⟨hforest, fun hr => ?_, fun hr a hc => ?_, hdistinct⟩
    · obtain rfl := Option.some.inj hr
      exact hpresent
    · obtain rfl := Option.some.inj hr
      rw [Child, children_insertPane hleaf.absent] at hc
      exact hleaf.unlisted hc
  case sound =>
    intro hsound
    have hempty := hsound.rootless rfl
    refine ⟨fun hnone => absurd hnone (Option.some_ne_none _), fun hr => ?_, hdistinct⟩
    obtain rfl := Option.some.inj hr
    refine ⟨hforest, hpresent, fun {a b} hc => ?_, fun {a} ha => ?_⟩
    · rw [Child, children_insertPane hleaf.absent,
        children_absent (arena_eq_none.mpr (hempty a))] at hc
      cases hc
    · by_cases heq : a = leaf
      · exact heq ▸ .refl
      · rw [arena, AList.lookup_insert_ne heq] at ha
        exact absurd (arena_eq_none.mpr (hempty a)) ha
  case pane => exact AList.lookup_insert _
  case hasPane =>
    intro s'
    constructor
    · rintro ⟨a, ha⟩
      exact ((insertPane_pane hleaf.absent).mp ha).symm.imp (fun hold => ⟨a, hold⟩) And.right
    · rintro (⟨a, ha⟩ | rfl)
      · exact ⟨a, (insertPane_pane hleaf.absent).mpr (Or.inr ha)⟩
      · exact ⟨leaf, AList.lookup_insert _⟩
  case carries =>
    rintro s' ⟨a, ⟨r, hr, -⟩, -⟩
    cases hr

/-- A new group above the root, before a pane is put into it. -/
theorem rerooted_above {tiles : Tiles} {r tabs : TileId} {c : Container} (htabs : tiles.Unused tabs)
    (hc : c.children = [r]) :
    Rerooted tiles.arena (arena (tiles.insert tabs (.container c))) r tabs := by
  refine ⟨?_, fun ha => ?_, arena_eq_none.mpr htabs.absent, htabs.unlisted⟩
  · rw [arena_container (AList.lookup_insert _), hc]
  · rw [arena, arena, AList.lookup_insert_ne ha]

theorem insertContainer_pane {tiles : Tiles} {tabs a : TileId} {c : Container} {s : SessionId}
    (htabs : tiles.lookup tabs = none) :
    (tiles.insert tabs (.container c)).lookup a = some (.pane s) ↔
      tiles.lookup a = some (.pane s) := by
  by_cases ha : a = tabs
  · rw [ha, AList.lookup_insert, htabs]
    simp
  · rw [AList.lookup_insert_ne ha]

/-- With the group above its root a tree is as good as it was. -/
theorem above_loose {tiles : Tiles} {r tabs : TileId} {c : Container}
    (h : Tree.Loose ⟨some r, tiles⟩) (htabs : tiles.Unused tabs) (hc : c.children = [r]) :
    Tree.Loose ⟨some tabs, tiles.insert tabs (.container c)⟩ ∧
      (Tree.Sound ⟨some r, tiles⟩ → Tree.Sound ⟨some tabs, tiles.insert tabs (.container c)⟩) := by
  have hrerooted := rerooted_above htabs hc
  have hpresent : tiles.arena r ≠ none := h.present rfl
  have hdistinct : LeafInj (arena (tiles.insert tabs (.container c))) := by
    intro a b x ha hb
    exact h.distinct (arena_leaf.mpr ((insertContainer_pane htabs.absent).mp (arena_leaf.mp ha)))
      (arena_leaf.mpr ((insertContainer_pane htabs.absent).mp (arena_leaf.mp hb)))
  constructor
  · refine ⟨h.forest.reroot hrerooted hpresent (h.orphan rfl), fun hr => ?_, fun hr => ?_,
      hdistinct⟩
    · obtain rfl := Option.some.inj hr
      rw [hrerooted.node]
      exact Option.some_ne_none _
    · obtain rfl := Option.some.inj hr
      exact hrerooted.orphan hpresent
  · intro hsound
    refine ⟨fun hnone => absurd hnone (Option.some_ne_none _), fun hr => ?_, hdistinct⟩
    obtain rfl := Option.some.inj hr
    exact (hsound.rooted rfl).reroot hrerooted

/-- A pane and the root in a new tab group. -/
theorem added_beside_root {tiles : Tiles} {r leaf tabs : TileId} {t : Tabs}
    (h : Tree.Loose ⟨some r, tiles⟩) (hleaf : tiles.Unused leaf) (htabs : tiles.Unused tabs)
    (hne : tabs ≠ leaf) (hs : ∀ b, tiles.lookup b ≠ some (.pane s)) (ht : t.children = [r, leaf])
    (hactive : t.active = some leaf) :
    Added ⟨some r, tiles⟩
        ⟨some tabs, (tiles.insert leaf (.pane s)).insert tabs (.container (.tabs t))⟩ leaf s ∧
      Tree.OnActivePath
        ⟨some tabs, (tiles.insert leaf (.pane s)).insert tabs (.container (.tabs t))⟩ leaf := by
  -- the group above the root alone, before the pane is put into it
  let above : Tiles := tiles.insert tabs (.container (.tabs ⟨[r], none⟩))
  have hrerooted : Rerooted tiles.arena above.arena r tabs := rerooted_above htabs rfl
  have hpanes : ∀ {a s'}, above.lookup a = some (.pane s') ↔ tiles.lookup a = some (.pane s') :=
    insertContainer_pane htabs.absent
  obtain ⟨hloose, hsound⟩ := above_loose (c := .tabs ⟨[r], none⟩) h htabs rfl
  have hleaf' : above.Unused leaf := by
    refine ⟨(AList.lookup_insert_ne hne.symm).trans hleaf.absent, fun hc => ?_⟩
    rcases hrerooted.child.mp hc with hold | ⟨-, heq⟩
    · exact hleaf.unlisted hold
    · exact h.present rfl (heq ▸ arena_eq_none.mpr hleaf.absent)
  have htabs' : above.lookup tabs = some (.container (.tabs ⟨[r], none⟩)) :=
    AList.lookup_insert _
  have hedit : Edited above ((tiles.insert leaf (.pane s)).insert tabs (.container (.tabs t))) tabs
      (.tabs t) [(leaf, s)] := by
    refine edited_append htabs' hleaf' (fun b hb => hs b (hpanes.mp hb)) ht fun a => ?_
    rw [Table.lookup_insert_ite, Table.lookup_insert_ite, Table.lookup_insert_ite]
    by_cases ha : a = tabs
    · rw [if_pos ha, if_pos ha]
    · rw [if_neg ha, if_neg ha, if_neg ha]
  have hadded := added_append hloose htabs' hedit
  refine ⟨⟨hadded.loose, fun hs => hadded.sound (hsound hs), hadded.pane, fun {s'} => ?_,
    fun {s'} hs' => hadded.carries ?_⟩, ?_⟩
  · rw [hadded.hasPane]
    exact or_congr_left (exists_congr fun a => hpanes)
  · obtain ⟨a, ⟨r', hr', hbelow⟩, ha⟩ := hs'
    obtain rfl := Option.some.inj hr'
    exact ⟨a, ⟨tabs, rfl, hrerooted.below hbelow⟩, hpanes.mpr ha⟩
  · refine hedit.onActivePath hloose.forest ⟨tabs, rfl, .refl⟩ (List.mem_singleton.mpr rfl) ?_
    simp [Container.shows, hactive]

theorem lookup_ne_pane {tree : Tree} (hs : ¬tree.HasPane s) (b : TileId) :
    tree.tiles.lookup b ≠ some (.pane s) := fun hb => hs ⟨b, hb⟩

/-- Two fresh ids in a row. -/
theorem fresh_twice (hlib : lib.Lawful) (tiles : Tiles) (s : SessionId) :
    let moved := lib.freshId (tiles.insert (lib.freshId tiles) (.pane s))
    tiles.Unused moved ∧ moved ≠ lib.freshId tiles := by
  intro moved
  have hfirst := (hlib.fresh tiles).absent
  have hmoved := hlib.fresh (tiles.insert (lib.freshId tiles) (.pane s))
  have hne : moved ≠ lib.freshId tiles := by
    intro heq
    have habsent := hmoved.absent
    rw [show lib.freshId (tiles.insert (lib.freshId tiles) (.pane s)) = _ from heq,
      AList.lookup_insert] at habsent
    cases habsent
  refine ⟨⟨(AList.lookup_insert_ne hne).symm.trans hmoved.absent, fun {a} hc => ?_⟩, hne⟩
  refine hmoved.unlisted (a := a) ?_
  rwa [Child, children_insertPane hfirst]

theorem attachPane_added (hlib : lib.Lawful) (h : tree.Loose) (hs : ¬tree.HasPane s) :
    Added tree (attachPane lib tree s).2 (attachPane lib tree s).1 s ∧
      (attachPane lib tree s).2.OnActivePath (attachPane lib tree s).1 := by
  obtain ⟨root, tiles⟩ := tree
  have hleaf := hlib.fresh tiles
  have hs' := lookup_ne_pane hs
  cases root with
  | none => exact ⟨added_first h hleaf hs', _, rfl, .refl⟩
  | some r =>
      have hr : tiles.lookup r ≠ none := fun hnone => h.present rfl (arena_eq_none.mpr hnone)
      have hne : r ≠ lib.freshId tiles := by
        rintro rfl
        exact hr hleaf.absent
      obtain ⟨htabs, hne'⟩ := fresh_twice hlib tiles s
      have hother := added_beside_root h hleaf htabs hne' hs'
        (t := (Tabs.new [r, lib.freshId tiles]).setActive (lib.freshId tiles)) rfl rfl
      obtain ⟨tile, ht⟩ := Option.ne_none_iff_exists'.mp hr
      simp only [attachPane, TileLib.insertPane, AList.lookup_insert_ne hne, ht]
      cases tile with
      | pane s' => exact hother
      | container c =>
          cases c with
          | linear dir cs => exact hother
          | grid cs => exact hother
          | tabs t =>
              let t' := (t.addChild (lib.freshId tiles)).setActive (lib.freshId tiles)
              let tiles' := (tiles.insert (lib.freshId tiles) (.pane s)).insert r
                (.container (.tabs t'))
              have hedit : Edited tiles tiles' r (.tabs t') [(lib.freshId tiles, s)] := by
                refine edited_append ht hleaf hs' rfl fun a => ?_
                rw [Table.lookup_insert_ite, Table.lookup_insert_ite]
              refine ⟨added_append h ht hedit, ?_⟩
              refine hedit.onActivePath h.forest ⟨r, rfl, .refl⟩ (List.mem_singleton.mpr rfl) ?_
              simp [Container.shows, t', Tabs.setActive]

/-- A pane made a container of itself and a new one. -/
theorem added_replace {tiles' : Tiles} {p moved leaf : TileId} {c : Container} {held : SessionId}
    (h : tree.Loose) (hp : tree.tiles.lookup p = some (.pane held))
    (hedit : Edited tree.tiles tiles' p c [(moved, held), (leaf, s)])
    (hshows : c.shows leaf = true) :
    Added tree ⟨tree.root, tiles'⟩ leaf s ∧
      (tree.OnActivePath p → Tree.OnActivePath ⟨tree.root, tiles'⟩ leaf) := by
  have hleaf : (leaf, s) ∈ [(moved, held), (leaf, s)] := by simp
  have hheld : ∀ {s'}, tree.tiles.lookup p = some (.pane s') →
      s' ∈ [(moved, held), (leaf, s)].map Prod.snd := by
    intro s' hs'
    obtain rfl := Tile.pane.inj (Option.some.inj (hp.symm.trans hs'))
    simp
  refine ⟨⟨hedit.loose h, hedit.sound, hedit.new hleaf, fun {s'} => ?_, hedit.carries hheld⟩,
    fun hpath => hedit.onActivePath h.forest hpath hleaf hshows⟩
  rw [hedit.hasPane]
  constructor
  · rintro (hnew | ⟨a, -, ha⟩)
    · simp only [List.map_cons, List.map_nil, List.mem_cons, List.not_mem_nil, or_false] at hnew
      refine hnew.imp_left ?_
      rintro rfl
      exact ⟨p, hp⟩
    · exact Or.inl ⟨a, ha⟩
  · rintro (⟨a, ha⟩ | rfl)
    · by_cases hap : a = p
      · subst hap
        rw [hp] at ha
        obtain rfl := Tile.pane.inj (Option.some.inj ha)
        exact Or.inl (by simp)
      · exact Or.inr ⟨a, hap, ha⟩
    · exact Or.inl (by simp)

/-- Only `p` holds the instance of the pane at `p`. -/
theorem Tree.Loose.only {p : TileId} {held : SessionId} (h : tree.Loose)
    (hp : tree.tiles.lookup p = some (.pane held)) (b : TileId)
    (hb : tree.tiles.lookup b = some (.pane held)) : b = p :=
  h.distinct (arena_leaf.mpr hb) (arena_leaf.mpr hp)

theorem wrapInTabs_added (hlib : lib.Lawful) (h : tree.Loose) (hs : ¬tree.HasPane s)
    {focused : TileId} {held : SessionId} (hpane : tree.tiles.lookup focused = some (.pane held)) :
    let leaf := lib.freshId tree.tiles
    let tree' := wrapInTabs lib tree (tree.tiles.insert leaf (.pane s)) focused leaf
    Added tree tree' leaf s ∧ (tree.OnActivePath focused → tree'.OnActivePath leaf) := by
  intro leaf tree'
  have hleaf := hlib.fresh tree.tiles
  have hne : focused ≠ leaf := by
    rintro rfl
    cases hleaf.absent.symm.trans hpane
  obtain ⟨hmoved, hmovedne⟩ := fresh_twice hlib tree.tiles s
  have hget : getPane (tree.tiles.insert leaf (.pane s)) focused = some held := by
    rw [getPane_eq_some, AList.lookup_insert_ne hne, hpane]
  let moved := lib.freshId (tree.tiles.insert leaf (.pane s))
  let c : Container := .tabs ((Tabs.new [moved, leaf]).setActive leaf)
  have hshows : c.shows leaf = true := by simp [c, Container.shows, Tabs.setActive]
  simp only [tree', wrapInTabs, hget, TileLib.insertPane]
  refine added_replace h hpane (edited_replace (c := c) hpane hmoved hleaf hmovedne
    (h.only hpane) (lookup_ne_pane hs) rfl fun a => ?_) hshows
  simp only [Table.lookup_insert_ite]
  rfl

/-- The way to a child goes through its parent. -/
theorem onActivePath_parent (h : tree.Loose) {p id : TileId} (hp : Child tree.tiles.arena p id)
    (hid : tree.OnActivePath id) : tree.OnActivePath p := by
  obtain ⟨r, hr, hpath⟩ := hid
  rcases ReflTransGen.cases_tail hpath with rfl | ⟨q, hrq, hq⟩
  · exact absurd hp (h.orphan hr)
  · exact h.forest.parent_unique hq.child hp ▸ ⟨r, hr, hrq⟩

theorem addTabBeside_added (hlib : lib.Lawful) (h : tree.Loose) (hs : ¬tree.HasPane s)
    {focused : TileId} {held : SessionId} (hpane : tree.tiles.lookup focused = some (.pane held)) :
    Added tree (addTabBeside lib tree focused s).2 (addTabBeside lib tree focused s).1 s ∧
      (tree.OnActivePath focused →
        (addTabBeside lib tree focused s).2.OnActivePath (addTabBeside lib tree focused s).1) := by
  obtain ⟨root, tiles⟩ := tree
  have hleaf := hlib.fresh tiles
  have hwrap := wrapInTabs_added hlib h hs hpane
  have hforest := isForest_insertPane (s := s) hleaf.absent h.forest
  simp only [addTabBeside, TileLib.insertPane]
  cases hparent : lib.parentOf (tiles.insert (lib.freshId tiles) (.pane s)) focused with
  | none => exact hwrap
  | some parent =>
      have hchild : Child tiles.arena parent focused := by
        have hnew := (hlib.parent hforest).mp hparent
        rwa [Child, children_insertPane hleaf.absent] at hnew
      have hne : parent ≠ lib.freshId tiles := by
        rintro rfl
        exact hchild.present (arena_eq_none.mpr hleaf.absent)
      obtain ⟨c, hc, -⟩ := child_iff.mp hchild
      simp only [AList.lookup_insert_ne hne, hc]
      cases c with
      | linear dir cs => exact hwrap
      | grid cs => exact hwrap
      | tabs t =>
          let t' := (t.addChild (lib.freshId tiles)).setActive (lib.freshId tiles)
          let tiles' := (tiles.insert (lib.freshId tiles) (.pane s)).insert parent
            (.container (.tabs t'))
          have hedit : Edited tiles tiles' parent (.tabs t') [(lib.freshId tiles, s)] := by
            refine edited_append hc hleaf (lookup_ne_pane hs) rfl fun a => ?_
            rw [Table.lookup_insert_ite, Table.lookup_insert_ite]
          refine ⟨added_append h hc hedit, fun hpath => ?_⟩
          refine hedit.onActivePath h.forest (onActivePath_parent h hchild hpath)
            (List.mem_singleton.mpr rfl) ?_
          simp [Container.shows, t', Tabs.setActive]

theorem splitTile_edited (hlib : lib.Lawful) (h : tree.Loose) (hs : ¬tree.HasPane s)
    {tile : TileId} {held : SessionId} (dir : SplitDir)
    (hpane : tree.tiles.lookup tile = some (.pane held)) :
    ∃ moved c, (∀ id, c.shows id = true) ∧
      Edited tree.tiles (splitTile lib tree held s tile dir).2.tiles tile c
        [(moved, held), ((splitTile lib tree held s tile dir).1, s)] := by
  have hmoved := hlib.fresh tree.tiles
  obtain ⟨hleaf, hne⟩ := fresh_twice hlib tree.tiles held
  let moved := lib.freshId tree.tiles
  let leaf := lib.freshId (tree.tiles.insert moved (.pane held))
  let c : Container := .linear (match dir with | .right => .horizontal | .down => .vertical)
    [moved, leaf]
  refine ⟨moved, c, fun _ => rfl, edited_replace hpane hmoved hleaf hne.symm
    (h.only hpane) (lookup_ne_pane hs) rfl fun a => ?_⟩
  simp only [splitTile, TileLib.insertPane, Table.lookup_insert_ite]
  split
  · rfl
  · by_cases ha : a = moved
    · rw [if_pos ha, if_neg (fun heq => hne (heq.symm.trans ha)), if_pos ha]
    · rw [if_neg ha, if_neg ha]
      rfl

theorem splitTile_added (hlib : lib.Lawful) (h : tree.Loose) (hs : ¬tree.HasPane s)
    {tile : TileId} {held : SessionId} (dir : SplitDir)
    (hpane : tree.tiles.lookup tile = some (.pane held)) :
    Added tree (splitTile lib tree held s tile dir).2 (splitTile lib tree held s tile dir).1 s := by
  obtain ⟨moved, c, hshows, hedit⟩ := splitTile_edited hlib h hs dir hpane
  exact (added_replace h hpane hedit (hshows _)).1

/-- A split hides nothing: what was visible stays so, and where the split pane
was visible both halves are. -/
theorem splitTile_shown (hlib : lib.Lawful) (h : tree.Loose) (hs : ¬tree.HasPane s)
    {tile t : TileId} {held : SessionId} (dir : SplitDir)
    (hpane : tree.tiles.lookup tile = some (.pane held)) (ht : tree.Shown t)
    (hwhere : tree.Shown tile ∨ tree.tiles.lookup t ≠ none) :
    (splitTile lib tree held s tile dir).2.Shown t := by
  obtain ⟨moved, c, hshows, hedit⟩ := splitTile_edited hlib h hs dir hpane
  intro s' hs'
  rcases hedit.pane.mp hs' with hnew | ⟨-, hold⟩
  · rcases hwhere with hshown | hpresent
    · exact hedit.onActivePath h.forest (hshown held hpane) hnew (hshows _)
    · exact absurd (hedit.fresh hnew) hpresent
  · exact hedit.keepsPath hpane (ht s' hold)

/-- Where the split pane was visible, its new half is. -/
theorem splitTile_leaf (hlib : lib.Lawful) (h : tree.Loose) (hs : ¬tree.HasPane s)
    {tile : TileId} {held : SessionId} (dir : SplitDir)
    (hpane : tree.tiles.lookup tile = some (.pane held)) (hshown : tree.Shown tile) :
    (splitTile lib tree held s tile dir).2.OnActivePath
      (splitTile lib tree held s tile dir).1 := by
  obtain ⟨moved, c, hshows, hedit⟩ := splitTile_edited hlib h hs dir hpane
  exact hedit.onActivePath h.forest (hshown held hpane) (e := (_, s)) (by simp) (hshows _)

end

/-! ## Switching tabs -/

/-- A tab group switches to one of its children. -/
def Tree.select (tree : Tree) (group child : TileId) : Tree :=
  match tree.tiles.lookup group with
  | some (.container (.tabs t)) =>
      { tree with tiles := tree.tiles.insert group (.container (.tabs (t.setActive child))) }
  | _ => tree

section

variable {tree : Tree} {group child : TileId}

/-- What is below what does not change. -/
theorem select_arena (tree : Tree) (group child : TileId) :
    (tree.select group child).tiles.arena = tree.tiles.arena := by
  unfold Tree.select
  split
  · rename_i t ht
    funext a
    rw [arena, arena, Table.lookup_insert_ite]
    split
    · rename_i ha
      rw [ha, ht]
      rfl
    · rfl
  · rfl

theorem select_root (tree : Tree) (group child : TileId) :
    (tree.select group child).root = tree.root := by
  unfold Tree.select
  split <;> rfl

end

end PolyTerm

import PolyTerm.ForestEdit
import PolyTerm.Tiles

/-!
# The tile library

The layout tree as the app holds it, and what the app uses of the library
behind it (`egui_tiles`). The library itself is a parameter: `TileLib` has one
field per function of it that the app calls, and `Lawful` is what the app
relies on, stated on well-shaped trees only.

A tab that is closed by its header loses its own tile at once, and what was
below it when the tree is drawn again. In between these tiles are in the
table, with no way to them from the root. So there are two well-shapednesses:
a tree is `Loose` if it is a forest that may have such tiles, and `Sound` if
everything hangs below the root.

`settle` is what drawing the tree does to it before anything is drawn: empty
containers go, nested ones are merged, a bare pane is wrapped in a tab group
(the pane moves to a fresh id, the group takes its old one), and every tab
group makes sure that it has an active child.
-/

namespace PolyTerm

open Forest Relation Tiles

structure Tree where
  root : Option TileId
  tiles : Tiles

namespace Container

/-- The container shows the child: a tab group only its active one. -/
def shows : Container → TileId → Bool
  | .tabs t, id => t.active == some id
  | _, _ => true

end Container

/-- `b` is a child that `a` shows. -/
def ActiveChild (tiles : Tiles) (a b : TileId) : Prop :=
  ∃ c, tiles.lookup a = some (.container c) ∧ b ∈ c.children ∧ c.shows b = true

theorem ActiveChild.child {tiles : Tiles} {a b : TileId} (h : ActiveChild tiles a b) :
    Child tiles.arena a b := by
  obtain ⟨c, hc, hb, -⟩ := h
  exact child_iff.mpr ⟨c, hc, hb⟩

namespace Tree

/-- Every tab group on the way from the root to the tile has the next tile
active. -/
def OnActivePath (tree : Tree) (id : TileId) : Prop :=
  ∃ r, tree.root = some r ∧ ReflTransGen (ActiveChild tree.tiles) r id

/-- If the tile is a pane, it is visible. -/
def Shown (tree : Tree) (id : TileId) : Prop :=
  ∀ s, tree.tiles.lookup id = some (.pane s) → tree.OnActivePath id

/-- The tile hangs below the root. -/
def Reach (tree : Tree) (id : TileId) : Prop :=
  ∃ r, tree.root = some r ∧ Below tree.tiles.arena r id

def HasPane (tree : Tree) (s : SessionId) : Prop := ∃ id, tree.tiles.lookup id = some (.pane s)

/-- A pane below the root holds the instance. -/
def Carries (tree : Tree) (s : SessionId) : Prop :=
  ∃ id, tree.Reach id ∧ tree.tiles.lookup id = some (.pane s)

instance (tree : Tree) (s : SessionId) : Decidable (tree.HasPane s) :=
  decidable_of_iff (∃ e ∈ tree.tiles.entries, e.2 = Tile.pane s)
    ⟨fun ⟨e, he, hs⟩ => ⟨e.1, AList.mem_lookup_iff.mpr (hs ▸ he)⟩,
      fun ⟨id, h⟩ => ⟨⟨id, .pane s⟩, AList.mem_lookup_iff.mp h, rfl⟩⟩

/-- The root has no parent, and no instance is in two panes. Tiles may be cut
off from the root, and a container may list a tile that is gone. -/
structure Loose (tree : Tree) : Prop where
  forest : IsForest tree.tiles.arena
  present : ∀ {r}, tree.root = some r → tree.tiles.arena r ≠ none
  orphan : ∀ {r}, tree.root = some r → ∀ {a}, ¬Child tree.tiles.arena a r
  distinct : LeafInj tree.tiles.arena

/-- Every tile hangs below the root, and no instance is in two panes. -/
structure Sound (tree : Tree) : Prop where
  rootless : tree.root = none → ∀ id, tree.tiles.lookup id = none
  rooted : ∀ {r}, tree.root = some r → IsTree tree.tiles.arena r
  distinct : LeafInj tree.tiles.arena

theorem Sound.forest {tree : Tree} (h : tree.Sound) : IsForest tree.tiles.arena := by
  cases hr : tree.root with
  | some r => exact (h.rooted hr).forest
  | none =>
      have hnone : ∀ {a b}, ¬Child tree.tiles.arena a b := by
        intro a b hab
        exact hab.present (arena_eq_none.mpr (h.rootless hr a))
      refine ⟨fun a hcycle => ?_, fun ha => absurd ha hnone, fun a => ?_⟩
      · obtain ⟨c, hac, -⟩ := TransGen.head'_iff.mp hcycle
        exact hnone hac
      · rw [children_absent (arena_eq_none.mpr (h.rootless hr a))]
        exact List.nodup_nil

theorem Sound.loose {tree : Tree} (h : tree.Sound) : tree.Loose :=
  ⟨h.forest, fun hr => (h.rooted hr).present, fun hr => (h.rooted hr).root_orphan, h.distinct⟩

theorem Loose.wellFormed {tree : Tree} (h : tree.Loose) : WellFormed tree.tiles :=
  ⟨h.forest, h.distinct⟩

theorem OnActivePath.reach {tree : Tree} {id : TileId} (h : tree.OnActivePath id) :
    tree.Reach id := by
  obtain ⟨r, hr, hpath⟩ := h
  exact ⟨r, hr, ReflTransGen.mono (fun _ _ hab => hab.child) _ _ hpath⟩

theorem Carries.hasPane {tree : Tree} {s : SessionId} (h : tree.Carries s) : tree.HasPane s := by
  obtain ⟨id, -, hid⟩ := h
  exact ⟨id, hid⟩

theorem Sound.reach {tree : Tree} (h : tree.Sound) {id : TileId}
    (hid : tree.tiles.lookup id ≠ none) : tree.Reach id := by
  cases hr : tree.root with
  | none => exact absurd (h.rootless hr id) hid
  | some r => exact ⟨r, hr, (h.rooted hr).rooted fun hnone => hid (arena_eq_none.mp hnone)⟩

/-- Where everything hangs below the root, every pane does. -/
theorem Sound.carries_iff {tree : Tree} (h : tree.Sound) {s : SessionId} :
    tree.Carries s ↔ tree.HasPane s := by
  refine ⟨Carries.hasPane, fun ⟨id, hid⟩ => ⟨id, h.reach ?_, hid⟩⟩
  rw [hid]
  exact Option.some_ne_none _

section

variable {tree tree' : Tree} (hroot : tree'.root = tree.root)
  (harena : tree'.tiles.arena = tree.tiles.arena)

include hroot harena

theorem carries_of_arena {s : SessionId} (h : tree.Carries s) : tree'.Carries s := by
  obtain ⟨id, ⟨r, hr, hbelow⟩, hid⟩ := h
  refine ⟨id, ⟨r, hroot.trans hr, by rwa [harena]⟩, ?_⟩
  rwa [← arena_leaf, harena, arena_leaf]

theorem Loose.of_arena (h : tree.Loose) : tree'.Loose where
  forest := by
    rw [harena]
    exact h.forest
  present := fun hr => by
    rw [harena]
    exact h.present (hroot ▸ hr)
  orphan := fun hr => by
    rw [harena]
    exact h.orphan (hroot ▸ hr)
  distinct := by
    rw [harena]
    exact h.distinct

theorem Sound.of_arena (h : tree.Sound) : tree'.Sound where
  rootless := fun hnone a => by
    rw [hroot] at hnone
    rw [← arena_eq_none, harena, arena_eq_none]
    exact h.rootless hnone a
  rooted := fun hr => by
    rw [hroot] at hr
    rw [harena]
    exact h.rooted hr
  distinct := by
    rw [harena]
    exact h.distinct

end

theorem sound_empty : Sound ⟨none, ∅⟩ := by
  refine ⟨fun _ _ => rfl, nofun, fun {a b x} ha => ?_⟩
  cases arena_leaf.mp ha

end Tree

/-! ## The library -/

/-- `tile'` is `tile` after one of its children has been taken out. -/
def Tile.Unlinked (id : TileId) : Tile → Tile → Prop
  | .pane s, tile' => tile' = .pane s
  | .container c, tile' => ∃ c', tile' = .container c' ∧ c'.children = c.children.erase id ∧
      ∀ b, b ≠ id → c.shows b = true → c'.shows b = true

/-- `tile'` is `tile` after one of its children has gone; it may still list
it. -/
def Tile.Loses (id : TileId) : Tile → Tile → Prop
  | .pane s, tile' => tile' = .pane s
  | .container c, tile' => ∃ c', tile' = .container c' ∧
      (c'.children = c.children ∨ c'.children = c.children.erase id) ∧
      ∀ b, b ≠ id → c.shows b = true → c'.shows b = true

/-- No tile has the id, and no container lists it. -/
structure Tiles.Unused (tiles : Tiles) (id : TileId) : Prop where
  absent : tiles.lookup id = none
  unlisted : ∀ {a}, ¬Child tiles.arena a id

structure TileLib where
  /-- the id `insert_pane` and `insert_tab_tile` take -/
  freshId : Tiles → TileId
  parentOf : Tiles → TileId → Option TileId
  /-- the removed tiles, and the tree without them -/
  removeRecursively : Tree → TileId → List Tile × Tree
  /-- what is done once `on_tab_close` has let a tab's tile go -/
  dropTab : Tree → TileId → Tree
  activeTiles : Tree → List TileId
  /-- the ids in the list are spoken for: no id is handed out twice -/
  settle : List TileId → Tree → Tree

namespace TileLib

structure Lawful (lib : TileLib) : Prop where
  fresh : ∀ tiles : Tiles, tiles.Unused (lib.freshId tiles)
  parent : ∀ {tiles : Tiles} {p id}, IsForest tiles.arena →
    (lib.parentOf tiles id = some p ↔ Child tiles.arena p id)
  removed : ∀ {tree : Tree} {id tile}, tree.Loose →
    (tile ∈ (lib.removeRecursively tree id).1 ↔
      ∃ a, Below tree.tiles.arena id a ∧ tree.tiles.lookup a = some tile)
  gone : ∀ {tree : Tree} {id a}, tree.Loose → Below tree.tiles.arena id a →
    (lib.removeRecursively tree id).2.tiles.lookup a = none
  absent : ∀ {tree : Tree} {id a}, tree.Loose → tree.tiles.lookup a = none →
    (lib.removeRecursively tree id).2.tiles.lookup a = none
  stays : ∀ {tree : Tree} {id a tile}, tree.Loose → ¬Below tree.tiles.arena id a →
    tree.tiles.lookup a = some tile → ∃ tile',
      (lib.removeRecursively tree id).2.tiles.lookup a = some tile' ∧ tile.Unlinked id tile'
  root : ∀ {tree : Tree} {id}, tree.Loose → tree.root ≠ some id →
    (lib.removeRecursively tree id).2.root = tree.root
  tab_gone : ∀ {tree : Tree} {id}, tree.Loose → (lib.dropTab tree id).tiles.lookup id = none
  tab_below : ∀ {tree : Tree} {id a}, tree.Loose → Below tree.tiles.arena id a →
    (lib.dropTab tree id).tiles.lookup a = none ∨
      (lib.dropTab tree id).tiles.lookup a = tree.tiles.lookup a
  tab_absent : ∀ {tree : Tree} {id a}, tree.Loose → tree.tiles.lookup a = none →
    (lib.dropTab tree id).tiles.lookup a = none
  tab_stays : ∀ {tree : Tree} {id a tile}, tree.Loose → ¬Below tree.tiles.arena id a →
    tree.tiles.lookup a = some tile → ∃ tile',
      (lib.dropTab tree id).tiles.lookup a = some tile' ∧ tile.Loses id tile'
  tab_root : ∀ {tree : Tree} {id}, tree.Loose → tree.root ≠ some id →
    (lib.dropTab tree id).root = tree.root
  active : ∀ {tree : Tree} {id}, tree.Loose → id ∈ lib.activeTiles tree → tree.OnActivePath id
  settle_sound : ∀ {tree : Tree} {spent}, tree.Loose → (lib.settle spent tree).Sound
  settle_panes : ∀ {tree : Tree} {spent s}, tree.Loose →
    ((lib.settle spent tree).HasPane s ↔ tree.Carries s)
  settle_spent : ∀ {tree : Tree} {spent id s}, tree.Loose → id ∈ spent →
    (lib.settle spent tree).tiles.lookup id = some (.pane s) →
    tree.tiles.lookup id = some (.pane s)
  settle_active : ∀ {tree : Tree} {spent id s}, tree.Loose → tree.OnActivePath id →
    tree.tiles.lookup id = some (.pane s) →
    (lib.settle spent tree).tiles.lookup id = some (.pane s) →
    (lib.settle spent tree).OnActivePath id

/-- A tab that is closed takes everything below it along at once. -/
def DropsSubtree (lib : TileLib) : Prop :=
  ∀ {tree : Tree} {id}, tree.Sound → lib.dropTab tree id = (lib.removeRecursively tree id).2

end TileLib

/-! ## Taking a subtree out -/

/-- The tree without the tile and everything below it; without its root, the
tree is empty. -/
def TileLib.close (lib : TileLib) (tree : Tree) (id : TileId) : Tree :=
  let tree' := (lib.removeRecursively tree id).2
  if tree.root = some id then { tree' with root := none } else tree'

/-- `tree'` is `tree` without the tile `id` and everything below it. -/
structure Cut (tree tree' : Tree) (id : TileId) : Prop where
  loose : tree'.Loose
  sound : tree.Sound → tree'.Sound
  pane : ∀ {a s}, tree'.tiles.lookup a = some (.pane s) ↔
    ¬Below tree.tiles.arena id a ∧ tree.tiles.lookup a = some (.pane s)
  reach : ∀ {a}, tree.Reach a → ¬Below tree.tiles.arena id a → tree'.Reach a
  onActivePath : ∀ {a}, tree.OnActivePath a → ¬Below tree.tiles.arena id a → tree'.OnActivePath a
  old : ∀ {a tile'}, tree'.tiles.lookup a = some tile' →
    ∃ tile, tree.tiles.lookup a = some tile ∧ tile.Unlinked id tile'

section

variable {lib : TileLib} {tree : Tree} {id : TileId}

theorem unlinked_pane_iff {tile tile' : Tile} {s : SessionId} (h : tile.Unlinked id tile') :
    tile' = .pane s ↔ tile = .pane s := by
  cases tile with
  | pane s' => rw [show tile' = .pane s' from h]
  | container c =>
      obtain ⟨c', rfl, -⟩ := h
      exact ⟨nofun, nofun⟩

namespace TileLib.Lawful

/-- A pane that is left was there, outside the subtree. -/
theorem pane_left (hlib : lib.Lawful) (h : tree.Loose) {a : TileId} {s : SessionId} :
    (lib.removeRecursively tree id).2.tiles.lookup a = some (.pane s) ↔
      ¬Below tree.tiles.arena id a ∧ tree.tiles.lookup a = some (.pane s) := by
  by_cases hb : Below tree.tiles.arena id a
  · rw [hlib.gone h hb]
    exact ⟨nofun, fun hleft => absurd hb hleft.1⟩
  · cases ha : tree.tiles.lookup a with
    | none => simp [hlib.absent h ha]
    | some tile =>
        obtain ⟨tile', htile', hun⟩ := hlib.stays h hb ha
        rw [htile', Option.some.injEq, Option.some.injEq, unlinked_pane_iff hun]
        exact ⟨fun heq => ⟨hb, heq⟩, fun hleft => hleft.2⟩

theorem pruned (hlib : lib.Lawful) (h : tree.Loose) :
    Pruned tree.tiles.arena (lib.removeRecursively tree id).2.tiles.arena id := by
  have hchildren : ∀ {a}, ¬Below tree.tiles.arena id a →
      children (lib.removeRecursively tree id).2.tiles.arena a =
        (children tree.tiles.arena a).erase id := by
    intro a hb
    cases ha : tree.tiles.lookup a with
    | none =>
        rw [children_absent (arena_eq_none.mpr ha),
          children_absent (arena_eq_none.mpr (hlib.absent h ha))]
        rfl
    | some tile =>
        obtain ⟨tile', htile', hun⟩ := hlib.stays h hb ha
        cases tile with
        | pane s =>
            rw [children_leaf (arena_leaf.mpr ha), children_leaf (arena_leaf.mpr (hun ▸ htile'))]
            rfl
        | container c =>
            obtain ⟨c', rfl, hc', -⟩ := hun
            rw [children_branch (arena_container ha), children_branch (arena_container htile'), hc']
  refine ⟨fun hb => arena_eq_none.mpr (hlib.gone h hb), fun {a} hb ha => ?_,
    fun ha => arena_eq_none.mpr (hlib.absent h (arena_eq_none.mp ha)), fun {a} hb b => ?_,
    fun {a} hnodup => ?_⟩
  · obtain ⟨tile, htile⟩ := Option.ne_none_iff_exists'.mp fun hnone => ha (arena_eq_none.mpr hnone)
    obtain ⟨tile', htile', -⟩ := hlib.stays h hb htile
    intro hnone
    rw [arena_eq_none.mp hnone] at htile'
    cases htile'
  · rw [hchildren hb, (h.forest.children_nodup a).mem_erase_iff, and_comm]
  · by_cases hb : Below tree.tiles.arena id a
    · rw [children_absent (arena_eq_none.mpr (hlib.gone h hb))]
      exact List.nodup_nil
    · rw [hchildren hb]
      exact hnodup.erase id

theorem close_sound (hlib : lib.Lawful) (h : tree.Sound) : (lib.close tree id).Sound := by
  have hdistinct : LeafInj (lib.removeRecursively tree id).2.tiles.arena := by
    intro a b s ha hb
    exact h.distinct (arena_leaf.mpr ((hlib.pane_left h.loose).mp (arena_leaf.mp ha)).2)
      (arena_leaf.mpr ((hlib.pane_left h.loose).mp (arena_leaf.mp hb)).2)
  have habsent : (∀ a, tree.tiles.lookup a ≠ none → Below tree.tiles.arena id a) →
      ∀ a, (lib.removeRecursively tree id).2.tiles.lookup a = none := by
    intro hall a
    by_cases ha : tree.tiles.lookup a = none
    · exact hlib.absent h.loose ha
    · exact hlib.gone h.loose (hall a ha)
  unfold TileLib.close
  split
  · rename_i hroot
    refine ⟨fun _ => habsent fun a ha => ?_, nofun, hdistinct⟩
    exact (h.rooted hroot).rooted fun hnone => ha (arena_eq_none.mp hnone)
  · rename_i hroot
    have hsame := hlib.root h.loose hroot
    refine ⟨fun hnone => ?_, fun {r} hr => ?_, hdistinct⟩
    · have hempty := h.rootless (hsame.symm.trans hnone)
      exact habsent fun a ha => absurd (hempty a) ha
    · rw [hsame] at hr
      refine (h.rooted hr).prune (hlib.pruned h.loose) ?_
      rintro rfl
      exact hroot hr

theorem close_loose (hlib : lib.Lawful) (h : tree.Loose) : (lib.close tree id).Loose := by
  have hpruned : Pruned tree.tiles.arena (lib.removeRecursively tree id).2.tiles.arena id :=
    hlib.pruned h
  have hforest := h.forest.prune hpruned
  have hdistinct : LeafInj (lib.removeRecursively tree id).2.tiles.arena := by
    intro a b s ha hb
    exact h.distinct (arena_leaf.mpr ((hlib.pane_left h).mp (arena_leaf.mp ha)).2)
      (arena_leaf.mpr ((hlib.pane_left h).mp (arena_leaf.mp hb)).2)
  unfold TileLib.close
  split
  · exact ⟨hforest, nofun, nofun, hdistinct⟩
  · rename_i hroot
    have hsame := hlib.root h hroot
    refine ⟨hforest, fun {r} hr => ?_, fun {r} hr a hc => ?_, hdistinct⟩
    · rw [hsame] at hr
      refine (hlib.pruned h).stays (not_below_orphan (h.orphan hr) ?_) (h.present hr)
      rintro rfl
      exact hroot hr
    · rw [hsame] at hr
      exact h.orphan hr ((hlib.pruned h).child.mp hc).1

/-- The root is not below what is closed, if something else below it is not. -/
theorem root_ne_of_below {r a : TileId} (hr : tree.root = some r)
    (hbelow : Below tree.tiles.arena r a) (hout : ¬Below tree.tiles.arena id a) :
    tree.root ≠ some id := by
  rw [hr]
  intro heq
  obtain rfl := Option.some.inj heq
  exact hout hbelow

/-- What hangs below the root outside the subtree still does. -/
theorem close_reach (hlib : lib.Lawful) (h : tree.Loose) {a : TileId} (ha : tree.Reach a)
    (hout : ¬Below tree.tiles.arena id a) : (lib.close tree id).Reach a := by
  obtain ⟨r, hr, hbelow⟩ := ha
  have hroot := root_ne_of_below hr hbelow hout
  rw [TileLib.close, if_neg hroot]
  exact ⟨r, (hlib.root h hroot).trans hr, (hlib.pruned h).below hbelow hout⟩

/-- A path that stays outside the subtree is still shown. -/
theorem close_onActivePath (hlib : lib.Lawful) (h : tree.Loose) {a : TileId}
    (ha : tree.OnActivePath a) (hout : ¬Below tree.tiles.arena id a) :
    (lib.close tree id).OnActivePath a := by
  obtain ⟨r, hr, hpath⟩ := ha
  have hroot := root_ne_of_below hr
    (ReflTransGen.mono (fun _ _ hab => hab.child) _ _ hpath) hout
  rw [TileLib.close, if_neg hroot]
  refine ⟨r, (hlib.root h hroot).trans hr, path_outside (fun hab => hab.child) ?_ hpath hout⟩
  rintro x y hx hy ⟨c, hc, hmem, hshows⟩
  obtain ⟨tile', htile', c', rfl, hchildren, hkeep⟩ := hlib.stays h hx hc
  refine ⟨c', htile', ?_, hkeep y hy hshows⟩
  rw [hchildren]
  exact (List.mem_erase_of_ne hy).mpr hmem

theorem cut (hlib : lib.Lawful) (h : tree.Loose) (id : TileId) :
    Cut tree (lib.close tree id) id where
  loose := hlib.close_loose h
  sound := hlib.close_sound
  pane := by
    intro a s
    unfold TileLib.close
    split
    · exact hlib.pane_left h
    · exact hlib.pane_left h
  reach := hlib.close_reach h
  onActivePath := hlib.close_onActivePath h
  old := by
    intro a tile' ha'
    have hleft : (lib.removeRecursively tree id).2.tiles.lookup a = some tile' := by
      unfold TileLib.close at ha'
      split at ha'
      · exact ha'
      · exact ha'
    have hout : ¬Below tree.tiles.arena id a := fun hb => by
      rw [hlib.gone h hb] at hleft
      cases hleft
    cases ha : tree.tiles.lookup a with
    | none =>
        rw [hlib.absent h ha] at hleft
        cases hleft
    | some tile =>
        obtain ⟨tile'', htile'', hun⟩ := hlib.stays h hout ha
        obtain rfl := Option.some.inj (htile''.symm.trans hleft)
        exact ⟨tile, rfl, hun⟩

end TileLib.Lawful

/-! ## Letting a tab's tile go -/

/-- `tree'` is `tree` without the tile `id`. What was below it is gone too, or
is cut off from the root. -/
structure Dropped (tree tree' : Tree) (id : TileId) : Prop where
  loose : tree'.Loose
  pane : ∀ {a s}, ¬Below tree.tiles.arena id a →
    tree.tiles.lookup a = some (.pane s) → tree'.tiles.lookup a = some (.pane s)
  old : ∀ {a tile'}, tree'.tiles.lookup a = some tile' →
    ∃ tile, tree.tiles.lookup a = some tile ∧ tile.Loses id tile'
  reach : ∀ {a}, tree.Reach a → ¬Below tree.tiles.arena id a → tree'.Reach a
  left : ∀ {a}, tree'.Reach a → tree'.tiles.lookup a ≠ none →
    tree.Reach a ∧ ¬Below tree.tiles.arena id a
  onActivePath : ∀ {a}, tree.OnActivePath a → ¬Below tree.tiles.arena id a → tree'.OnActivePath a

theorem loses_pane {tile : Tile} {s : SessionId} (h : tile.Loses id (.pane s)) :
    tile = .pane s := by
  cases tile with
  | pane s' => exact h.symm
  | container c =>
      obtain ⟨c', heq, -⟩ := h
      cases heq

theorem loses_refl (id : TileId) (tile : Tile) : tile.Loses id tile := by
  cases tile with
  | pane s => rfl
  | container c => exact ⟨c, rfl, Or.inl rfl, fun _ _ hshows => hshows⟩

theorem unlinked_loses {tile tile' : Tile} (h : tile.Unlinked id tile') : tile.Loses id tile' := by
  cases tile with
  | pane s => exact h
  | container c =>
      obtain ⟨c', heq, hchildren, hshows⟩ := h
      exact ⟨c', heq, Or.inr hchildren, hshows⟩

/-- A pane that is left was there. -/
theorem Dropped.was {tree' : Tree} (hd : Dropped tree tree' id) {a : TileId} {s : SessionId}
    (ha : tree'.tiles.lookup a = some (.pane s)) : tree.tiles.lookup a = some (.pane s) := by
  obtain ⟨tile, htile, hloses⟩ := hd.old ha
  rw [htile, loses_pane hloses]

/-- What was no container has not become one. -/
theorem Dropped.bare {tree' : Tree} (hd : Dropped tree tree' id) {a : TileId}
    (ha : tree.tiles.Bare a) : tree'.tiles.Bare a := by
  intro c hc'
  obtain ⟨tile, htile, hloses⟩ := hd.old hc'
  cases tile with
  | pane s => cases hloses
  | container c => exact ha c htile

namespace TileLib.Lawful

theorem dropTab_children (hlib : lib.Lawful) (h : tree.Loose) (a : TileId) :
    (children (lib.dropTab tree id).tiles.arena a).Sublist (children tree.tiles.arena a) := by
  by_cases hb : Below tree.tiles.arena id a
  · rcases hlib.tab_below h hb with hnone | hsame
    · rw [children_absent (arena_eq_none.mpr hnone)]
      exact List.nil_sublist _
    · have harena : (lib.dropTab tree id).tiles.arena a = tree.tiles.arena a := by
        rw [arena, arena, hsame]
      rw [children, children, harena]
  · cases ha : tree.tiles.lookup a with
    | none =>
        rw [children_absent (arena_eq_none.mpr (hlib.tab_absent h ha))]
        exact List.nil_sublist _
    | some tile =>
        obtain ⟨tile', htile', hloses⟩ := hlib.tab_stays h hb ha
        cases tile with
        | pane s =>
            rw [children_leaf (arena_leaf.mpr (hloses ▸ htile'))]
            exact List.nil_sublist _
        | container c =>
            obtain ⟨c', rfl, hsame | herased, -⟩ := hloses
            · rw [children_branch (arena_container htile'), children_branch (arena_container ha),
                hsame]
            · rw [children_branch (arena_container htile'), children_branch (arena_container ha),
                herased]
              exact List.erase_sublist

theorem dropTab_old (hlib : lib.Lawful) (h : tree.Loose) {a : TileId} {tile' : Tile}
    (ha' : (lib.dropTab tree id).tiles.lookup a = some tile') :
    ∃ tile, tree.tiles.lookup a = some tile ∧ tile.Loses id tile' := by
  by_cases hb : Below tree.tiles.arena id a
  · rcases hlib.tab_below h hb with hnone | hsame
    · rw [hnone] at ha'
      cases ha'
    · exact ⟨tile', hsame.symm.trans ha', loses_refl id tile'⟩
  · cases ha : tree.tiles.lookup a with
    | none =>
        rw [hlib.tab_absent h ha] at ha'
        cases ha'
    | some tile =>
        obtain ⟨tile'', htile'', hloses⟩ := hlib.tab_stays h hb ha
        obtain rfl := Option.some.inj (htile''.symm.trans ha')
        exact ⟨tile, rfl, hloses⟩

/-- A container outside the subtree still lists and shows its other
children. -/
theorem dropTab_child (hlib : lib.Lawful) (h : tree.Loose) {a b : TileId} {c : Container}
    (hout : ¬Below tree.tiles.arena id a) (hb : b ≠ id)
    (ha : tree.tiles.lookup a = some (.container c)) (hmem : b ∈ c.children) :
    ∃ c', (lib.dropTab tree id).tiles.lookup a = some (.container c') ∧ b ∈ c'.children ∧
      (c.shows b = true → c'.shows b = true) := by
  obtain ⟨tile', htile', c', rfl, hsame | herased, hshows⟩ := hlib.tab_stays h hout ha
  · exact ⟨c', htile', hsame ▸ hmem, hshows b hb⟩
  · refine ⟨c', htile', ?_, hshows b hb⟩
    rw [herased]
    exact (List.mem_erase_of_ne hb).mpr hmem

theorem dropTab_sub (hlib : lib.Lawful) (h : tree.Loose) {a b : TileId}
    (hc : Child (lib.dropTab tree id).tiles.arena a b) : Child tree.tiles.arena a b :=
  (hlib.dropTab_children h a).subset hc

theorem dropTab_loose (hlib : lib.Lawful) (h : tree.Loose) (hroot : tree.root ≠ some id) :
    (lib.dropTab tree id).Loose := by
  have hsame := hlib.tab_root h hroot
  refine ⟨h.forest.thin (hlib.dropTab_sub h) fun a => ?_, fun {r} hr => ?_, fun {r} hr a hc => ?_,
    fun {a b s} ha hb => ?_⟩
  · exact (hlib.dropTab_children h a).nodup (h.forest.children_nodup a)
  · rw [hsame] at hr
    obtain ⟨tile, htile⟩ := Option.ne_none_iff_exists'.mp
      fun hnone => h.present hr (arena_eq_none.mpr hnone)
    have hout : ¬Below tree.tiles.arena id r :=
      not_below_orphan (h.orphan hr) (by rintro rfl; exact hroot hr)
    obtain ⟨tile', htile', -⟩ := hlib.tab_stays h hout htile
    intro hnone
    rw [arena_eq_none.mp hnone] at htile'
    cases htile'
  · rw [hsame] at hr
    exact h.orphan hr (hlib.dropTab_sub h hc)
  · obtain ⟨tile, htile, hloses⟩ := hlib.dropTab_old h (arena_leaf.mp ha)
    obtain ⟨tile₂, htile₂, hloses₂⟩ := hlib.dropTab_old h (arena_leaf.mp hb)
    rw [loses_pane hloses] at htile
    rw [loses_pane hloses₂] at htile₂
    exact h.distinct (arena_leaf.mpr htile) (arena_leaf.mpr htile₂)

/-- What still hangs below the root was there before, and not below the tile. -/
theorem dropTab_left (hlib : lib.Lawful) (h : tree.Loose) (hroot : tree.root ≠ some id)
    {a : TileId} (ha : (lib.dropTab tree id).Reach a)
    (hpresent : (lib.dropTab tree id).tiles.lookup a ≠ none) :
    tree.Reach a ∧ ¬Below tree.tiles.arena id a := by
  obtain ⟨r, hr, hbelow⟩ := ha
  rw [hlib.tab_root h hroot] at hr
  have hchildless : ∀ {b}, ¬Child (lib.dropTab tree id).tiles.arena id b := by
    intro b hc
    rw [Child, children_absent (arena_eq_none.mpr (hlib.tab_gone h))] at hc
    cases hc
  have hout : ¬Below tree.tiles.arena id r :=
    not_below_orphan (h.orphan hr) (by rintro rfl; exact hroot hr)
  refine ⟨⟨r, hr, ReflTransGen.mono (fun _ _ hc => hlib.dropTab_sub h hc) _ _ hbelow⟩, ?_⟩
  refine not_below_cut h.forest (hlib.dropTab_sub h) hchildless hout hbelow ?_
  rintro rfl
  exact hpresent (hlib.tab_gone h)

theorem dropped (hlib : lib.Lawful) (h : tree.Loose) (hroot : tree.root ≠ some id) :
    Dropped tree (lib.dropTab tree id) id where
  loose := hlib.dropTab_loose h hroot
  pane := by
    intro a s hout ha
    obtain ⟨tile', htile', hloses⟩ := hlib.tab_stays h hout ha
    exact hloses ▸ htile'
  old := hlib.dropTab_old h
  reach := by
    rintro a ⟨r, hr, hbelow⟩ hout
    refine ⟨r, (hlib.tab_root h hroot).trans hr, path_outside (fun hc => hc) ?_ hbelow hout⟩
    intro x y hx hy hc
    obtain ⟨c, hc, hmem⟩ := child_iff.mp hc
    obtain ⟨c', hc', hmem', -⟩ := hlib.dropTab_child h hx hy hc hmem
    exact child_iff.mpr ⟨c', hc', hmem'⟩
  left := hlib.dropTab_left h hroot
  onActivePath := by
    rintro a ⟨r, hr, hpath⟩ hout
    refine ⟨r, (hlib.tab_root h hroot).trans hr,
      path_outside (fun hab => hab.child) ?_ hpath hout⟩
    rintro x y hx hy ⟨c, hc, hmem, hshows⟩
    obtain ⟨c', hc', hmem', hshows'⟩ := hlib.dropTab_child h hx hy hc hmem
    exact ⟨c', hc', hmem', hshows' hshows⟩

end TileLib.Lawful

end

end PolyTerm

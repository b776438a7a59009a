import PolyTerm.Forest
import PolyTerm.Table

/-!
# The tile tree

The layout tree of the content area (`egui_tiles`): tiles live in a table
keyed by tile id, a container lists the ids of its children, and the leaves
are pane *instance* ids. A `Tabs` container shows the child it has marked
active; linear and grid containers show every child.

`arena` reads the table as an arena forest, so the well-formedness of a tile
table is that of its forest, and a tile's subtree is `Below`.
-/

namespace PolyTerm

open Forest

/-- A pane instance's identity, minted fresh per open. -/
structure SessionId where
  uuid : Nat
deriving DecidableEq, Repr

structure TileId where
  raw : Nat
deriving DecidableEq, Repr

structure Tabs where
  children : List TileId
  active : Option TileId
deriving DecidableEq, Repr

inductive LinearDir where
  | horizontal
  | vertical
deriving DecidableEq, Repr

inductive Container where
  | tabs (t : Tabs)
  | linear (dir : LinearDir) (children : List TileId)
  | grid (children : List TileId)
deriving DecidableEq, Repr

inductive Tile where
  | pane (session : SessionId)
  | container (c : Container)
deriving DecidableEq, Repr

abbrev Tiles := Table TileId Tile

def Container.children : Container → List TileId
  | .tabs t => t.children
  | .linear _ cs => cs
  | .grid cs => cs

/-- A container's node in the arena lists its children, a pane's carries its
instance. -/
def Tile.node : Tile → Node TileId SessionId
  | .pane s => .leaf s
  | .container c => .branch c.children

def Tile.children : Tile → List TileId
  | .pane _ => []
  | .container c => c.children

def Tile.session : Tile → Option SessionId
  | .pane s => some s
  | .container _ => none

namespace Tiles

def arena (tiles : Tiles) : Arena TileId SessionId :=
  fun id => (tiles.lookup id).map Tile.node

/-- The instance a pane tile holds. -/
def getPane (tiles : Tiles) (id : TileId) : Option SessionId :=
  match tiles.lookup id with
  | some (.pane s) => some s
  | _ => none

def isPane (tiles : Tiles) (id : TileId) : Bool := (tiles.getPane id).isSome

/-- The tile is no container: a pane, or gone. -/
def Bare (tiles : Tiles) (id : TileId) : Prop := ∀ c, tiles.lookup id ≠ some (.container c)

/-- Beyond the number of tiles, fuel changes nothing. -/
def fuel (tiles : Tiles) : Nat := tiles.keys.length + 1

end Tiles

open Tiles

/-- No cycles, at most one parent per tile, no child twice, and no instance in
two panes. -/
structure WellFormed (tiles : Tiles) : Prop where
  forest : IsForest tiles.arena
  distinct : LeafInj tiles.arena

theorem getPane_eq_some {tiles : Tiles} {id : TileId} {s : SessionId} :
    tiles.getPane id = some s ↔ tiles.lookup id = some (.pane s) := by
  unfold getPane
  split <;> simp_all

theorem arena_leaf {tiles : Tiles} {id : TileId} {s : SessionId} :
    tiles.arena id = some (.leaf s) ↔ tiles.lookup id = some (.pane s) := by
  rw [arena, Option.map_eq_some_iff]
  constructor
  · rintro ⟨_ | _, h, hn⟩ <;> cases hn
    exact h
  · exact fun h => ⟨_, h, rfl⟩

theorem bare_of_isPane {tiles : Tiles} {id : TileId} (h : tiles.isPane id = true) :
    tiles.Bare id := by
  obtain ⟨s, hs⟩ := Option.isSome_iff_exists.mp h
  intro c hc
  rw [getPane_eq_some.mp hs] at hc
  cases hc

theorem Tiles.Bare.children {tiles : Tiles} {id : TileId} (h : tiles.Bare id) :
    children tiles.arena id = [] := by
  cases hid : tiles.lookup id with
  | none => exact children_absent (by rw [arena, hid]; rfl)
  | some tile =>
      cases tile with
      | pane s => exact children_leaf (arena_leaf.mpr hid)
      | container c => exact absurd hid (h c)

theorem Tiles.Bare.of_arena {tiles tiles' : Tiles} {id : TileId} (h : tiles.Bare id)
    (harena : tiles'.arena = tiles.arena) : tiles'.Bare id := by
  intro c hc
  have hnode : tiles.arena id = some (.branch c.children) := by
    rw [← harena, arena, hc]
    rfl
  obtain ⟨tile, htile, hbranch⟩ := Option.map_eq_some_iff.mp hnode
  cases tile with
  | pane s => cases hbranch
  | container c' => exact h c' htile

theorem arena_container {tiles : Tiles} {id : TileId} {c : Container}
    (h : tiles.lookup id = some (.container c)) :
    tiles.arena id = some (.branch c.children) := by
  rw [arena, h]; rfl

theorem arena_eq_none {tiles : Tiles} {id : TileId} :
    tiles.arena id = none ↔ tiles.lookup id = none := by
  rw [arena, Option.map_eq_none_iff]

theorem child_iff {tiles : Tiles} {a b : TileId} :
    Child tiles.arena a b ↔
      ∃ c, tiles.lookup a = some (.container c) ∧ b ∈ c.children := by
  constructor
  · intro h
    obtain ⟨cs, hcs, hb⟩ := h.branch
    rw [arena, Option.map_eq_some_iff] at hcs
    obtain ⟨_ | c, hc, hn⟩ := hcs <;> cases hn
    exact ⟨c, hc, hb⟩
  · rintro ⟨c, hc, hb⟩
    rwa [Child, children_branch (arena_container hc)]

/-- The tiles present, as the finite support of the arena. -/
def support (tiles : Tiles) : Finset TileId := tiles.keys.toFinset

theorem mem_support {tiles : Tiles} (id : TileId) (h : tiles.arena id ≠ none) :
    id ∈ support tiles := by
  rw [ne_eq, arena_eq_none, AList.lookup_eq_none, not_not] at h
  exact List.mem_toFinset.mpr (AList.mem_keys.mp h)

theorem support_lt_fuel (tiles : Tiles) : (support tiles).card < tiles.fuel :=
  Nat.lt_succ_of_le (List.toFinset_card_le _)

/-- A checkable form: every child is listed once in the whole table, every
instance sits in one pane, and some depth grows along every edge. -/
theorem wellFormed_of_depth {tiles : Tiles} (depth : TileId → Nat)
    (hdepth : ∀ e ∈ tiles.entries, ∀ c ∈ e.2.children, depth e.1 < depth c)
    (hchildren : (tiles.entries.flatMap fun e => e.2.children).Nodup)
    (hpanes : (tiles.entries.filterMap fun e => e.2.session).Nodup) : WellFormed tiles := by
  have hentry : ∀ {a t}, tiles.lookup a = some t → ⟨a, t⟩ ∈ tiles.entries :=
    fun h => AList.mem_lookup_iff.mp h
  obtain ⟨hnodup, hapart⟩ := List.nodup_flatMap.mp hchildren
  have hsymm : Std.Symm (Function.onFun List.Disjoint
      fun e : (_ : TileId) × Tile => e.2.children) := ⟨fun _ _ h => h.symm⟩
  have hsymm' : Std.Symm fun e f : (_ : TileId) × Tile =>
      ∀ s, e.2.session = some s → ∀ s', f.2.session = some s' → s ≠ s' :=
    ⟨fun _ _ h s hs s' hs' => (h s' hs' s hs).symm⟩
  refine ⟨⟨acyclic_of_depth depth fun {a b} hab => ?_, fun {p q c} hp hq => ?_,
    fun a => ?_⟩, fun {a b s} ha hb => ?_⟩
  · obtain ⟨c, hc, hb⟩ := child_iff.mp hab
    exact hdepth _ (hentry hc) b hb
  · obtain ⟨cp, hcp, hmp⟩ := child_iff.mp hp
    obtain ⟨cq, hcq, hmq⟩ := child_iff.mp hq
    by_contra hne
    have hdisj := hapart.forall (hentry hcp) (hentry hcq) fun h => hne (congrArg Sigma.fst h)
    exact hdisj hmp hmq
  · cases ha : tiles.lookup a with
    | none => rw [children_absent (arena_eq_none.mpr ha)]; exact List.nodup_nil
    | some t =>
        cases t with
        | pane s => rw [children_leaf (arena_leaf.mpr ha)]; exact List.nodup_nil
        | container c =>
            rw [children_branch (arena_container ha)]
            exact hnodup _ (hentry ha)
  · by_contra hne
    have hdiff := (List.pairwise_filterMap.mp hpanes).forall (hentry (arena_leaf.mp ha))
      (hentry (arena_leaf.mp hb)) fun h => hne (congrArg Sigma.fst h)
    exact hdiff s rfl s rfl rfl

end PolyTerm

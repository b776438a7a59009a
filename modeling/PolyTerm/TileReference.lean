import Mathlib.Data.List.MinMax
import PolyTerm.Recipients
import PolyTerm.TileSurgery

/-!
# A tile library

A library that the layout rules can be run with: fresh ids above every id in
use, removal that unlinks the tile from its parent, a tab's tile that goes
alone when the tab is closed, and of settling the two parts that matter to
panes: what hangs below the root is all that stays, and bare panes are wrapped
in tab groups.
-/

namespace PolyTerm

open Forest Relation Tiles

namespace TileReference

/-! ## The functions -/

/-- The ids in the table, as keys or as children. -/
def idsIn (tiles : Tiles) : List TileId :=
  tiles.keys ++ tiles.entries.flatMap fun e => e.2.children

/-- Above every id in use, and every one in `spent`. -/
def freshAvoiding (spent : List TileId) (tiles : Tiles) : TileId :=
  ⟨((idsIn tiles ++ spent).map TileId.raw).foldr max 0 + 1⟩

def parentOf (tiles : Tiles) (id : TileId) : Option TileId :=
  (tiles.entries.find? fun e => decide (id ∈ e.2.children)).map Sigma.fst

def unlinkContainer (id : TileId) : Container → Container
  | .tabs t =>
      let children := t.children.erase id
      .tabs ⟨children, if t.active = some id then children.head? else t.active⟩
  | .linear dir cs => .linear dir (cs.erase id)
  | .grid cs => .grid (cs.erase id)

def unlink (id : TileId) : Tile → Tile
  | .pane s => .pane s
  | .container c => .container (unlinkContainer id c)

def removeRecursively (tree : Tree) (id : TileId) : List Tile × Tree :=
  let below (a : TileId) : Bool := subtreeContains tree.tiles tree.tiles.fuel id a
  let removed := tree.tiles.entries.filter fun e => below e.1
  (removed.map Sigma.snd,
    { tree with
      tiles := Table.mapValues (fun _ => unlink id)
        (Table.retain (fun a _ => !below a) tree.tiles) })

/-- The tile alone goes; what was below it, and its parent's list, stay. -/
def dropTab (tree : Tree) (id : TileId) : Tree := { tree with tiles := tree.tiles.erase id }

/-- The tiles shown below `a`. -/
def activeFrom (tiles : Tiles) : Nat → TileId → List TileId
  | 0, _ => []
  | n + 1, a =>
      a :: match tiles.lookup a with
        | some (.container c) => (c.children.filter c.shows).flatMap (activeFrom tiles n)
        | _ => []

def activeTiles (tree : Tree) : List TileId :=
  tree.root.elim [] (activeFrom tree.tiles tree.tiles.fuel)

/-- The tile is a pane that no tab group holds. -/
def bare (tiles : Tiles) (id : TileId) : Option SessionId :=
  match (parentOf tiles id).bind tiles.lookup with
  | some (.container (.tabs _)) => none
  | _ => tiles.getPane id

/-- Wrap a bare pane in a tab group of its own. -/
def wrapBare (spent : List TileId) (tree : Tree) (id : TileId) : Tree :=
  match bare tree.tiles id with
  | none => tree
  | some s =>
      let moved := freshAvoiding spent tree.tiles
      { tree with
        tiles := (tree.tiles.insert moved (.pane s)).insert id
          (.container (.tabs (Tabs.new [moved]))) }

def trimContainer (tiles : Tiles) : Container → Container
  | .tabs t => .tabs { t with children := t.children.filter fun c => (tiles.lookup c).isSome }
  | .linear dir cs => .linear dir (cs.filter fun c => (tiles.lookup c).isSome)
  | .grid cs => .grid (cs.filter fun c => (tiles.lookup c).isSome)

/-- Without the children that are not there. -/
def trim (tiles : Tiles) : Tile → Tile
  | .pane s => .pane s
  | .container c => .container (trimContainer tiles c)

def reaches (tree : Tree) (id : TileId) : Bool :=
  tree.root.any fun r => subtreeContains tree.tiles tree.tiles.fuel r id

/-- What hangs below the root. -/
def sweep (tree : Tree) : Tree :=
  { tree with
    tiles := Table.mapValues (fun _ => trim tree.tiles) <|
      Table.retain (fun id _ => reaches tree id) tree.tiles }

def settle (spent : List TileId) (tree : Tree) : Tree :=
  let tree := sweep tree
  tree.tiles.keys.foldl (wrapBare spent) tree

end TileReference

/-- The reference library. -/
def tileReference : TileLib where
  freshId := TileReference.freshAvoiding []
  parentOf := TileReference.parentOf
  removeRecursively := TileReference.removeRecursively
  dropTab := TileReference.dropTab
  activeTiles := TileReference.activeTiles
  settle := TileReference.settle

/-! ## Its laws -/

namespace TileReference

variable {tree : Tree} {id : TileId} {spent : List TileId}

theorem freshAvoiding_not_mem (spent : List TileId) (tiles : Tiles) :
    freshAvoiding spent tiles ∉ idsIn tiles ++ spent := by
  intro hmem
  have hle : (freshAvoiding spent tiles).raw ≤
      ((idsIn tiles ++ spent).map TileId.raw).foldr max 0 :=
    List.le_max_of_le' 0 (List.mem_map.mpr ⟨_, hmem, rfl⟩) le_rfl
  exact absurd hle (Nat.not_succ_le_self _)

theorem freshAvoiding_fresh (spent : List TileId) (tiles : Tiles) :
    tiles.Unused (freshAvoiding spent tiles) := by
  have hnot : freshAvoiding spent tiles ∉ idsIn tiles :=
    fun hmem => freshAvoiding_not_mem spent tiles (List.mem_append_left _ hmem)
  constructor
  · rw [AList.lookup_eq_none, AList.mem_keys]
    exact fun hmem => hnot (List.mem_append_left _ hmem)
  · intro a hc
    obtain ⟨c, hc, hmem⟩ := child_iff.mp hc
    refine hnot (List.mem_append_right _ (List.mem_flatMap.mpr ⟨⟨a, .container c⟩, ?_, hmem⟩))
    exact AList.mem_lookup_iff.mp hc

theorem tile_children_iff {tiles : Tiles} {p id : TileId} :
    Child tiles.arena p id ↔ ∃ t, tiles.lookup p = some t ∧ id ∈ t.children := by
  rw [child_iff]
  constructor
  · rintro ⟨c, hc, hid⟩
    exact ⟨_, hc, hid⟩
  · rintro ⟨_ | c, ht, hid⟩
    · cases hid
    · exact ⟨c, ht, hid⟩

theorem parentOf_iff {tiles : Tiles} (h : IsForest tiles.arena) {p id : TileId} :
    parentOf tiles id = some p ↔ Child tiles.arena p id := by
  have hentry : ∀ {a t}, tiles.lookup a = some t ↔ (⟨a, t⟩ : Σ _ : TileId, Tile) ∈ tiles.entries :=
    AList.mem_lookup_iff
  have hsound : ∀ {q}, parentOf tiles id = some q → Child tiles.arena q id := by
    intro q hq
    obtain ⟨⟨q', t⟩, hfind, rfl⟩ := Option.map_eq_some_iff.mp hq
    exact tile_children_iff.mpr
      ⟨t, hentry.mpr (List.mem_of_find?_eq_some hfind), by simpa using List.find?_some hfind⟩
  refine ⟨hsound, fun hp => ?_⟩
  obtain ⟨t, ht, hid⟩ := tile_children_iff.mp hp
  cases hq : parentOf tiles id with
  | some q => rw [h.parent_unique (hsound hq) hp]
  | none =>
      have hnone := List.find?_eq_none.mp (Option.map_eq_none_iff.mp hq) _ (hentry.mp ht)
      exact absurd (decide_eq_true hid) hnone

theorem unlink_unlinked (id : TileId) (tile : Tile) : tile.Unlinked id (unlink id tile) := by
  cases tile with
  | pane s => rfl
  | container c =>
      refine ⟨unlinkContainer id c, rfl, ?_, fun b hb hshows => ?_⟩
      · cases c <;> rfl
      · cases c with
        | linear dir cs => rfl
        | grid cs => rfl
        | tabs t =>
            simp only [Container.shows, beq_iff_eq] at hshows
            simp [unlinkContainer, Container.shows, hshows, hb]

theorem removeRecursively_lookup (h : tree.Loose) (id a : TileId) :
    (Below tree.tiles.arena id a ∧ (removeRecursively tree id).2.tiles.lookup a = none) ∨
      (¬Below tree.tiles.arena id a ∧ (removeRecursively tree id).2.tiles.lookup a =
        (tree.tiles.lookup a).map (unlink id)) := by
  have hiff : subtreeContains tree.tiles tree.tiles.fuel id a = true ↔
      Below tree.tiles.arena id a :=
    subtreeContains_iff h.wellFormed
  simp only [removeRecursively, Table.lookup_mapValues]
  by_cases hb : Below tree.tiles.arena id a
  · refine Or.inl ⟨hb, ?_⟩
    rw [Option.map_eq_none_iff, Option.eq_none_iff_forall_ne_some]
    intro t ht
    simp [Table.lookup_retain, hiff.mpr hb] at ht
  · refine Or.inr ⟨hb, congrArg _ ?_⟩
    have hfalse : subtreeContains tree.tiles tree.tiles.fuel id a = false := by
      rw [← Bool.not_eq_true, hiff]
      exact hb
    ext t
    simp [Table.lookup_retain, hfalse]

theorem activeFrom_sound {tiles : Tiles} : ∀ {n : Nat} {a b : TileId},
    b ∈ activeFrom tiles n a → ReflTransGen (ActiveChild tiles) a b
  | 0, _, _, h => by cases h
  | n + 1, a, b, h => by
      rcases List.mem_cons.mp h with rfl | hrest
      · exact .refl
      · split at hrest
        · rename_i c hc
          obtain ⟨d, hd, hb⟩ := List.mem_flatMap.mp hrest
          obtain ⟨hmem, hshows⟩ := List.mem_filter.mp hd
          exact .head ⟨c, hc, hmem, hshows⟩ (activeFrom_sound hb)
        · cases hrest

theorem bare_pane {tiles : Tiles} {s : SessionId} (h : bare tiles id = some s) :
    tiles.lookup id = some (.pane s) := by
  unfold bare at h
  split at h
  · cases h
  · exact getPane_eq_some.mp h

theorem wrapBare_edited (spent : List TileId) (h : tree.Sound) {s : SessionId}
    (hbare : bare tree.tiles id = some s) :
    Edited tree.tiles (wrapBare spent tree id).tiles id
      (.tabs (Tabs.new [freshAvoiding spent tree.tiles])) [(freshAvoiding spent tree.tiles, s)] := by
  have hpane := bare_pane hbare
  have hfresh := freshAvoiding_fresh spent tree.tiles
  have hne : freshAvoiding spent tree.tiles ≠ id := by
    intro heq
    cases hfresh.absent.symm.trans (heq ▸ hpane)
  have honly : ∀ {e : TileId × SessionId}, e ∈ [(freshAvoiding spent tree.tiles, s)] →
      e = (freshAvoiding spent tree.tiles, s) := fun he => List.mem_singleton.mp he
  have hlookup : ∀ a, (wrapBare spent tree id).tiles.lookup a =
      if a = id then some (.container (.tabs (Tabs.new [freshAvoiding spent tree.tiles])))
      else if a = freshAvoiding spent tree.tiles then some (.pane s) else tree.tiles.lookup a := by
    intro a
    simp only [wrapBare, hbare, Table.lookup_insert_ite]
  refine ⟨by rw [hpane]; exact nofun, by rw [hlookup, if_pos rfl], ?_, fun he => ?_, fun he => ?_,
    fun he => ?_, fun {a} ha hn => ?_, List.nodup_singleton _, fun he b hb => ?_,
    List.nodup_singleton _⟩
  · rw [children_leaf (arena_leaf.mpr hpane)]
    rfl
  · rw [honly he, hlookup, if_neg hne, if_pos rfl]
  · rw [honly he]
    exact hfresh.absent
  · rw [honly he]
    exact hfresh.unlisted
  · rw [hlookup, if_neg ha, if_neg fun heq => hn (List.mem_singleton.mpr heq)]
  · rw [honly he] at hb
    exact h.loose.only hpane b hb

theorem wrapBare_sound (h : tree.Sound) (id : TileId) : (wrapBare spent tree id).Sound := by
  cases hbare : bare tree.tiles id with
  | none =>
      rw [wrapBare, hbare]
      exact h
  | some s =>
      have hroot : (wrapBare spent tree id).root = tree.root := by rw [wrapBare, hbare]
      have hsound : Tree.Sound ⟨tree.root, (wrapBare spent tree id).tiles⟩ :=
        (wrapBare_edited spent h hbare).sound h
      rw [← hroot] at hsound
      exact hsound

theorem wrapBare_hasPane (h : tree.Sound) (id : TileId) {s : SessionId} :
    (wrapBare spent tree id).HasPane s ↔ tree.HasPane s := by
  cases hbare : bare tree.tiles id with
  | none => rw [wrapBare, hbare]
  | some held =>
      have hedit := wrapBare_edited spent h hbare
      have hpane := bare_pane hbare
      have hmem : s ∈ [(freshAvoiding spent tree.tiles, held)].map Prod.snd ↔ s = held := by simp
      refine hedit.hasPane.trans ?_
      rw [hmem]
      constructor
      · rintro (rfl | ⟨a, -, ha⟩)
        · exact ⟨id, hpane⟩
        · exact ⟨a, ha⟩
      · rintro ⟨a, ha⟩
        by_cases haid : a = id
        · subst haid
          rw [hpane] at ha
          exact Or.inl (Tile.pane.inj (Option.some.inj ha)).symm
        · exact Or.inr ⟨a, haid, ha⟩

theorem wrapBare_onActivePath (h : tree.Sound) (id : TileId) {a : TileId}
    (ha : tree.OnActivePath a) : (wrapBare spent tree id).OnActivePath a := by
  cases hbare : bare tree.tiles id with
  | none => rwa [wrapBare, hbare]
  | some held =>
      have hroot : (wrapBare spent tree id).root = tree.root := by rw [wrapBare, hbare]
      have hpath : Tree.OnActivePath ⟨tree.root, (wrapBare spent tree id).tiles⟩ a :=
        (wrapBare_edited spent h hbare).keepsPath (bare_pane hbare) ha
      rw [← hroot] at hpath
      exact hpath

/-- A pane at an id that is spoken for was there before. -/
theorem wrapBare_spent (h : tree.Sound) (id : TileId) {a : TileId} {s : SessionId}
    (ha : a ∈ spent) (hs : (wrapBare spent tree id).tiles.lookup a = some (.pane s)) :
    tree.tiles.lookup a = some (.pane s) := by
  cases hbare : bare tree.tiles id with
  | none => rwa [wrapBare, hbare] at hs
  | some held =>
      rcases (wrapBare_edited spent h hbare).pane.mp hs with hnew | ⟨-, hold⟩
      · have hfresh : a = freshAvoiding spent tree.tiles :=
          congrArg Prod.fst (List.mem_singleton.mp hnew)
        rw [hfresh] at ha
        exact absurd (List.mem_append_right _ ha) (freshAvoiding_not_mem spent tree.tiles)
      · exact hold

theorem foldl_wrapBare {P : Tree → Prop} (hstep : ∀ t id, t.Sound → P t → P (wrapBare spent t id)) :
    ∀ {ids : List TileId} {tree : Tree}, tree.Sound → P tree →
      (ids.foldl (wrapBare spent) tree).Sound ∧ P (ids.foldl (wrapBare spent) tree)
  | [], _, hs, hp => ⟨hs, hp⟩
  | id :: ids, tree, hs, hp => by
      rw [List.foldl_cons]
      exact foldl_wrapBare hstep (wrapBare_sound hs id) (hstep tree id hs hp)

/-! ### Sweeping -/

theorem reaches_iff (h : tree.Loose) (id : TileId) : reaches tree id = true ↔ tree.Reach id := by
  rw [reaches, Option.any_eq_true]
  exact exists_congr fun r => and_congr_right fun _ => subtreeContains_iff h.wellFormed

/-- What is found from the root hangs below it, whatever the table. -/
theorem reach_of_reaches (h : reaches tree id = true) : tree.Reach id := by
  obtain ⟨r, hr, hfound⟩ := (Option.any_eq_true _ _).mp h
  rw [subtreeContains_eq] at hfound
  exact ⟨r, hr, below_of_reaches hfound⟩

theorem sweep_lookup (h : tree.Loose) (a : TileId) :
    (tree.Reach a ∧ (sweep tree).tiles.lookup a = (tree.tiles.lookup a).map (trim tree.tiles)) ∨
      (¬tree.Reach a ∧ (sweep tree).tiles.lookup a = none) := by
  simp only [sweep, Table.lookup_mapValues]
  by_cases hr : tree.Reach a
  · refine Or.inl ⟨hr, congrArg _ ?_⟩
    ext t
    simp [Table.lookup_retain, (reaches_iff h a).mpr hr]
  · refine Or.inr ⟨hr, ?_⟩
    rw [Option.map_eq_none_iff, Option.eq_none_iff_forall_ne_some]
    intro t ht
    exact hr ((reaches_iff h a).mp (Table.lookup_retain.mp ht).2)

theorem sweep_pane (h : tree.Loose) {a : TileId} {s : SessionId} :
    (sweep tree).tiles.lookup a = some (.pane s) ↔
      tree.Reach a ∧ tree.tiles.lookup a = some (.pane s) := by
  rcases sweep_lookup h a with ⟨hr, hlookup⟩ | ⟨hr, hlookup⟩
  · rw [hlookup, Option.map_eq_some_iff, and_iff_right hr]
    constructor
    · rintro ⟨_ | c, ht, heq⟩
      · rwa [← heq]
      · cases heq
    · exact fun ha => ⟨_, ha, rfl⟩
  · rw [hlookup]
    exact ⟨nofun, fun ha => absurd ha.1 hr⟩

theorem trimContainer_children (tiles : Tiles) (c : Container) :
    (trimContainer tiles c).children = c.children.filter fun b => (tiles.lookup b).isSome := by
  cases c <;> rfl

theorem trimContainer_shows (tiles : Tiles) (c : Container) (b : TileId) :
    (trimContainer tiles c).shows b = c.shows b := by
  cases c <;> rfl

theorem sweep_children (h : tree.Loose) {a : TileId} (ha : tree.Reach a) :
    children (sweep tree).tiles.arena a =
      (children tree.tiles.arena a).filter fun b => (tree.tiles.lookup b).isSome := by
  have hlookup := ((sweep_lookup h a).resolve_right fun hnot => hnot.1 ha).2
  cases hold : tree.tiles.lookup a with
  | none =>
      rw [hold] at hlookup
      rw [children_absent (arena_eq_none.mpr hold), children_absent (arena_eq_none.mpr hlookup)]
      rfl
  | some t =>
      rw [hold] at hlookup
      cases t with
      | pane s =>
          rw [children_leaf (arena_leaf.mpr hold), children_leaf (arena_leaf.mpr hlookup)]
          rfl
      | container c =>
          rw [children_branch (arena_container hold), children_branch (arena_container hlookup),
            trimContainer_children]

theorem sweep_present (h : tree.Loose) {a : TileId} :
    (sweep tree).tiles.lookup a ≠ none ↔ tree.Reach a ∧ tree.tiles.lookup a ≠ none := by
  rcases sweep_lookup h a with ⟨hr, hlookup⟩ | ⟨hr, hlookup⟩
  · rw [hlookup, and_iff_right hr, ne_eq, Option.map_eq_none_iff]
  · rw [hlookup]
    exact ⟨fun hne => absurd rfl hne, fun ha => absurd ha.1 hr⟩

theorem swept (h : tree.Loose) {r : TileId} (hr : tree.root = some r) :
    Swept tree.tiles.arena (sweep tree).tiles.arena r := by
  have hreach : ∀ {a}, tree.Reach a ↔ Below tree.tiles.arena r a := by
    intro a
    constructor
    · rintro ⟨r', hr', hbelow⟩
      obtain rfl := Option.some.inj (hr.symm.trans hr')
      exact hbelow
    · intro hbelow
      exact ⟨r, hr, hbelow⟩
  have hgone : ∀ {a}, ¬tree.Reach a → children (sweep tree).tiles.arena a = [] := by
    intro a ha
    refine children_absent (arena_eq_none.mpr ?_)
    exact ((sweep_lookup h a).resolve_left fun hin => ha hin.1).2
  refine ⟨fun {a} => ?_, fun {a b} => ?_, fun {a} hnodup => ?_⟩
  · rw [ne_eq, ne_eq, arena_eq_none, arena_eq_none, ← hreach]
    exact sweep_present h
  · by_cases ha : tree.Reach a
    · rw [Child, sweep_children h ha, List.mem_filter, Option.isSome_iff_ne_none, ne_eq, ne_eq,
        arena_eq_none, and_iff_right (hreach.mp ha)]
      rfl
    · rw [Child, hgone ha]
      exact ⟨fun hc => absurd hc List.not_mem_nil, fun hc => absurd (hreach.mpr hc.1) ha⟩
  · by_cases ha : tree.Reach a
    · rw [sweep_children h ha]
      exact hnodup.filter _
    · rw [hgone ha]
      exact List.nodup_nil

theorem sweep_sound (h : tree.Loose) : (sweep tree).Sound where
  rootless := fun hnone a => by
    refine ((sweep_lookup h a).resolve_left ?_).2
    rintro ⟨⟨r, hr, -⟩, -⟩
    cases (show tree.root = none from hnone).symm.trans hr
  rooted := fun {r} hr => h.forest.sweep (swept h hr) (h.present hr)
  distinct := by
    intro a b s ha hb
    exact h.distinct (arena_leaf.mpr ((sweep_pane h).mp (arena_leaf.mp ha)).2)
      (arena_leaf.mpr ((sweep_pane h).mp (arena_leaf.mp hb)).2)

theorem sweep_hasPane (h : tree.Loose) {s : SessionId} :
    (sweep tree).HasPane s ↔ tree.Carries s :=
  exists_congr fun _ => sweep_pane h

/-- A visible pane stays visible. -/
theorem sweep_onActivePath (h : tree.Loose) {a : TileId} {s : SessionId}
    (hpath : tree.OnActivePath a) (ha : tree.tiles.lookup a = some (.pane s)) :
    (sweep tree).OnActivePath a := by
  obtain ⟨r, hr, hpath⟩ := hpath
  refine ⟨r, hr, ?_⟩
  have hstep : ∀ {b}, ReflTransGen (ActiveChild tree.tiles) r b → tree.tiles.lookup b ≠ none →
      ReflTransGen (ActiveChild (sweep tree).tiles) r b := by
    intro b hrb
    induction hrb with
    | refl => exact fun _ => .refl
    | @tail b d hrb hbd ih =>
        intro hd
        obtain ⟨c, hc, hmem, hshows⟩ := hbd
        have hreach : tree.Reach b :=
          ⟨r, hr, ReflTransGen.mono (fun _ _ hab => hab.child) _ _ hrb⟩
        have hlookup := ((sweep_lookup h b).resolve_right fun hnot => hnot.1 hreach).2
        rw [hc] at hlookup
        refine (ih (by rw [hc]; exact Option.some_ne_none _)).tail ⟨_, hlookup, ?_, ?_⟩
        · rw [trimContainer_children, List.mem_filter]
          exact ⟨hmem, Option.isSome_iff_ne_none.mpr hd⟩
        · rwa [trimContainer_shows]
  exact hstep hpath (by rw [ha]; exact Option.some_ne_none _)

end TileReference

open TileReference in
theorem tileReference_lawful : tileReference.Lawful where
  fresh := freshAvoiding_fresh []
  parent := fun h => parentOf_iff h
  removed := by
    intro tree id tile h
    simp only [tileReference, removeRecursively, List.mem_map, List.mem_filter]
    constructor
    · rintro ⟨⟨a, t⟩, ⟨hmem, hbelow⟩, rfl⟩
      exact ⟨a, (subtreeContains_iff h.wellFormed).mp hbelow, AList.mem_lookup_iff.mpr hmem⟩
    · rintro ⟨a, hbelow, ha⟩
      exact ⟨⟨a, tile⟩, ⟨AList.mem_lookup_iff.mp ha,
        (subtreeContains_iff h.wellFormed).mpr hbelow⟩, rfl⟩
  gone := by
    intro tree id a h hb
    rcases removeRecursively_lookup h id a with ⟨-, hnone⟩ | ⟨hout, -⟩
    · exact hnone
    · exact absurd hb hout
  absent := by
    intro tree id a h ha
    rcases removeRecursively_lookup h id a with ⟨-, hnone⟩ | ⟨-, hlookup⟩
    · exact hnone
    · exact hlookup.trans (by rw [ha]; rfl)
  stays := by
    intro tree id a tile h hb ha
    rcases removeRecursively_lookup h id a with ⟨hin, -⟩ | ⟨-, hlookup⟩
    · exact absurd hin hb
    · exact ⟨unlink id tile, hlookup.trans (by rw [ha]; rfl), unlink_unlinked id tile⟩
  root := fun _ _ => rfl
  tab_gone := fun _ => AList.lookup_erase _ _
  tab_below := by
    intro tree id a _ _
    by_cases ha : a = id
    · exact Or.inl (ha ▸ AList.lookup_erase _ _)
    · exact Or.inr (AList.lookup_erase_ne ha)
  tab_absent := by
    intro tree id a _ ha
    by_cases hid : a = id
    · exact hid ▸ AList.lookup_erase _ _
    · exact (AList.lookup_erase_ne hid).trans ha
  tab_stays := by
    intro tree id a tile _ hout ha
    have hid : a ≠ id := by
      rintro rfl
      exact hout .refl
    exact ⟨tile, (AList.lookup_erase_ne hid).trans ha, loses_refl id tile⟩
  tab_root := fun _ _ => rfl
  active := by
    intro tree id _ hid
    cases hr : tree.root with
    | none =>
        simp only [tileReference, activeTiles, hr, Option.elim_none] at hid
        cases hid
    | some r =>
        simp only [tileReference, activeTiles, hr, Option.elim_some] at hid
        exact ⟨r, hr, activeFrom_sound hid⟩
  settle_sound := by
    intro tree spent h
    exact (foldl_wrapBare (P := fun _ => True) (fun _ _ _ _ => trivial) (sweep_sound h)
      trivial).1
  settle_panes := by
    intro tree spent s h
    exact (foldl_wrapBare (P := fun t => t.HasPane s ↔ tree.Carries s)
      (fun t id ht hp => (wrapBare_hasPane ht id).trans hp) (sweep_sound h) (sweep_hasPane h)).2
  settle_spent := by
    intro tree spent id s h hid
    exact (foldl_wrapBare (P := fun t => t.tiles.lookup id = some (.pane s) →
      tree.tiles.lookup id = some (.pane s))
      (fun t a ht hp hs => hp (wrapBare_spent ht a hid hs)) (sweep_sound h)
      fun hs => ((sweep_pane h).mp hs).2).2
  settle_active := by
    intro tree spent id s h hpath hs _
    exact (foldl_wrapBare (P := fun t => t.OnActivePath id)
      (fun t id ht hp => wrapBare_onActivePath ht id hp) (sweep_sound h)
      (sweep_onActivePath h hpath hs)).2

/-! ## Closing a tab with all below it -/

/-- The library, but a tab that is closed takes everything below it along at
once. -/
def TileLib.dropWhole (lib : TileLib) : TileLib :=
  { lib with dropTab := fun tree id => (lib.removeRecursively tree id).2 }

theorem TileLib.dropWhole_dropsSubtree (lib : TileLib) : lib.dropWhole.DropsSubtree := fun _ => rfl

theorem TileLib.Lawful.dropWhole {lib : TileLib} (hlib : lib.Lawful) : lib.dropWhole.Lawful where
  fresh := hlib.fresh
  parent := hlib.parent
  removed := hlib.removed
  gone := hlib.gone
  absent := hlib.absent
  stays := hlib.stays
  root := hlib.root
  tab_gone := fun h => hlib.gone h .refl
  tab_below := fun h hb => Or.inl (hlib.gone h hb)
  tab_absent := hlib.absent
  tab_stays := fun h hout ha => by
    obtain ⟨tile', htile', hun⟩ := hlib.stays h hout ha
    exact ⟨tile', htile', unlinked_loses hun⟩
  tab_root := hlib.root
  active := hlib.active
  settle_sound := hlib.settle_sound
  settle_panes := hlib.settle_panes
  settle_spent := hlib.settle_spent
  settle_active := hlib.settle_active

end PolyTerm

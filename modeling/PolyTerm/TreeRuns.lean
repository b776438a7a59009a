import PolyTerm.App
import PolyTerm.Routes
import PolyTerm.Runs
import PolyTerm.TileReference

/-!
# Any order of tree operations

Attaching, adding a tab, splitting and closing, one after the other in any
order, keep the tree whole: every tile has one address, no child is missing, no
instance is in two panes. Each of them adds or removes what it should and
leaves every container that stays in place, but for the one that gets the new
leaf or loses the closed tile (`Did`).
-/

namespace PolyTerm

open Forest Tiles Runs

/-! ## Whole trees -/

/-- Every tile is reached from the root in one way, every child is there, and
no instance is in two panes. -/
structure Tree.Whole (tree : Tree) : Prop where
  rootless : tree.root = none → ∀ a, tree.tiles.lookup a = none
  root : ∀ {r}, tree.root = some r → tree.tiles.lookup r ≠ none
  children : ∀ {a c b}, tree.tiles.lookup a = some (.container c) → b ∈ c.children →
    tree.tiles.lookup b ≠ none
  address : ∀ {r a}, tree.root = some r → tree.tiles.lookup a ≠ none →
    ∃! ks, Address tree.tiles.arena r ks a
  distinct : ∀ {a b s}, tree.tiles.lookup a = some (.pane s) →
    tree.tiles.lookup b = some (.pane s) → a = b

theorem present_iff {tiles : Tiles} {a : TileId} : tiles.arena a ≠ none ↔ tiles.lookup a ≠ none :=
  not_congr arena_eq_none

theorem whole_iff_sound {tree : Tree} : tree.Whole ↔ tree.Sound := by
  constructor
  · intro h
    refine ⟨h.rootless, fun hr => isTree_iff_address.mpr ⟨present_iff.mpr (h.root hr),
      fun hab => ?_, fun ha => h.address hr (present_iff.mp ha)⟩,
      fun ha hb => h.distinct (arena_leaf.mp ha) (arena_leaf.mp hb)⟩
    obtain ⟨c, hc, hb⟩ := child_iff.mp hab
    exact present_iff.mpr (h.children hc hb)
  · intro h
    have haddress := fun {r} (hr : tree.root = some r) => isTree_iff_address.mp (h.rooted hr)
    refine ⟨h.rootless, fun hr => present_iff.mp (haddress hr).1, fun {a c b} hc hb => ?_,
      fun hr ha => (haddress hr).2.2 (present_iff.mpr ha),
      fun ha hb => h.distinct (arena_leaf.mpr ha) (arena_leaf.mpr hb)⟩
    cases hr : tree.root with
    | none =>
        rw [h.rootless hr] at hc
        cases hc
    | some r => exact present_iff.mp ((haddress hr).2.1 (child_iff.mpr ⟨c, hc, hb⟩))

/-! ## The operations -/

inductive ContainerKind where
  | tabs
  | linear (dir : LinearDir)
  | grid
deriving DecidableEq, Repr

def Container.kind : Container → ContainerKind
  | .tabs _ => .tabs
  | .linear dir _ => .linear dir
  | .grid _ => .grid

/-- Taking a child out of a container leaves one of the same kind. -/
def TileLib.KeepsKind (lib : TileLib) : Prop :=
  ∀ {tree : Tree} {id a c c'}, tree.Sound → tree.tiles.lookup a = some (.container c) →
    (lib.removeRecursively tree id).2.tiles.lookup a = some (.container c') → c'.kind = c.kind

inductive TreeOp where
  | attach (new : SessionId)
  | tabBeside (focused : TileId) (new : SessionId)
  | split (existing new : SessionId) (tile : TileId) (dir : SplitDir)
  | close (tile : TileId)
deriving DecidableEq, Repr

theorem tileReference_keepsKind : tileReference.KeepsKind := by
  intro tree id a c c' h hc hc'
  rcases TileReference.removeRecursively_lookup h.loose id a with ⟨-, hnone⟩ | ⟨-, hlookup⟩
  · cases hnone.symm.trans hc'
  · rw [hc] at hlookup
    have hsame : TileReference.unlinkContainer id c = c' :=
      Tile.container.inj (Option.some.inj (hlookup.symm.trans hc'))
    rw [← hsame]
    cases c <;> rfl

namespace Tiles

def isTabs (tiles : Tiles) (id : TileId) : Bool :=
  match tiles.lookup id with
  | some (.container (.tabs _)) => true
  | _ => false

end Tiles

namespace TreeOp

/-- A new instance is in no pane yet, a tab goes beside a pane, a pane is split
under its own instance, and only what is there is closed. -/
def Allowed (tree : Tree) : TreeOp → Prop
  | .attach new => ¬tree.HasPane new
  | .tabBeside focused new => tree.tiles.isPane focused = true ∧ ¬tree.HasPane new
  | .split existing new tile _ => tree.tiles.getPane tile = some existing ∧ ¬tree.HasPane new
  | .close tile => tile ∈ tree.tiles

instance (tree : Tree) : (op : TreeOp) → Decidable (op.Allowed tree)
  | .attach _ => inferInstanceAs (Decidable (¬_))
  | .tabBeside _ _ | .split _ _ _ _ => inferInstanceAs (Decidable (_ ∧ _))
  | .close _ => inferInstanceAs (Decidable (_ ∈ _))

/-- The leaf returned, if any, and the tree. -/
def apply (lib : TileLib) (tree : Tree) : TreeOp → Option TileId × Tree
  | .attach new => (attachPane lib tree new).map some id
  | .tabBeside focused new => (addTabBeside lib tree focused new).map some id
  | .split existing new tile dir => (splitTile lib tree existing new tile dir).map some id
  | .close tile => (none, lib.close tree tile)

def step (lib : TileLib) (tree : Tree) (op : TreeOp) : Option Tree :=
  if op.Allowed tree then some (op.apply lib tree).2 else none

/-- The instance that joins the tree. -/
def adds : TreeOp → Option SessionId
  | .attach new | .tabBeside _ new | .split _ new _ _ => some new
  | .close _ => none

/-- The instance goes with the closed subtree. -/
def Removes (tree : Tree) (s : SessionId) : TreeOp → Prop
  | .close tile => ∃ a, Below tree.tiles.arena tile a ∧ tree.tiles.lookup a = some (.pane s)
  | _ => False

/-- The container that gets the new leaf, or loses the closed tile. -/
def touched (lib : TileLib) (tree : Tree) : TreeOp → Option TileId
  | .attach _ => tree.root.filter tree.tiles.isTabs
  | .tabBeside focused _ => (lib.parentOf tree.tiles focused).filter tree.tiles.isTabs
  | .split _ _ _ _ => none
  | .close tile => lib.parentOf tree.tiles tile

/-- The children of that container afterwards. -/
def relist (leaf : Option TileId) (cs : List TileId) : TreeOp → List TileId
  | .close tile => cs.erase tile
  | _ => cs ++ leaf.toList

/-- What the operation does to the tree. -/
structure Did (lib : TileLib) (tree : Tree) (op : TreeOp) : Prop where
  whole : (op.apply lib tree).2.Whole
  panes : ∀ {s}, (op.apply lib tree).2.HasPane s ↔
    op.adds = some s ∨ (tree.HasPane s ∧ ¬op.Removes tree s)
  leaf : ∀ {new}, op.adds = some new → ∃ leaf, (op.apply lib tree).1 = some leaf ∧
    (op.apply lib tree).2.tiles.lookup leaf = some (.pane new)
  container : ∀ {a c}, tree.tiles.lookup a = some (.container c) →
    (op.apply lib tree).2.tiles.lookup a ≠ none →
    ∃ c', (op.apply lib tree).2.tiles.lookup a = some (.container c') ∧ c'.kind = c.kind ∧
      c'.children = if op.touched lib tree = some a then op.relist (op.apply lib tree).1 c.children
        else c.children

end TreeOp

/-! ## Containers that stay -/

section

variable {lib : TileLib} {tree : Tree} {s : SessionId} {a : TileId} {c : Container}

theorem ne_fresh (hlib : lib.Lawful) {tiles : Tiles} {t : Tile} (ha : tiles.lookup a = some t) :
    a ≠ lib.freshId tiles := by
  rintro rfl
  cases (hlib.fresh tiles).absent.symm.trans ha

theorem insertPane_lookup (hlib : lib.Lawful) {tiles : Tiles} {t : Tile}
    (ha : tiles.lookup a = some t) :
    (tiles.insert (lib.freshId tiles) (.pane s)).lookup a = some t := by
  rw [AList.lookup_insert_ne (ne_fresh hlib ha), ha]

/-- A new leaf is nobody's child and nobody's parent. -/
theorem parentOf_insertPane (hlib : lib.Lawful) (h : tree.Sound) {id : TileId} :
    lib.parentOf (tree.tiles.insert (lib.freshId tree.tiles) (.pane s)) id =
      lib.parentOf tree.tiles id := by
  have hleaf := (hlib.fresh tree.tiles).absent
  ext p
  rw [hlib.parent (isForest_insertPane hleaf h.forest), hlib.parent h.forest, Child,
    children_insertPane hleaf, Child]

/-- The container afterwards: of the same kind, with the leaf behind its
children or without it. -/
def Container.After (c c' : Container) (grows : Prop) [Decidable grows] (leaf : TileId) : Prop :=
  c'.kind = c.kind ∧ c'.children = if grows then c.children ++ [leaf] else c.children

theorem Container.After.same {grows : Option TileId} {leaf : TileId} (h : grows ≠ some a) :
    c.After c (grows = some a) leaf := ⟨rfl, by rw [if_neg h]⟩

/-- A leaf put into the tab group at `r`. -/
theorem tabs_after {tiles tiles' : Tiles} {r leaf : TileId} {t : Tabs}
    (hr : tiles.lookup r = some (.container (.tabs t)))
    (ha : tiles.lookup a = some (.container c)) (ha' : tiles'.lookup a = some (.container c)) :
    ∃ c', (tiles'.insert r (.container (.tabs ((t.addChild leaf).setActive leaf)))).lookup a =
        some (.container c') ∧
      c.After c' ((some r).filter tiles.isTabs = some a) leaf := by
  have hgroup : (some r).filter tiles.isTabs = some r := by simp [Option.filter, isTabs, hr]
  rw [hgroup]
  by_cases har : a = r
  · subst har
    obtain rfl : c = .tabs t := Tile.container.inj (Option.some.inj (ha.symm.trans hr))
    exact ⟨_, AList.lookup_insert _, rfl, by rw [if_pos rfl]; rfl⟩
  · refine ⟨c, by rw [AList.lookup_insert_ne har, ha'], .same fun heq => ?_⟩
    exact har (Option.some.inj heq).symm

theorem attachPane_container (hlib : lib.Lawful) (h : tree.Sound)
    (ha : tree.tiles.lookup a = some (.container c)) :
    ∃ c', (attachPane lib tree s).2.tiles.lookup a = some (.container c') ∧
      c.After c' (tree.root.filter tree.tiles.isTabs = some a) (attachPane lib tree s).1 := by
  obtain ⟨root, tiles⟩ := tree
  have hin : (tiles.insert (lib.freshId tiles) (.pane s)).lookup a = some (.container c) :=
    insertPane_lookup hlib ha
  cases root with
  | none =>
      have hnone := h.rootless rfl a
      rw [ha] at hnone
      cases hnone
  | some r =>
      obtain ⟨tile, htile⟩ := Option.ne_none_iff_exists'.mp (present_iff.mp (h.rooted rfl).present)
      have hr : (tiles.insert (lib.freshId tiles) (.pane s)).lookup r = some tile :=
        insertPane_lookup hlib htile
      -- a root that is no tab group gets one above it
      have hwrapped : tiles.isTabs r = false →
          ∃ c', ((tiles.insert (lib.freshId tiles) (.pane s)).insert
              (lib.freshId (tiles.insert (lib.freshId tiles) (.pane s)))
              (.container (.tabs ((Tabs.new [r, lib.freshId tiles]).setActive
                (lib.freshId tiles))))).lookup a = some (.container c') ∧
            c.After c' ((some r).filter tiles.isTabs = some a) (lib.freshId tiles) := by
        intro hnot
        refine ⟨c, by rw [AList.lookup_insert_ne (ne_fresh hlib hin), hin], .same ?_⟩
        simp [Option.filter, hnot]
      simp only [attachPane, TileLib.insertPane, hr]
      cases tile with
      | pane _ => exact hwrapped (by simp [isTabs, htile])
      | container c₀ =>
          cases c₀ with
          | linear | grid => exact hwrapped (by simp [isTabs, htile])
          | tabs t => exact tabs_after htile ha hin

theorem wrapInTabs_container (hlib : lib.Lawful) {tiles : Tiles} {focused newLeaf : TileId}
    (hfocused : tiles.isPane focused = true) (ha : tiles.lookup a = some (.container c)) :
    (wrapInTabs lib tree tiles focused newLeaf).tiles.lookup a = some (.container c) := by
  obtain ⟨held, hheld⟩ := Option.isSome_iff_exists.mp hfocused
  have hne : a ≠ focused := by
    rintro rfl
    rw [getPane_eq_some.mp hheld] at ha
    cases ha
  simp only [wrapInTabs, hheld, TileLib.insertPane]
  rw [AList.lookup_insert_ne hne, insertPane_lookup hlib ha]

theorem addTabBeside_container (hlib : lib.Lawful) (h : tree.Sound) {focused : TileId}
    (hfocused : tree.tiles.isPane focused = true)
    (ha : tree.tiles.lookup a = some (.container c)) :
    ∃ c', (addTabBeside lib tree focused s).2.tiles.lookup a = some (.container c') ∧
      c.After c' ((lib.parentOf tree.tiles focused).filter tree.tiles.isTabs = some a)
        (addTabBeside lib tree focused s).1 := by
  have hin : (tree.tiles.insert (lib.freshId tree.tiles) (.pane s)).lookup a =
    some (.container c) := insertPane_lookup hlib ha
  have hpane : isPane (tree.tiles.insert (lib.freshId tree.tiles) (.pane s)) focused = true := by
    obtain ⟨held, hheld⟩ := Option.isSome_iff_exists.mp hfocused
    exact Option.isSome_iff_exists.mpr
      ⟨held, getPane_eq_some.mpr (insertPane_lookup hlib (getPane_eq_some.mp hheld))⟩
  -- with no tab group around it the pane becomes one in place
  have hwrapped : (lib.parentOf tree.tiles focused).filter tree.tiles.isTabs = none →
      ∃ c', (wrapInTabs lib tree (tree.tiles.insert (lib.freshId tree.tiles) (.pane s)) focused
          (lib.freshId tree.tiles)).tiles.lookup a = some (.container c') ∧
        c.After c' ((lib.parentOf tree.tiles focused).filter tree.tiles.isTabs = some a)
          (lib.freshId tree.tiles) := by
    intro hnot
    rw [hnot]
    exact ⟨c, wrapInTabs_container hlib hpane hin, .same nofun⟩
  simp only [addTabBeside, TileLib.insertPane, parentOf_insertPane hlib h]
  cases hparent : lib.parentOf tree.tiles focused with
  | none =>
      rw [hparent] at hwrapped
      exact hwrapped rfl
  | some p =>
      rw [hparent] at hwrapped
      obtain ⟨c₀, hc₀, -⟩ := child_iff.mp ((hlib.parent h.forest).mp hparent)
      have hp : (tree.tiles.insert (lib.freshId tree.tiles) (.pane s)).lookup p =
        some (.container c₀) := insertPane_lookup hlib hc₀
      simp only [hp]
      cases c₀ with
      | linear | grid => exact hwrapped (by simp [Option.filter, isTabs, hc₀])
      | tabs t => exact tabs_after hc₀ ha hin

theorem splitTile_container (hlib : lib.Lawful) {existing : SessionId} {tile : TileId}
    {dir : SplitDir} (hpane : tree.tiles.getPane tile = some existing)
    (ha : tree.tiles.lookup a = some (.container c)) :
    (splitTile lib tree existing s tile dir).2.tiles.lookup a = some (.container c) := by
  have hne : a ≠ tile := by
    rintro rfl
    rw [getPane_eq_some.mp hpane] at ha
    cases ha
  simp only [splitTile, TileLib.insertPane]
  rw [AList.lookup_insert_ne hne, insertPane_lookup hlib (insertPane_lookup hlib ha)]

theorem close_container (hlib : lib.Lawful) (hkinds : lib.KeepsKind) (h : tree.Sound)
    {tile : TileId} (ha : tree.tiles.lookup a = some (.container c))
    (hstays : (lib.close tree tile).tiles.lookup a ≠ none) :
    ∃ c', (lib.close tree tile).tiles.lookup a = some (.container c') ∧ c'.kind = c.kind ∧
      c'.children = if lib.parentOf tree.tiles tile = some a then c.children.erase tile
        else c.children := by
  have htiles : (lib.close tree tile).tiles = (lib.removeRecursively tree tile).2.tiles := by
    unfold TileLib.close
    split <;> rfl
  rw [htiles] at hstays ⊢
  have hout : ¬Below tree.tiles.arena tile a := fun hbelow => hstays (hlib.gone h.loose hbelow)
  obtain ⟨tile', htile', c', rfl, hchildren, -⟩ := hlib.stays h.loose hout ha
  refine ⟨c', htile', hkinds h ha htile', ?_⟩
  rw [hchildren]
  split
  · rfl
  · rename_i hnot
    refine List.erase_of_not_mem fun hmem => hnot ((hlib.parent h.forest).mpr ?_)
    exact child_iff.mpr ⟨c, ha, hmem⟩

end

/-! ## Runs -/

namespace TreeOp

section

variable {lib : TileLib} {tree : Tree} {op : TreeOp}

/-- Putting a pane in leaves the tree whole and every container as it should
be. -/
theorem did_of_added {leaf : TileId} {new : SessionId} {tree' : Tree} {grows : Option TileId}
    (happly : op.apply lib tree = (some leaf, tree')) (hadds : op.adds = some new)
    (hremoves : ∀ s, ¬op.Removes tree s) (h : tree.Sound) (hadd : Added tree tree' leaf new)
    (htouched : op.touched lib tree = grows)
    (hrelist : ∀ cs, op.relist (some leaf) cs = cs ++ [leaf])
    (hcontainer : ∀ {a c}, tree.tiles.lookup a = some (.container c) →
      ∃ c', tree'.tiles.lookup a = some (.container c') ∧ c.After c' (grows = some a) leaf) :
    Did lib tree op := by
  refine ⟨?_, fun {s} => ?_, fun {s} hs => ?_, fun {a c} ha _ => ?_⟩
  · rw [happly]
    exact whole_iff_sound.mpr (hadd.sound h)
  · rw [happly, hadd.hasPane, hadds, Option.some.injEq, and_iff_left (hremoves s), or_comm,
      eq_comm]
  · obtain rfl := Option.some.inj (hadds.symm.trans hs)
    rw [happly]
    exact ⟨leaf, rfl, hadd.pane⟩
  · obtain ⟨c', hc', hkind, hchildren⟩ := hcontainer ha
    rw [happly, htouched, hrelist]
    exact ⟨c', hc', hkind, hchildren⟩

theorem did_apply (hlib : lib.Lawful) (hkinds : lib.KeepsKind) (h : tree.Sound)
    (hallowed : op.Allowed tree) : Did lib tree op := by
  cases op with
  | attach new =>
      exact did_of_added rfl rfl (fun _ => id) h (attachPane_added hlib h.loose hallowed).1 rfl
        (fun _ => rfl) fun ha => attachPane_container hlib h ha
  | tabBeside focused new =>
      obtain ⟨hpane, hnew⟩ := hallowed
      obtain ⟨held, hheld⟩ := Option.isSome_iff_exists.mp hpane
      exact did_of_added rfl rfl (fun _ => id) h
        (addTabBeside_added hlib h.loose hnew (getPane_eq_some.mp hheld)).1 rfl (fun _ => rfl)
        fun ha => addTabBeside_container hlib h hpane ha
  | split existing new tile dir =>
      obtain ⟨hpane, hnew⟩ := hallowed
      exact did_of_added rfl rfl (fun _ => id) h
        (splitTile_added hlib h.loose hnew dir (getPane_eq_some.mp hpane)) rfl (fun _ => rfl)
        fun {a c} ha => ⟨c, splitTile_container hlib hpane ha, .same nofun⟩
  | close tile =>
      have hcut := hlib.cut h.loose tile
      refine ⟨whole_iff_sound.mpr (hcut.sound h), fun {s} => ?_, fun hs => ?_, fun {a c} ha hstays =>
        close_container hlib hkinds h ha hstays⟩
      · constructor
        · rintro ⟨a, ha⟩
          obtain ⟨hout, hold⟩ := hcut.pane.mp ha
          refine Or.inr ⟨⟨a, hold⟩, fun ⟨b, hbelow, hb⟩ => hout ?_⟩
          rwa [h.loose.only hb a hold]
        · rintro (hadds | ⟨⟨a, ha⟩, hkept⟩)
          · cases hadds
          · exact ⟨a, hcut.pane.mpr ⟨fun hbelow => hkept ⟨a, hbelow, ha⟩, ha⟩⟩
      · cases hs

/-- In any order, the operations keep the tree whole and do what they should. -/
theorem whole_along (hlib : lib.Lawful) (hkinds : lib.KeepsKind) (h : tree.Whole)
    {ops : List TreeOp} {tree' : Tree} (hrun : run (step lib) tree ops = some tree') :
    tree'.Whole ∧ Along (step lib) (fun tree op => op.Allowed tree → Did lib tree op) tree ops := by
  have hdid : ∀ (tree : Tree) (op : TreeOp), tree.Whole → True → op.Allowed tree →
      Did lib tree op :=
    fun _ _ hwhole _ hallowed => did_apply hlib hkinds (whole_iff_sound.mp hwhole) hallowed
  have hstep : ∀ (tree : Tree) (op : TreeOp) (next : Tree), tree.Whole → True →
      step lib tree op = some next → next.Whole := by
    intro tree op next hwhole _ hnext
    obtain ⟨hallowed, heq⟩ := Option.ite_none_right_eq_some.mp hnext
    obtain rfl := Option.some.inj heq
    exact (hdid tree op hwhole trivial hallowed).whole
  exact ⟨run_invariant hstep h along_true hrun, along_of_invariant hstep hdid h along_true⟩

end

/-- Two tabs, the second one split, a tab beside its new half, and the split
closed. -/
def splitAndClose : List TreeOp :=
  [.attach ⟨0⟩, .attach ⟨1⟩, .split ⟨1⟩ ⟨2⟩ ⟨2⟩ .right, .tabBeside ⟨5⟩ ⟨3⟩, .close ⟨2⟩]

theorem whole_along_splitAndClose :
    ∃ tree', run (step tileReference) ⟨none, ∅⟩ splitAndClose = some tree' ∧ tree'.Whole ∧
      Along (step tileReference) (fun tree op => op.Allowed tree → Did tileReference tree op)
        ⟨none, ∅⟩ splitAndClose := by
  have hend : (run (step tileReference) ⟨none, ∅⟩ splitAndClose).isSome = true := by
    decide +kernel
  obtain ⟨tree', hrun⟩ := Option.isSome_iff_exists.mp hend
  exact ⟨tree', hrun, whole_along tileReference_lawful tileReference_keepsKind
    (whole_iff_sound.mpr Tree.sound_empty) hrun⟩

end TreeOp

end PolyTerm

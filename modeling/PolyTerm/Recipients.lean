import Mathlib.Data.Finset.Lattice.Fold
import PolyTerm.Champion
import PolyTerm.Tiles

/-!
# Where a keystroke goes

The recipient set of a focused tile. `resolve_recipients` walks the
broadcast-enabled tiles in the order of a hash set, keeps those whose subtree
contains the focus, and among them the one with the fewest panes. On a
well-formed tree the enabled tiles around the focus are nested, so fewest
panes means innermost, and a tie means the same panes in the same order: the
result depends on the *set* of enabled tiles only.
-/

namespace PolyTerm

open Forest Relation Tiles

/-! ## The walks -/

/-- The instances of every pane below `tile`, appended to `out`. -/
def collectSessionIds (tiles : Tiles) : Nat → TileId → List SessionId → List SessionId
  | 0, _, out => out
  | n + 1, tile, out =>
      match tiles.lookup tile with
      | some (.pane session) => out ++ [session]
      | some (.container c) =>
          c.children.foldl (fun out child => collectSessionIds tiles n child out) out
      | none => out

/-- Whether `target` lies below `root`, walking down. -/
def subtreeContains (tiles : Tiles) : Nat → TileId → TileId → Bool
  | 0, root, target => root == target
  | n + 1, root, target =>
      root == target ||
        match tiles.lookup root with
        | some (.container c) => c.children.any fun child => subtreeContains tiles n child target
        | _ => false

/-- What a walk from `tile` collects. -/
def sessionIds (tiles : Tiles) (tile : TileId) : List SessionId :=
  collectSessionIds tiles tiles.fuel tile []

/-- Keep the shorter list; the earlier one on a tie. -/
def keepShorter (best : Option (List SessionId)) (out : List SessionId) :
    Option (List SessionId) :=
  match best with
  | none => some out
  | some b => if out.length < b.length then some out else some b

/-- `multiExec` is the set of enabled tiles in the order it is iterated. -/
def resolveRecipients (tiles : Tiles) (multiExec : List TileId) (focused : TileId) :
    List SessionId :=
  let best := multiExec.foldl
    (fun best tile =>
      if subtreeContains tiles tiles.fuel tile focused then
        keepShorter best (sessionIds tiles tile)
      else best)
    none
  best.getD (sessionIds tiles focused)

/-- Every session receiving broadcast input: the union over the enabled
tiles. -/
def receivingSessions (tiles : Tiles) (multiExec : List TileId) : Finset SessionId :=
  multiExec.foldl (fun set tile => set ∪ (sessionIds tiles tile).toFinset) ∅

/-! ## What the walks compute -/

theorem collectSessionIds_eq (tiles : Tiles) : ∀ (n : Nat) (tile : TileId)
    (out : List SessionId),
    collectSessionIds tiles n tile out = out ++ leaves tiles.arena n tile
  | 0, _, out => by rw [collectSessionIds, leaves, List.append_nil]
  | n + 1, tile, out => by
      have hfold : ∀ (cs : List TileId) (out : List SessionId),
          cs.foldl (fun out child => collectSessionIds tiles n child out) out =
            out ++ cs.flatMap (leaves tiles.arena n) := by
        intro cs
        induction cs with
        | nil => intro out; rw [List.foldl_nil, List.flatMap_nil, List.append_nil]
        | cons c cs ih =>
            intro out
            rw [List.foldl_cons, ih, collectSessionIds_eq tiles n c out,
              List.flatMap_cons, List.append_assoc]
      rw [collectSessionIds]
      split
      · rename_i s h
        rw [leaves_leaf (arena_leaf.mpr h)]
      · rename_i c h
        rw [leaves_branch (arena_container h), hfold]
      · rename_i h
        rw [leaves_absent (arena_eq_none.mpr h), List.append_nil]

theorem subtreeContains_eq (tiles : Tiles) : ∀ (n : Nat) (root target : TileId),
    subtreeContains tiles n root target = reaches tiles.arena n root target
  | 0, _, _ => rfl
  | n + 1, root, target => by
      rw [subtreeContains, reaches]
      congr 1
      split
      · rename_i c h
        rw [children_branch (arena_container h)]
        exact congrArg _ (funext fun child => subtreeContains_eq tiles n child target)
      · rename_i h
        have hnil : children tiles.arena root = [] := by
          cases hl : tiles.lookup root with
          | none => exact children_absent (arena_eq_none.mpr hl)
          | some tile =>
              cases tile with
              | pane s => exact children_leaf (arena_leaf.mpr hl)
              | container c => exact absurd hl (h c)
        rw [hnil, List.any_nil]

theorem sessionIds_eq (tiles : Tiles) (tile : TileId) :
    sessionIds tiles tile = leaves tiles.arena tiles.fuel tile := by
  rw [sessionIds, collectSessionIds_eq, List.nil_append]

theorem mem_sessionIds {tiles : Tiles} (hwf : WellFormed tiles) {tile : TileId}
    {s : SessionId} :
    s ∈ sessionIds tiles tile ↔
      ∃ t, Below tiles.arena tile t ∧ tiles.lookup t = some (.pane s) := by
  rw [sessionIds_eq, mem_leaves hwf.forest.acyclic mem_support (support_lt_fuel tiles)]
  simp only [arena_leaf]

theorem sessionIds_nodup {tiles : Tiles} (hwf : WellFormed tiles) (tile : TileId) :
    (sessionIds tiles tile).Nodup := by
  rw [sessionIds_eq]
  exact leaves_nodup hwf.forest hwf.distinct mem_support (support_lt_fuel tiles)
    ((rank_le tile).trans_lt (support_lt_fuel tiles))

theorem sessionIds_pane {tiles : Tiles} (hwf : WellFormed tiles) {tile : TileId}
    {s : SessionId} (h : tiles.lookup tile = some (.pane s)) : sessionIds tiles tile = [s] := by
  rw [sessionIds_eq]
  exact leaves_leaf_eq hwf.forest.acyclic mem_support (support_lt_fuel tiles)
    (arena_leaf.mpr h)

theorem subtreeContains_iff {tiles : Tiles} (hwf : WellFormed tiles) {root target : TileId} :
    subtreeContains tiles tiles.fuel root target = true ↔ Below tiles.arena root target := by
  rw [subtreeContains_eq]
  exact reaches_iff hwf.forest.acyclic mem_support (support_lt_fuel tiles)

/-- Among nested tiles, the outer one having no more panes than the inner one
means that both collect the same list. -/
theorem sessionIds_eq_of_length_le {tiles : Tiles} (hwf : WellFormed tiles) {a b : TileId}
    (hab : Below tiles.arena a b)
    (hle : (sessionIds tiles a).length ≤ (sessionIds tiles b).length) :
    sessionIds tiles a = sessionIds tiles b := by
  rw [sessionIds_eq, sessionIds_eq] at hle ⊢
  exact leaves_eq_of_length_le hwf.forest.acyclic mem_support (support_lt_fuel tiles) hab hle

/-! ## The shortest candidate -/

def shorter (out b : List SessionId) : Bool := decide (out.length < b.length)

theorem keepShorter_eq : keepShorter = Champion.keep shorter := by
  funext best out
  cases best with
  | none => rfl
  | some b => simp [keepShorter, Champion.keep, shorter]

theorem shorter_asymmetric : Champion.Asymmetric shorter := by
  intro a b h
  simp only [shorter, decide_eq_true_eq, decide_eq_false_iff_not] at h ⊢
  omega

theorem not_shorter_trans (a b c : List SessionId) (hab : shorter a b = false)
    (hbc : shorter b c = false) : shorter a c = false := by
  simp only [shorter, decide_eq_false_iff_not] at hab hbc ⊢
  omega

/-- The enabled tiles around the focus, in iteration order. -/
def enclosing (tiles : Tiles) (multiExec : List TileId) (focused : TileId) : List TileId :=
  multiExec.filter fun tile => subtreeContains tiles tiles.fuel tile focused

theorem mem_enclosing {tiles : Tiles} (hwf : WellFormed tiles) {multiExec : List TileId}
    {focused tile : TileId} :
    tile ∈ enclosing tiles multiExec focused ↔
      tile ∈ multiExec ∧ Below tiles.arena tile focused := by
  rw [enclosing, List.mem_filter, subtreeContains_iff hwf]

theorem resolveRecipients_eq (tiles : Tiles) (multiExec : List TileId) (focused : TileId) :
    resolveRecipients tiles multiExec focused =
      (((enclosing tiles multiExec focused).map (sessionIds tiles)).foldl
        keepShorter none).getD (sessionIds tiles focused) := by
  rw [resolveRecipients, List.foldl_map, enclosing, List.foldl_filter]

/-- With no enabled tile around it, the focused tile is on its own. -/
theorem resolveRecipients_alone {tiles : Tiles} (hwf : WellFormed tiles)
    {multiExec : List TileId} {focused : TileId}
    (h : ∀ t ∈ multiExec, ¬Below tiles.arena t focused) :
    resolveRecipients tiles multiExec focused = sessionIds tiles focused := by
  have hnil : enclosing tiles multiExec focused = [] := by
    rw [List.eq_nil_iff_forall_not_mem]
    intro t ht
    exact h t ((mem_enclosing hwf).mp ht).1 ((mem_enclosing hwf).mp ht).2
  rw [resolveRecipients_eq, hnil]
  rfl

/-- Otherwise the recipients are collected from one of them, and no other has
fewer panes. -/
theorem resolveRecipients_shortest {tiles : Tiles} (hwf : WellFormed tiles)
    {multiExec : List TileId} {focused : TileId}
    (h : ∃ t ∈ multiExec, Below tiles.arena t focused) :
    ∃ t ∈ multiExec, Below tiles.arena t focused ∧
      resolveRecipients tiles multiExec focused = sessionIds tiles t ∧
      ∀ u ∈ multiExec, Below tiles.arena u focused →
        (sessionIds tiles t).length ≤ (sessionIds tiles u).length := by
  obtain ⟨t₀, ht₀⟩ := h
  have hmem : sessionIds tiles t₀ ∈
      (enclosing tiles multiExec focused).map (sessionIds tiles) :=
    List.mem_map_of_mem ((mem_enclosing hwf).mpr ht₀)
  have hsome : (Champion.champion shorter
      ((enclosing tiles multiExec focused).map (sessionIds tiles))).isSome :=
    Champion.champion_isSome (List.ne_nil_of_mem hmem)
  obtain ⟨r, hr⟩ := Option.isSome_iff_exists.mp hsome
  obtain ⟨t, ht, rfl⟩ := List.mem_map.mp (Champion.champion_mem hr)
  obtain ⟨htm, htb⟩ := (mem_enclosing hwf).mp ht
  refine ⟨t, htm, htb, ?_, fun u hu hub => ?_⟩
  · rw [resolveRecipients_eq, keepShorter_eq]
    exact (congrArg (Option.getD · _) hr).trans (Option.getD_some ..)
  · have hunbeaten := Champion.champion_unbeaten shorter_asymmetric not_shorter_trans hr _
      (List.mem_map_of_mem ((mem_enclosing hwf).mpr ⟨hu, hub⟩))
    simpa [shorter] using hunbeaten

/-! ## The broadcast set -/

/-- The tile whose subtree receives: the innermost enabled tile around the
focus, or the focused tile itself when no enabled tile is around it. -/
def Scope (tiles : Tiles) (multiExec : List TileId) (focused scope : TileId) : Prop :=
  (scope ∈ multiExec ∧ Below tiles.arena scope focused ∧
    ∀ t ∈ multiExec, Below tiles.arena t focused → Below tiles.arena t scope) ∨
  (scope = focused ∧ ∀ t ∈ multiExec, ¬Below tiles.arena t focused)

/-- The panes of a tile in tree order: a container's are its children's, left
to right. -/
inductive PanesInOrder (tiles : Tiles) : TileId → List SessionId → Prop where
  | pane {tile : TileId} {session : SessionId} :
      tiles.lookup tile = some (.pane session) → PanesInOrder tiles tile [session]
  | container {tile : TileId} {c : Container} {panes : TileId → List SessionId} :
      tiles.lookup tile = some (.container c) →
      (∀ child ∈ c.children, PanesInOrder tiles child (panes child)) →
      PanesInOrder tiles tile (c.children.flatMap panes)
  | absent {tile : TileId} : tiles.lookup tile = none → PanesInOrder tiles tile []

theorem panesInOrder_leaves {tiles : Tiles} (hwf : WellFormed tiles) :
    ∀ {n : Nat} {tile : TileId}, rank tiles.arena (support tiles) tile < n →
      PanesInOrder tiles tile (leaves tiles.arena n tile)
  | 0, _, hn => absurd hn (Nat.not_lt_zero _)
  | n + 1, tile, hn => by
      cases h : tiles.lookup tile with
      | none => rw [leaves_absent (arena_eq_none.mpr h)]; exact .absent h
      | some t =>
          cases t with
          | pane s => rw [leaves_leaf (arena_leaf.mpr h)]; exact .pane h
          | container c =>
              rw [leaves_branch (arena_container h)]
              refine .container h fun child hchild => ?_
              by_cases hc : tiles.lookup child = none
              · rw [leaves_absent (arena_eq_none.mpr hc)]; exact .absent hc
              · have hlt := rank_lt hwf.forest.acyclic (child_iff.mpr ⟨c, h, hchild⟩)
                  (mem_support child fun hn => hc (arena_eq_none.mp hn))
                exact panesInOrder_leaves hwf (by omega)

theorem panesInOrder_sessionIds {tiles : Tiles} (hwf : WellFormed tiles) (tile : TileId) :
    PanesInOrder tiles tile (sessionIds tiles tile) := by
  rw [sessionIds_eq]
  exact panesInOrder_leaves hwf ((rank_le tile).trans_lt (support_lt_fuel tiles))

theorem scope_exists {tiles : Tiles} (hwf : WellFormed tiles) (multiExec : List TileId)
    (focused : TileId) :
    ∃ scope, Scope tiles multiExec focused scope ∧
      resolveRecipients tiles multiExec focused = sessionIds tiles scope := by
  by_cases h : ∃ t ∈ multiExec, Below tiles.arena t focused
  · obtain ⟨t, ht, htb, heq, hmin⟩ := resolveRecipients_shortest hwf h
    obtain ⟨s, hs, hsb, hmax⟩ := exists_innermost hwf.forest h
    refine ⟨s, Or.inl ⟨hs, hsb, hmax⟩, heq.trans ?_⟩
    exact sessionIds_eq_of_length_le hwf (hmax t ht htb) (hmin s hs hsb)
  · have hnone : ∀ t ∈ multiExec, ¬Below tiles.arena t focused :=
      fun t ht htb => h ⟨t, ht, htb⟩
    exact ⟨focused, Or.inr ⟨rfl, hnone⟩, resolveRecipients_alone hwf hnone⟩

theorem scope_below {tiles : Tiles} {multiExec : List TileId} {focused scope : TileId}
    (h : Scope tiles multiExec focused scope) : Below tiles.arena scope focused := by
  rcases h with ⟨-, hb, -⟩ | ⟨rfl, -⟩
  · exact hb
  · exact .refl

/-- The focus and the set of enabled tiles determine the scope. -/
theorem scope_unique {tiles : Tiles} (hwf : WellFormed tiles) {o₁ o₂ : List TileId}
    (hset : ∀ t, t ∈ o₁ ↔ t ∈ o₂) {focused s₁ s₂ : TileId}
    (h₁ : Scope tiles o₁ focused s₁) (h₂ : Scope tiles o₂ focused s₂) : s₁ = s₂ := by
  rcases h₁ with ⟨hm₁, hb₁, hin₁⟩ | ⟨rfl, hno₁⟩
  · rcases h₂ with ⟨hm₂, hb₂, hin₂⟩ | ⟨-, hno₂⟩
    · exact below_antisymm hwf.forest (hin₂ s₁ ((hset s₁).mp hm₁) hb₁)
        (hin₁ s₂ ((hset s₂).mpr hm₂) hb₂)
    · exact absurd hb₁ (hno₂ s₁ ((hset s₁).mp hm₁))
  · rcases h₂ with ⟨hm₂, hb₂, -⟩ | ⟨rfl, -⟩
    · exact absurd hb₂ (hno₁ s₂ ((hset s₂).mpr hm₂))
    · rfl

theorem mem_receivingSessions {tiles : Tiles} {multiExec : List TileId} {s : SessionId} :
    s ∈ receivingSessions tiles multiExec ↔ ∃ t ∈ multiExec, s ∈ sessionIds tiles t := by
  have hfold : ∀ (l : List TileId) (set : Finset SessionId),
      s ∈ l.foldl (fun set tile => set ∪ (sessionIds tiles tile).toFinset) set ↔
        s ∈ set ∨ ∃ t ∈ l, s ∈ sessionIds tiles t := by
    intro l
    induction l with
    | nil => intro set; simp
    | cons a l ih => intro set; rw [List.foldl_cons, ih]; simp [or_assoc]
  rw [receivingSessions, hfold]
  simp

/-- The recipients of a focused pane, exactly. -/
structure BroadcastSet (tiles : Tiles) (multiExec : List TileId) (focused : TileId)
    (session : SessionId) (recipients : List SessionId) : Prop where
  /-- They are the panes of the innermost enabled tile around the focus (of the
  focused tile when there is none), in tree order. -/
  exact_scope : ∃ scope, Scope tiles multiExec focused scope ∧
    PanesInOrder tiles scope recipients ∧
    ∀ s, s ∈ recipients ↔
      ∃ t, Below tiles.arena scope t ∧ tiles.lookup t = some (.pane s)
  nodup : recipients.Nodup
  alone : (∀ t ∈ multiExec, ¬Below tiles.arena t focused) → recipients = [session]
  contains_focused : session ∈ recipients
  order_independent : ∀ order : List TileId, (∀ t, t ∈ order ↔ t ∈ multiExec) →
    resolveRecipients tiles order focused = recipients
  marked : 1 < recipients.length → ∀ s ∈ recipients, s ∈ receivingSessions tiles multiExec

theorem resolveRecipients_exact {tiles : Tiles} (hwf : WellFormed tiles)
    (multiExec : List TileId) {focused : TileId} {session : SessionId}
    (hfocus : tiles.lookup focused = some (.pane session)) :
    BroadcastSet tiles multiExec focused session
      (resolveRecipients tiles multiExec focused) := by
  obtain ⟨scope, hscope, heq⟩ := scope_exists hwf multiExec focused
  rw [heq]
  refine ⟨⟨scope, hscope, panesInOrder_sessionIds hwf scope, fun s => mem_sessionIds hwf⟩,
    sessionIds_nodup hwf scope, fun halone => ?_, ?_, fun order horder => ?_,
    fun hlen s hs => ?_⟩
  · rw [← heq, resolveRecipients_alone hwf halone, sessionIds_pane hwf hfocus]
  · exact (mem_sessionIds hwf).mpr ⟨focused, scope_below hscope, hfocus⟩
  · obtain ⟨scope', hscope', heq'⟩ := scope_exists hwf order focused
    rw [heq', scope_unique hwf horder hscope' hscope]
  · -- more than one recipient: the scope is an enabled tile, not a lone pane
    rcases hscope with ⟨hmem, -, -⟩ | ⟨rfl, -⟩
    · exact mem_receivingSessions.mpr ⟨scope, hmem, hs⟩
    · rw [sessionIds_pane hwf hfocus, List.length_singleton] at hlen
      exact absurd hlen (lt_irrefl 1)

/-- A tab group over a pane and a split, both enabled. -/
def nestedGroups : Tiles :=
  List.toAList
    [⟨⟨0⟩, .container (.tabs ⟨[⟨1⟩, ⟨2⟩], some ⟨2⟩⟩)⟩, ⟨⟨1⟩, .pane ⟨10⟩⟩,
      ⟨⟨2⟩, .container (.linear .horizontal [⟨3⟩, ⟨4⟩])⟩, ⟨⟨3⟩, .pane ⟨30⟩⟩,
      ⟨⟨4⟩, .pane ⟨40⟩⟩]

theorem resolveRecipients_exact_nestedGroups :
    WellFormed nestedGroups ∧ nestedGroups.lookup ⟨4⟩ = some (.pane ⟨40⟩) ∧
      resolveRecipients nestedGroups [⟨0⟩, ⟨2⟩] ⟨4⟩ = [⟨30⟩, ⟨40⟩] ∧
      BroadcastSet nestedGroups [⟨0⟩, ⟨2⟩] ⟨4⟩ ⟨40⟩
        (resolveRecipients nestedGroups [⟨0⟩, ⟨2⟩] ⟨4⟩) := by
  have hwf : WellFormed nestedGroups :=
    wellFormed_of_depth TileId.raw (by decide) (by decide) (by decide)
  exact ⟨hwf, rfl, by decide, resolveRecipients_exact hwf [⟨0⟩, ⟨2⟩] rfl⟩

end PolyTerm

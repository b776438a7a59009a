import Mathlib.Tactic.Linarith
import PolyTerm.Neighbor

/-!
# Directional focus and the order of the panes

The panes are compared while they come out of a hash map. Better means nearer
by more than half a pixel, or at less than that nearer across: no order, as
near ties go round in circles, and two panes as far away in both ways are not
decided at all. Which pane gets the focus is then the map's choice; it is not
exactly if one pane is better than each of the others (`pickNeighbor_perm_iff`).
-/

namespace PolyTerm

/-! ## Better -/

theorem Candidate.better_iff {c b : Candidate} :
    c.better b = true ↔ (c.overlap = true ∧ b.overlap = false) ∨ (c.overlap = b.overlap ∧
      (c.gap < b.gap - 1 / 2 ∨ |c.gap - b.gap| ≤ 1 / 2 ∧ c.cross < b.cross)) := by
  unfold better
  cases c.overlap <;> cases b.overlap <;> simp

theorem Candidate.better_asymmetric : Champion.Asymmetric Candidate.better := by
  intro c b h
  by_contra hback
  rw [Bool.not_eq_false] at hback
  rcases better_iff.mp h with ⟨hc, hb⟩ | ⟨hoverlap, hnear⟩
  · rcases better_iff.mp hback with ⟨hb', -⟩ | ⟨hoverlap, -⟩
    · simp [hb] at hb'
    · simp [hc, hb] at hoverlap
  · rcases better_iff.mp hback with ⟨hb, hc⟩ | ⟨-, hnear'⟩
    · simp [hc, hb] at hoverlap
    · rcases hnear with hgap | ⟨hgap, hcross⟩ <;> rcases hnear' with hgap' | ⟨hgap', hcross'⟩
      · linarith
      · linarith [abs_le.mp hgap']
      · linarith [abs_le.mp hgap]
      · exact lt_asymm hcross hcross'

/-! ## The candidates -/

variable {panes : List (TileId × Rect)} {origin : Rect} {dir : FocusDir}

theorem candidates_ids (panes : List (TileId × Rect)) (origin : Rect) (dir : FocusDir) :
    ((candidates panes origin dir).map Candidate.id).Sublist (panes.map Prod.fst) :=
  Champion.keys_filterMap (fun _ _ => measure_id) panes

theorem candidates_nodup (hids : (panes.map Prod.fst).Nodup) :
    (candidates panes origin dir).Nodup :=
  ((candidates_ids panes origin dir).nodup hids).of_map _

/-- A candidate is known by its identity. -/
theorem candidate_ext (hids : (panes.map Prod.fst).Nodup) {c d : Candidate}
    (hc : c ∈ candidates panes origin dir) (hd : d ∈ candidates panes origin dir)
    (h : c.id = d.id) : c = d :=
  List.inj_on_of_nodup_map ((candidates_ids panes origin dir).nodup hids) hc hd h

/-! ## The order -/

/-- No pane is on that side, or one of those that are is better than each of
the others. -/
def Clear (panes : List (TileId × Rect)) (origin : Rect) (dir : FocusDir) : Prop :=
  candidates panes origin dir = [] ∨
    ∃ w ∈ candidates panes origin dir, ∀ c ∈ candidates panes origin dir,
      c.id ≠ w.id → w.better c = true

instance (panes : List (TileId × Rect)) (origin : Rect) (dir : FocusDir) :
    Decidable (Clear panes origin dir) := inferInstanceAs (Decidable (_ ∨ _))

theorem clear_iff (hids : (panes.map Prod.fst).Nodup) : Clear panes origin dir ↔
    candidates panes origin dir = [] ∨
      ∃ w, Champion.BeatsAll Candidate.better (candidates panes origin dir) w := by
  refine or_congr_right (exists_congr fun w => and_congr_right fun hw => ?_)
  refine forall₂_congr fun c hc => imp_congr_left ?_
  exact not_congr ⟨candidate_ext hids hc hw, fun h => h ▸ rfl⟩

/-- Picks agree exactly if the champions do. -/
theorem pickNeighbor_eq_iff (hids : (panes.map Prod.fst).Nodup) {panes' : List (TileId × Rect)}
    (hperm : panes'.Perm panes) : pickNeighbor panes' origin dir = pickNeighbor panes origin dir ↔
      Champion.champion Candidate.better (candidates panes' origin dir) =
        Champion.champion Candidate.better (candidates panes origin dir) := by
  have hcandidates : (candidates panes' origin dir).Perm (candidates panes origin dir) :=
    hperm.filterMap _
  rw [pickNeighbor_eq, pickNeighbor_eq]
  constructor
  · intro h
    cases hc : Champion.champion Candidate.better (candidates panes' origin dir) with
    | none =>
        rw [hc] at h
        exact (Option.map_eq_none_iff.mp h.symm).symm
    | some c =>
        rw [hc] at h
        obtain ⟨d, hd, hid⟩ := Option.map_eq_some_iff.mp h.symm
        have hmem : c ∈ candidates panes origin dir :=
          hcandidates.mem_iff.mp (Champion.champion_mem hc)
        rw [hd, candidate_ext hids (Champion.champion_mem hd) hmem hid]
  · exact congrArg (Option.map Candidate.id)

/-- A clear pick is made in any order. -/
theorem Clear.pickNeighbor (hclear : Clear panes origin dir) (hids : (panes.map Prod.fst).Nodup)
    {panes' : List (TileId × Rect)} (hperm : panes'.Perm panes) :
    pickNeighbor panes' origin dir = pickNeighbor panes origin dir := by
  rw [pickNeighbor_eq_iff hids hperm]
  exact (Champion.champion_perm_iff Candidate.better_asymmetric (candidates_nodup hids)).mpr
    ((clear_iff hids).mp hclear) _ (hperm.filterMap _)

/-- The pick does not depend on the order of the panes exactly if it is
clear. -/
theorem pickNeighbor_perm_iff (hids : (panes.map Prod.fst).Nodup) (origin : Rect)
    (dir : FocusDir) :
    (∀ panes', panes'.Perm panes → pickNeighbor panes' origin dir = pickNeighbor panes origin dir) ↔
      Clear panes origin dir := by
  constructor
  · intro h
    rw [clear_iff hids, ← Champion.champion_perm_iff Candidate.better_asymmetric
      (candidates_nodup hids)]
    intro l hl
    -- an order of the candidates is one of the panes
    obtain ⟨panes', hperm, rfl⟩ := Champion.perm_filterMap hl
    exact (pickNeighbor_eq_iff hids hperm).mp (h panes' hperm)
  · intro hclear panes' hperm
    exact hclear.pickNeighbor hids hperm

/-- From the top left of a grid of four, to the right. -/
theorem pickNeighbor_perm_iff_grid :
    let panes : List (TileId × Rect) :=
      [(⟨1⟩, ⟨100, 200, 0, 100⟩), (⟨2⟩, ⟨0, 100, 100, 200⟩), (⟨3⟩, ⟨100, 200, 100, 200⟩)]
    ∀ panes', panes'.Perm panes → pickNeighbor panes' ⟨0, 100, 0, 100⟩ .right =
      pickNeighbor panes ⟨0, 100, 0, 100⟩ .right :=
  (pickNeighbor_perm_iff (by decide) _ _).mpr (by decide +kernel)

/-- Next to a pane, two of half its height, one above the other. -/
def stacked : List (TileId × Rect) :=
  [(⟨1⟩, ⟨100, 200, 0, 100⟩), (⟨2⟩, ⟨100, 200, 100, 200⟩)]

/-- The farther the pane, the nearer it is across. -/
def staggered : List (TileId × Rect) :=
  [(⟨1⟩, ⟨100, 200, 10, 110⟩), (⟨2⟩, ⟨100 + 2 / 5, 200, 5, 105⟩),
    (⟨3⟩, ⟨100 + 4 / 5, 200, 1, 101⟩)]

theorem pickNeighbor_by_order :
    ((stacked.map Prod.fst).Nodup ∧ stacked.reverse.Perm stacked ∧
      pickNeighbor stacked ⟨0, 100, 0, 200⟩ .right = some ⟨1⟩ ∧
      pickNeighbor stacked.reverse ⟨0, 100, 0, 200⟩ .right = some ⟨2⟩) ∧
    ((staggered.map Prod.fst).Nodup ∧ staggered.reverse.Perm staggered ∧
      pickNeighbor staggered ⟨0, 100, 0, 100⟩ .right = some ⟨3⟩ ∧
      pickNeighbor staggered.reverse ⟨0, 100, 0, 100⟩ .right = some ⟨1⟩) :=
  ⟨⟨by decide, List.reverse_perm _, by decide +kernel, by decide +kernel⟩,
    by decide, List.reverse_perm _, by decide +kernel, by decide +kernel⟩

end PolyTerm

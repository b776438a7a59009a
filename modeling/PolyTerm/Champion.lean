import Mathlib.Data.List.Basic

/-!
# The champion of a list

A run through a list that holds on to what it has until something beats it.
Beating need be no order: it may go round in circles and leave pairs undecided,
so who is left can depend on the order of the list. It does not exactly if one
item beats each of the others (`champion_perm_iff`): whoever the champion would
be, it can come right behind an item it does not beat.
-/

namespace Champion

variable {α : Type*} {beats : α → α → Bool}

/-- Go on with `a` if there is nothing yet or `a` beats it. -/
def keep (beats : α → α → Bool) (best : Option α) (a : α) : Option α :=
  match best with
  | none => some a
  | some b => if beats a b then some a else some b

def champion (beats : α → α → Bool) (l : List α) : Option α := l.foldl (keep beats) none

/-- Nobody is beaten by whom they beat. -/
def Asymmetric (beats : α → α → Bool) : Prop := ∀ a b, beats a b = true → beats b a = false

/-- It beats each of the others. -/
def BeatsAll (beats : α → α → Bool) (l : List α) (w : α) : Prop :=
  w ∈ l ∧ ∀ a ∈ l, a ≠ w → beats w a = true

theorem keep_eq {best : Option α} {a c : α} (h : keep beats best a = some c) :
    best = some c ∨ c = a := by
  cases best with
  | none => exact Or.inr (Option.some.inj h).symm
  | some b =>
      rw [keep] at h
      split at h
      · exact Or.inr (Option.some.inj h).symm
      · exact Or.inl h

theorem keep_isSome (best : Option α) (a : α) : (keep beats best a).isSome := by
  cases best with
  | none => rfl
  | some b =>
      rw [keep]
      split <;> rfl

theorem foldl_keep_mem {l : List α} {best : Option α} {c : α}
    (h : l.foldl (keep beats) best = some c) : best = some c ∨ c ∈ l := by
  induction l generalizing best with
  | nil => exact Or.inl h
  | cons a l ih =>
      rcases ih h with hbest | hmem
      · rcases keep_eq hbest with hkept | rfl
        · exact Or.inl hkept
        · exact Or.inr List.mem_cons_self
      · exact Or.inr (List.mem_cons_of_mem _ hmem)

theorem champion_mem {l : List α} {c : α} (h : champion beats l = some c) : c ∈ l :=
  (foldl_keep_mem h).resolve_left (Option.some_ne_none c).symm

theorem foldl_keep_isSome {l : List α} {best : Option α} (h : best.isSome) :
    (l.foldl (keep beats) best).isSome := by
  induction l generalizing best with
  | nil => exact h
  | cons a l ih => exact ih (keep_isSome best a)

theorem champion_isSome {l : List α} (h : l ≠ []) : (champion beats l).isSome := by
  cases l with
  | nil => exact absurd rfl h
  | cons a l =>
      have hrun : (l.foldl (keep beats) (some a)).isSome := foldl_keep_isSome rfl
      exact hrun

/-- Once there, an item that beats the others stays; it comes to be there by
beating whoever is. -/
theorem foldl_keep_of_beats (hasymm : Asymmetric beats) {l : List α} {best : Option α} {w : α}
    (hl : ∀ a ∈ l, a ≠ w → beats w a = true) (hbest : ∀ b ∈ best, b ≠ w → beats w b = true)
    (hw : best = some w ∨ w ∈ l) : l.foldl (keep beats) best = some w := by
  induction l generalizing best with
  | nil => exact hw.resolve_right List.not_mem_nil
  | cons a l ih =>
      have ha : a ≠ w → beats w a = true := hl a List.mem_cons_self
      refine ih (fun b hb => hl b (List.mem_cons_of_mem _ hb)) ?_ ?_
      · intro b hb
        rcases keep_eq hb with hkept | rfl
        · exact hbest b hkept
        · exact ha
      · rcases hw with rfl | hw
        · left
          by_cases haw : a = w
          · subst haw
            exact ite_self _
          · rw [keep, if_neg (by simp [hasymm w a (ha haw)])]
        · rcases List.mem_cons.mp hw with rfl | hmem
          · left
            cases best with
            | none => rfl
            | some b =>
                by_cases hbw : b = w
                · subst hbw
                  exact ite_self _
                · rw [keep, if_pos (hbest b rfl hbw)]
          · exact Or.inr hmem

/-- What beats the others is the champion. -/
theorem BeatsAll.champion (hasymm : Asymmetric beats) {l : List α} {w : α}
    (h : BeatsAll beats l w) : champion beats l = some w :=
  foldl_keep_of_beats hasymm h.2 (fun _ hb => nomatch hb) (Or.inr h.1)

/-- What comes right behind an item it does not beat is no champion. -/
theorem champion_behind {a w : α} {rest : List α} (hne : a ≠ w) (hbeats : ¬beats w a = true)
    (hrest : w ∉ rest) : champion beats (a :: w :: rest) ≠ some w := by
  intro h
  have hkeep : keep beats (some a) w = some a := if_neg hbeats
  have hrun : rest.foldl (keep beats) (some a) = some w := by
    rw [← hkeep]
    exact h
  rcases foldl_keep_mem hrun with hbest | hmem
  · exact hne (Option.some.inj hbest)
  · exact hrest hmem

/-- The champion does not depend on the order exactly if one beats the
others. -/
theorem champion_perm_iff [DecidableEq α] (hasymm : Asymmetric beats) {l : List α}
    (hnodup : l.Nodup) :
    (∀ l', l'.Perm l → champion beats l' = champion beats l) ↔
      l = [] ∨ ∃ w, BeatsAll beats l w := by
  constructor
  · intro hsame
    by_cases hl : l = []
    · exact Or.inl hl
    · have hsome : (champion beats l).isSome := champion_isSome hl
      obtain ⟨w, hw⟩ := Option.isSome_iff_exists.mp hsome
      have hwl : w ∈ l := champion_mem hw
      refine Or.inr ⟨w, hwl, fun a ha hne => ?_⟩
      by_contra hbeats
      have haw : a ∈ l.erase w := (List.mem_erase_of_ne hne).mpr ha
      have hperm : (a :: w :: (l.erase w).erase a).Perm l :=
        (List.Perm.swap w a _).trans
          (((List.perm_cons_erase haw).symm.cons w).trans (List.perm_cons_erase hwl).symm)
      have hrest : w ∉ (l.erase w).erase a := fun hmem =>
        (hnodup.not_mem_erase) (List.mem_of_mem_erase hmem)
      exact champion_behind hne hbeats hrest ((hsame _ hperm).trans hw)
  · rintro (rfl | ⟨w, hw⟩) l' hperm
    · rw [hperm.eq_nil]
    · have hw' : BeatsAll beats l' w :=
        ⟨hperm.mem_iff.mpr hw.1, fun a ha => hw.2 a (hperm.mem_iff.mp ha)⟩
      rw [hw.champion hasymm, hw'.champion hasymm]

/-! ## The best -/

theorem Asymmetric.irrefl (hasymm : Asymmetric beats) (a : α) : beats a a = false := by
  by_contra h
  rw [Bool.not_eq_false] at h
  exact Bool.false_ne_true ((hasymm a a h).symm.trans h)

/-- Neither what was there nor what came beats what is kept. -/
theorem keep_unbeaten (hasymm : Asymmetric beats) {best : Option α} {a c : α}
    (h : keep beats best a = some c) :
    beats a c = false ∧ ∀ b ∈ best, beats b c = false := by
  cases best with
  | none =>
      obtain rfl := Option.some.inj h
      exact ⟨hasymm.irrefl a, fun _ hb => nomatch hb⟩
  | some b =>
      rw [keep] at h
      split at h
      case isTrue hbeats =>
        obtain rfl := Option.some.inj h
        refine ⟨hasymm.irrefl a, fun b' hb' => ?_⟩
        obtain rfl := Option.some.inj hb'
        exact hasymm a b hbeats
      case isFalse hbeats =>
        obtain rfl := Option.some.inj h
        refine ⟨by simpa using hbeats, fun b' hb' => ?_⟩
        obtain rfl := Option.some.inj hb'
        exact hasymm.irrefl b

theorem foldl_keep_unbeaten (hasymm : Asymmetric beats)
    (htrans : ∀ a b c, beats a b = false → beats b c = false → beats a c = false)
    {l : List α} {best : Option α} {c : α} (h : l.foldl (keep beats) best = some c) :
    (∀ b ∈ best, beats b c = false) ∧ ∀ a ∈ l, beats a c = false := by
  induction l generalizing best with
  | nil =>
      refine ⟨fun b hb => ?_, fun _ ha => nomatch ha⟩
      obtain rfl := Option.some.inj (hb.symm.trans h)
      exact hasymm.irrefl b
  | cons a l ih =>
      have hsome : (keep beats best a).isSome := keep_isSome best a
      obtain ⟨d, hd⟩ := Option.isSome_iff_exists.mp hsome
      obtain ⟨hkept, hrest⟩ := ih h
      obtain ⟨ha, hbest⟩ := keep_unbeaten hasymm hd
      have hdc : beats d c = false := hkept d hd
      exact ⟨fun b hb => htrans b d c (hbest b hb) hdc,
        List.forall_mem_cons.mpr ⟨htrans a d c ha hdc, hrest⟩⟩

/-- Where beating is an order, nobody beats the champion. -/
theorem champion_unbeaten (hasymm : Asymmetric beats)
    (htrans : ∀ a b c, beats a b = false → beats b c = false → beats a c = false)
    {l : List α} {c : α} (h : champion beats l = some c) : ∀ a ∈ l, beats a c = false :=
  (foldl_keep_unbeaten hasymm htrans h).2

/-! ## Behind a filter -/

/-- A filter that keeps the keys lets them through in order. -/
theorem keys_filterMap {β κ : Type*} {f : β → Option α} {key : α → κ} {key' : β → κ}
    (hf : ∀ x a, f x = some a → key a = key' x) (xs : List β) :
    ((xs.filterMap f).map key).Sublist (xs.map key') := by
  induction xs with
  | nil => exact List.Sublist.refl _
  | cons x xs ih =>
      cases hfx : f x with
      | none =>
          rw [List.filterMap_cons_none hfx]
          exact ih.cons _
      | some a =>
          rw [List.filterMap_cons_some hfx, List.map_cons, List.map_cons, hf x a hfx]
          exact ih.cons_cons _

/-- Every order of what a filter lets through comes from an order of the
list. -/
theorem perm_filterMap {β : Type*} {f : β → Option α} {l : List α} {xs : List β}
    (h : l.Perm (xs.filterMap f)) : ∃ xs', List.Perm xs' xs ∧ xs'.filterMap f = l := by
  induction l generalizing xs with
  | nil => exact ⟨xs, List.Perm.refl xs, h.symm.eq_nil⟩
  | cons a l ih =>
      obtain ⟨x, hx, hfx⟩ := List.mem_filterMap.mp (h.mem_iff.mp List.mem_cons_self)
      obtain ⟨before, after, rfl⟩ := List.append_of_mem hx
      have hmiddle : (x :: (before ++ after)).Perm (before ++ x :: after) :=
        List.perm_middle.symm
      have hcons : (a :: l).Perm (a :: (before ++ after).filterMap f) := by
        rw [← List.filterMap_cons_some hfx]
        exact h.trans (hmiddle.filterMap f).symm
      obtain ⟨xs', hperm, rfl⟩ := ih hcons.cons_inv
      exact ⟨x :: xs', (hperm.cons x).trans hmiddle, List.filterMap_cons_some hfx⟩

end Champion

import Mathlib.Data.List.Basic

/-!
# Two buffers, flushed one after the other

The elements of a list fill two buffers, and the second is flushed behind the
first. What comes out is in the order of the list exactly when nothing for the
first buffer stands behind anything for the second. The second may be flushed
up to an element that stops it: then all of it comes out exactly when nothing
for it stands behind such an element.
-/

namespace PolyTerm

namespace Flushed

variable {α β : Type*} {f g : α → Option β} {stop : α → Bool} {l : List α}

/-- What both buffers are to have, in the order of the list. -/
def merged (f g : α → Option β) (l : List α) : List β := l.filterMap fun x => (f x).or (g x)

theorem merged_cons (x : α) (l : List α) :
    merged f g (x :: l) = ((f x).or (g x)).toList ++ merged f g l := by
  rw [merged, List.filterMap_cons]
  cases (f x).or (g x) <;> rfl

theorem filterMap_cons_toList (h : α → Option β) (x : α) (l : List α) :
    (x :: l).filterMap h = (h x).toList ++ l.filterMap h := by
  rw [List.filterMap_cons]
  cases h x <;> rfl

/-- An element is for one of the buffers at most. -/
theorem length_merged (hone : ∀ x ∈ l, f x ≠ none → g x = none) :
    (merged f g l).length = (l.filterMap f).length + (l.filterMap g).length := by
  induction l with
  | nil => rfl
  | cons x l ih =>
      rw [List.forall_mem_cons] at hone
      simp only [merged_cons, filterMap_cons_toList, List.length_append, ih hone.2]
      cases hf : f x with
      | none => simp only [Option.none_or, Option.toList_none, List.length_nil]; omega
      | some b =>
          rw [hone.1 (hf ▸ Option.some_ne_none b)]
          simp only [Option.or_none, Option.toList_none, List.length_nil]
          omega

/-- The buffers come out in the order of the list. `hapart` tells their contents
apart. -/
theorem append_eq_merged_iff (hone : ∀ x ∈ l, f x ≠ none → g x = none)
    (hapart : ∀ x ∈ l, ∀ y ∈ l, ∀ b, f x = some b → g y ≠ some b) :
    l.filterMap f ++ l.filterMap g = merged f g l ↔
      l.Pairwise fun x y => g x ≠ none → f y = none := by
  induction l with
  | nil => simp [merged]
  | cons x l ih =>
      rw [List.forall_mem_cons] at hone
      have ih := ih hone.2 fun y hy z hz =>
        hapart y (List.mem_cons_of_mem x hy) z (List.mem_cons_of_mem x hz)
      rw [List.pairwise_cons, merged_cons, filterMap_cons_toList, filterMap_cons_toList, ← ih]
      cases hf : f x with
      | some b =>
          have hg : g x = none := hone.1 (hf ▸ Option.some_ne_none b)
          simp [hg]
      | none =>
          cases hg : g x with
          | none => simp
          | some c =>
              simp only [Option.none_or, Option.toList_none, Option.toList_some, List.nil_append,
                List.singleton_append, ne_eq, reduceCtorEq, not_false_eq_true, forall_const]
              rw [← List.filterMap_eq_nil_iff]
              constructor
              · intro heq
                -- what is for the first buffer would come out in front of `c`
                have hnil : l.filterMap f = [] := by
                  cases hfirst : l.filterMap f with
                  | nil => rfl
                  | cons b bs =>
                      rw [hfirst, List.cons_append, List.cons.injEq] at heq
                      obtain ⟨y, hy, hb⟩ := List.mem_filterMap.mp
                        (hfirst ▸ List.mem_cons_self : b ∈ l.filterMap f)
                      rw [heq.1] at hb
                      exact absurd hg
                        (hapart y (List.mem_cons_of_mem x hy) x List.mem_cons_self c hb)
                refine ⟨hnil, ?_⟩
                rw [hnil, List.nil_append, List.cons.injEq] at heq
                rw [hnil, List.nil_append, heq.2]
              · rintro ⟨hnil, heq⟩
                rw [hnil, List.nil_append] at heq ⊢
                rw [heq]

/-- All of the second buffer comes out. -/
theorem takeWhile_filterMap_iff (hstop : ∀ x ∈ l, stop x = true → g x = none) :
    (l.takeWhile (!stop ·)).filterMap g = l.filterMap g ↔
      l.Pairwise fun x y => stop x = true → g y = none := by
  induction l with
  | nil => simp
  | cons x l ih =>
      rw [List.forall_mem_cons] at hstop
      rw [List.pairwise_cons, ← ih hstop.2, List.takeWhile_cons]
      cases hx : stop x with
      | false => simp [filterMap_cons_toList]
      | true =>
          rw [filterMap_cons_toList, hstop.1 hx]
          simp only [Bool.not_true, Bool.false_eq_true, if_false, Option.toList_none,
            List.nil_append, forall_const, List.filterMap_nil]
          rw [← List.filterMap_eq_nil_iff]
          constructor
          · intro hnil
            have hprefix : (l.takeWhile (!stop ·)).filterMap g <+: l.filterMap g :=
              (List.takeWhile_prefix _).filterMap g
            rw [← hnil, List.prefix_nil] at hprefix
            exact ⟨hnil.symm, hprefix.trans hnil⟩
          · exact fun h => h.1.symm

/-- Everything comes out, in the order of the list. -/
theorem flushed_eq_merged_iff (hone : ∀ x ∈ l, f x ≠ none → g x = none)
    (hapart : ∀ x ∈ l, ∀ y ∈ l, ∀ b, f x = some b → g y ≠ some b)
    (hstop : ∀ x ∈ l, stop x = true → g x = none) :
    l.filterMap f ++ (l.takeWhile (!stop ·)).filterMap g = merged f g l ↔
      (l.Pairwise fun x y => stop x = true → g y = none) ∧
        l.Pairwise fun x y => g x ≠ none → f y = none := by
  rw [← takeWhile_filterMap_iff hstop, ← append_eq_merged_iff hone hapart]
  constructor
  · intro h
    have hprefix : (l.takeWhile (!stop ·)).filterMap g <+: l.filterMap g :=
      (List.takeWhile_prefix _).filterMap g
    have hlength := congrArg List.length h
    rw [length_merged hone, List.length_append] at hlength
    have hall := hprefix.eq_of_length (by omega)
    exact ⟨hall, hall ▸ h⟩
  · rintro ⟨hall, h⟩
    rw [hall, h]

/-- At most one element is found. -/
theorem find?_toList_iff {p : α → Bool} :
    (l.find? p).toList = l.filter p ↔ l.Pairwise fun x y => p x = true → p y = false := by
  induction l with
  | nil => simp
  | cons x l ih =>
      rw [List.pairwise_cons, ← ih, List.find?_cons, List.filter_cons]
      cases hx : p x with
      | false => simp
      | true =>
          simp only [Option.toList_some, if_true, List.cons.injEq, true_and, forall_const]
          constructor
          · intro hnil
            have hnone : ∀ y ∈ l, p y = false := by
              simpa using List.filter_eq_nil_iff.mp hnil.symm
            refine ⟨hnone, ?_⟩
            rw [← hnil, List.find?_eq_none.mpr (by simpa using hnone), Option.toList_none]
          · exact fun h => (List.filter_eq_nil_iff.mpr (by simpa using h.1)).symm

end Flushed

end PolyTerm

import Mathlib.Data.List.Sort

/-!
# Stable sorting by a key

`sortByKey` is insertion sort on a key. It is stable: elements with the same
key keep their order, which is what `StablySorted` says beside the order and
the elements. Sorting by a total preorder and filtering can be exchanged
(`filter_insertionSort`).
-/

namespace StableSort

variable {α : Type*}

/-! ## Sorting and filtering -/

section Filter

variable {r : α → α → Prop} [DecidableRel r]

theorem orderedInsert_of_forall {a : α} {l : List α} (h : ∀ b ∈ l, r a b) :
    l.orderedInsert r a = a :: l := by
  cases l with
  | nil => rfl
  | cons b l => exact List.orderedInsert_cons_of_le r l (h b List.mem_cons_self)

variable [IsTrans α r]

theorem filter_orderedInsert (p : α → Bool) (a : α) {l : List α} (hl : l.Pairwise r) :
    (l.orderedInsert r a).filter p =
      if p a then (l.filter p).orderedInsert r a else l.filter p := by
  induction l with
  | nil => by_cases ha : p a <;> simp [ha]
  | cons b l ih =>
      obtain ⟨hb, hl⟩ := List.pairwise_cons.mp hl
      by_cases hab : r a b
      · have habove : ∀ c ∈ (b :: l).filter p, r a c := fun c hc => by
          rcases List.mem_cons.mp (List.mem_of_mem_filter hc) with rfl | hc
          · exact hab
          · exact IsTrans.trans a b c hab (hb c hc)
        rw [List.orderedInsert_cons_of_le r l hab, orderedInsert_of_forall habove]
        by_cases ha : p a <;> simp [ha]
      · rw [List.orderedInsert_of_not_le r l hab]
        by_cases hpb : p b <;> by_cases ha : p a <;> simp [hpb, ha, hab, ih hl]

/-- What passes the filter is sorted the same with and without the rest. -/
theorem filter_insertionSort [Std.Total r] (p : α → Bool) (l : List α) :
    (l.insertionSort r).filter p = (l.filter p).insertionSort r := by
  induction l with
  | nil => rfl
  | cons a l ih =>
      rw [List.insertionSort_cons, filter_orderedInsert p a (List.pairwise_insertionSort r l), ih]
      by_cases ha : p a <;> simp [ha]

end Filter

/-! ## Sorting by a key -/

variable {κ : Type*} [LinearOrder κ]

def sortByKey (key : α → κ) (l : List α) : List α := l.insertionSort fun a b => key a ≤ key b

/-- `ys` has the elements of `xs` in the order of their keys, and those of one
key in the order of `xs`. -/
structure StablySorted (key : α → κ) (xs ys : List α) : Prop where
  perm : ys.Perm xs
  sorted : ys.Pairwise fun a b => key a ≤ key b
  stable : ∀ k, ys.filter (fun a => key a = k) = xs.filter fun a => key a = k

theorem stablySorted_sortByKey (key : α → κ) (xs : List α) :
    StablySorted key xs (sortByKey key xs) := by
  have htotal : Std.Total fun a b : α => key a ≤ key b := ⟨fun a b => le_total _ _⟩
  have htrans : IsTrans α fun a b => key a ≤ key b := ⟨fun a b c => le_trans⟩
  refine ⟨List.perm_insertionSort _ _, List.pairwise_insertionSort _ _, fun k => ?_⟩
  rw [sortByKey, filter_insertionSort]
  -- all that passes has the key `k`, so that it is sorted as it stands
  refine List.Pairwise.insertionSort_eq (List.pairwise_of_forall_mem_list fun a ha b hb => ?_)
  have hak : key a = k := by simpa using List.of_mem_filter ha
  have hbk : key b = k := by simpa using List.of_mem_filter hb
  exact (hak.trans hbk.symm).le

end StableSort

import Mathlib.Data.List.Nodup
import Mathlib.Data.List.Perm.Lattice

/-!
# Collections keyed by an identity

A collection is a list read up to permutation whose elements carry a key, as
the rows of several files read one after the other. `put` replaces every
element of a key by one, `erase` drops them. Keys need not be unique to start
with; where they are, the collection is a map and stays one.
-/

namespace Keyed

variable {α κ : Type*} [DecidableEq κ] (key : α → κ)

def erase (k : κ) (xs : List α) : List α := xs.filter fun x => key x ≠ k

def put (x : α) (xs : List α) : List α := x :: erase key (key x) xs

/-- The first element of a key. -/
def lookup (k : κ) (xs : List α) : Option α := xs.find? fun x => key x = k

def UniqueKeys (xs : List α) : Prop := (xs.map key).Nodup

instance (xs : List α) : Decidable (UniqueKeys key xs) := inferInstanceAs (Decidable (List.Nodup _))

variable {key}

omit [DecidableEq κ] in
theorem UniqueKeys.perm {xs ys : List α} (h : UniqueKeys key xs) (hperm : ys.Perm xs) :
    UniqueKeys key ys :=
  (hperm.map key).nodup_iff.mpr h

theorem erase_perm {xs ys : List α} (hperm : xs.Perm ys) (k : κ) :
    (erase key k xs).Perm (erase key k ys) := hperm.filter _

theorem mem_erase {k : κ} {x : α} {xs : List α} : x ∈ erase key k xs ↔ x ∈ xs ∧ key x ≠ k := by
  simp [erase]

theorem erase_of_fresh {k : κ} {xs : List α} (h : ∀ x ∈ xs, key x ≠ k) : erase key k xs = xs :=
  List.filter_eq_self.mpr fun x hx => decide_eq_true (h x hx)

theorem UniqueKeys.erase {xs : List α} (h : UniqueKeys key xs) (k : κ) :
    UniqueKeys key (erase key k xs) :=
  h.sublist (List.filter_sublist.map key)

/-- A collection with one element per key is still one after `put`. -/
theorem UniqueKeys.put {xs : List α} (h : UniqueKeys key xs) (x : α) :
    UniqueKeys key (put key x xs) := by
  refine List.nodup_cons.mpr ⟨fun hmem => ?_, h.erase (key x)⟩
  obtain ⟨y, hy, hkey⟩ := List.mem_map.mp hmem
  exact (mem_erase.mp hy).2 hkey

omit [DecidableEq κ] in
/-- Rewriting elements under their keys. -/
theorem UniqueKeys.map {xs : List α} (h : UniqueKeys key xs) {f : α → α}
    (hf : ∀ x, key (f x) = key x) : UniqueKeys key (xs.map f) := by
  have hkeys : (xs.map f).map key = xs.map key := by
    rw [List.map_map]
    exact List.map_congr_left fun x _ => hf x
  unfold UniqueKeys
  rw [hkeys]
  exact h

theorem lookup_mem {k : κ} {x : α} {xs : List α} (h : lookup key k xs = some x) :
    x ∈ xs ∧ key x = k := by
  unfold lookup at h
  exact ⟨List.mem_of_find?_eq_some h, by simpa using List.find?_some h⟩

theorem lookup_eq_none {k : κ} {xs : List α} : lookup key k xs = none ↔ ∀ x ∈ xs, key x ≠ k := by
  simp [lookup]

theorem lookup_of_only {k : κ} {x : α} {xs : List α} (hx : x ∈ xs) (hkey : key x = k)
    (honly : ∀ y ∈ xs, key y = k → y = x) : lookup key k xs = some x := by
  cases hfind : lookup key k xs with
  | none => exact absurd hkey (lookup_eq_none.mp hfind x hx)
  | some y =>
      obtain ⟨hy, hyk⟩ := lookup_mem hfind
      rw [honly y hy hyk]

/-- What was put is found, whatever was there before. -/
theorem lookup_put {x : α} {xs ys : List α} (hperm : ys.Perm (put key x xs)) :
    lookup key (key x) ys = some x := by
  refine lookup_of_only (hperm.mem_iff.mpr List.mem_cons_self) rfl fun y hy hkey => ?_
  rcases List.mem_cons.mp (hperm.mem_iff.mp hy) with rfl | hrest
  · rfl
  · exact absurd hkey (mem_erase.mp hrest).2

/-- Where keys are unique, putting under a key that is there rewrites its one
element. -/
theorem put_perm_map {xs : List α} (h : UniqueKeys key xs) {x y : α} (hx : x ∈ xs)
    (hkey : key y = key x) :
    (put key y xs).Perm (xs.map fun z => if key z = key x then y else z) := by
  obtain ⟨before, after, rfl⟩ := List.append_of_mem hx
  have hnodup : (key x :: (before ++ after).map key).Nodup := by
    rw [← List.map_cons]
    exact (List.perm_middle.map key).nodup_iff.mp h
  have hother : ∀ z ∈ before ++ after, key z ≠ key x := fun z hz heq =>
    (List.nodup_cons.mp hnodup).1 (heq ▸ List.mem_map_of_mem hz)
  have herase : Keyed.erase key (key x) (before ++ x :: after) = before ++ after := by
    have hrest := erase_of_fresh hother
    unfold Keyed.erase at hrest ⊢
    rw [List.filter_append, List.filter_cons_of_neg (by simp), ← List.filter_append, hrest]
  have hsame : ∀ {zs : List α}, (∀ z ∈ zs, key z ≠ key x) →
      zs.map (fun z => if key z = key x then y else z) = zs := by
    intro zs hzs
    exact (List.map_congr_left fun z hz => if_neg (hzs z hz)).trans (List.map_id' zs)
  rw [Keyed.put, hkey, herase, List.map_append, List.map_cons, if_pos rfl,
    hsame fun z hz => hother z (List.mem_append_left _ hz),
    hsame fun z hz => hother z (List.mem_append_right _ hz)]
  exact List.perm_middle.symm

end Keyed

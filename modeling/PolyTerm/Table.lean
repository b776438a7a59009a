import Mathlib.Data.List.AList

/-!
# Lookup tables

Hash maps as association lists with distinct keys. The entries of a table
stand in some order, as those of a hash map do; every law below is about
`lookup` and `keys`, which do not depend on it.
-/

abbrev Table (κ α : Type*) := AList fun _ : κ => α

namespace Table

variable {κ α : Type*} [DecidableEq κ]

/-- Keep the entries that pass `p`. -/
def retain (p : κ → α → Bool) (t : Table κ α) : Table κ α :=
  ⟨t.entries.filter fun e => p e.1 e.2, t.nodupKeys.sublist List.filter_sublist⟩

/-- Update the value under `k`, if there is one. -/
def modify (t : Table κ α) (k : κ) (f : α → α) : Table κ α :=
  match t.lookup k with
  | some a => t.insert k (f a)
  | none => t

/-- Rewrite every value. -/
def mapValues (f : κ → α → α) (t : Table κ α) : Table κ α where
  entries := t.entries.map fun e => ⟨e.1, f e.1 e.2⟩
  nodupKeys := by
    have hkeys : (t.entries.map fun e => (⟨e.1, f e.1 e.2⟩ : Σ _ : κ, α)).keys =
        t.entries.keys := by simp [List.keys, Function.comp_def]
    rw [List.NodupKeys, hkeys]
    exact t.nodupKeys

theorem lookup_mapValues (f : κ → α → α) (t : Table κ α) (k : κ) :
    (mapValues f t).lookup k = (t.lookup k).map (f k) := by
  have hmem : ∀ (u : Table κ α) (a : α),
      u.lookup k = some a ↔ (⟨k, a⟩ : Σ _ : κ, α) ∈ u.entries := fun u a => AList.mem_lookup_iff
  ext a
  rw [Option.map_eq_some_iff, hmem, mapValues, List.mem_map]
  constructor
  · rintro ⟨⟨k', b⟩, hb, heq⟩
    obtain ⟨rfl, hab⟩ := Sigma.mk.inj heq
    exact ⟨b, (hmem t b).mpr hb, eq_of_heq hab⟩
  · rintro ⟨b, hb, rfl⟩
    exact ⟨⟨k, b⟩, (hmem t b).mp hb, rfl⟩

@[simp] theorem mem_mapValues {f : κ → α → α} {t : Table κ α} {k : κ} :
    k ∈ mapValues f t ↔ k ∈ t := by
  rw [← AList.lookup_isSome, ← AList.lookup_isSome, lookup_mapValues, Option.isSome_map]

/-- Erase a list of keys, one after the other. -/
theorem mem_foldl_erase {ks : List κ} : ∀ {t : Table κ α} {k : κ},
    k ∈ ks.foldl (fun t k => t.erase k) t ↔ k ∈ t ∧ k ∉ ks := by
  induction ks with
  | nil => simp
  | cons k' ks ih =>
      intro t k
      rw [List.foldl_cons, ih, AList.mem_erase, List.mem_cons, not_or]
      tauto

theorem lookup_foldl_erase {ks : List κ} : ∀ {t : Table κ α} {k : κ}, k ∉ ks →
    (ks.foldl (fun t k => t.erase k) t).lookup k = t.lookup k := by
  induction ks with
  | nil => intro t k _; rfl
  | cons k' ks ih =>
      intro t k hk
      rw [List.mem_cons, not_or] at hk
      rw [List.foldl_cons, ih hk.2, AList.lookup_erase_ne hk.1]

theorem lookup_retain {p : κ → α → Bool} {t : Table κ α} {k : κ} {a : α} :
    (retain p t).lookup k = some a ↔ t.lookup k = some a ∧ p k a = true := by
  have hmem : ∀ u : Table κ α, u.lookup k = some a ↔ (⟨k, a⟩ : Σ _ : κ, α) ∈ u.entries :=
    fun u => AList.mem_lookup_iff
  rw [hmem, hmem, retain, List.mem_filter]

theorem mem_iff {t : Table κ α} {k : κ} : k ∈ t ↔ ∃ a, t.lookup k = some a := by
  rw [← AList.lookup_isSome, Option.isSome_iff_exists]

theorem mem_retain {p : κ → α → Bool} {t : Table κ α} {k : κ} :
    k ∈ retain p t ↔ ∃ a, t.lookup k = some a ∧ p k a = true := by
  rw [mem_iff]
  exact exists_congr fun a => lookup_retain

theorem mem_of_lookup {t : Table κ α} {k : κ} {a : α} (h : t.lookup k = some a) : k ∈ t :=
  mem_iff.mpr ⟨a, h⟩

/-- The keys after an insertion, the new one last. -/
theorem mem_insert_some {t : Table κ α} {k k' : κ} {a : α} :
    k' ∈ t.insert k a ↔ k' ∈ t ∨ some k = some k' := by
  rw [AList.mem_insert, or_comm, Option.some.injEq, eq_comm]

theorem lookup_insert_ite (t : Table κ α) (k k' : κ) (a : α) :
    (t.insert k a).lookup k' = if k' = k then some a else t.lookup k' := by
  split
  · rename_i h
    rw [h, AList.lookup_insert]
  · rename_i h
    rw [AList.lookup_insert_ne h]

theorem lookup_modify (t : Table κ α) (k k' : κ) (f : α → α) :
    (t.modify k f).lookup k' = if k' = k then (t.lookup k').map f else t.lookup k' := by
  unfold modify
  split
  · rename_i a h
    split
    · rename_i hk
      rw [hk, AList.lookup_insert, h, Option.map_some]
    · rename_i hk
      rw [AList.lookup_insert_ne hk]
  · rename_i h
    split
    · rename_i hk
      rw [hk, h, Option.map_none]
    · rfl

@[simp] theorem mem_modify {t : Table κ α} {k k' : κ} {f : α → α} :
    k' ∈ t.modify k f ↔ k' ∈ t := by
  rw [← AList.lookup_isSome, ← AList.lookup_isSome, lookup_modify]
  split <;> simp

/-- Inserting a list of pairs with distinct keys. -/
theorem lookup_foldl_insert {l : List (κ × α)} : ∀ {t : Table κ α} {k : κ} {a : α},
    (l.map Prod.fst).Nodup →
      ((l.foldl (fun t e => t.insert e.1 e.2) t).lookup k = some a ↔
        (k, a) ∈ l ∨ (k ∉ l.map Prod.fst ∧ t.lookup k = some a)) := by
  induction l with
  | nil => simp
  | cons e l ih =>
      intro t k a hnodup
      obtain ⟨hnew, hnodup⟩ := List.nodup_cons.mp hnodup
      rw [List.foldl_cons, ih hnodup, lookup_insert_ite, List.mem_cons, List.map_cons,
        List.mem_cons, not_or]
      by_cases hk : k = e.1
      · subst hk
        have hnot : (e.1, a) ∉ l := fun hmem => hnew (List.mem_map.mpr ⟨_, hmem, rfl⟩)
        have hhead : (e.1, a) = e ↔ e.2 = a := by
          rw [Prod.ext_iff, and_iff_right rfl, eq_comm]
        simp [hnot, hnew, hhead]
      · have hne : (k, a) ≠ e := fun heq => hk (congrArg Prod.fst heq)
        simp [hk, hne]

end Table

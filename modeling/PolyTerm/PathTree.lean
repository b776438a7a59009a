import Mathlib.Data.List.Basic
import Mathlib.Order.Lattice

/-!
# Trees addressed by paths

A node holds values, and its children by key in ascending order. A descent
along a path creates the nodes that are missing and changes the values of the
last one (`modifyAt`). `find` is the tree seen from outside, the values at each
path that has a node; one descent changes the values at its path, adds empty
nodes above it, and leaves every other path alone (`find_modifyAt`). So what a
list of descents makes of a tree can be read off the list (`find_insertAll`).
-/

namespace PathTree

universe u v

mutual

/-- A node: its children, and the values at it. -/
inductive Node (κ : Type u) (α : Type v) where
  | mk (children : Children κ α) (values : List α)

inductive Children (κ : Type u) (α : Type v) where
  | nil
  | cons (key : κ) (child : Node κ α) (rest : Children κ α)

end

variable {κ : Type u} {α : Type v}

def Node.empty : Node κ α := ⟨.nil, []⟩

def Node.values : Node κ α → List α
  | ⟨_, values⟩ => values

mutual

/-- Rewrite the values of every node. -/
def Node.mapValues (g : List α → List α) : Node κ α → Node κ α
  | ⟨children, values⟩ => ⟨children.mapValues g, g values⟩

def Children.mapValues (g : List α → List α) : Children κ α → Children κ α
  | .nil => .nil
  | .cons key child rest => .cons key (child.mapValues g) (rest.mapValues g)

end

mutual

/-- The values of all nodes. -/
def Node.all : Node κ α → List α
  | ⟨children, values⟩ => values ++ children.all

def Children.all : Children κ α → List α
  | .nil => []
  | .cons _ child rest => child.all ++ rest.all

end

namespace Children

def keys : Children κ α → List κ
  | .nil => []
  | .cons key _ rest => key :: rest.keys

variable [LinearOrder κ]

def get? (k : κ) : Children κ α → Option (Node κ α)
  | .nil => none
  | .cons key child rest => if key = k then some child else rest.get? k

/-- Put a child in front of the first larger key. -/
def insert (k : κ) (node : Node κ α) : Children κ α → Children κ α
  | .nil => .cons k node .nil
  | .cons key child rest =>
      if k < key then .cons k node (.cons key child rest)
      else .cons key child (rest.insert k node)

def update (k : κ) (f : Node κ α → Node κ α) : Children κ α → Children κ α
  | .nil => .nil
  | .cons key child rest =>
      if key = k then .cons key (f child) rest else .cons key child (rest.update k f)

/-- Change the child of a key, an empty node if there is none. -/
def entry (k : κ) (f : Node κ α → Node κ α) (children : Children κ α) : Children κ α :=
  if (children.get? k).isSome then children.update k f else children.insert k (f .empty)

end Children

namespace Node

variable [LinearOrder κ]

/-- Change the values at a path, whose nodes are created where they are
missing. -/
def modifyAt (f : List α → List α) : List κ → Node κ α → Node κ α
  | [], ⟨children, values⟩ => ⟨children, f values⟩
  | k :: path, ⟨children, values⟩ => ⟨children.entry k (modifyAt f path), values⟩

/-- The values at a path, if it has a node. -/
def find : List κ → Node κ α → Option (List α)
  | [], node => some node.values
  | k :: path, ⟨children, _⟩ => (children.get? k).bind (find path)

/-- Append values at paths, one after the other. -/
def insertAll (entries : List (List κ × List α)) (node : Node κ α) : Node κ α :=
  entries.foldl (fun node e => node.modifyAt (· ++ e.2) e.1) node

end Node

/-! ## What is found -/

section Find

variable [LinearOrder κ]

namespace Children

theorem get?_update (k j : κ) (f : Node κ α → Node κ α) : ∀ children : Children κ α,
    (children.update k f).get? j =
      if j = k then (children.get? k).map f else children.get? j
  | .nil => by simp [update, get?]
  | .cons key child rest => by
      have ih := get?_update k j f rest
      by_cases hk : key = k
      · by_cases hj : j = k
        · simp [update, get?, hk, hj]
        · simp [update, get?, hk, hj, Ne.symm hj]
      · by_cases hj : key = j
        · have hne : j ≠ k := fun e => hk (hj.trans e)
          simp [update, get?, hj, hne]
        · simp only [update, hk, if_false, get?, hj, ih]

theorem get?_insert {k : κ} (node : Node κ α) (j : κ) : ∀ {children : Children κ α},
    children.get? k = none →
      (children.insert k node).get? j = if j = k then some node else children.get? j
  | .nil, _ => by simp [insert, get?, eq_comm]
  | .cons key child rest, h => by
      have hk : key ≠ k := fun e => by simp [get?, e] at h
      have hrest : rest.get? k = none := by simpa [get?, hk] using h
      by_cases hlt : k < key
      · by_cases hj : j = k
        · simp [insert, get?, hlt, hj]
        · simp [insert, get?, hlt, hj, Ne.symm hj]
      · by_cases hj : key = j
        · have hne : j ≠ k := fun e => hk (hj.trans e)
          rw [insert, if_neg hlt]
          simp [get?, hj, hne]
        · simp only [insert, hlt, if_false, get?, hj, get?_insert node j hrest]

theorem get?_entry (k j : κ) (f : Node κ α → Node κ α) (children : Children κ α) :
    (children.entry k f).get? j =
      if j = k then some (f ((children.get? k).getD .empty)) else children.get? j := by
  rw [entry]
  cases hget : children.get? k with
  | none => rw [if_neg (by simp), get?_insert _ j hget, Option.getD_none]
  | some child =>
      rw [if_pos (Option.isSome_some), get?_update, hget, Option.map_some, Option.getD_some]

theorem get?_mapValues (g : List α → List α) (k : κ) : ∀ children : Children κ α,
    (children.mapValues g).get? k = (children.get? k).map (Node.mapValues g)
  | .nil => rfl
  | .cons key child rest => by
      by_cases hk : key = k
      · simp [mapValues, get?, hk]
      · simp only [mapValues, get?, hk, if_false, get?_mapValues g k rest]

end Children

namespace Node

theorem find_empty (path : List κ) :
    (empty : Node κ α).find path = if path = [] then some [] else none := by
  cases path <;> rfl

/-- A node that is not there has no values, nor has an empty one. -/
@[simp] theorem find_getD_empty (path : List κ) (node : Option (Node κ α)) :
    ((node.getD empty).find path).getD [] = (node.bind (find path)).getD [] := by
  cases node with
  | none => cases path <;> rfl
  | some node => rfl

theorem find_cons_getD_empty (k : κ) (path : List κ) (node : Option (Node κ α)) :
    (node.getD empty).find (k :: path) = node.bind (find (k :: path)) := by
  cases node <;> rfl

/-- One descent: its path gets the values, the paths above it have nodes, and
every other path is as before. -/
theorem find_modifyAt (f : List α → List α) (path q : List κ) (node : Node κ α) :
    (node.modifyAt f path).find q =
      if q = path then some (f ((node.find path).getD []))
      else if q <+: path then some ((node.find q).getD []) else node.find q := by
  induction path generalizing q node with
  | nil =>
      obtain ⟨children, values⟩ := node
      cases q <;> simp [modifyAt, find, Node.values]
  | cons k path ih =>
      obtain ⟨children, values⟩ := node
      cases q with
      | nil => simp [modifyAt, find, Node.values]
      | cons j q =>
          by_cases hj : j = k
          · subst hj
            simp only [modifyAt, find, Children.get?_entry, if_true, Option.bind_some, ih,
              List.cons.injEq, true_and, List.cons_prefix_cons, find_getD_empty]
            cases q with
            | nil => simp
            | cons l q => rw [find_cons_getD_empty]
          · simp [modifyAt, find, Children.get?_entry, hj]

theorem find_mapValues (g : List α → List α) (path : List κ) (node : Node κ α) :
    (node.mapValues g).find path = (node.find path).map g := by
  induction path generalizing node with
  | nil => obtain ⟨children, values⟩ := node; rfl
  | cons k path ih =>
      obtain ⟨children, values⟩ := node
      rw [mapValues, find, find, Children.get?_mapValues]
      cases children.get? k with
      | none => rfl
      | some child => exact ih child

/-- A list of descents: a path has a node if it had one or is above a path of
the list, and gets the values that the list has for it. -/
theorem find_insertAll (entries : List (List κ × List α)) (q : List κ) (node : Node κ α) :
    (node.insertAll entries).find q =
      if (node.find q).isSome ∨ ∃ e ∈ entries, q <+: e.1 then
        some ((node.find q).getD [] ++ (entries.filter fun e => e.1 = q).flatMap Prod.snd)
      else none := by
  induction entries generalizing node with
  | nil => cases h : node.find q <;> simp [insertAll, h]
  | cons e entries ih =>
      have hcons : node.insertAll (e :: entries) =
          (node.modifyAt (· ++ e.2) e.1).insertAll entries := rfl
      rw [hcons, ih, find_modifyAt]
      by_cases hq : q = e.1
      · subst hq
        simp
      · by_cases habove : q <+: e.1
        · simp [hq, Ne.symm hq, habove]
        · have hrest : (∃ x ∈ e :: entries, q <+: x.1) ↔ ∃ x ∈ entries, q <+: x.1 := by
            simp [habove]
          rw [if_neg hq, if_neg habove, List.filter_cons_of_neg (by simpa using Ne.symm hq)]
          simp only [hrest]

end Node

end Find

/-! ## The order of the children -/

section Order

variable [LinearOrder κ]

mutual

/-- Every node has its children in ascending order, one for a key. -/
def Node.Ascending : Node κ α → Prop
  | ⟨children, _⟩ => children.keys.Pairwise (· < ·) ∧ children.Ascending

def Children.Ascending : Children κ α → Prop
  | .nil => True
  | .cons _ child rest => child.Ascending ∧ rest.Ascending

end

theorem Node.ascending_empty : (Node.empty : Node κ α).Ascending := ⟨List.Pairwise.nil, trivial⟩

namespace Children

theorem keys_update (k : κ) (f : Node κ α → Node κ α) : ∀ children : Children κ α,
    (children.update k f).keys = children.keys
  | .nil => rfl
  | .cons key child rest => by
      by_cases hk : key = k
      · rw [update, if_pos hk, keys, keys]
      · rw [update, if_neg hk, keys, keys, keys_update k f rest]

theorem mem_keys_insert {k j : κ} {node : Node κ α} : ∀ {children : Children κ α},
    j ∈ (children.insert k node).keys ↔ j = k ∨ j ∈ children.keys
  | .nil => by simp [insert, keys]
  | .cons key child rest => by
      by_cases hlt : k < key
      · simp [insert, hlt, keys]
      · simp only [insert, hlt, if_false, keys, List.mem_cons, mem_keys_insert]
        exact or_left_comm

theorem keys_insert {k : κ} (node : Node κ α) : ∀ {children : Children κ α},
    children.get? k = none → children.keys.Pairwise (· < ·) →
      (children.insert k node).keys.Pairwise (· < ·)
  | .nil, _, _ => List.pairwise_singleton _ _
  | .cons key child rest, hnone, h => by
      obtain ⟨hkey, hrest⟩ := List.pairwise_cons.mp h
      by_cases hlt : k < key
      · rw [insert, if_pos hlt, keys]
        refine List.pairwise_cons.mpr ⟨fun j hj => ?_, h⟩
        rcases List.mem_cons.mp hj with rfl | hj
        · exact hlt
        · exact lt_trans hlt (hkey j hj)
      · have hne : key ≠ k := fun e => by simp [get?, e] at hnone
        have hnone' : rest.get? k = none := by simpa [get?, hne] using hnone
        rw [insert, if_neg hlt, keys]
        refine List.pairwise_cons.mpr ⟨fun j hj => ?_, keys_insert node hnone' hrest⟩
        rcases mem_keys_insert.mp hj with rfl | hj
        · exact lt_of_le_of_ne (not_lt.mp hlt) hne
        · exact hkey j hj

theorem ascending_update {k : κ} {f : Node κ α → Node κ α}
    (hf : ∀ node, node.Ascending → (f node).Ascending) : ∀ {children : Children κ α},
      children.Ascending → (children.update k f).Ascending
  | .nil, _ => trivial
  | .cons key child rest, h => by
      by_cases hk : key = k
      · rw [update, if_pos hk]
        exact ⟨hf child h.1, h.2⟩
      · rw [update, if_neg hk]
        exact ⟨h.1, ascending_update hf h.2⟩

theorem ascending_insert {k : κ} {node : Node κ α} (hnode : node.Ascending) :
    ∀ {children : Children κ α}, children.Ascending → (children.insert k node).Ascending
  | .nil, _ => ⟨hnode, trivial⟩
  | .cons key child rest, h => by
      by_cases hlt : k < key
      · rw [insert, if_pos hlt]
        exact ⟨hnode, h⟩
      · rw [insert, if_neg hlt]
        exact ⟨h.1, ascending_insert hnode h.2⟩

end Children

namespace Node

theorem Ascending.modifyAt {path : List κ} (f : List α → List α) {node : Node κ α}
    (h : node.Ascending) : (node.modifyAt f path).Ascending := by
  induction path generalizing node with
  | nil => obtain ⟨children, values⟩ := node; exact h
  | cons k path ih =>
      obtain ⟨children, values⟩ := node
      rw [Node.modifyAt, Children.entry]
      split
      · rename_i hsome
        refine ⟨?_, Children.ascending_update (fun _ => ih) h.2⟩
        rw [Children.keys_update]
        exact h.1
      · rename_i hnone
        exact ⟨Children.keys_insert _ (by simpa using hnone) h.1,
          Children.ascending_insert (ih ascending_empty) h.2⟩

theorem Ascending.insertAll (entries : List (List κ × List α)) {node : Node κ α}
    (h : node.Ascending) : (node.insertAll entries).Ascending := by
  induction entries generalizing node with
  | nil => exact h
  | cons e entries ih => exact ih (h.modifyAt _)

end Node

omit [LinearOrder κ] in
theorem Children.keys_mapValues (g : List α → List α) : ∀ children : Children κ α,
    (children.mapValues g).keys = children.keys
  | .nil => rfl
  | .cons key child rest => by rw [mapValues, keys, keys, keys_mapValues g rest]

mutual

theorem Node.Ascending.mapValues (g : List α → List α) : ∀ {node : Node κ α},
    node.Ascending → (node.mapValues g).Ascending
  | ⟨children, _⟩, h =>
      ⟨(Children.keys_mapValues g children).symm ▸ h.1, Children.Ascending.mapValues g h.2⟩

theorem Children.Ascending.mapValues (g : List α → List α) : ∀ {children : Children κ α},
    children.Ascending → (children.mapValues g).Ascending
  | .nil, _ => trivial
  | .cons _ _ _, h => ⟨Node.Ascending.mapValues g h.1, Children.Ascending.mapValues g h.2⟩

end

end Order

/-! ## All values -/

section All

mutual

theorem Node.all_mapValues {g : List α → List α} (hg : ∀ values, (g values).Perm values) :
    ∀ node : Node κ α, (node.mapValues g).all.Perm node.all
  | ⟨children, values⟩ => (hg values).append (Children.all_mapValues hg children)

theorem Children.all_mapValues {g : List α → List α} (hg : ∀ values, (g values).Perm values) :
    ∀ children : Children κ α, (children.mapValues g).all.Perm children.all
  | .nil => List.Perm.refl _
  | .cons _ child rest => (Node.all_mapValues hg child).append (Children.all_mapValues hg rest)

end

variable [LinearOrder κ]

namespace Children

theorem all_update {k : κ} {f : Node κ α → Node κ α} {vs : List α}
    (hf : ∀ node, (f node).all.Perm (vs ++ node.all)) : ∀ {children : Children κ α},
      (children.get? k).isSome → (children.update k f).all.Perm (vs ++ children.all)
  | .nil, h => by simp [get?] at h
  | .cons key child rest, h => by
      by_cases hk : key = k
      · rw [update, if_pos hk, all, all, ← List.append_assoc]
        exact (hf child).append_right rest.all
      · have hrest : (rest.get? k).isSome := by simpa [get?, hk] using h
        rw [update, if_neg hk, all, all]
        exact ((all_update hf hrest).append_left child.all).trans
          (List.perm_append_comm_assoc _ _ _)

theorem all_insert (k : κ) (node : Node κ α) : ∀ children : Children κ α,
    (children.insert k node).all.Perm (node.all ++ children.all)
  | .nil => List.Perm.refl _
  | .cons key child rest => by
      by_cases hlt : k < key
      · rw [insert, if_pos hlt, all]
      · rw [insert, if_neg hlt, all, all]
        exact ((all_insert k node rest).append_left child.all).trans
          (List.perm_append_comm_assoc _ _ _)

theorem all_entry {f : Node κ α → Node κ α} {vs : List α}
    (hf : ∀ node, (f node).all.Perm (vs ++ node.all)) (k : κ) (children : Children κ α) :
    (children.entry k f).all.Perm (vs ++ children.all) := by
  rw [entry]
  split
  · rename_i h
    exact all_update hf h
  · refine (all_insert k _ children).trans (List.Perm.append_right _ ?_)
    simpa [Node.empty, Node.all, Children.all] using hf .empty

end Children

namespace Node

theorem all_modifyAt (vs : List α) (path : List κ) (node : Node κ α) :
    (node.modifyAt (· ++ vs) path).all.Perm (vs ++ node.all) := by
  induction path generalizing node with
  | nil =>
      obtain ⟨children, values⟩ := node
      rw [modifyAt, all, all, ← List.append_assoc]
      exact List.perm_append_comm.append_right _
  | cons k path ih =>
      obtain ⟨children, values⟩ := node
      rw [modifyAt, all, all]
      exact ((Children.all_entry ih k children).append_left values).trans
        (List.perm_append_comm_assoc _ _ _)

/-- Every value of the list is in the tree once. -/
theorem all_insertAll (entries : List (List κ × List α)) (node : Node κ α) :
    (node.insertAll entries).all.Perm (entries.flatMap Prod.snd ++ node.all) := by
  induction entries generalizing node with
  | nil => exact List.Perm.refl _
  | cons e entries ih =>
      rw [List.flatMap_cons, List.append_assoc]
      exact (ih (node.modifyAt (· ++ e.2) e.1)).trans
        (((all_modifyAt e.2 e.1 node).append_left _).trans (List.perm_append_comm_assoc _ _ _))

end Node

end All

end PathTree

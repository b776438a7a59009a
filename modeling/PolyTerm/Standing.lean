import Mathlib.Data.List.Basic

/-!
# What stands when an entry is made

Some entries of a log set a value, and the latest of these stands; other entries
need what stands to be of some kind. `Backed` goes through the log from the front,
so that it is proved piece by piece (`backed_append`), and says what it should of
every place in the log (`Backed.at_place`).
-/

namespace Standing

variable {α β : Type*} {sets : α → Option β} {needs : α → Option β → Prop}

/-- What stands behind the log, if `standing` does before it. -/
def latest (sets : α → Option β) (standing : Option β) (log : List α) : Option β :=
  log.foldl (fun standing x => (sets x).or standing) standing

def Backed (sets : α → Option β) (needs : α → Option β → Prop) : Option β → List α → Prop
  | _, [] => True
  | standing, x :: log => needs x standing ∧ Backed sets needs ((sets x).or standing) log

theorem latest_append (standing : Option β) (xs ys : List α) :
    latest sets standing (xs ++ ys) = latest sets (latest sets standing xs) ys :=
  List.foldl_append

theorem backed_append {xs ys : List α} {standing : Option β} :
    Backed sets needs standing (xs ++ ys) ↔
      Backed sets needs standing xs ∧ Backed sets needs (latest sets standing xs) ys := by
  induction xs generalizing standing with
  | nil => exact ⟨fun h => ⟨trivial, h⟩, And.right⟩
  | cons x xs ih =>
      rw [List.cons_append, Backed, Backed, ih, and_assoc]
      rfl

/-- Entries that set nothing leave standing what they need. -/
theorem backed_of_forall {log : List α} {standing : Option β}
    (h : ∀ x ∈ log, sets x = none ∧ needs x standing) :
    Backed sets needs standing log ∧ latest sets standing log = standing := by
  induction log with
  | nil => exact ⟨trivial, rfl⟩
  | cons x log ih =>
      obtain ⟨hsets, hneeds⟩ := h x List.mem_cons_self
      obtain ⟨hbacked, hlatest⟩ := ih fun y hy => h y (List.mem_cons_of_mem x hy)
      refine ⟨⟨hneeds, ?_⟩, ?_⟩
      · rw [hsets, Option.none_or]
        exact hbacked
      · rw [latest, List.foldl_cons, hsets, Option.none_or]
        exact hlatest

theorem Backed.at_place {log before after : List α} {x : α} {standing : Option β}
    (h : Backed sets needs standing log) (hlog : log = before ++ x :: after) :
    needs x (latest sets standing before) := by
  subst hlog
  exact (backed_append.mp h).2.1

end Standing

import Mathlib.Data.List.Lex
import Mathlib.Order.Lattice

/-!
# The order of joined lists

Lists of words are ordered word by word, and so are the words. Joined by a
letter below all of theirs, they keep that order (`intercalate_le_iff`): a word
that ends sooner is followed by the separator, which is less than whatever the
longer one goes on with. In a list sorted by paths, the paths with a common
prefix stand together, the prefix itself first (`exists_block`).
-/

namespace JoinedOrder

variable {α : Type*} [LinearOrder α]

/-! ## Joining -/

/-- Every letter is above the separator. -/
def Above (sep : α) (words : List (List α)) : Prop := ∀ word ∈ words, ∀ c ∈ word, sep < c

section Join

variable {sep : α}

omit [LinearOrder α] in
/-- The words, each behind a separator. -/
theorem flatMap_cons_sep {words : List (List α)} (h : words ≠ []) :
    (words.flatMap fun word => sep :: word) = sep :: [sep].intercalate words := by
  induction words with
  | nil => exact absurd rfl h
  | cons word words ih =>
      cases words with
      | nil => simp
      | cons next words =>
          rw [List.flatMap_cons, ih (List.cons_ne_nil _ _), List.intercalate_cons_cons]
          simp

/-- A smaller word stays smaller with a separator behind it. -/
theorem append_lt_append {x y u : List α} (hu : u = [] ∨ ∃ v, u = sep :: v)
    (hy : ∀ c ∈ y, sep < c) (h : x < y) (v : List α) : x ++ u < y ++ v := by
  induction x generalizing y with
  | nil =>
      cases y with
      | nil => exact absurd h (List.not_lt_nil _)
      | cons c y =>
          rcases hu with rfl | ⟨w, rfl⟩
          · exact List.nil_lt_cons _ _
          · exact List.cons_lt_cons_iff.mpr (Or.inl (hy c List.mem_cons_self))
  | cons a x ih =>
      cases y with
      | nil => exact absurd h (List.not_lt_nil _)
      | cons b y =>
          rcases List.cons_lt_cons_iff.mp h with hab | ⟨rfl, hxy⟩
          · exact List.cons_lt_cons_iff.mpr (Or.inl hab)
          · exact List.cons_lt_cons_iff.mpr
              (Or.inr ⟨rfl, ih (fun c hc => hy c (List.mem_cons_of_mem _ hc)) hxy⟩)

theorem flatMap_lt {xs ys : List (List α)} (hys : Above sep ys) (h : xs < ys) :
    (xs.flatMap fun word => sep :: word) < ys.flatMap fun word => sep :: word := by
  induction xs generalizing ys with
  | nil =>
      cases ys with
      | nil => exact absurd h (List.not_lt_nil _)
      | cons y ys => exact List.nil_lt_cons _ _
  | cons x xs ih =>
      cases ys with
      | nil => exact absurd h (List.not_lt_nil _)
      | cons y ys =>
          have hy : ∀ c ∈ y, sep < c := hys y List.mem_cons_self
          have hrest : Above sep ys := fun word hword => hys word (List.mem_cons_of_mem _ hword)
          rw [List.flatMap_cons, List.flatMap_cons, List.cons_append, List.cons_append]
          refine List.cons_lt_cons_iff.mpr (Or.inr ⟨rfl, ?_⟩)
          rcases List.cons_lt_cons_iff.mp h with hxy | ⟨rfl, hlt⟩
          · refine append_lt_append ?_ hy hxy _
            cases xs with
            | nil => exact Or.inl rfl
            | cons word words => exact Or.inr ⟨_, rfl⟩
          · exact List.append_left_lt (ih hrest hlt)

theorem intercalate_lt {xs ys : List (List α)} (hxs : xs ≠ []) (hys : ys ≠ [])
    (habove : Above sep ys) (h : xs < ys) : [sep].intercalate xs < [sep].intercalate ys := by
  have hlt := flatMap_lt habove h
  rw [flatMap_cons_sep hxs, flatMap_cons_sep hys] at hlt
  exact List.cons_lt_cons_self.mp hlt

/-- Joined words are ordered as the words are. -/
theorem intercalate_lt_iff {xs ys : List (List α)} (hxs : xs ≠ []) (hys : ys ≠ [])
    (hx : Above sep xs) (hy : Above sep ys) :
    [sep].intercalate xs < [sep].intercalate ys ↔ xs < ys := by
  refine ⟨fun h => ?_, intercalate_lt hxs hys hy⟩
  rcases lt_trichotomy xs ys with hlt | rfl | hgt
  · exact hlt
  · exact absurd h (lt_irrefl _)
  · exact absurd (intercalate_lt hys hxs hx hgt) (lt_asymm h)

end Join

/-! ## Prefixes -/

theorem prefix_le {p k : List α} (h : p <+: k) : p ≤ k := by
  obtain ⟨rest, rfl⟩ := h
  induction p with
  | nil => exact not_lt.mp (List.not_lt_nil _)
  | cons a p ih =>
      refine not_lt.mp fun hlt => ?_
      rcases List.cons_lt_cons_iff.mp hlt with ha | ⟨-, hlt⟩
      · exact lt_irrefl _ ha
      · exact absurd hlt (not_lt.mpr ih)

/-- What lies between a list and one that it is a prefix of has it as a prefix
too. -/
theorem prefix_of_le_of_le {p k l : List α} (hpk : p ≤ k) (hkl : k ≤ l) (h : p <+: l) :
    p <+: k := by
  induction p generalizing k l with
  | nil => exact List.nil_prefix
  | cons a p ih =>
      obtain ⟨rest, rfl⟩ := h
      cases k with
      | nil => exact absurd (List.nil_lt_cons a p) (not_lt.mpr hpk)
      | cons c k =>
          have hle : ¬ c < a ∧ (a = c → ¬ k < p) :=
            ⟨fun hlt => hpk.not_gt (List.cons_lt_cons_iff.mpr (Or.inl hlt)),
              fun heq hlt => hpk.not_gt (List.cons_lt_cons_iff.mpr (Or.inr ⟨heq.symm, hlt⟩))⟩
          have hge : ¬ a < c ∧ (a = c → ¬ p ++ rest < k) :=
            ⟨fun hlt => hkl.not_gt (List.cons_lt_cons_iff.mpr (Or.inl hlt)),
              fun heq hlt => hkl.not_gt (List.cons_lt_cons_iff.mpr (Or.inr ⟨heq, hlt⟩))⟩
          obtain rfl : a = c := le_antisymm (not_lt.mp hle.1) (not_lt.mp hge.1)
          rw [List.cons_prefix_cons]
          exact ⟨rfl, ih (not_lt.mp (hle.2 rfl)) (not_lt.mp (hge.2 rfl)) (List.prefix_append _ _)⟩

/-! ## Blocks of a sorted list -/

/-- A list splits where a property ends that what comes before has whenever
something has it. -/
theorem exists_split {β : Type*} {q : β → Prop} {xs : List β}
    (h : xs.Pairwise fun a b => q b → q a) :
    ∃ front back, xs = front ++ back ∧ (∀ x ∈ front, q x) ∧ ∀ x ∈ back, ¬ q x := by
  induction xs with
  | nil => exact ⟨[], [], rfl, List.forall_mem_nil _, List.forall_mem_nil _⟩
  | cons a xs ih =>
      obtain ⟨ha, hxs⟩ := List.pairwise_cons.mp h
      by_cases hq : q a
      · obtain ⟨front, back, rfl, hfront, hback⟩ := ih hxs
        exact ⟨a :: front, back, rfl, List.forall_mem_cons.mpr ⟨hq, hfront⟩, hback⟩
      · exact ⟨[], a :: xs, rfl, List.forall_mem_nil _,
          List.forall_mem_cons.mpr ⟨hq, fun x hx hqx => hq (ha x hx hqx)⟩⟩

/-- In a list sorted by paths what is at `p` or below it is one block, what is
at `p` first. -/
theorem exists_block {β : Type*} {key : β → List α} {xs : List β}
    (h : xs.Pairwise fun a b => key a ≤ key b) (p : List α) :
    ∃ pre own below post, xs = pre ++ own ++ below ++ post ∧ (∀ x ∈ own, key x = p) ∧
      (∀ x ∈ below, p <+: key x ∧ key x ≠ p) ∧ ∀ x ∈ pre ++ post, ¬ p <+: key x := by
  obtain ⟨pre, ys, rfl, hpre, hys⟩ :=
    exists_split (q := fun x => key x < p) (h.imp fun hab hb => hab.trans_lt hb)
  have hsorted := (List.pairwise_append.mp h).2.1
  obtain ⟨own, zs, rfl, hown, hzs⟩ := exists_split (q := fun x => key x = p)
    (hsorted.imp_of_mem fun ha _ hab hb => le_antisymm (hab.trans hb.le) (not_lt.mp (hys _ ha)))
  obtain ⟨below, post, rfl, hbelow, hpost⟩ := exists_split (q := fun x => p <+: key x)
    ((List.pairwise_append.mp hsorted).2.1.imp_of_mem fun ha _ hab hb =>
      prefix_of_le_of_le (not_lt.mp (hys _ (List.mem_append_right _ ha))) hab hb)
  refine ⟨pre, own, below, post, by simp only [List.append_assoc], hown,
    fun x hx => ⟨hbelow x hx, hzs x (List.mem_append_left _ hx)⟩, fun x hx => ?_⟩
  rcases List.mem_append.mp hx with hx | hx
  · exact fun hp => (hpre x hx).not_ge (prefix_le hp)
  · exact hpost x hx

end JoinedOrder

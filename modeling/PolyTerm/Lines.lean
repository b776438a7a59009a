import Mathlib.Data.List.Basic

/-!
# Lines

A word is cut behind every newline. Its lines are the one way to cut it into
pieces that are not empty and end at their first newline, the last of them
perhaps without one (`lines_eq_iff`).
-/

namespace Lines

variable {α : Type*} [DecidableEq α] {newline : α}

/-- Put a letter before the first line. -/
def attach (x : α) : List (List α) → List (List α)
  | [] => [[x]]
  | line :: rest => (x :: line) :: rest

/-- The lines of a word, each with its newline. -/
def lines (newline : α) : List α → List (List α)
  | [] => []
  | x :: word => if x = newline then [x] :: lines newline word else attach x (lines newline word)

omit [DecidableEq α] in
theorem flatten_attach (x : α) (ls : List (List α)) : (attach x ls).flatten = x :: ls.flatten := by
  cases ls <;> rfl

theorem flatten_lines (word : List α) : (lines newline word).flatten = word := by
  induction word with
  | nil => rfl
  | cons x word ih =>
      rw [lines]
      split
      · rw [List.flatten_cons, ih, List.singleton_append]
      · rw [flatten_attach, ih]

/-- A newline ends a line. -/
theorem lines_ended {line : List α} (h : newline ∉ line) (word : List α) :
    lines newline (line ++ newline :: word) = (line ++ [newline]) :: lines newline word := by
  induction line with
  | nil => simp [lines]
  | cons x line ih =>
      obtain ⟨hx, hline⟩ := List.ne_and_not_mem_of_not_mem_cons h
      rw [List.cons_append, lines, if_neg (Ne.symm hx), ih hline]
      rfl

/-- What has no newline is one line. -/
theorem lines_open {line : List α} (h : newline ∉ line) (hne : line ≠ []) :
    lines newline line = [line] := by
  induction line with
  | nil => exact absurd rfl hne
  | cons x line ih =>
      obtain ⟨hx, hline⟩ := List.ne_and_not_mem_of_not_mem_cons h
      rw [lines, if_neg (Ne.symm hx)]
      cases line with
      | nil => rfl
      | cons y line =>
          rw [ih hline (List.cons_ne_nil _ _)]
          rfl

/-- No line is empty or goes on behind a newline, and all but the last end with
one. -/
structure AreLines (newline : α) (ls : List (List α)) : Prop where
  nonempty : ∀ line ∈ ls, line ≠ []
  single : ∀ line ∈ ls, newline ∉ line.dropLast
  ended : ∀ line ∈ ls.dropLast, line.getLast? = some newline

omit [DecidableEq α] in
theorem areLines_nil : AreLines newline [] := ⟨by simp, by simp, by simp⟩

omit [DecidableEq α] in
theorem areLines_cons {line : List α} {ls : List (List α)} :
    AreLines newline (line :: ls) ↔ line ≠ [] ∧ newline ∉ line.dropLast ∧
      (ls ≠ [] → line.getLast? = some newline) ∧ AreLines newline ls := by
  constructor
  · rintro ⟨hne, hsingle, hended⟩
    rw [List.forall_mem_cons] at hne hsingle
    refine ⟨hne.1, hsingle.1, fun hls => ?_, hne.2, hsingle.2, fun l hl => ?_⟩
    · exact hended line (by rw [List.dropLast_cons_of_ne_nil hls]; exact List.mem_cons_self)
    · have hls : ls ≠ [] := List.ne_nil_of_mem (List.dropLast_subset ls hl)
      exact hended l (by rw [List.dropLast_cons_of_ne_nil hls]; exact List.mem_cons_of_mem _ hl)
  · rintro ⟨hne, hsingle, hended, hls⟩
    refine ⟨List.forall_mem_cons.mpr ⟨hne, hls.nonempty⟩,
      List.forall_mem_cons.mpr ⟨hsingle, hls.single⟩, ?_⟩
    cases ls with
    | nil => simp
    | cons second rest =>
        rw [List.dropLast_cons_cons, List.forall_mem_cons]
        exact ⟨hended (List.cons_ne_nil _ _), hls.ended⟩

theorem areLines_lines (word : List α) : AreLines newline (lines newline word) := by
  induction word with
  | nil => exact areLines_nil
  | cons x word ih =>
      rw [lines]
      split
      case isTrue hx =>
        rw [areLines_cons]
        exact ⟨List.cons_ne_nil _ _, by simp, fun _ => by simp [hx], ih⟩
      case isFalse hx =>
        cases hls : lines newline word with
        | nil =>
            rw [attach, areLines_cons]
            exact ⟨List.cons_ne_nil _ _, by simp, fun h => absurd rfl h, areLines_nil⟩
        | cons first rest =>
            rw [hls, areLines_cons] at ih
            obtain ⟨hne, hsingle, hended, hrest⟩ := ih
            rw [attach, areLines_cons, List.dropLast_cons_of_ne_nil hne, List.mem_cons, not_or,
              List.getLast?_cons_of_ne_nil hne]
            exact ⟨List.cons_ne_nil _ _, ⟨Ne.symm hx, hsingle⟩, hended, hrest⟩

theorem AreLines.lines_flatten {ls : List (List α)} (h : AreLines newline ls) :
    lines newline ls.flatten = ls := by
  induction ls with
  | nil => rfl
  | cons line rest ih =>
      obtain ⟨hne, hbody, hended, hrest⟩ := areLines_cons.mp h
      by_cases hend : line.getLast? = some newline
      · obtain ⟨body, rfl⟩ := List.getLast?_eq_some_iff.mp hend
        rw [List.dropLast_concat] at hbody
        rw [List.flatten_cons, List.append_assoc, List.singleton_append, lines_ended hbody,
          ih hrest]
      · -- only the last line has no newline
        obtain rfl : rest = [] := by
          by_contra hmore
          exact hend (hended hmore)
        have hopen : newline ∉ line := by
          rw [← List.dropLast_append_getLast hne, List.mem_append, List.mem_singleton]
          rw [List.getLast?_eq_getLast_of_ne_nil hne, Option.some.injEq] at hend
          exact fun hmem => hmem.elim hbody fun hlast => hend hlast.symm
        rw [List.flatten_cons, List.flatten_nil, List.append_nil, lines_open hopen hne]

/-- The lines of a word are the one way to cut it into lines. -/
theorem lines_eq_iff {word : List α} {ls : List (List α)} :
    lines newline word = ls ↔ ls.flatten = word ∧ AreLines newline ls := by
  constructor
  · rintro rfl
    exact ⟨flatten_lines word, areLines_lines word⟩
  · rintro ⟨rfl, h⟩
    exact h.lines_flatten

end Lines

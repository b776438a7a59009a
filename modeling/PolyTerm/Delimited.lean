import Mathlib.Data.List.Infix

/-!
# Text between two marks

A receiver that strips an opening mark and takes what comes before the first
closing mark. When the first item of the closing mark does not come again in
it, no mark can begin inside the text and end behind it, so the text comes back
whole unless it has a closing mark of its own (`unwrap_wrap_iff`).
-/

namespace Delimited

variable {α : Type*}

/-- A mark at the front of a text and all behind it is a mark at the front of
the text. -/
theorem prefix_of_prefix_append {c : α} {cs text rest : List α} (hc : c ∉ cs) (hne : text ≠ [])
    (h : (c :: cs) <+: text ++ ((c :: cs) ++ rest)) : (c :: cs) <+: text := by
  rcases List.prefix_or_prefix_of_prefix h (List.prefix_append _ _) with hmark | ⟨tail, htail⟩
  · exact hmark
  · cases tail with
    | nil =>
        rw [List.append_nil] at htail
        rw [htail]
    | cons d tail =>
        -- the mark goes on where it should begin again
        have hagain : text ++ d :: tail <+: text ++ ((c :: cs) ++ rest) := by
          rw [htail]
          exact h
        obtain ⟨more, hmore⟩ := (List.prefix_append_right_inj text).mp hagain
        obtain ⟨rfl, -⟩ := List.cons.inj hmore
        obtain ⟨e, text, rfl⟩ := List.exists_cons_of_ne_nil hne
        obtain ⟨rfl, rfl⟩ := List.cons.inj htail
        exact absurd (by simp) hc

variable [DecidableEq α]

/-- What comes before the first `mark`, and what comes behind it. -/
def cut (mark : List α) : List α → Option (List α × List α)
  | [] => if mark = [] then some ([], []) else none
  | x :: xs =>
      if mark.isPrefixOf (x :: xs) then some ([], (x :: xs).drop mark.length)
      else (cut mark xs).map fun (text, rest) => (x :: text, rest)

def wrap (opening closing text : List α) : List α := opening ++ text ++ closing

/-- What a receiver makes of wrapped text: the text, and what is left. -/
def unwrap (opening closing xs : List α) : Option (List α × List α) :=
  if opening.isPrefixOf xs then cut closing (xs.drop opening.length) else none

theorem cut_append_iff {c : α} {cs : List α} (hc : c ∉ cs) (text rest : List α) :
    cut (c :: cs) (text ++ ((c :: cs) ++ rest)) = some (text, rest) ↔ ¬(c :: cs) <:+: text := by
  induction text with
  | nil => simp [cut]
  | cons x text ih =>
      have hprefix : (c :: cs) <+: x :: text ++ ((c :: cs) ++ rest) ↔ (c :: cs) <+: x :: text :=
        ⟨prefix_of_prefix_append hc (List.cons_ne_nil _ _),
          fun h => h.trans (List.prefix_append _ _)⟩
      rw [List.infix_cons_iff, List.cons_append, cut, ← List.cons_append]
      simp only [List.isPrefixOf_iff_prefix, hprefix]
      by_cases hmark : (c :: cs) <+: x :: text
      · simp [hmark]
      · simp only [hmark, if_false, false_or, ← ih, Option.map_eq_some_iff, Prod.mk.injEq,
          Prod.exists, List.cons.injEq, true_and]
        constructor
        · rintro ⟨text', rest', hcut, rfl, rfl⟩
          exact hcut
        · exact fun hcut => ⟨text, rest, hcut, rfl, rfl⟩

/-- Wrapped text is read back, and nothing more, exactly when it has no closing
mark in it. -/
theorem unwrap_wrap_iff (opening : List α) {c : α} {cs : List α} (hc : c ∉ cs) (text : List α) :
    unwrap opening (c :: cs) (wrap opening (c :: cs) text) = some (text, []) ↔
      ¬(c :: cs) <:+: text := by
  have hprefix : opening <+: wrap opening (c :: cs) text :=
    (List.prefix_append _ _).trans (List.prefix_append _ _)
  rw [unwrap, if_pos (List.isPrefixOf_iff_prefix.mpr hprefix), ← cut_append_iff hc text []]
  simp [wrap]

end Delimited

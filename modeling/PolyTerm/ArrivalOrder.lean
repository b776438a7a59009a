import PolyTerm.Runs

/-!
# Numbers in the order of arrival

A system numbers its items as they arrive and keeps them in a line: those
already through first, then those still on their way. A step leaves the line
as it is, up to what may be lost or repeated, or puts the next number
somewhere in it (`Shift`). A new number stays in order only at the end of the
line, so the line of a run is in order exactly when every arrival waits its
turn (`run_inOrder`).
-/

namespace ArrivalOrder

open Runs

variable {σ α : Type*} (R : Nat → Nat → Prop) (line : σ → List Nat) (count : σ → Nat)

/-- What a step from `s` to `t` does to the line. `waits` is that it lets no
arrival in before others, `intact` that nothing of the line was lost. -/
inductive Shift (waits intact : Prop) (s t : σ) : Prop where
  | keep (count_le : count s ≤ count t) (subset : ∀ n ∈ line t, n ∈ line s) (waits : waits)
      (into : (line s).Pairwise R → (line t).Pairwise R)
      (back : intact → (line t).Pairwise R → (line s).Pairwise R)
  | add (before after : List Nat) (count_eq : count t = count s + 1)
      (old : line s = before ++ after) (new : line t = before ++ count s :: after)
      (waits : waits ↔ after = [])

variable {R line count} {s t : σ} {waits intact : Prop}

theorem Shift.of_eq (count_le : count s ≤ count t) (hline : line t = line s) (hwaits : waits) :
    Shift R line count waits intact s t :=
  .keep count_le (fun _ hn => hline ▸ hn) hwaits (fun h => hline ▸ h) (fun _ h => hline ▸ h)

theorem Shift.of_sublist (count_le : count s ≤ count t) (hline : (line t).Sublist (line s))
    (hwaits : waits) (hsame : intact → line t = line s) : Shift R line count waits intact s t :=
  .keep count_le (fun _ hn => hline.subset hn) hwaits (fun h => h.sublist hline)
    (fun hkept h => hsame hkept ▸ h)

theorem Shift.lt (h : Shift R line count waits intact s t) (hs : ∀ n ∈ line s, n < count s) :
    ∀ n ∈ line t, n < count t := by
  intro n hn
  cases h with
  | keep count_le subset => exact Nat.lt_of_lt_of_le (hs n (subset n hn)) count_le
  | add before after count_eq old new =>
      rw [new, List.mem_append, List.mem_cons] at hn
      rw [count_eq]
      rcases hn with hn | rfl | hn
      · exact Nat.lt_succ_of_lt (hs n (old ▸ List.mem_append_left _ hn))
      · exact Nat.lt_succ_self _
      · exact Nat.lt_succ_of_lt (hs n (old ▸ List.mem_append_right _ hn))

section Order

variable (hR : ∀ {n k}, n < k → R n k ∧ ¬R k n) (hs : ∀ n ∈ line s, n < count s)
include hR hs

/-- A step that waits keeps the line in order. -/
theorem Shift.into_order (h : Shift R line count waits intact s t) (hwaits : waits)
    (horder : (line s).Pairwise R) : (line t).Pairwise R := by
  cases h with
  | keep _ _ _ into => exact into horder
  | add before after count_eq old new iff =>
      obtain rfl := iff.mp hwaits
      rw [List.append_nil] at old
      rw [new, List.pairwise_append, ← old]
      refine ⟨horder, List.pairwise_singleton _ _, fun n hn m hm => ?_⟩
      rw [List.mem_singleton.mp hm]
      exact (hR (hs n hn)).1

/-- A line that loses nothing does not get back in order, and an arrival that
does not wait puts it out of order. -/
theorem Shift.of_order (h : Shift R line count waits intact s t) (hintact : intact)
    (horder : (line t).Pairwise R) : waits ∧ (line s).Pairwise R := by
  cases h with
  | keep _ _ hwaits _ back => exact ⟨hwaits, back hintact horder⟩
  | add before after count_eq old new iff =>
      rw [new] at horder
      have hafter : after = [] := by
        refine List.eq_nil_iff_forall_not_mem.mpr fun n hn => ?_
        have hahead : R (count s) n :=
          (List.pairwise_cons.mp (List.pairwise_append.mp horder).2.1).1 n hn
        exact (hR (hs n (old ▸ List.mem_append_right _ hn))).2 hahead
      refine ⟨iff.mpr hafter, horder.sublist ?_⟩
      rw [old]
      exact (List.sublist_cons_self _ _).append_left _

end Order

variable {step : σ → α → Option σ} {Waits : σ → α → Prop} {I Intact : σ → Prop} {s₀ : σ}

variable (count) in
/-- The line of a run is in order if every arrival waits, and, as long as
nothing is lost, only then. -/
theorem run_inOrder (hR : ∀ {n k}, n < k → R n k ∧ ¬R k n)
    (hstep : ∀ s a t, I s → step s a = some t →
      I t ∧ Shift R line count (Waits s a) (Intact t) s t)
    (hintact : ∀ s a t, step s a = some t → Intact t → Intact s)
    (hstart : I s₀) (hline : line s₀ = []) {as : List α} (hrun : run step s₀ as = some s) :
    (Along step Waits s₀ as → (line s).Pairwise R) ∧
      (Intact s → (line s).Pairwise R → Along step Waits s₀ as) := by
  have hinv {as : List α} {s : σ} (hrun : run step s₀ as = some s) :
      I s ∧ ∀ n ∈ line s, n < count s :=
    Runs.invariant (I := fun s => I s ∧ ∀ n ∈ line s, n < count s)
      (fun s a t h ht => ⟨(hstep s a t h.1 ht).1, (hstep s a t h.1 ht).2.lt h.2⟩)
      ⟨hstart, by simp [hline]⟩ hrun
  induction as using List.reverseRecOn generalizing s with
  | nil =>
      obtain rfl := Option.some.inj hrun
      exact ⟨fun _ => hline ▸ List.Pairwise.nil, fun _ _ => trivial⟩
  | append_singleton as a ih =>
      obtain ⟨r, hr, ha⟩ := run_concat.mp hrun
      obtain ⟨hinto, honly⟩ := ih hr
      obtain ⟨hI, hlt⟩ := hinv hr
      have hshift := (hstep r a s hI ha).2
      rw [along_concat]
      constructor
      · rintro ⟨halong, hwaits⟩
        exact hshift.into_order hR hlt (hwaits r hr) (hinto halong)
      · intro hkept horder
        obtain ⟨hwaits, hbefore⟩ := hshift.of_order hR hlt hkept horder
        refine ⟨honly (hintact r a s ha hkept) hbefore, fun u hu => ?_⟩
        obtain rfl := Option.some.inj (hr.symm.trans hu)
        exact hwaits

end ArrivalOrder

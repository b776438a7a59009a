import PolyTerm.Runs

/-!
# Runs that lose nothing, and runs that come to an end

Two rules for systems that pass things on. The first keeps books: what a state
holds and what a step takes in is what the step gives out and what the next
state holds, so the same is true of a run (`balanced`); a system that breaks
down gives out a beginning of what it took in, and nothing after it broke
(`balanced_until`).

The second is for systems that are to stop. A rank that falls bounds the steps
of every run (`moves_le`), what else raises it being paid for (`moves_le_counted`);
and where some step lowers it as long as the system is not final, a run that ends
it can always be found (`exists_final`).
-/

namespace Runs

variable {σ α ω : Type*} {step : σ → α → Option σ} {s t : σ} {as : List α}

/-! ## Books -/

section Books

variable {I live : σ → Prop} {p : σ → α → Prop} {held : σ → List ω} {ins outs : σ → α → List ω}

/-- What balances at every step balances over a run. -/
theorem balanced (hstep : ∀ s a t, p s a → step s a = some t →
      held s ++ ins s a = outs s a ++ held t)
    (hp : Along step p s as) (hrun : run step s as = some t) :
    held s ++ outputs step ins s as = outputs step outs s as ++ held t := by
  induction as generalizing s with
  | nil =>
      obtain rfl := Option.some.inj hrun
      simp [outputs]
  | cons a as ih =>
      obtain ⟨r, hr, hrest⟩ := run_cons_eq_some.mp hrun
      have hfirst := hstep s a r hp.1 hr
      have hlater := ih (hp.2 r hr) hrest
      calc held s ++ outputs step ins s (a :: as)
          = (held s ++ ins s a) ++ outputs step ins r as := by
            rw [outputs_cons hr, List.append_assoc]
        _ = outs s a ++ (held r ++ outputs step ins r as) := by
            rw [hfirst, List.append_assoc]
        _ = outputs step outs s (a :: as) ++ held t := by
            rw [hlater, outputs_cons hr, List.append_assoc]

/-- A live system gives out what it took in, oldest first, and holds the rest. One
that is no longer live gives out nothing more. -/
theorem balanced_until (hI : ∀ s a t, I s → step s a = some t → I t)
    (hlive : ∀ s a t, I s → live s → step s a = some t →
      ∃ rest, held s ++ ins s a = outs s a ++ rest ∧ (live t → rest = held t))
    (hdead : ∀ s a t, I s → ¬live s → step s a = some t → ¬live t ∧ outs s a = [])
    (hs : I s) (hrun : run step s as = some t) :
    ∃ rest, held s ++ outputs step ins s as = outputs step outs s as ++ rest ∧
      (live t → rest = held t) := by
  induction as using List.reverseRecOn generalizing t with
  | nil =>
      obtain rfl := Option.some.inj hrun
      exact ⟨held s, by simp [outputs], fun _ => rfl⟩
  | append_singleton as a ih =>
      obtain ⟨r, hr, ht⟩ := run_concat.mp hrun
      obtain ⟨rest, hbooks, hrest⟩ := ih hr
      have hIr : I r := invariant hI hs hr
      rw [outputs_concat hr ht, outputs_concat hr ht, ← List.append_assoc, hbooks]
      by_cases hopen : live r
      · obtain ⟨left, hleft, hheld⟩ := hlive r a t hIr hopen ht
        exact ⟨left, by rw [hrest hopen, List.append_assoc, hleft, List.append_assoc], hheld⟩
      · obtain ⟨hshut, hnone⟩ := hdead r a t hIr hopen ht
        exact ⟨rest ++ ins r a, by rw [hnone, List.append_nil, List.append_assoc],
          fun h => absurd h hshut⟩

end Books

/-! ## Rank -/

section Rank

variable {I final : σ → Prop} {owed : σ → α → Prop} {moves : σ → α → Bool} {rank : σ → Nat}

/-- The steps of a run that get the system on. -/
def moved (step : σ → α → Option σ) (moves : σ → α → Bool) : σ → List α → List α :=
  outputs step fun s a => if moves s a then [a] else []

/-- Each step that gets the system on lowers the rank, and of the others only those of
one kind raise it, by `c` at most: these are what buys more of the first. -/
theorem moves_le_counted {buys : α → Bool} {c : Nat}
    (hI : ∀ s a t, I s → step s a = some t → I t)
    (hlower : ∀ s a t, I s → step s a = some t → moves s a = true → rank t < rank s)
    (hidle : ∀ s a t, I s → step s a = some t → moves s a = false →
      rank t ≤ rank s + if buys a then c else 0)
    (hs : I s) (hrun : run step s as = some t) :
    (moved step moves s as).length + rank t ≤ rank s + c * as.countP buys := by
  induction as generalizing s with
  | nil =>
      obtain rfl := Option.some.inj hrun
      simp [moved, outputs]
  | cons a as ih =>
      obtain ⟨r, hr, hrest⟩ := run_cons_eq_some.mp hrun
      have hlater := ih (hI s a r hs hr) hrest
      have hcount : c * (a :: as).countP buys = c * as.countP buys + if buys a then c else 0 := by
        rw [List.countP_cons, Nat.mul_add]
        cases buys a <;> simp
      rw [moved, outputs_cons hr, List.length_append, hcount]
      rw [moved] at hlater
      cases hmoves : moves s a with
      | true =>
          have := hlower s a r hs hr hmoves
          simp only [if_true, List.length_singleton]
          omega
      | false =>
          have := hidle s a r hs hr hmoves
          simp only [Bool.false_eq_true, if_false, List.length_nil]
          omega

/-- If no other step raises the rank there are no more moves than the rank. -/
theorem moves_le (hI : ∀ s a t, I s → step s a = some t → I t)
    (hlower : ∀ s a t, I s → step s a = some t → moves s a = true → rank t < rank s)
    (hidle : ∀ s a t, I s → step s a = some t → moves s a = false → rank t ≤ rank s)
    (hs : I s) (hrun : run step s as = some t) :
    (moved step moves s as).length + rank t ≤ rank s := by
  have hcounted : (moved step moves s as).length + rank t ≤
      rank s + 0 * as.countP fun _ => false :=
    moves_le_counted hI hlower (fun s a t hs h hm => hidle s a t hs h hm) hs hrun
  rwa [Nat.zero_mul, Nat.add_zero] at hcounted

/-- Wherever the system is not yet final an owed step lowers its rank: then owed steps
get it there. -/
theorem exists_final (hgo : ∀ s, I s → ¬final s →
      ∃ a t, owed s a ∧ step s a = some t ∧ I t ∧ rank t < rank s) (hs : I s) :
    ∃ as t, run step s as = some t ∧ Along step owed s as ∧ I t ∧ final t := by
  induction hrank : rank s using Nat.strongRecOn generalizing s with
  | ind n ih =>
      by_cases hfinal : final s
      · exact ⟨[], s, rfl, trivial, hs, hfinal⟩
      · obtain ⟨a, r, howed, hr, hIr, hlt⟩ := hgo s hs hfinal
        obtain ⟨as, t, hrun, halong, hIt, ht⟩ := ih (rank r) (hrank ▸ hlt) hIr rfl
        refine ⟨a :: as, t, run_cons_eq_some.mpr ⟨r, hr, hrun⟩, ⟨howed, ?_⟩, hIt, ht⟩
        intro r' hr'
        obtain rfl := Option.some.inj (hr.symm.trans hr')
        exact halong

end Rank

end Runs

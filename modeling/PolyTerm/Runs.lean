import Mathlib.Data.List.Infix

/-!
# Runs of a labelled partial step function

A system is a state type, a label type and `step : σ → α → Option σ`; `none`
means that the label is not enabled. A run is a list of labels. Besides the
plain invariant rule the file has the *conditional* one (`run_invariant`): a
condition on steps, `Along`, that is read off the state a step starts from
and the label it carries, and an invariant that survives every step meeting
it. `outputs` collects what the steps of a run emit.
-/

namespace Runs

variable {σ α ω : Type*}

/-- The state a run ends in, if every label was enabled. -/
def run (step : σ → α → Option σ) : σ → List α → Option σ
  | s, [] => some s
  | s, a :: as => (step s a).bind fun t => run step t as

/-- `p` holds of every step of the run. -/
def Along (step : σ → α → Option σ) (p : σ → α → Prop) : σ → List α → Prop
  | _, [] => True
  | s, a :: as => p s a ∧ ∀ t, step s a = some t → Along step p t as

/-- Everything the steps of a run emit, in order. -/
def outputs (step : σ → α → Option σ) (out : σ → α → List ω) : σ → List α → List ω
  | _, [] => []
  | s, a :: as =>
      match step s a with
      | some t => out s a ++ outputs step out t as
      | none => []

variable {step : σ → α → Option σ} {p q : σ → α → Prop} {I : σ → Prop}

@[simp] theorem run_nil (s : σ) : run step s [] = some s := rfl

theorem run_cons (s : σ) (a : α) (as : List α) :
    run step s (a :: as) = (step s a).bind fun t => run step t as := rfl

theorem run_cons_eq_some {s u : σ} {a : α} {as : List α} :
    run step s (a :: as) = some u ↔ ∃ t, step s a = some t ∧ run step t as = some u := by
  rw [run_cons, Option.bind_eq_some_iff]

theorem run_append (s : σ) (as bs : List α) :
    run step s (as ++ bs) = (run step s as).bind fun t => run step t bs := by
  induction as generalizing s with
  | nil => rfl
  | cons a as ih =>
      rw [List.cons_append, run_cons, run_cons]
      cases step s a with
      | none => rfl
      | some t => exact ih t

theorem run_concat {s u : σ} {as : List α} {a : α} :
    run step s (as ++ [a]) = some u ↔ ∃ t, run step s as = some t ∧ step t a = some u := by
  rw [run_append, Option.bind_eq_some_iff]
  simp [run_cons]

instance Along.decidable [∀ s a, Decidable (p s a)] :
    ∀ (s : σ) (as : List α), Decidable (Along step p s as)
  | _, [] => .isTrue trivial
  | s, a :: as =>
      match h : step s a with
      | none => decidable_of_iff (p s a) (by simp [Along, h])
      | some t =>
          have := Along.decidable t as
          decidable_of_iff (p s a ∧ Along step p t as) (by simp [Along, h])

theorem Along.mono (h : ∀ s a, p s a → q s a) :
    ∀ {as : List α} {s : σ}, Along step p s as → Along step q s as
  | [], _, _ => trivial
  | _ :: _, s, hp => ⟨h s _ hp.1, fun t ht => Along.mono h (hp.2 t ht)⟩

theorem along_concat {as : List α} {a : α} : ∀ {s : σ},
    Along step p s (as ++ [a]) ↔
      Along step p s as ∧ ∀ t, run step s as = some t → p t a := by
  induction as with
  | nil => intro s; simp [Along]
  | cons b as ih =>
      intro s
      simp only [List.cons_append, Along, ih, run_cons_eq_some]
      constructor
      · rintro ⟨hb, hrest⟩
        exact ⟨⟨hb, fun t ht => (hrest t ht).1⟩,
          fun u ⟨t, ht, hu⟩ => (hrest t ht).2 u hu⟩
      · rintro ⟨⟨hb, hrest⟩, hlast⟩
        exact ⟨hb, fun t ht => ⟨hrest t ht, fun u hu => hlast u ⟨t, ht, hu⟩⟩⟩

/-- Every step of the run, by its place in it. -/
theorem along_iff_split {as : List α} : ∀ {s : σ},
    Along step p s as ↔
      ∀ bs a cs r, as = bs ++ a :: cs → run step s bs = some r → p r a := by
  induction as with
  | nil => intro s; simp [Along]
  | cons a as ih =>
      intro s
      constructor
      · rintro ⟨ha, hrest⟩ bs b cs r hsplit hrun
        cases bs with
        | nil =>
            obtain ⟨rfl, rfl⟩ := List.cons.inj hsplit
            exact Option.some.inj hrun ▸ ha
        | cons c bs =>
            obtain ⟨rfl, htail⟩ := List.cons.inj hsplit
            obtain ⟨t, ht, hrun⟩ := run_cons_eq_some.mp hrun
            exact ih.mp (hrest t ht) bs b cs r htail hrun
      · intro hall
        refine ⟨hall [] a as s rfl rfl, fun t ht => ih.mpr fun bs b cs r hsplit hrun => ?_⟩
        exact hall (a :: bs) b cs r (by rw [hsplit]; rfl) (run_cons_eq_some.mpr ⟨t, ht, hrun⟩)

theorem along_and {as : List α} {s : σ} :
    Along step (fun t a => p t a ∧ q t a) s as ↔ Along step p s as ∧ Along step q s as := by
  simp only [along_iff_split]
  exact ⟨fun h => ⟨fun bs a cs r hsplit hrun => (h bs a cs r hsplit hrun).1,
      fun bs a cs r hsplit hrun => (h bs a cs r hsplit hrun).2⟩,
    fun h bs a cs r hsplit hrun => ⟨h.1 bs a cs r hsplit hrun, h.2 bs a cs r hsplit hrun⟩⟩

/-- The conditional invariant rule. -/
theorem run_invariant
    (hstep : ∀ s a t, I s → p s a → step s a = some t → I t) :
    ∀ {as : List α} {s u : σ}, I s → Along step p s as → run step s as = some u → I u
  | [], _, _, hs, _, hrun => Option.some.inj hrun ▸ hs
  | a :: as, s, u, hs, hp, hrun => by
      obtain ⟨t, ht, hrest⟩ := run_cons_eq_some.mp hrun
      exact run_invariant hstep (hstep s a t hs hp.1 ht) (hp.2 t ht) hrest

/-- What an invariant gives at each step, it gives along every run. -/
theorem along_of_invariant
    (hstep : ∀ s a t, I s → p s a → step s a = some t → I t)
    (hq : ∀ s a, I s → p s a → q s a) :
    ∀ {as : List α} {s : σ}, I s → Along step p s as → Along step q s as
  | [], _, _, _ => trivial
  | _ :: _, s, hs, hp =>
      ⟨hq s _ hs hp.1, fun t ht =>
        along_of_invariant hstep hq (hstep s _ t hs hp.1 ht) (hp.2 t ht)⟩

theorem along_true : ∀ {as : List α} {s : σ}, Along step (fun _ _ => True) s as
  | [], _ => trivial
  | _ :: _, _ => ⟨trivial, fun _ _ => along_true⟩

/-- The unconditional invariant rule. -/
theorem invariant (hstep : ∀ s a t, I s → step s a = some t → I t)
    {as : List α} {s u : σ} (hs : I s) (hrun : run step s as = some u) : I u :=
  run_invariant (fun s a t h _ ht => hstep s a t h ht) hs along_true hrun

/-- What holds of the output of every step holds of the outputs of a run. -/
theorem outputs_all {out : σ → α → List ω} {P : ω → Prop}
    (hstep : ∀ s a t, I s → p s a → step s a = some t → I t)
    (hout : ∀ s a t, I s → p s a → step s a = some t → ∀ x ∈ out s a, P x) :
    ∀ {as : List α} {s : σ}, I s → Along step p s as → ∀ x ∈ outputs step out s as, P x
  | [], _, _, _, x, hx => by cases hx
  | a :: as, s, hs, hp, x, hx => by
      cases ht : step s a with
      | none => simp [outputs, ht] at hx
      | some t =>
          simp only [outputs, ht, List.mem_append] at hx
          rcases hx with hx | hx
          · exact hout s a t hs hp.1 ht x hx
          · exact outputs_all hstep hout (hstep s a t hs hp.1 ht) (hp.2 t ht) x hx

theorem outputs_cons {out : σ → α → List ω} {a : α} {as : List α} {s t : σ}
    (h : step s a = some t) :
    outputs step out s (a :: as) = out s a ++ outputs step out t as := by
  simp only [outputs, h]

theorem outputs_append {out : σ → α → List ω} {as bs : List α} {s t : σ}
    (hrun : run step s as = some t) :
    outputs step out s (as ++ bs) = outputs step out s as ++ outputs step out t bs := by
  induction as generalizing s with
  | nil =>
      obtain rfl := Option.some.inj hrun
      rfl
  | cons a as ih =>
      obtain ⟨r, hr, hrest⟩ := run_cons_eq_some.mp hrun
      simp only [List.cons_append, outputs, hr, ih hrest, List.append_assoc]

theorem outputs_concat {out : σ → α → List ω} {as : List α} {a : α} {s t u : σ}
    (hrun : run step s as = some t) (hstep : step t a = some u) :
    outputs step out s (as ++ [a]) = outputs step out s as ++ out t a := by
  rw [outputs_append hrun, outputs, hstep]
  simp [outputs]

/-! ## Since -/

/-- Some step of the run met `p`, and neither it nor a later one met `q`. -/
def Since (step : σ → α → Option σ) (p q : σ → α → Prop) (s : σ) (as : List α) : Prop :=
  ∃ bs a cs r, as = bs ++ a :: cs ∧ run step s bs = some r ∧ p r a ∧
    Along step (fun t b => ¬q t b) r (a :: cs)

theorem not_since_nil {s : σ} : ¬Since step p q s [] := by
  rintro ⟨bs, a, cs, r, hsplit, -⟩
  simp at hsplit

/-- `Since` over one more step. -/
theorem since_concat {as : List α} {a : α} {s t : σ} (hrun : run step s as = some t) :
    Since step p q s (as ++ [a]) ↔ (p t a ∨ Since step p q s as) ∧ ¬q t a := by
  constructor
  · rintro ⟨bs, b, cs, r, hsplit, hbs, hp, hq⟩
    induction cs using List.reverseRecOn with
    | nil =>
        obtain ⟨rfl, hab⟩ := List.append_inj' hsplit rfl
        obtain rfl := List.singleton_inj.mp hab
        obtain rfl := Option.some.inj (hrun.symm.trans hbs)
        exact ⟨Or.inl hp, hq.1⟩
    | append_singleton cs c _ =>
        rw [← List.cons_append, ← List.append_assoc] at hsplit
        obtain ⟨rfl, hac⟩ := List.append_inj' hsplit rfl
        obtain rfl := List.singleton_inj.mp hac
        rw [← List.cons_append, along_concat] at hq
        rw [run_append, hbs] at hrun
        exact ⟨Or.inr ⟨bs, b, cs, r, rfl, hbs, hp, hq.1⟩, hq.2 t hrun⟩
  · rintro ⟨hp | ⟨bs, b, cs, r, rfl, hbs, hp, hq⟩, hnot⟩
    · exact ⟨as, a, [], t, rfl, hrun, hp, hnot, fun _ _ => trivial⟩
    · refine ⟨bs, b, cs ++ [a], r, by simp, hbs, hp, ?_⟩
      rw [run_append, hbs] at hrun
      rw [← List.cons_append, along_concat]
      refine ⟨hq, fun u hu => ?_⟩
      obtain rfl := Option.some.inj (hrun.symm.trans hu)
      exact hnot

end Runs

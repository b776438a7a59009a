import PolyTerm.Writes

/-!
# Values staged aside and published whole

Writers replace the values of a store's keys. A value is put together, step by
step, at a scratch key that belongs to its writer, and is then moved to its key
in one step. Any number of writers take their steps in any order, and each can
stop at any moment. Off the scratch keys the store changes only by whole values
all the same: it is what the published writes, in the order of their
publishing, make of the store at first (`Steps.store_eq`).

A key that is nobody's scratch key can also change in one step from outside.
-/

namespace Staged

open Writes

variable {κ ν π : Type*}

/-- A write in progress; `staged` is what it has put at its scratch key, once it
has put anything there. -/
structure Job (κ ν : Type*) where
  key : κ
  value : ν
  scratch : κ
  staged : Option ν

structure State (κ ν π : Type*) where
  store : κ → ν
  jobs : π → Option (Job κ ν)

/-- Which scratch keys a writer has: no two writers share one. -/
structure Owners (κ π : Type*) where
  owns : π → κ → Prop
  unique : ∀ p q k, owns p k → owns q k → p = q

/-- Somebody's scratch key. -/
def Owners.Hidden (O : Owners κ π) (k : κ) : Prop := ∃ p, O.owns p k

variable [DecidableEq κ] [DecidableEq π]

/-- One step, with what it changes off the scratch keys. -/
inductive Step (O : Owners κ π) : State κ ν π → List (κ × ν) → State κ ν π → Prop
  | start {s : State κ ν π} {p : π} (key : κ) (value : ν) (scratch : κ) (hkey : ¬O.Hidden key)
      (howns : O.owns p scratch) :
      Step O s [] { s with jobs := Function.update s.jobs p (some ⟨key, value, scratch, none⟩) }
  | stage {s : State κ ν π} {p : π} {j : Job κ ν} (hjob : s.jobs p = some j) (v : ν) :
      Step O s []
        { store := Function.update s.store j.scratch v
          jobs := Function.update s.jobs p (some { j with staged := some v }) }
  /-- a scratch key at which nothing is staged gets another value -/
  | clobber {s : State κ ν π} (k : κ) (v : ν) (hidden : O.Hidden k)
      (hfree : ∀ p j, s.jobs p = some j → j.staged ≠ none → j.scratch ≠ k) :
      Step O s [] { s with store := Function.update s.store k v }
  /-- what is at the scratch key moves, and `rest` stays there -/
  | publish {s : State κ ν π} {p : π} {j : Job κ ν} (hjob : s.jobs p = some j)
      (hready : j.staged = some j.value) (rest : ν) :
      Step O s [(j.key, j.value)]
        { store := Function.update (Function.update s.store j.key (s.store j.scratch)) j.scratch rest
          jobs := Function.update s.jobs p none }
  | stop {s : State κ ν π} (p : π) : Step O s [] { s with jobs := Function.update s.jobs p none }
  | outside {s : State κ ν π} (k : κ) (v : ν) (hk : ¬O.Hidden k) :
      Step O s [(k, v)] { s with store := Function.update s.store k v }

inductive Steps (O : Owners κ π) : State κ ν π → List (κ × ν) → State κ ν π → Prop
  | refl (s : State κ ν π) : Steps O s [] s
  | tail {s t u : State κ ν π} {ws vs : List (κ × ν)} (h : Steps O s ws t)
      (hstep : Step O t vs u) : Steps O s (ws ++ vs) u

/-- Every writer stages at a key of its own, for a key that is nobody's, and
what it has put there is there. -/
structure Sound (O : Owners κ π) (s : State κ ν π) : Prop where
  owns : ∀ p j, s.jobs p = some j → O.owns p j.scratch
  key : ∀ p j, s.jobs p = some j → ¬O.Hidden j.key
  held : ∀ p j v, s.jobs p = some j → j.staged = some v → s.store j.scratch = v

variable {O : Owners κ π} {s t u : State κ ν π} {ws vs : List (κ × ν)}

omit [DecidableEq κ] [DecidableEq π] in
theorem sound_idle {s : State κ ν π} (h : ∀ p, s.jobs p = none) : Sound O s :=
  ⟨fun p _ hp => absurd hp (by simp [h p]), fun p _ hp => absurd hp (by simp [h p]),
    fun p _ _ hp => absurd hp (by simp [h p])⟩

/-! ## One step -/

omit [DecidableEq κ] [DecidableEq π] in
/-- Two writers do not stage at one key. -/
theorem Sound.scratch_ne (hs : Sound O s) {p q : π} {i j : Job κ ν} (hp : s.jobs p = some i)
    (hq : s.jobs q = some j) (hne : p ≠ q) : i.scratch ≠ j.scratch := by
  intro heq
  refine hne (O.unique p q i.scratch (hs.owns p i hp) ?_)
  rw [heq]
  exact hs.owns q j hq

omit [DecidableEq κ] [DecidableEq π] in
/-- No scratch key is a key that is nobody's. -/
theorem Sound.scratch_ne_of_not_hidden (hs : Sound O s) {k : κ} (hk : ¬O.Hidden k) :
    ∀ p j, s.jobs p = some j → j.scratch ≠ k := by
  rintro p j hp rfl
  exact hk ⟨p, hs.owns p j hp⟩

omit [DecidableEq κ] in
/-- What is left once the job of `p` is gone. -/
theorem dropped_eq_some {p q : π} {j : Job κ ν}
    (h : Function.update s.jobs p none q = some j) : q ≠ p ∧ s.jobs q = some j := by
  by_cases hqp : q = p
  · subst hqp
    rw [Function.update_self] at h
    cases h
  · rw [Function.update_of_ne hqp] at h
    exact ⟨hqp, h⟩

omit [DecidableEq κ] in
theorem Sound.drop_job (hs : Sound O s) (p : π) :
    Sound O { s with jobs := Function.update s.jobs p none } :=
  ⟨fun q j hq => hs.owns q j (dropped_eq_some hq).2,
    fun q j hq => hs.key q j (dropped_eq_some hq).2,
    fun q j v hq => hs.held q j v (dropped_eq_some hq).2⟩

omit [DecidableEq κ] in
/-- None of the other writers stages where `p` does. -/
theorem Sound.dropped_scratch_ne (hs : Sound O s) {p : π} {j : Job κ ν}
    (hjob : s.jobs p = some j) :
    ∀ q i, Function.update s.jobs p none q = some i → i.scratch ≠ j.scratch :=
  fun _ _ hq => hs.scratch_ne (dropped_eq_some hq).2 hjob (dropped_eq_some hq).1

omit [DecidableEq κ] in
/-- A writer's new job among the others. -/
theorem Sound.update_job (hs : Sound O s) {p : π} {i : Job κ ν} (howns : O.owns p i.scratch)
    (hkey : ¬O.Hidden i.key) (hheld : ∀ v, i.staged = some v → s.store i.scratch = v) :
    Sound O { s with jobs := Function.update s.jobs p (some i) } := by
  have hcases : ∀ q j, Function.update s.jobs p (some i) q = some j →
      (q = p ∧ j = i) ∨ s.jobs q = some j := by
    intro q j hq
    by_cases hqp : q = p
    · subst hqp
      rw [Function.update_self] at hq
      exact Or.inl ⟨rfl, (Option.some.inj hq).symm⟩
    · rw [Function.update_of_ne hqp] at hq
      exact Or.inr hq
  constructor
  · intro q j hq
    rcases hcases q j hq with ⟨rfl, rfl⟩ | hq
    · exact howns
    · exact hs.owns q j hq
  · intro q j hq
    rcases hcases q j hq with ⟨rfl, rfl⟩ | hq
    · exact hkey
    · exact hs.key q j hq
  · intro q j v hq hstaged
    rcases hcases q j hq with ⟨rfl, rfl⟩ | hq
    · exact hheld v hstaged
    · exact hs.held q j v hq hstaged

omit [DecidableEq π] in
/-- Writing a key at which nothing is staged. -/
theorem Sound.update_store (hs : Sound O s) {k : κ} (v : ν)
    (hfree : ∀ p j, s.jobs p = some j → j.staged ≠ none → j.scratch ≠ k) :
    Sound O { s with store := Function.update s.store k v } := by
  refine ⟨hs.owns, hs.key, fun p j w hp hstaged => ?_⟩
  change Function.update s.store k v j.scratch = w
  rw [Function.update_of_ne (hfree p j hp (by simp [hstaged]))]
  exact hs.held p j w hp hstaged

theorem Step.sound (h : Step O s ws t) (hs : Sound O s) : Sound O t := by
  cases h with
  | start key value scratch hkey howns => exact hs.update_job howns hkey nofun
  | @stage p j hjob v =>
      -- without its job the writer's scratch key is nobody's to rely on
      have hdrop := (hs.drop_job p).update_store v fun q i hq _ => hs.dropped_scratch_ne hjob q i hq
      have hjob' := hdrop.update_job (i := { j with staged := some v }) (hs.owns p j hjob)
        (hs.key p j hjob) fun w hw => (Function.update_self ..).trans (Option.some.inj hw)
      simpa only [Function.update_idem] using hjob'
  | clobber k v hidden hfree => exact hs.update_store v hfree
  | @publish p j hjob hready rest =>
      have hdrop := hs.drop_job p
      have hkey := hdrop.scratch_ne_of_not_hidden (hs.key p j hjob)
      exact (hdrop.update_store (s.store j.scratch) fun q i hq _ => hkey q i hq).update_store rest
        fun q i hq _ => hs.dropped_scratch_ne hjob q i hq
  | stop p => exact hs.drop_job p
  | outside k v hk =>
      exact hs.update_store v fun p j hp _ => hs.scratch_ne_of_not_hidden hk p j hp

/-- Off the scratch keys a step does the writes it tells of, and no others. -/
theorem Step.store_eq (h : Step O s ws t) (hs : Sound O s) {k : κ} (hk : ¬O.Hidden k) :
    t.store k = apply s.store ws k := by
  have hscratch : ∀ {p : π} {j : Job κ ν}, s.jobs p = some j → k ≠ j.scratch :=
    fun hp => (hs.scratch_ne_of_not_hidden hk _ _ hp).symm
  cases h with
  | start | stop => rfl
  | stage hjob v => exact Function.update_of_ne (hscratch hjob) _ _
  | clobber k' v hidden hfree =>
      have hne : k ≠ k' := by
        rintro rfl
        exact hk hidden
      exact Function.update_of_ne hne v s.store
  | publish hjob hready rest =>
      change Function.update (Function.update s.store _ _) _ rest k = _
      rw [Function.update_of_ne (hscratch hjob), hs.held _ _ _ hjob hready]
      rfl
  | outside k' v hk' => rfl

/-! ## Runs -/

theorem Step.steps (h : Step O s ws t) : Steps O s ws t := (Steps.refl s).tail h

theorem Steps.sound (h : Steps O s ws t) (hs : Sound O s) : Sound O t := by
  induction h with
  | refl => exact hs
  | tail _ hstep ih => exact hstep.sound ih

/-- Off the scratch keys, the store is what the writes published so far make of
it. -/
theorem Steps.store_eq (h : Steps O s ws t) (hs : Sound O s) {k : κ} (hk : ¬O.Hidden k) :
    t.store k = apply s.store ws k := by
  induction h with
  | refl => rfl
  | tail h hstep ih =>
      rw [hstep.store_eq (h.sound hs) hk, apply_append]
      exact apply_congr _ ih

theorem Steps.trans (h : Steps O s ws t) (h' : Steps O t vs u) : Steps O s (ws ++ vs) u := by
  induction h' with
  | refl => rwa [List.append_nil]
  | tail _ hstep ih => exact List.append_assoc .. ▸ ih.tail hstep

end Staged

import PolyTerm.Runs

/-!
# Services that answer a request by ending

A service takes a request in some of its steps. It is to send one answer and
end, and nothing else (`Answers`). `Ends` says of a service what its steps have
to do for that: from a set of states in which the answer is due, the next
output is the answer, and the service ends with it. A request that is taken
where the service waits, and ends it without a word, is then all that can go
wrong (`answered_iff`). Not every step can be relied on to happen: the way to
the end has only steps that are `owed`.

`Heralded` is about the order of the outputs: what comes up again after a
breakdown is announced first.
-/

namespace Runs

variable {σ α ω : Type*}

/-! ## Announced first -/

/-- Between a `down` and a later `up` there is a `herald`. -/
def Heralded (down herald up : ω) (xs : List ω) : Prop :=
  ∀ pre mid post, xs = pre ++ down :: (mid ++ up :: post) → herald ∈ mid

section Heralded

variable {down herald up x : ω} {xs : List ω}

theorem heralded_of_not_mem (h : down ∉ xs) : Heralded down herald up xs := by
  rintro pre mid post rfl
  exact absurd (List.mem_append_right pre List.mem_cons_self) h

/-- Any other output makes no difference. -/
theorem heralded_concat (hx : x ≠ up) :
    Heralded down herald up (xs ++ [x]) ↔ Heralded down herald up xs := by
  constructor
  · rintro h pre mid post rfl
    exact h pre mid (post ++ [x]) (by simp)
  · intro h pre mid post hsplit
    induction post using List.reverseRecOn with
    | nil =>
        have hlast : xs ++ [x] = (pre ++ down :: mid) ++ [up] := by simpa using hsplit
        obtain ⟨-, hxu⟩ := List.append_inj' hlast rfl
        exact absurd (List.singleton_inj.mp hxu) hx
    | append_singleton post y _ =>
        have hlast : xs ++ [x] = (pre ++ down :: (mid ++ up :: post)) ++ [y] := by
          simpa using hsplit
        exact h pre mid post (List.append_inj' hlast rfl).1

theorem not_heralded_concat (hdown : down ∈ xs) (hherald : herald ∉ xs) :
    ¬Heralded down herald up (xs ++ [up]) := by
  intro h
  obtain ⟨pre, mid, rfl⟩ := List.append_of_mem hdown
  have hmid := h pre mid [] (by simp)
  exact hherald (by simp [hmid])

end Heralded

/-! ## Answered by the end -/

structure Service (σ α ω : Type*) where
  step : σ → α → Option σ
  out : σ → α → List ω
  /-- the step takes a request -/
  asks : σ → α → Prop
  answer : ω
  ended : σ → Prop
  /-- the step can be relied on to happen, sooner or later -/
  owed : σ → α → Prop

namespace Service

/-- Steps that are owed end the service. -/
def CanEnd (b : Service σ α ω) (s : σ) : Prop :=
  ∃ more u, run b.step s more = some u ∧ Along b.step b.owed s more ∧ b.ended u

/-- Since `s` there was no output, and the service can still end; or there was
the answer, and it has ended. -/
def Answers (b : Service σ α ω) (s : σ) (as : List α) (t : σ) : Prop :=
  (outputs b.step b.out s as = [] ∧ ¬b.ended t ∧ b.CanEnd t) ∨
    (outputs b.step b.out s as = [b.answer] ∧ b.ended t)

/-- Every request of the run is answered. -/
def Answered (b : Service σ α ω) (s : σ) (as : List α) : Prop :=
  ∀ bs a cs r t u, as = bs ++ a :: cs → run b.step s bs = some r → b.step r a = some t →
    run b.step t cs = some u → b.asks r a → b.Answers t cs u

/-- What the steps do from a state in which the answer is due. -/
structure Ends (b : Service σ α ω) (due : σ → Prop) : Prop where
  due_step : ∀ s a t, due s → b.step s a = some t →
    (b.out s a = [] ∧ due t) ∨ (b.out s a = [b.answer] ∧ b.ended t)
  ended_step : ∀ s a t, b.ended s → b.step s a = some t → b.out s a = [] ∧ b.ended t
  due_open : ∀ s, due s → ¬b.ended s
  due_ends : ∀ s, due s → b.CanEnd s

variable {b : Service σ α ω} {due : σ → Prop} {s t u : σ} {as : List α}

theorem CanEnd.of_step {a : α} (howed : b.owed s a) (h : b.step s a = some t) (ht : b.CanEnd t) :
    b.CanEnd s := by
  obtain ⟨more, u, hrun, halong, hended⟩ := ht
  refine ⟨a :: more, u, run_cons_eq_some.mpr ⟨t, h, hrun⟩, ⟨howed, fun r hr => ?_⟩, hended⟩
  obtain rfl := Option.some.inj (h.symm.trans hr)
  exact halong

theorem CanEnd.of_ended (h : b.ended s) : b.CanEnd s := ⟨[], s, rfl, trivial, h⟩

/-- An ended service says nothing more. -/
theorem Ends.silent (h : b.Ends due) (hs : b.ended s) (hrun : run b.step s as = some t) :
    outputs b.step b.out s as = [] ∧ b.ended t := by
  induction as generalizing s with
  | nil => exact ⟨rfl, Option.some.inj hrun ▸ hs⟩
  | cons a as ih =>
      obtain ⟨r, hr, hrest⟩ := run_cons_eq_some.mp hrun
      obtain ⟨hout, hended⟩ := h.ended_step s a r hs hr
      obtain ⟨houts, hended⟩ := ih hended hrest
      exact ⟨by rw [outputs_cons hr, hout, houts, List.append_nil], hended⟩

theorem Ends.answers (h : b.Ends due) (hs : due s) (hrun : run b.step s as = some t) :
    b.Answers s as t := by
  induction as generalizing s with
  | nil =>
      obtain rfl := Option.some.inj hrun
      exact Or.inl ⟨rfl, h.due_open s hs, h.due_ends s hs⟩
  | cons a as ih =>
      obtain ⟨r, hr, hrest⟩ := run_cons_eq_some.mp hrun
      rcases h.due_step s a r hs hr with ⟨hout, hdue⟩ | ⟨hout, hended⟩
      · have hsame : outputs b.step b.out s (a :: as) = outputs b.step b.out r as := by
          rw [outputs_cons hr, hout, List.nil_append]
        rw [Answers, hsame]
        exact ih hdue hrest
      · obtain ⟨houts, hended⟩ := h.silent hended hrest
        exact Or.inr ⟨by rw [outputs_cons hr, hout, houts, List.append_nil], hended⟩

/-- Every request is answered exactly when none is taken where the service
waits: elsewhere the answer is due, there the service ends at once. -/
theorem Ends.answered_iff (I waits : σ → Prop) (h : b.Ends due)
    (hI : ∀ s a t, I s → b.step s a = some t → I t)
    (hdue : ∀ s a t, I s → b.step s a = some t → b.asks s a → ¬waits s → due t)
    (hwaits : ∀ s a t, b.step s a = some t → b.asks s a → waits s → b.ended t)
    (hs : I s) (hrun : run b.step s as = some u) :
    b.Answered s as ↔ Along b.step (fun r a => ¬(b.asks r a ∧ waits r)) s as := by
  rw [along_iff_split]
  constructor
  · rintro hall bs a cs r rfl hr ⟨hasks, hr'⟩
    rw [run_append, hr, Option.bind_some] at hrun
    obtain ⟨t, ht, hrest⟩ := run_cons_eq_some.mp hrun
    obtain ⟨hout, hended⟩ := h.silent (hwaits r a t ht hasks hr') hrest
    rcases hall bs a cs r t u rfl hr ht hrest hasks with ⟨-, hopen, -⟩ | ⟨hone, -⟩
    · exact hopen hended
    · rw [hout] at hone
      cases hone
  · intro hall bs a cs r t v hsplit hr ht hrest hasks
    have hIr : I r := invariant hI hs hr
    have hopen : ¬waits r := fun hw => hall bs a cs r hsplit hr ⟨hasks, hw⟩
    exact h.answers (hdue r a t hIr ht hasks hopen) hrest

end Service

end Runs

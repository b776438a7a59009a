import PolyTerm.PromptReplies

/-!
# The status a host-key modal announces

A host-key modal carries the status its key had when the prompt arrived, and
an answer to an earlier modal may change the store while it waits. So the
status shown is that of the store only as long as no accepted key has a rival:
another modal waiting for the same `(host, port, key_type)` that either
presents the very key being recorded or was labelled against an empty entry
(`NoRival`). `status_truthful` shows that this is all that can go wrong.
-/

namespace PolyTerm

open Runs Answerer

/-! ## The modals and their statuses -/

def Answerer.modals (a : Answerer) : List PromptModal := a.modal.toList ++ a.modalQueue

/-- Every host-key modal carries the status its key has now, and none is for a
key on record. -/
def Truthful (a : Answerer) : Prop :=
  ∀ p status, .hostKey p status ∈ a.modals → status = a.statusOf p ∧ status ≠ .match

/-- The modal a frame draws, if it asks about a host key, carries the status
its key has now. -/
def AnnouncedTruly (a : Answerer) : Prop :=
  ∀ p status, a.shown = some (.hostKey p status) → status = a.statusOf p

/-- The user accepts the host-key modal that the frame draws. -/
def Accepts (a : Answerer) (e : Answerer.Event) (p : HostKeyPrompt)
    (status : KnownHostStatus) : Prop :=
  ∃ u verify written, e = .frameEnd u verify written ∧
    a.shown = some (.hostKey p status) ∧ u.accept = true ∧ u.closed = false

/-- An accepted modal labelled `unknown` replaces no recorded key. -/
def UnknownReplacesNothing (a : Answerer) (e : Answerer.Event) : Prop :=
  ∀ p, Accepts a e p .unknown → ∀ s, a.knownHosts = some s → s.recorded p.id = none

/-- The condition: when a key is accepted into the store, every other modal
waiting for its entry presents another key, and the entry had a key already. -/
def NoRival (a : Answerer) (e : Answerer.Event) : Prop :=
  ∀ p status s, Accepts a e p status → a.knownHosts = some s →
    ∀ q status', .hostKey q status' ∈ a.taken.modals → q.id = p.id →
      q.publicKey ≠ p.publicKey ∧ s.recorded p.id ≠ none

theorem statusOf_congr {a b : Answerer} (h : a.knownHosts = b.knownHosts)
    (p : HostKeyPrompt) : a.statusOf p = b.statusOf p := by
  simp only [statusOf, h]

@[simp] theorem promote_knownHosts (a : Answerer) : a.promote.knownHosts = a.knownHosts := by
  unfold promote
  split <;> rfl

@[simp] theorem taken_knownHosts (a : Answerer) : a.taken.knownHosts = a.knownHosts :=
  promote_knownHosts a

@[simp] theorem enqueue_knownHosts (a : Answerer) (m : PromptModal) :
    (a.enqueueModal m).knownHosts = a.knownHosts := by
  unfold enqueueModal
  split <;> rfl

theorem mem_enqueue {a : Answerer} {m m' : PromptModal} :
    m' ∈ (a.enqueueModal m).modals ↔ m' ∈ a.modals ∨ m' = m := by
  unfold enqueueModal
  cases hm : a.modal with
  | none => simp [modals, hm, or_comm]
  | some _ => simp [modals, hm, or_assoc]

theorem modals_promote (a : Answerer) : a.promote.modals = a.modals := by
  unfold promote
  split
  · rename_i m rest hm hq
    simp [modals, hm, hq]
  · rfl

theorem modals_shown {a : Answerer} {m : PromptModal} (h : a.shown = some m) :
    a.modals = m :: a.taken.modals := by
  rw [← modals_promote a]
  simp only [shown] at h
  simp [modals, taken, h]

/-! ## What a step does to the modals and the store -/

theorem raise_hostKey (a : Answerer) (q : PendingPrompt) (load : CredentialRef → Option String) :
    (handlePrompt load a q).1.knownHosts = a.knownHosts ∧
      ∀ p status, .hostKey p status ∈ (handlePrompt load a q).1.modals →
        .hostKey p status ∈ a.modals ∨ (status = a.statusOf p ∧ status ≠ .match) := by
  cases q with
  | hostKey q =>
      simp only [handlePrompt]
      split
      · exact ⟨rfl, fun p status h => Or.inl h⟩
      · rename_i hne
        refine ⟨enqueue_knownHosts a _, fun p status h => ?_⟩
        rcases mem_enqueue.mp h with h | h
        · exact Or.inl h
        · obtain ⟨rfl, rfl⟩ := PromptModal.hostKey.inj h
          exact Or.inr ⟨rfl, hne⟩
  | credential q =>
      simp only [handlePrompt]
      split
      · exact ⟨rfl, fun p status h => Or.inl h⟩
      · refine ⟨enqueue_knownHosts a _, fun p status h => ?_⟩
        rcases mem_enqueue.mp h with h | h
        · exact Or.inl h
        · cases h

/-- An accepted key is recorded. -/
theorem frameEnd_accept {a : Answerer} {p : HostKeyPrompt} {status : KnownHostStatus}
    {u : ModalInput} {verify : String → String → PassphraseCheck} {written : Bool}
    (hm : a.shown = some (.hostKey p status)) (haccept : u.accept = true)
    (hopen : u.closed = false) :
    (answerModal verify written u a).1 =
      { a.taken with knownHosts :=
          a.knownHosts.map fun s => (s.rememberHostKey p.id p.publicKey written).1 } := by
  have hshow : showHostKey u = .trust .acceptAndRemember := by simp [showHostKey, haccept, hopen]
  have hanswer : ((PromptModal.hostKey p status).show u).2 ≠ .pending := by
    simp [PromptModal.show, hshow]
  rw [answerModal_resolve hm hanswer]
  simp [PromptModal.show, hshow, resolveModal]

/-- Nothing else touches the store, and the host-key modals that are left were
there before. -/
theorem frameEnd_other {a : Answerer} {u : ModalInput}
    {verify : String → String → PassphraseCheck} {written : Bool}
    (h : ∀ p status, ¬Accepts a (.frameEnd u verify written) p status) :
    (answerModal verify written u a).1.knownHosts = a.knownHosts ∧
      ∀ p status, .hostKey p status ∈ (answerModal verify written u a).1.modals →
        .hostKey p status ∈ a.modals := by
  cases hm : a.shown with
  | none =>
      rw [answerModal_none hm, modals_promote]
      exact ⟨promote_knownHosts a, fun _ _ h => h⟩
  | some m =>
      rw [modals_shown hm]
      by_cases hanswer : (m.show u).2 = .pending
      · rw [answerModal_pending hm hanswer]
        refine ⟨taken_knownHosts a, fun p status hp => ?_⟩
        rcases List.mem_cons.mp hp with hp | hp
        · cases m with
          | hostKey q status' => exact List.mem_cons.mpr (Or.inl hp)
          | credential q inputs remember error => simp [PromptModal.show] at hp
        · exact List.mem_cons_of_mem _ hp
      · rw [answerModal_resolve hm hanswer]
        cases m with
        | hostKey q status' =>
            obtain ⟨d, hd⟩ := showHostKey_trust hanswer
            have hreject : d = .reject := by
              by_contra hne
              obtain ⟨-, haccept, hopen⟩ := showHostKey_accepts hd hne
              exact h q status' ⟨u, verify, written, rfl, hm, haccept, hopen⟩
            subst hreject
            simp only [PromptModal.show, hd, resolveModal]
            exact ⟨taken_knownHosts a, fun p status hp => List.mem_cons_of_mem _ hp⟩
        | credential q inputs remember error =>
            simp only [PromptModal.show]
            unfold resolveModal
            split
            · rename_i heq _; cases heq
            · exact ⟨taken_knownHosts a, fun p status hp => List.mem_cons_of_mem _ hp⟩
            · split
              · split
                · refine ⟨(enqueue_knownHosts _ _).trans (taken_knownHosts a), fun p status hp => ?_⟩
                  rcases mem_enqueue.mp hp with hp | hp
                  · exact List.mem_cons_of_mem _ hp
                  · cases hp
                · exact ⟨taken_knownHosts a, fun p status hp => List.mem_cons_of_mem _ hp⟩
              · exact ⟨taken_knownHosts a, fun p status hp => List.mem_cons_of_mem _ hp⟩
            · exact ⟨taken_knownHosts a, fun p status hp => List.mem_cons_of_mem _ hp⟩
            · exact ⟨taken_knownHosts a, fun p status hp => List.mem_cons_of_mem _ hp⟩

/-! ## The invariant -/

/-- Recording a key moves the status of the prompts for its entry only; those
that present another key than the one recorded are `changed`. -/
theorem statusOf_remember {s : KnownHosts} {p q : HostKeyPrompt} {written : Bool} :
    (s.rememberHostKey p.id p.publicKey written).1.knownHostStatus q.id q.publicKey =
      if q.id = p.id then (if p.publicKey = q.publicKey then .match else .changed)
      else s.knownHostStatus q.id q.publicKey := by
  rw [KnownHosts.knownHostStatus_eq, KnownHosts.recorded_remember, Function.update_apply]
  by_cases hid : q.id = p.id
  · simp only [hid, if_true]
  · simp only [hid, if_false, KnownHosts.knownHostStatus_eq]

theorem accept_truthful {a : Answerer} {p : HostKeyPrompt} {written : Bool}
    (htrue : ∀ q status, .hostKey q status ∈ a.modals → status = a.statusOf q ∧ status ≠ .match)
    (hrival : ∀ s, a.knownHosts = some s → ∀ q status, .hostKey q status ∈ a.modals →
      q.id = p.id → q.publicKey ≠ p.publicKey ∧ s.recorded p.id ≠ none) :
    Truthful { a with knownHosts :=
      a.knownHosts.map fun s => (s.rememberHostKey p.id p.publicKey written).1 } := by
  intro q status hq
  have hold := htrue q status hq
  refine ⟨?_, hold.2⟩
  cases hk : a.knownHosts with
  | none => simpa [statusOf, hk] using hold.1
  | some s =>
      simp only [statusOf, Option.map_some, statusOf_remember]
      have hstatus : status = s.knownHostStatus q.id q.publicKey := by
        simpa [statusOf, hk] using hold.1
      split
      · rename_i hid
        obtain ⟨hne, hrecorded⟩ := hrival s hk q status hq hid
        rw [if_neg (Ne.symm hne), hstatus]
        obtain ⟨k, hk'⟩ := Option.ne_none_iff_exists'.mp hrecorded
        rw [KnownHosts.status_changed, hid]
        refine ⟨k, hk', fun heq => hold.2 ?_⟩
        rw [hstatus, KnownHosts.status_match, hid, hk', heq]
      · exact hstatus

theorem step_truthful {a b : Answerer} {e : Answerer.Event} (htrue : Truthful a)
    (hrival : NoRival a e) (hstep : step a e = some b) : Truthful b := by
  obtain rfl := step_eq hstep
  cases e with
  | raise q load =>
      obtain ⟨hstore, hmodals⟩ := raise_hostKey a q load
      intro p status hp
      rw [react, statusOf_congr hstore p]
      exact (hmodals p status hp).elim (htrue p status) id
  | forgetPassphrases => exact htrue
  | frameEnd u verify written =>
      by_cases h : ∃ p status, Accepts a (.frameEnd u verify written) p status
      · obtain ⟨p, status, haccepts⟩ := h
        have hrival' := fun s => hrival p status s haccepts
        obtain ⟨u', verify', written', heq, hm, haccept, hopen⟩ := haccepts
        cases heq
        rw [react, frameEnd_accept hm haccept hopen, ← taken_knownHosts a]
        refine accept_truthful (fun q status' hq => ?_) fun s hs => ?_
        · rw [statusOf_congr (taken_knownHosts a) q]
          exact htrue q status' (modals_shown hm ▸ List.mem_cons_of_mem _ hq)
        · exact hrival' s (taken_knownHosts a ▸ hs)
      · simp only [not_exists] at h
        obtain ⟨hstore, hmodals⟩ := frameEnd_other h
        intro p status hp
        rw [react, statusOf_congr hstore p]
        exact htrue p status (hmodals p status hp)

/-- The condition is exact: a rival is left with a stale label. -/
theorem step_truthful_iff {a b : Answerer} {e : Answerer.Event} (htrue : Truthful a)
    (hstep : step a e = some b) : Truthful b ↔ NoRival a e := by
  refine ⟨fun hb => ?_, fun hrival => step_truthful htrue hrival hstep⟩
  obtain rfl := step_eq hstep
  rintro p status s ⟨u, verify, written, rfl, hm, haccept, hopen⟩ hs q status' hq hid
  rw [react, frameEnd_accept hm haccept hopen] at hb
  obtain ⟨hnow, hmatch⟩ := hb q status' hq
  have hbefore := (htrue q status' (modals_shown hm ▸ List.mem_cons_of_mem _ hq)).1
  simp only [statusOf, hs, Option.map_some] at hnow hbefore
  rw [statusOf_remember, if_pos hid] at hnow
  rw [hid] at hbefore
  by_cases hkey : p.publicKey = q.publicKey
  · exact absurd (hnow.trans (if_pos hkey)) hmatch
  · rw [if_neg hkey] at hnow
    obtain ⟨k, hk, -⟩ := KnownHosts.status_changed.mp (hbefore.symm.trans hnow)
    exact ⟨Ne.symm hkey, by rw [hk]; exact Option.some_ne_none k⟩

theorem truthful_announced {a : Answerer} (htrue : Truthful a) : AnnouncedTruly a :=
  fun p status hm => (htrue p status (modals_shown hm ▸ List.mem_cons_self)).1

theorem truthful_replaces_nothing {a : Answerer} (htrue : Truthful a) (e : Answerer.Event) :
    UnknownReplacesNothing a e := by
  rintro p ⟨-, -, -, -, hm, -, -⟩ s hs
  have hstatus := truthful_announced htrue p .unknown hm
  simp only [statusOf, hs] at hstatus
  exact KnownHosts.status_unknown.mp hstatus.symm

/-- In a run where no accepted key has a rival waiting, every host-key modal
drawn announces the status its key has at that moment, and an accepted
`unknown` one replaces nothing. -/
theorem status_truthful {knownHosts : Option KnownHosts} {events : List Answerer.Event}
    {a : Answerer} (hrun : run step (start knownHosts) events = some a)
    (hrival : Along step NoRival (start knownHosts) events) :
    AnnouncedTruly a ∧
      Along step (fun a e => AnnouncedTruly a ∧ UnknownReplacesNothing a e)
        (start knownHosts) events := by
  have hstart : Truthful (start knownHosts) := fun p status hp => absurd hp List.not_mem_nil
  have hstep : ∀ a e b, Truthful a → NoRival a e → step a e = some b → Truthful b :=
    fun a e b => step_truthful
  refine ⟨truthful_announced (run_invariant hstep hstart hrival hrun), ?_⟩
  exact along_of_invariant hstep
    (fun a e ht _ => ⟨truthful_announced ht, truthful_replaces_nothing ht e⟩) hstart hrival

/-! ## Two sessions to one host -/

/-- Two sessions are offered different keys by a host that is not on record;
the user accepts both. -/
def rivalKey : HostKeyPrompt := { offeredKey with publicKey := [2], reply := ⟨1⟩ }

def acceptInput : ModalInput := ⟨false, false, true, false, false, false, fun _ => "", false⟩

def twoSessions : List Answerer.Event :=
  [.raise (.hostKey offeredKey) fun _ => none, .raise (.hostKey rivalKey) fun _ => none,
    .frameEnd acceptInput (fun _ _ => .correct) true]

/-- The second modal is still labelled `unknown` when the store has the first
key, and accepting it replaces that key. -/
theorem status_stale_twoSessions :
    ¬∀ (knownHosts : Option KnownHosts) (events : List Answerer.Event) (a : Answerer),
      run step (start knownHosts) events = some a →
        AnnouncedTruly a ∧ ∀ e, UnknownReplacesNothing a e := by
  intro h
  have hboth := h (some ⟨"", []⟩) twoSessions _ rfl
  have hstale := hboth.1 rivalKey .unknown rfl
  exact absurd hstale (by decide)

theorem noRival_raise (a : Answerer) (p : PendingPrompt) (load : CredentialRef → Option String) :
    NoRival a (.raise p load) := by
  rintro q status s ⟨_, _, _, he, _⟩
  cases he

/-- With a key on record beforehand both modals are `changed`, and the second
one rightly stays so. -/
theorem status_truthful_twoSessions :
    ∃ a, run step (start (some ⟨"", [⟨offeredKey.id, [0]⟩]⟩)) twoSessions = some a ∧
      a.shown = some (.hostKey rivalKey .changed) ∧ AnnouncedTruly a := by
  have hrun : run step (start (some ⟨"", [⟨offeredKey.id, [0]⟩]⟩)) twoSessions = some _ := rfl
  refine ⟨_, hrun, rfl, (status_truthful hrun ⟨noRival_raise _ _ _, fun t ht => ?_⟩).1⟩
  obtain rfl := step_eq ht
  refine ⟨noRival_raise _ _ _, fun t ht => ?_⟩
  obtain rfl := step_eq ht
  refine ⟨?_, fun t ht => trivial⟩
  rintro p status s ⟨-, -, -, -, hm, -, -⟩ hs q status' hq hid
  obtain ⟨rfl, rfl⟩ := PromptModal.hostKey.inj (Option.some.inj hm)
  obtain rfl := Option.some.inj hs
  obtain ⟨rfl, rfl⟩ := PromptModal.hostKey.inj (List.mem_singleton.mp hq)
  exact ⟨by decide, by decide⟩

end PolyTerm

import PolyTerm.Prompts

/-!
# No silent trust, no lost prompt

Every prompt raised is replied to once or held once, whatever the user does
with the modals (`step_accounts`, then `run_accounts` over whole runs). The
case that carries the proof is the resolution of a modal: `show` only produces
answers of its own modal's kind, so the fall-through branch of `resolveModal`,
which would drop the prompt, is never taken (`resolve_accounts`).
-/

namespace PolyTerm

open Runs Answerer

/-! ## What is raised, answered and held -/

def Answerer.Event.raised : Answerer.Event → List PendingPrompt
  | .raise p _ => [p]
  | _ => []

/-- The prompt an action replies to. -/
def PromptAction.answers : PromptAction → Option PendingPrompt
  | .trust p _ => some (.hostKey p)
  | .credential p _ => some (.credential p)
  | .keyringStore _ _ => none

def answered (actions : List PromptAction) : List PendingPrompt :=
  actions.filterMap PromptAction.answers

/-- The prompts waiting for the user: in the modal, then in the queue. -/
def Answerer.held (a : Answerer) : List PendingPrompt :=
  (a.modal.toList ++ a.modalQueue).map PromptModal.prompt

@[simp] theorem answered_nil : answered [] = [] := rfl

@[simp] theorem answered_sendSecret (p : CredentialPrompt) (value : String) (remember : Bool) :
    answered (sendSecret p value remember) = [.credential p] := by
  cases remember <;> cases hc : p.credential <;> simp only [answered, sendSecret, hc] <;> rfl

@[simp] theorem show_prompt (m : PromptModal) (u : ModalInput) :
    (m.show u).1.prompt = m.prompt := by
  cases m <;> rfl

theorem held_promote (a : Answerer) : a.promote.held = a.held := by
  unfold promote
  split
  · rename_i m rest hm hq
    simp [held, hm, hq]
  · rfl

theorem held_enqueue (a : Answerer) (m : PromptModal) :
    (m.prompt :: a.held).Perm (a.enqueueModal m).held := by
  unfold enqueueModal
  cases hm : a.modal with
  | none => simp [held, hm]
  | some m' =>
      have hswap : (m.prompt :: a.held).Perm (a.held ++ [m.prompt]) :=
        (List.perm_append_singleton _ _).symm
      simpa [held, hm] using hswap

/-! ## What a drawn modal can answer -/

theorem showHostKey_trust {u : ModalInput} (h : showHostKey u ≠ .pending) :
    ∃ d, showHostKey u = .trust d := by
  unfold showHostKey at h ⊢
  cases hc : u.closed <;> cases ha : u.accept <;> cases hr : u.reject <;> simp [hc, ha, hr] at h ⊢

theorem showHostKey_accepts {u : ModalInput} {d : TrustDecision}
    (h : showHostKey u = .trust d) (hd : d ≠ .reject) :
    d = .acceptAndRemember ∧ u.accept = true ∧ u.closed = false := by
  unfold showHostKey at h
  cases hc : u.closed <;> cases ha : u.accept <;> cases hr : u.reject <;> simp_all

theorem secretButtons_not_trust (u : ModalInput) (value : String) (remember : Bool)
    (d : TrustDecision) : secretButtons u value remember ≠ .trust d := by
  unfold secretButtons
  cases u.cancel <;> cases u.ok <;> cases u.enter <;> simp

theorem showCredential_not_trust (p : CredentialPrompt) (inputs : List String)
    (remember : Bool) (u : ModalInput) (d : TrustDecision) :
    (showCredential p inputs remember u).2.2 ≠ .trust d := by
  unfold showCredential
  cases u.closed with
  | true => simp
  | false =>
      cases p.request with
      | keyboardInteractive name instruction prompts =>
          cases hc : u.cancel <;> cases ho : u.ok <;> simp
      | password username host => exact secretButtons_not_trust u _ _ d
      | passphrase keyPath => exact secretButtons_not_trust u _ _ d

/-! ## One step -/

theorem handlePrompt_accounts (load : CredentialRef → Option String) (a : Answerer)
    (p : PendingPrompt) :
    (p :: a.held).Perm
      (answered (handlePrompt load a p).2 ++ (handlePrompt load a p).1.held) := by
  cases p with
  | hostKey p =>
      simp only [handlePrompt]
      split
      · exact List.Perm.refl _
      · exact held_enqueue a (.hostKey p (a.statusOf p))
  | credential p =>
      simp only [handlePrompt]
      split
      · exact List.Perm.refl _
      · exact held_enqueue a (.forCredential p)

/-- An answer the modal produced consumes its prompt once: by one reply, or by
asking again. -/
theorem resolve_accounts (verify : String → String → PassphraseCheck) (written : Bool)
    (a : Answerer) (m : PromptModal) (u : ModalInput) (hanswer : (m.show u).2 ≠ .pending) :
    (m.prompt :: a.held).Perm
      (answered (resolveModal verify written a (m.show u).1 (m.show u).2).2 ++
        (resolveModal verify written a (m.show u).1 (m.show u).2).1.held) := by
  cases m with
  | hostKey p status =>
      obtain ⟨d, hd⟩ := showHostKey_trust hanswer
      simp only [PromptModal.show, hd, resolveModal]
      exact List.Perm.refl _
  | credential p inputs remember error =>
      simp only [PromptModal.show] at hanswer ⊢
      cases hans : (showCredential p inputs remember u).2.2 with
      | pending => exact absurd hans hanswer
      | trust d => exact absurd hans (showCredential_not_trust p inputs remember u d)
      | credentialCancelled => exact List.Perm.refl _
      | credentialSecret value remember =>
          simp only [resolveModal]
          split
          · split
            · exact held_enqueue a (.credentialRetry p "Wrong passphrase.")
            · rw [answered_sendSecret]; exact List.Perm.refl _
          · rw [answered_sendSecret]; exact List.Perm.refl _
      | credentialResponses values => exact List.Perm.refl _

theorem held_shown {a : Answerer} {m : PromptModal} (h : a.shown = some m) :
    a.held = m.prompt :: a.taken.held := by
  rw [← held_promote a]
  simp only [shown] at h
  simp [held, taken, h]

theorem answerModal_accounts (verify : String → String → PassphraseCheck) (written : Bool)
    (u : ModalInput) (a : Answerer) :
    a.held.Perm
      (answered (answerModal verify written u a).2 ++ (answerModal verify written u a).1.held) := by
  cases hm : a.shown with
  | none =>
      rw [answerModal_none hm, answered_nil, List.nil_append, held_promote]
  | some m =>
      rw [held_shown hm]
      by_cases hanswer : (m.show u).2 = .pending
      · rw [answerModal_pending hm hanswer]
        simp [held, taken]
      · rw [answerModal_resolve hm hanswer]
        exact resolve_accounts verify written a.taken m u hanswer

theorem step_accounts (a : Answerer) (e : Answerer.Event) :
    (a.held ++ e.raised).Perm (answered (sent a e) ++ (react a e).1.held) := by
  cases e with
  | raise p load =>
      exact List.perm_append_comm.trans (handlePrompt_accounts load a p)
  | frameEnd u verify written =>
      simpa [Answerer.Event.raised, sent, react] using answerModal_accounts verify written u a
  | forgetPassphrases => simp [Answerer.Event.raised, sent, react, held]

/-! ## Whole runs -/

theorem step_eq {a b : Answerer} {e : Answerer.Event} (h : step a e = some b) :
    b = (react a e).1 :=
  (Option.some.inj h).symm

theorem answered_append (xs ys : List PromptAction) :
    answered (xs ++ ys) = answered xs ++ answered ys :=
  List.filterMap_append

/-- What was held and what was raised is what was answered and what is held
now. -/
theorem run_accounts : ∀ {events : List Answerer.Event} {a b : Answerer},
    run step a events = some b →
      (a.held ++ events.flatMap Event.raised).Perm
        (answered (outputs step sent a events) ++ b.held)
  | [], a, b, h => by
      obtain rfl : a = b := Option.some.inj h
      simp [outputs]
  | e :: events, a, b, h => by
      obtain ⟨t, ht, hrest⟩ := run_cons_eq_some.mp h
      have hstep := (step_accounts a e).append_right (events.flatMap Event.raised)
      have ih := run_accounts hrest
      rw [← step_eq ht] at hstep
      rw [List.flatMap_cons, ← List.append_assoc, outputs, ht, answered_append]
      refine hstep.trans ?_
      rw [List.append_assoc, List.append_assoc]
      exact ih.append_left _

/-! ## What leaves without the user -/

/-- A host key is trusted only when the store has exactly this key on record,
or when the user accepted the modal of this very prompt. -/
def TrustJustified (a : Answerer) (e : Answerer.Event) : Prop :=
  ∀ p d, .trust p d ∈ sent a e → d ≠ .reject →
    (∃ s, a.knownHosts = some s ∧ s.recorded p.id = some p.publicKey) ∨
    ∃ u verify written status, e = .frameEnd u verify written ∧
      a.shown = some (.hostKey p status) ∧ u.accept = true ∧ u.closed = false

/-- A passphrase found wrong goes nowhere, and its prompt stays pending. -/
def WrongPassphraseHeld (a : Answerer) (e : Answerer.Event) : Prop :=
  ∀ u verify written p inputs remember error keyPath value remember',
    e = .frameEnd u verify written →
    a.shown = some (.credential p inputs remember error) →
    p.request = .passphrase keyPath →
    (showCredential p inputs remember u).2.2 = .credentialSecret value remember' →
    verify keyPath value = .incorrect →
    sent a e = [] ∧ (react a e).1.passphraseCache = a.passphraseCache ∧
      (react a e).1.modal = some (.credentialRetry p "Wrong passphrase.") ∧
      (react a e).1.held.Perm a.held

theorem statusOf_match {a : Answerer} {p : HostKeyPrompt} (h : a.statusOf p = .match) :
    ∃ s, a.knownHosts = some s ∧ s.recorded p.id = some p.publicKey := by
  unfold statusOf at h
  cases hk : a.knownHosts with
  | none => simp [hk] at h
  | some s =>
      rw [hk] at h
      exact ⟨s, rfl, KnownHosts.status_match.mp h⟩

theorem not_mem_sendSecret {p : HostKeyPrompt} {d : TrustDecision} {c : CredentialPrompt}
    {value : String} {remember : Bool} : .trust p d ∉ sendSecret c value remember := by
  cases remember <;> cases hc : c.credential <;> simp [sendSecret, hc]

theorem resolve_trust {verify : String → String → PassphraseCheck} {written : Bool}
    {a : Answerer} {m : PromptModal} {answer : ModalAnswer} {p : HostKeyPrompt}
    {d : TrustDecision} (h : .trust p d ∈ (resolveModal verify written a m answer).2) :
    (∃ status, m = .hostKey p status) ∧ answer = .trust d := by
  unfold resolveModal at h
  split at h
  · rename_i q status d'
    obtain ⟨rfl, rfl⟩ : p = q ∧ d = d' := by simpa using h
    exact ⟨⟨status, rfl⟩, rfl⟩
  · simp at h
  · split at h
    · split at h
      · simp at h
      · exact absurd h not_mem_sendSecret
    · exact absurd h not_mem_sendSecret
  · simp at h
  · simp at h

theorem step_trust (a : Answerer) (e : Answerer.Event) : TrustJustified a e := by
  intro p d hsent hd
  cases e with
  | raise q load =>
      refine Or.inl ?_
      cases q with
      | hostKey q =>
          simp only [sent, react, handlePrompt] at hsent
          split at hsent
          · rename_i hmatch
            obtain ⟨rfl, -⟩ : p = q ∧ d = .acceptOnce := by simpa using hsent
            exact statusOf_match hmatch
          · exact absurd hsent List.not_mem_nil
      | credential q =>
          simp only [sent, react, handlePrompt] at hsent
          split at hsent
          · simp at hsent
          · exact absurd hsent List.not_mem_nil
  | frameEnd u verify written =>
      refine Or.inr ⟨u, verify, written, ?_⟩
      simp only [sent, react] at hsent
      cases hm : a.shown with
      | none =>
          rw [answerModal_none hm] at hsent
          exact absurd hsent List.not_mem_nil
      | some m =>
          by_cases hanswer : (m.show u).2 = .pending
          · rw [answerModal_pending hm hanswer] at hsent
            exact absurd hsent List.not_mem_nil
          · rw [answerModal_resolve hm hanswer] at hsent
            obtain ⟨⟨status, hmodal⟩, htrust⟩ := resolve_trust hsent
            cases m with
            | credential q inputs remember error => simp [PromptModal.show] at hmodal
            | hostKey q status' =>
                obtain ⟨rfl, rfl⟩ : q = p ∧ status' = status := by
                  simpa [PromptModal.show] using hmodal
                obtain ⟨-, haccept, hopen⟩ := showHostKey_accepts htrust hd
                exact ⟨status', rfl, rfl, haccept, hopen⟩
  | forgetPassphrases => exact absurd hsent List.not_mem_nil

theorem step_wrongPassphrase (a : Answerer) (e : Answerer.Event) : WrongPassphraseHeld a e := by
  rintro u verify written p inputs remember error keyPath value remember' rfl hm hrequest
    hsecret hwrong
  have hanswer : ((PromptModal.credential p inputs remember error).show u).2 ≠ .pending := by
    simp [PromptModal.show, hsecret]
  have hreact : react a (.frameEnd u verify written) =
      (a.taken.enqueueModal (.credentialRetry p "Wrong passphrase."), []) := by
    simp only [react]
    rw [answerModal_resolve hm hanswer]
    simp [PromptModal.show, hsecret, resolveModal, hrequest, hwrong]
  have hcache : a.promote.passphraseCache = a.passphraseCache := by
    unfold promote
    split <;> rfl
  have haccounts := step_accounts a (.frameEnd u verify written)
  rw [sent, hreact] at haccounts ⊢
  refine ⟨rfl, ?_, ?_, ?_⟩
  · simpa [enqueueModal, taken] using hcache
  · simp [enqueueModal, taken]
  · simpa [Event.raised] using haccounts.symm

/-- No prompt is lost or answered twice, no key is trusted silently unless it
is on record, and no wrong passphrase leaves the app. -/
theorem prompts_answered_once {knownHosts : Option KnownHosts}
    {events : List Answerer.Event} {a : Answerer}
    (hrun : run step (start knownHosts) events = some a) :
    let raised := events.flatMap Event.raised
    let replied := answered (outputs step sent (start knownHosts) events)
    raised.Perm (replied ++ a.held) ∧
      (raised.Nodup → replied.Nodup ∧ ∀ p ∈ raised, p ∉ replied → a.held.count p = 1) ∧
      Along step (fun a e => TrustJustified a e ∧ WrongPassphraseHeld a e)
        (start knownHosts) events := by
  intro raised replied
  have hperm : raised.Perm (replied ++ a.held) := run_accounts hrun
  refine ⟨hperm, fun hnodup => ?_, ?_⟩
  · have hboth := List.nodup_append.mp (hperm.nodup_iff.mp hnodup)
    refine ⟨hboth.1, fun p hp hnot => ?_⟩
    have hheld := (List.mem_append.mp (hperm.mem_iff.mp hp)).resolve_left hnot
    exact List.count_eq_one_of_mem hboth.2.1 hheld
  · exact along_true.mono fun a e _ => ⟨step_trust a e, step_wrongPassphrase a e⟩

/-- A key on offer from a host, and an encrypted key to unlock. -/
def offeredKey : HostKeyPrompt := ⟨⟨"db", 22, "ssh-ed25519"⟩, "SHA256:k", [1], ⟨0⟩⟩

def lockedKey : CredentialPrompt := ⟨.passphrase "/id", none, ⟨1⟩⟩

/-- The user accepts the host key, then types a wrong passphrase. -/
def acceptThenMistype : List Answerer.Event :=
  let idle : ModalInput := ⟨false, false, false, false, false, false, fun _ => "", false⟩
  let verify : String → String → PassphraseCheck := fun _ value =>
    if value = "right" then .correct else .incorrect
  [.raise (.hostKey offeredKey) fun _ => none, .raise (.credential lockedKey) fun _ => none,
    .frameEnd { idle with accept := true } verify true,
    .frameEnd { idle with ok := true, typed := fun _ => "wrong" } verify true]

theorem prompts_answered_once_mistyped :
    ∃ a, run step (start (some ⟨"", []⟩)) acceptThenMistype = some a ∧
      answered (outputs step sent (start (some ⟨"", []⟩)) acceptThenMistype) =
        [.hostKey offeredKey] ∧
      a.held = [.credential lockedKey] ∧
      (acceptThenMistype.flatMap Event.raised).Perm
        (answered (outputs step sent (start (some ⟨"", []⟩)) acceptThenMistype) ++ a.held) :=
  ⟨_, rfl, by decide, by decide, (prompts_answered_once rfl).1⟩

end PolyTerm

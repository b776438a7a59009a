import PolyTerm.PromptReplies
import PolyTerm.Slot

/-!
# The modal and the queue behind it

What each thing that happens to the answerer does to its modals and its
passphrase cache, one lemma each: a raised prompt is answered silently or
enqueued (`asks`), the end of a frame promotes, shows, and keeps, drops or
asks again (`retry`), and only a passphrase not found wrong is cached
(`unlocks`).
-/

namespace PolyTerm

namespace Answerer

variable {load : CredentialRef → Option String} {verify : String → String → PassphraseCheck}
  {written : Bool} {u : ModalInput} {a : Answerer} {m : PromptModal}

/-- The modal and the queue. -/
def slot (a : Answerer) : Slot PromptModal := ⟨a.modal, a.modalQueue⟩

theorem slot_enqueueModal (a : Answerer) (m : PromptModal) :
    (a.enqueueModal m).slot = a.slot.enqueue m := by
  unfold enqueueModal Slot.enqueue
  cases hm : a.modal <;> simp [slot, hm]

theorem slot_promote (a : Answerer) : a.promote.slot = a.slot.promote := by
  obtain ⟨knownHosts, modal, modalQueue, cache⟩ := a
  cases modal <;> cases modalQueue <;> rfl

theorem slot_taken (a : Answerer) : a.taken.slot = a.slot.promote.vacate := by
  rw [← slot_promote]
  rfl

theorem shown_eq (a : Answerer) : a.shown = a.slot.promote.current := by
  rw [← slot_promote]
  rfl

theorem held_eq (a : Answerer) : a.held = a.slot.items.map PromptModal.prompt := rfl

/-! ## A prompt is raised -/

/-- The modal a raised prompt becomes, unless it is answered silently. -/
def asks (load : CredentialRef → Option String) (a : Answerer) :
    PendingPrompt → Option PromptModal
  | .hostKey p => if a.statusOf p = .match then none else some (.hostKey p (a.statusOf p))
  | .credential p => if (a.silentSecret load p).isSome then none else some (.forCredential p)

theorem handlePrompt_fst (load : CredentialRef → Option String) (a : Answerer)
    (p : PendingPrompt) :
    (handlePrompt load a p).1 = (a.asks load p).elim a a.enqueueModal := by
  cases p with
  | hostKey p =>
      simp only [handlePrompt, asks]
      split <;> rfl
  | credential p =>
      simp only [handlePrompt, asks]
      cases a.silentSecret load p <;> rfl

theorem enqueueModal_cache (a : Answerer) (m : PromptModal) :
    (a.enqueueModal m).passphraseCache = a.passphraseCache := by
  unfold enqueueModal
  split <;> rfl

theorem handlePrompt_cache (load : CredentialRef → Option String) (a : Answerer)
    (p : PendingPrompt) :
    (handlePrompt load a p).1.passphraseCache = a.passphraseCache := by
  rw [handlePrompt_fst]
  cases a.asks load p with
  | none => rfl
  | some m => exact enqueueModal_cache a m

/-! ## A modal is answered -/

/-- The modal that asks again, if the answer is a passphrase found wrong. -/
def retry (verify : String → String → PassphraseCheck) :
    PromptModal → ModalAnswer → Option PromptModal
  | .credential p _ _ _, .credentialSecret value _ =>
      match p.request with
      | .passphrase keyPath =>
          if verify keyPath value = .incorrect then
            some (.credentialRetry p "Wrong passphrase.")
          else none
      | _ => none
  | _, _ => none

/-- The key path and the passphrase an answer puts in the cache. -/
def unlocks (verify : String → String → PassphraseCheck) :
    PromptModal → ModalAnswer → Option (String × String)
  | .credential p _ _ _, .credentialSecret value _ =>
      match p.request with
      | .passphrase keyPath =>
          if verify keyPath value = .incorrect then none else some (keyPath, value)
      | _ => none
  | _, _ => none

/-- What a resolution leaves of the modals and of the cache. -/
theorem resolveModal_fst (verify : String → String → PassphraseCheck) (written : Bool)
    (a : Answerer) (m : PromptModal) (answer : ModalAnswer) :
    (resolveModal verify written a m answer).1.slot =
        (retry verify m answer).elim a.slot a.slot.enqueue ∧
      (resolveModal verify written a m answer).1.passphraseCache =
        (unlocks verify m answer).elim a.passphraseCache
          fun kv => a.passphraseCache.insert kv.1 kv.2 := by
  cases m with
  | hostKey p status => cases answer <;> exact ⟨rfl, rfl⟩
  | credential p inputs remember error =>
      cases answer with
      | credentialSecret value remember =>
          cases hrequest : p.request with
          | passphrase keyPath =>
              cases hverify : verify keyPath value with
              | incorrect =>
                  simp only [resolveModal, retry, unlocks, hrequest, hverify, if_true]
                  exact ⟨slot_enqueueModal a _, enqueueModal_cache a _⟩
              | correct | unverifiable =>
                  simp only [resolveModal, retry, unlocks, hrequest, hverify]
                  exact ⟨rfl, rfl⟩
          | password username host =>
              simp only [resolveModal, retry, unlocks, hrequest]
              exact ⟨rfl, rfl⟩
          | keyboardInteractive name instruction prompts =>
              simp only [resolveModal, retry, unlocks, hrequest]
              exact ⟨rfl, rfl⟩
      | pending | trust | credentialCancelled | credentialResponses => exact ⟨rfl, rfl⟩

theorem promote_cache (a : Answerer) : a.promote.passphraseCache = a.passphraseCache := by
  unfold promote
  split <;> rfl

/-! ## The end of a frame -/

/-- The end of a frame: nothing is shown, the modal stays, or it is answered,
and then the slot is empty unless the modal asks again. -/
inductive Ends (verify : String → String → PassphraseCheck) (u : ModalInput) (a b : Answerer) :
    Prop where
  | idle (shown : a.shown = none) (slot : b.slot = a.slot.promote)
      (cache : b.passphraseCache = a.passphraseCache)
  | stays (m : PromptModal) (shown : a.shown = some m) (answer : (m.show u).2 = .pending)
      (slot : b.slot = { a.slot.promote.vacate with current := some (m.show u).1 })
      (cache : b.passphraseCache = a.passphraseCache)
  | answered (m : PromptModal) (shown : a.shown = some m) (answer : (m.show u).2 ≠ .pending)
      (slot : b.slot = (retry verify (m.show u).1 (m.show u).2).elim a.slot.promote.vacate
        a.slot.promote.vacate.enqueue)
      (cache : b.passphraseCache = (unlocks verify (m.show u).1 (m.show u).2).elim
        a.passphraseCache fun kv => a.passphraseCache.insert kv.1 kv.2)

theorem answerModal_ends (verify : String → String → PassphraseCheck) (written : Bool)
    (u : ModalInput) (a : Answerer) : Ends verify u a (answerModal verify written u a).1 := by
  cases hm : a.shown with
  | none =>
      refine .idle hm ?_ ?_
      · rw [answerModal_none hm, slot_promote]
      · rw [answerModal_none hm, promote_cache]
  | some m =>
      by_cases hanswer : (m.show u).2 = .pending
      · refine .stays m hm hanswer ?_ ?_
        · rw [answerModal_pending hm hanswer, ← slot_taken]
          rfl
        · rw [answerModal_pending hm hanswer]
          exact promote_cache a
      · obtain ⟨hslot, hcache⟩ :=
          resolveModal_fst verify written a.taken (m.show u).1 (m.show u).2
        refine .answered m hm hanswer ?_ ?_
        · rw [answerModal_resolve hm hanswer, hslot, slot_taken]
        · rw [answerModal_resolve hm hanswer, hcache]
          simp only [taken, promote_cache]

end Answerer

end PolyTerm

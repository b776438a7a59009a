import PolyTerm.Keyring

/-!
# Where a secret comes from

An answerer's step sends only two kinds of things to a credential prompt: at
once, a secret it holds (`raise_sends`), and at the end of a frame, what its
modal was answered with (`frameEnd_sends`). `Sources` is the invariant: the
cache and the keyring hold only what was given for that key or that entry, and
each modal has a field for each question.
-/

namespace PolyTerm

open Runs Answerer

namespace Unlocking

variable {s t : Unlocking} {e : Unlocking.Event} {ring : Keyring} {facts more : List Given}
  {p : CredentialPrompt} {c : CredentialRef} {value : String}

/-! ## More facts -/

theorem Entry.mono (h : Entry ring facts c value) (hsub : facts ⊆ more) :
    Entry ring more c value := by
  cases h with
  | kept held => exact .kept held
  | placed mem => exact .placed (hsub mem)
  | remembered p names mem => exact .remembered p names (hsub mem)

theorem Unlocks.mono {keyPath : String} (h : Unlocks facts keyPath value) (hsub : facts ⊆ more) :
    Unlocks more keyPath value := by
  obtain ⟨p, remember, hp, hmem⟩ := h
  exact ⟨p, remember, hp, hsub hmem⟩

theorem Sourced.mono (h : Sourced ring facts p value) (hsub : facts ⊆ more) :
    Sourced ring more p value := by
  cases h with
  | answered remember mem => exact .answered remember (hsub mem)
  | unlocked keyPath asked given => exact .unlocked keyPath asked (given.mono hsub)
  | stored c names entry => exact .stored c names (entry.mono hsub)

theorem Rightful.mono {reply : CredentialReply} (h : Rightful ring facts p reply)
    (hsub : facts ⊆ more) : Rightful ring more p reply := by
  cases reply with
  | cancelled => trivial
  | secret value remember => exact ⟨h.1, h.2.1.mono hsub, fun hr => hsub (h.2.2 hr)⟩
  | responses values =>
      obtain ⟨prompts, hprompts, hlength, hmem⟩ := h
      exact ⟨prompts, hprompts, hlength, hsub hmem⟩

/-! ## The fields of a modal -/

/-- One field for each of the server's questions, and one for a secret. -/
def fields (request : CredentialRequest) : Nat :=
  (interactive request).elim 1 List.length

def Formed : PromptModal → Prop
  | .hostKey _ _ => True
  | .credential p inputs _ _ => inputs.length = fields p.request

theorem formed_forCredential (p : CredentialPrompt) : Formed (.forCredential p) := by
  cases hp : p.request <;> simp [PromptModal.forCredential, Formed, fields, interactive, hp]

theorem formed_credentialRetry (p : CredentialPrompt) (error : String) :
    Formed (.credentialRetry p error) := formed_forCredential p

theorem Formed.shown {m : PromptModal} (h : Formed m) (u : ModalInput) : Formed (m.show u).1 := by
  cases m with
  | hostKey p status => trivial
  | credential p inputs remember error =>
      cases hp : p.request <;>
        simpa [PromptModal.show, showCredential, Formed, hp] using h

/-- A secret is the answer of a modal with one field of its own. -/
theorem show_secret {m : PromptModal} {u : ModalInput} {remember : Bool}
    (h : (m.show u).2 = .credentialSecret value remember) :
    ∃ p inputs r error, m = .credential p inputs r error ∧ interactive p.request = none := by
  cases m with
  | hostKey p status =>
      simp only [PromptModal.show] at h
      unfold showHostKey at h
      split at h
      · cases h
      · split at h
        · cases h
        · split at h <;> cases h
  | credential p inputs r error =>
      refine ⟨p, inputs, r, error, rfl, ?_⟩
      cases hp : p.request with
      | password username host => rfl
      | passphrase keyPath => rfl
      | keyboardInteractive name instruction prompts =>
          simp only [PromptModal.show, showCredential, hp] at h
          split at h
          · cases h
          · split at h
            · cases h
            · split at h <;> cases h

/-- The answers to the server's questions are the content of the fields. -/
theorem show_responses {m : PromptModal} {u : ModalInput} {values : List String}
    (hformed : Formed m) (h : (m.show u).2 = .credentialResponses values) :
    ∃ p inputs r error prompts, m = .credential p inputs r error ∧
      interactive p.request = some prompts ∧ values.length = prompts.length := by
  cases m with
  | hostKey p status =>
      simp only [PromptModal.show] at h
      unfold showHostKey at h
      split at h
      · cases h
      · split at h
        · cases h
        · split at h <;> cases h
  | credential p inputs r error =>
      have hsecret : ∀ v r', secretButtons u v r' ≠ .credentialResponses values := by
        intro v r'
        unfold secretButtons
        split
        · rintro ⟨⟩
        · split <;> rintro ⟨⟩
      cases hp : p.request with
      | password username host =>
          simp only [PromptModal.show, showCredential, hp] at h
          split at h
          · cases h
          · exact absurd h (hsecret _ _)
      | passphrase keyPath =>
          simp only [PromptModal.show, showCredential, hp] at h
          split at h
          · cases h
          · exact absurd h (hsecret _ _)
      | keyboardInteractive name instruction prompts =>
          refine ⟨p, inputs, r, error, prompts, rfl, by rw [hp]; rfl, ?_⟩
          simp only [PromptModal.show, showCredential, hp] at h
          simp only [Formed, fields, hp, interactive, Option.elim_some] at hformed
          split at h
          · cases h
          · split at h
            · cases h
            · split at h
              · obtain rfl := ModalAnswer.credentialResponses.inj h
                rw [List.length_mapIdx, hformed]
              · cases h

/-! ## What is sent -/

/-- A prompt answered at once is answered with a secret held already. -/
theorem raise_sends {prompt : PendingPrompt} {load : CredentialRef → Option String}
    {a : Answerer} {x : PromptAction} (h : x ∈ (handlePrompt load a prompt).2) :
    (∃ q, x = .trust q .acceptOnce) ∨
      ∃ p value, prompt = .credential p ∧ a.silentSecret load p = some value ∧
        x = .credential p (.secret value false) := by
  cases prompt with
  | hostKey q =>
      simp only [handlePrompt] at h
      split at h
      · exact Or.inl ⟨q, List.mem_singleton.mp h⟩
      · cases h
  | credential p =>
      simp only [handlePrompt] at h
      split at h
      · rename_i value hvalue
        exact Or.inr ⟨p, value, rfl, hvalue, List.mem_singleton.mp h⟩
      · cases h

/-- A secret held already is a passphrase in the cache, or it is stored under
the entry that the prompt names. -/
theorem silentSecret_some {load : CredentialRef → Option String} {a : Answerer}
    (h : a.silentSecret load p = some value) :
    interactive p.request = none ∧
      ((∃ keyPath, p.request = .passphrase keyPath ∧
          a.passphraseCache.lookup keyPath = some value) ∨
        ∃ c, p.credential = some c ∧ load c = some value) := by
  cases hp : p.request with
  | password username host =>
      simp only [silentSecret, hp] at h
      exact ⟨rfl, Or.inr (Option.bind_eq_some_iff.mp h)⟩
  | passphrase keyPath =>
      simp only [silentSecret, hp, Option.or_eq_some_iff] at h
      refine ⟨rfl, ?_⟩
      rcases h with h | ⟨-, h⟩
      · exact Or.inl ⟨keyPath, rfl, h⟩
      · exact Or.inr (Option.bind_eq_some_iff.mp h)
  | keyboardInteractive name instruction prompts => simp [silentSecret, hp] at h

/-- Storing comes with the answer that asks for it. -/
theorem mem_sendSecret {x : PromptAction} {remember : Bool}
    (h : x ∈ sendSecret p value remember) :
    x = .credential p (.secret value remember) ∨
      ∃ c, x = .keyringStore c value ∧ p.credential = some c ∧ remember = true := by
  unfold sendSecret at h
  rcases List.mem_append.mp h with h | h
  · split at h
    · rename_i hr
      simp only [Option.mem_toList, Option.map_eq_some_iff] at h
      obtain ⟨c, hc, rfl⟩ := h
      exact Or.inr ⟨c, rfl, hc, hr⟩
    · cases h
  · exact Or.inl (List.mem_singleton.mp h)

/-- What an answered modal sends. -/
inductive Sends (verify : String → String → PassphraseCheck) (answer : ModalAnswer) :
    PromptModal → PromptAction → Prop where
  | trust (q : HostKeyPrompt) (status : KnownHostStatus) (d : TrustDecision) :
      Sends verify answer (.hostKey q status) (.trust q d)
  | cancelled (p inputs r error) : Sends verify answer (.credential p inputs r error)
      (.credential p .cancelled)
  | secret (p inputs r error value remember)
      (answered : answer = .credentialSecret value remember)
      (right : retry verify (.credential p inputs r error) answer = none) :
      Sends verify answer (.credential p inputs r error) (.credential p (.secret value remember))
  | store (p inputs r error value c) (answered : answer = .credentialSecret value true)
      (right : retry verify (.credential p inputs r error) answer = none)
      (names : p.credential = some c) :
      Sends verify answer (.credential p inputs r error) (.keyringStore c value)
  | responses (p inputs r error values) (answered : answer = .credentialResponses values) :
      Sends verify answer (.credential p inputs r error) (.credential p (.responses values))

theorem resolveModal_sends {verify : String → String → PassphraseCheck} {written : Bool}
    {a : Answerer} {m : PromptModal} {answer : ModalAnswer} {x : PromptAction}
    (h : x ∈ (resolveModal verify written a m answer).2) : Sends verify answer m x := by
  cases m with
  | hostKey q status =>
      cases answer with
      | trust d =>
          obtain rfl := List.mem_singleton.mp h
          exact .trust q status d
      | pending | credentialCancelled | credentialSecret | credentialResponses => cases h
  | credential p inputs r error =>
      cases answer with
      | pending | trust => cases h
      | credentialCancelled =>
          obtain rfl := List.mem_singleton.mp h
          exact .cancelled p inputs r error
      | credentialResponses values =>
          obtain rfl := List.mem_singleton.mp h
          exact .responses p inputs r error values rfl
      | credentialSecret value remember =>
          have hsend : retry verify (.credential p inputs r error)
                (.credentialSecret value remember) = none ∧ x ∈ sendSecret p value remember := by
            cases hp : p.request with
            | passphrase keyPath =>
                simp only [resolveModal, hp] at h
                split at h
                · cases h
                · rename_i hverify
                  exact ⟨by simpa [retry, hp] using hverify, h⟩
            | password username host =>
                simp only [resolveModal, hp] at h
                exact ⟨by simp [retry, hp], h⟩
            | keyboardInteractive name instruction prompts =>
                simp only [resolveModal, hp] at h
                exact ⟨by simp [retry, hp], h⟩
          rcases mem_sendSecret hsend.2 with rfl | ⟨c, rfl, hc, rfl⟩
          · exact .secret p inputs r error value remember rfl hsend.1
          · exact .store p inputs r error value c rfl hsend.1 hc

/-- What the end of a frame sends, the modal shown was answered with. -/
theorem frameEnd_sends {verify : String → String → PassphraseCheck} {written : Bool}
    {u : ModalInput} {a : Answerer} {x : PromptAction}
    (h : x ∈ (answerModal verify written u a).2) :
    ∃ m, a.shown = some m ∧ Sends verify (m.show u).2 (m.show u).1 x := by
  cases hm : a.shown with
  | none =>
      rw [answerModal_none hm] at h
      cases h
  | some m =>
      refine ⟨m, rfl, ?_⟩
      by_cases hanswer : (m.show u).2 = .pending
      · rw [answerModal_pending hm hanswer] at h
        cases h
      · rw [answerModal_resolve hm hanswer] at h
        exact resolveModal_sends h

/-! ## What is held -/

/-- The modals have the fields of their questions; the cache and the keyring
hold what was given for them. -/
structure Sources (ring : Keyring) (facts : List Given) (s : Unlocking) : Prop where
  formed : ∀ m ∈ s.answerer.slot.items, Formed m
  cache : ∀ keyPath value, s.answerer.passphraseCache.lookup keyPath = some value →
    Unlocks facts keyPath value
  keyring : ∀ c value, s.keyring.lookup c = some value → Entry ring facts c value

theorem sources_start (knownHosts : Option KnownHosts) (ring : Keyring) :
    Sources ring [] (start knownHosts ring) where
  formed := by
    intro m hm
    cases hm
  cache := by
    intro keyPath value h
    exact absurd h (by simp [start, Answerer.start])
  keyring := fun c value h => .kept h

theorem items_shown {a : Answerer} {m : PromptModal} (h : a.shown = some m) :
    a.slot.items = m :: a.slot.promote.waiting := by
  rw [← Slot.items_promote]
  exact Slot.items_current (a.shown_eq ▸ h)

theorem mem_enqueue {sl : Slot PromptModal} {m m' : PromptModal}
    (h : m' ∈ (sl.enqueue m).items) : m' = m ∨ m' ∈ sl.items := by
  rw [Slot.items_enqueue] at h
  split at h
  · rcases List.mem_append.mp h with h | h
    · exact Or.inr h
    · exact Or.inl (List.mem_singleton.mp h)
  · rcases List.mem_cons.mp h with rfl | h
    · exact Or.inl rfl
    · exact Or.inr (List.mem_append_right _ h)

theorem formed_asked {load : CredentialRef → Option String} {a : Answerer}
    {prompt : PendingPrompt} {m : PromptModal} (h : a.asks load prompt = some m) : Formed m := by
  cases prompt with
  | hostKey q =>
      simp only [asks] at h
      split at h
      · cases h
      · obtain rfl := Option.some.inj h
        trivial
  | credential p =>
      simp only [asks] at h
      split at h
      · cases h
      · obtain rfl := Option.some.inj h
        exact formed_forCredential p

theorem formed_raise {load : CredentialRef → Option String} {a : Answerer}
    (hformed : ∀ m ∈ a.slot.items, Formed m) (prompt : PendingPrompt) :
    ∀ m ∈ (handlePrompt load a prompt).1.slot.items, Formed m := by
  intro m hm
  rw [handlePrompt_fst] at hm
  cases hasks : a.asks load prompt with
  | none =>
      rw [hasks] at hm
      exact hformed m hm
  | some asked =>
      rw [hasks, Option.elim_some, slot_enqueueModal] at hm
      rcases mem_enqueue hm with rfl | hm
      · exact formed_asked hasks
      · exact hformed m hm

theorem formed_retry {verify : String → String → PassphraseCheck} {m again : PromptModal}
    {answer : ModalAnswer} (h : retry verify m answer = some again) : Formed again := by
  unfold retry at h
  split at h
  · split at h
    · split at h
      · obtain rfl := Option.some.inj h
        exact formed_credentialRetry _ _
      · cases h
    · cases h
  · cases h

theorem formed_ends {verify : String → String → PassphraseCheck} {u : ModalInput}
    {a b : Answerer} (h : Ends verify u a b) (hformed : ∀ m ∈ a.slot.items, Formed m) :
    ∀ m ∈ b.slot.items, Formed m := by
  intro m' hm'
  cases h with
  | idle shown slot cache =>
      rw [slot, Slot.items_promote] at hm'
      exact hformed m' hm'
  | stays m shown answer slot cache =>
      rw [items_shown shown] at hformed
      rw [slot] at hm'
      rcases List.mem_cons.mp hm' with rfl | hm'
      · exact (hformed m List.mem_cons_self).shown u
      · exact hformed m' (List.mem_cons_of_mem _ hm')
  | answered m shown answer slot cache =>
      rw [items_shown shown] at hformed
      rw [slot] at hm'
      cases hretry : retry verify (m.show u).1 (m.show u).2 with
      | none =>
          rw [hretry] at hm'
          exact hformed m' (List.mem_cons_of_mem _ hm')
      | some again =>
          rw [hretry, Option.elim_some] at hm'
          rcases mem_enqueue hm' with rfl | hm'
          · exact formed_retry hretry
          · exact hformed m' (List.mem_cons_of_mem _ hm')

/-- What is written to an entry was to be stored in it. -/
theorem lookup_perform {fault : Option String} :
    ∀ {actions : List PromptAction} {r : Keyring},
      (actions.foldl (perform fault) r).lookup c = some value →
        r.lookup c = some value ∨ .keyringStore c value ∈ actions := by
  intro actions
  induction actions with
  | nil => exact fun h => Or.inl h
  | cons x actions ih =>
      intro r h
      rcases ih h with h | h
      · cases x with
        | keyringStore c' value' =>
            rw [perform, Keyring.lookup_store] at h
            split at h
            · rename_i hc
              obtain rfl := Option.some.inj h
              exact Or.inr (hc.2 ▸ List.mem_cons_self)
            · exact Or.inl h
        | trust q d => exact Or.inl h
        | credential p reply => exact Or.inl h
      · exact Or.inr (List.mem_cons_of_mem _ h)

/-! ## One step -/

/-- The answer of the modal shown is what the frame takes in. -/
theorem given_frameEnd {u : ModalInput} {verify : String → String → PassphraseCheck}
    {written : Bool} {fault : Option String} {m : PromptModal}
    (h : s.answerer.shown = some m) :
    s.given (.frameEnd u verify written fault) = accepted verify (m.show u).1 (m.show u).2 := by
  simp only [given, h]
  rfl

theorem accepted_secret {verify : String → String → PassphraseCheck} {inputs : List String}
    {r remember : Bool} {error : Option String}
    (h : retry verify (.credential p inputs r error) (.credentialSecret value remember) = none) :
    .typed p value remember ∈
      accepted verify (.credential p inputs r error) (.credentialSecret value remember) := by
  simp [accepted, h]

/-- What an accepted answer unlocks. -/
theorem unlocks_given {verify : String → String → PassphraseCheck} {m : PromptModal}
    {answer : ModalAnswer} {keyPath : String}
    (h : unlocks verify m answer = some (keyPath, value)) :
    Unlocks (accepted verify m answer) keyPath value := by
  cases m with
  | hostKey q status => cases answer <;> cases h
  | credential p inputs r error =>
      cases answer with
      | pending | trust | credentialCancelled | credentialResponses => cases h
      | credentialSecret v remember =>
          cases hp : p.request with
          | password | keyboardInteractive => simp [unlocks, hp] at h
          | passphrase path =>
              simp only [unlocks, hp] at h
              split at h
              · cases h
              · rename_i hverify
                obtain ⟨rfl, rfl⟩ := Prod.mk.inj (Option.some.inj h)
                exact ⟨p, remember, hp, accepted_secret (by simp [retry, hp, hverify])⟩

/-- What a frame sends and stores is right by what its modal was answered. -/
theorem Sends.rightful (ring : Keyring) {verify : String → String → PassphraseCheck} {m : PromptModal}
    {u : ModalInput} {x : PromptAction} (hformed : Formed m)
    (h : Sends verify (m.show u).2 (m.show u).1 x) :
    (∀ p reply, x = .credential p reply →
        Rightful ring (accepted verify (m.show u).1 (m.show u).2) p reply) ∧
      ∀ c value, x = .keyringStore c value →
        Entry ring (accepted verify (m.show u).1 (m.show u).2) c value := by
  generalize hm : (m.show u).1 = drawn at h
  have hprompt : drawn.prompt = m.prompt := hm ▸ show_prompt m u
  cases h with
  | trust q status d => exact ⟨nofun, nofun⟩
  | cancelled p inputs r error =>
      refine ⟨?_, nofun⟩
      rintro _ _ ⟨⟩
      trivial
  | secret p inputs r error value remember answered right =>
      refine ⟨?_, nofun⟩
      rintro _ _ ⟨⟩
      obtain ⟨p', inputs', r', error', rfl, hsecret⟩ := show_secret answered
      obtain rfl : p = p' := PendingPrompt.credential.inj hprompt
      rw [answered] at right ⊢
      have hmem := accepted_secret right
      exact ⟨hsecret, .answered remember hmem, fun hr => hr ▸ hmem⟩
  | store p inputs r error value c answered right names =>
      refine ⟨nofun, ?_⟩
      rintro _ _ ⟨⟩
      rw [answered] at right ⊢
      exact .remembered p names (accepted_secret right)
  | responses p inputs r error values answered =>
      refine ⟨?_, nofun⟩
      rintro _ _ ⟨⟩
      obtain ⟨p', inputs', r', error', prompts, rfl, hprompts, hlength⟩ :=
        show_responses hformed answered
      obtain rfl : p = p' := PendingPrompt.credential.inj hprompt
      rw [answered]
      exact ⟨prompts, hprompts, hlength, List.mem_singleton_self _⟩

/-- What a step sends is right by what was given, this step included. -/
theorem sent_rightful (h : Sources ring facts s) {x : PromptAction} (hx : x ∈ s.sent e) :
    (∀ p reply, x = .credential p reply → Rightful ring (facts ++ s.given e) p reply) ∧
      ∀ c value, x = .keyringStore c value → Entry ring (facts ++ s.given e) c value := by
  have hold : facts ⊆ facts ++ s.given e := List.subset_append_left _ _
  have hnew : s.given e ⊆ facts ++ s.given e := List.subset_append_right _ _
  cases e with
  | raise prompt fault =>
      rcases raise_sends hx with ⟨q, rfl⟩ | ⟨p, value, rfl, hsilent, rfl⟩
      · exact ⟨nofun, nofun⟩
      · refine ⟨?_, nofun⟩
        rintro _ _ ⟨⟩
        obtain ⟨hinteractive, ⟨keyPath, hp, hcache⟩ | ⟨c, hc, hstored⟩⟩ := silentSecret_some hsilent
        · exact ⟨hinteractive, .unlocked keyPath hp ((h.cache _ _ hcache).mono hold), nofun⟩
        · have hentry := h.keyring c value (Keyring.stored_some hstored)
          exact ⟨hinteractive, .stored c hc (hentry.mono hold), nofun⟩
  | frameEnd u verify written fault =>
      obtain ⟨m, hm, hsends⟩ := frameEnd_sends hx
      have hformed : Formed m := h.formed m (items_shown hm ▸ List.mem_cons_self)
      rw [given_frameEnd hm] at hnew ⊢
      obtain ⟨hreply, hstore⟩ := hsends.rightful ring hformed
      exact ⟨fun p reply hx => (hreply p reply hx).mono hnew,
        fun c value hx => (hstore c value hx).mono hnew⟩
  | forgetPassphrases => cases hx
  | changed credential value => cases hx

/-- What the cache holds after a step it held before, or an answer accepted in
the step unlocks it. -/
theorem cache_step {keyPath : String} (h : Sources ring facts s)
    (hcache : (s.react e).answerer.passphraseCache.lookup keyPath = some value) :
    Unlocks (facts ++ s.given e) keyPath value := by
  have hold : facts ⊆ facts ++ s.given e := List.subset_append_left _ _
  cases e with
  | raise prompt fault =>
      have hsame : (s.react (.raise prompt fault)).answerer.passphraseCache =
          s.answerer.passphraseCache := handlePrompt_cache _ _ _
      exact (h.cache keyPath value (hsame ▸ hcache)).mono hold
  | frameEnd u verify written fault =>
      have hends := answerModal_ends verify written u s.answerer
      change (answerModal verify written u s.answerer).1.passphraseCache.lookup keyPath =
        some value at hcache
      cases hends with
      | idle shown slot cache => exact (h.cache keyPath value (cache ▸ hcache)).mono hold
      | stays m shown answer slot cache =>
          exact (h.cache keyPath value (cache ▸ hcache)).mono hold
      | answered m shown answer slot cache =>
          rw [cache] at hcache
          cases hunlocks : unlocks verify (m.show u).1 (m.show u).2 with
          | none =>
              rw [hunlocks] at hcache
              exact (h.cache keyPath value hcache).mono hold
          | some kv =>
              rw [hunlocks, Option.elim_some, Table.lookup_insert_ite] at hcache
              split at hcache
              · rename_i hkey
                obtain rfl := Option.some.inj hcache
                rw [given_frameEnd shown, hkey]
                exact (unlocks_given hunlocks).mono (List.subset_append_right _ _)
              · exact (h.cache keyPath value hcache).mono hold
  | forgetPassphrases => exact absurd hcache (by simp [react, seen, Answerer.react])
  | changed credential new =>
      cases new <;> exact (h.cache keyPath value hcache).mono hold

/-- What an entry holds after a step it held before, or it was put there in
the step. -/
theorem keyring_step (h : Sources ring facts s)
    (hring : (s.react e).keyring.lookup c = some value) :
    Entry ring (facts ++ s.given e) c value := by
  have hold : facts ⊆ facts ++ s.given e := List.subset_append_left _ _
  have hperform : (s.sent e).foldl (perform e.fault) s.keyring = (s.react e).keyring →
      Entry ring (facts ++ s.given e) c value := by
    intro hsame
    rcases lookup_perform (hsame ▸ hring) with hkept | hstore
    · exact (h.keyring c value hkept).mono hold
    · exact (sent_rightful h hstore).2 c value rfl
  cases e with
  | raise prompt fault => exact hperform rfl
  | frameEnd u verify written fault => exact hperform rfl
  | forgetPassphrases => exact hperform rfl
  | changed credential new =>
      cases new with
      | none =>
          have hne : c ≠ credential := by
            rintro rfl
            exact absurd hring (by simp [react])
          simp only [react, AList.lookup_erase_ne hne] at hring
          exact (h.keyring c value hring).mono hold
      | some v =>
          simp only [react, Table.lookup_insert_ite] at hring
          split at hring
          · rename_i hc
            obtain rfl := Option.some.inj hring
            exact .placed (List.mem_append_right _ (hc ▸ List.mem_singleton_self _))
          · exact (h.keyring c value hring).mono hold

theorem formed_step (h : Sources ring facts s) :
    ∀ m ∈ (s.react e).answerer.slot.items, Formed m := by
  cases e with
  | raise prompt fault => exact formed_raise h.formed prompt
  | frameEnd u verify written fault =>
      exact formed_ends (answerModal_ends verify written u s.answerer) h.formed
  | forgetPassphrases => exact h.formed
  | changed credential new => cases new <;> exact h.formed

theorem sources_step (h : Sources ring facts s) (e : Unlocking.Event) :
    Sources ring (facts ++ s.given e) (s.react e) where
  formed := formed_step h
  cache := fun _ _ => cache_step h
  keyring := fun _ _ => keyring_step h

/-! ## Runs -/

theorem sources_run {events : List Unlocking.Event} : ∀ {s t : Unlocking} {facts : List Given},
    Sources ring facts s → run step s events = some t →
      Sources ring (facts ++ outputs step given s events) t := by
  induction events with
  | nil =>
      intro s t facts h hrun
      obtain rfl := Option.some.inj hrun
      simpa [outputs] using h
  | cons e events ih =>
      intro s t facts h hrun
      have ht := ih (sources_step h e) hrun
      rwa [List.append_assoc, ← outputs_cons (rfl : step s e = some (s.react e))] at ht

/-- In every run, every reply to a credential prompt fits what was asked, and a
secret in it was given for that prompt, for the same key, or for the entry of
the keyring that the prompt names; an entry holds nothing that was not stored
there before, put there by another program, or given to be remembered there. -/
theorem secrets_sourced {knownHosts : Option KnownHosts} {events : List Unlocking.Event}
    (hrun : run step (start knownHosts ring) events = some s) (e : Unlocking.Event) :
    (∀ p reply, .credential p reply ∈ s.sent e →
        Rightful ring (outputs step given (start knownHosts ring) (events ++ [e])) p reply) ∧
      ∀ c value, s.keyring.lookup c = some value →
        Entry ring (outputs step given (start knownHosts ring) events) c value := by
  have hs : Sources ring (outputs step given (start knownHosts ring) events) s := by
    simpa using sources_run (sources_start knownHosts ring) hrun
  refine ⟨fun p reply hx => ?_, hs.keyring⟩
  rw [outputs_concat hrun rfl]
  exact (sent_rightful hs hx).1 p reply rfl

/-- A password for `db`, asked for by the session with that number. -/
def dbPassword (session : Nat) : CredentialPrompt :=
  ⟨.password "ann" "db", some ⟨"polyterm", "ann@db"⟩, ⟨session⟩⟩

/-- The user types a password and asks to remember it. -/
def rememberedPassword : List Unlocking.Event :=
  [.raise (.credential (dbPassword 0)) none,
    .frameEnd ⟨false, false, false, true, false, false, fun _ => "hunter2", true⟩
      (fun _ _ => .unverifiable) true none]

/-- The second session is answered from the keyring. -/
theorem secrets_sourced_second :
    ∃ s, run step (start none ∅) rememberedPassword = some s ∧
      .credential (dbPassword 1) (.secret "hunter2" false) ∈
        s.sent (.raise (.credential (dbPassword 1)) none) ∧
      Rightful ∅ (outputs step given (start none ∅)
          (rememberedPassword ++ [.raise (.credential (dbPassword 1)) none]))
        (dbPassword 1) (.secret "hunter2" false) := by
  refine ⟨_, rfl, by decide, ?_⟩
  have hrun : run step (start none ∅) rememberedPassword = some _ := rfl
  exact (secrets_sourced hrun _).1 _ _ (by decide)

end Unlocking

end PolyTerm

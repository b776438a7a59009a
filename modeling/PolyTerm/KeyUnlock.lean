import PolyTerm.PromptSlot

/-!
# Unlocking a key once

The passphrase cache is looked at when a prompt is raised, not when a waiting
modal comes to the foreground. So a passphrase given for a key is the last one
asked for exactly when no other prompt for that key waits as it is given
(`unlocked_once_iff`).
-/

namespace PolyTerm

open Runs Answerer

/-- The key path whose passphrase a prompt asks for. -/
def PendingPrompt.keyPath : PendingPrompt → Option String
  | .hostKey _ => none
  | .credential p =>
      match p.request with
      | .passphrase keyPath => some keyPath
      | _ => none

namespace Answerer

variable {a b : Answerer} {e : Answerer.Event}

/-- Nobody is asked, or about to be asked, for a passphrase in the cache. -/
def NoneHeldUnlocked (a : Answerer) : Prop :=
  ∀ p ∈ a.held, ∀ keyPath, p.keyPath = some keyPath → a.passphraseCache.lookup keyPath = none

/-- A prompt raised for a key in the cache is answered with the passphrase
there, and no modal shown asks for one. -/
def AnsweredFromCache (a : Answerer) : Answerer.Event → Prop
  | .raise p load =>
      ∀ keyPath value, p.keyPath = some keyPath → a.passphraseCache.lookup keyPath = some value →
        ∃ prompt, p = .credential prompt ∧
          react a (.raise p load) = (a, [.credential prompt (.secret value false)])
  | .frameEnd _ _ _ =>
      ∀ m, a.shown = some m → ∀ keyPath, m.prompt.keyPath = some keyPath →
        a.passphraseCache.lookup keyPath = none
  | .forgetPassphrases => True

/-- What the user sees of the cache in one step, and what is left waiting. -/
def UnlockedOnce (a : Answerer) (e : Answerer.Event) : Prop :=
  a.AnsweredFromCache e ∧ (react a e).1.NoneHeldUnlocked

/-- The passphrase an answer puts in the cache is for a key that no other
prompt held asks for. -/
def UnlocksAlone (a : Answerer) : Answerer.Event → Prop
  | .frameEnd u verify _ =>
      ∀ m, a.shown = some m →
        ∀ keyPath value, unlocks verify (m.show u).1 (m.show u).2 = some (keyPath, value) →
          ∀ p ∈ a.taken.held, p.keyPath ≠ some keyPath
  | _ => True

/-! ## One step -/

theorem unlocks_keyPath {verify : String → String → PassphraseCheck} {m : PromptModal}
    {answer : ModalAnswer} {keyPath value : String}
    (h : unlocks verify m answer = some (keyPath, value)) :
    m.prompt.keyPath = some keyPath ∧ retry verify m answer = none := by
  unfold unlocks at h
  split at h
  · split at h
    · rename_i path hrequest
      split at h
      · cases h
      · rename_i hverify
        obtain ⟨rfl, -⟩ := Prod.mk.inj (Option.some.inj h)
        simp [PromptModal.prompt, PendingPrompt.keyPath, retry, hrequest, hverify]
    · cases h
  · cases h

theorem retry_prompt {verify : String → String → PassphraseCheck} {m again : PromptModal}
    {answer : ModalAnswer} (h : retry verify m answer = some again) :
    again.prompt = m.prompt ∧ unlocks verify m answer = none := by
  unfold retry at h
  split at h
  · split at h
    · rename_i path hrequest
      split at h
      · rename_i hverify
        obtain rfl := Option.some.inj h
        simp [PromptModal.credentialRetry, PromptModal.forCredential, PromptModal.prompt, unlocks,
          hrequest, hverify]
      · cases h
    · cases h
  · cases h

/-- A key with a passphrase in the cache is not asked for again. -/
theorem asks_none (load : CredentialRef → Option String) {p : PendingPrompt}
    {keyPath value : String} (hp : p.keyPath = some keyPath)
    (hvalue : a.passphraseCache.lookup keyPath = some value) :
    ∃ prompt, p = .credential prompt ∧ a.silentSecret load prompt = some value := by
  cases p with
  | hostKey p => cases hp
  | credential p =>
      refine ⟨p, rfl, ?_⟩
      simp only [PendingPrompt.keyPath] at hp
      split at hp
      · rename_i path hrequest
        obtain rfl := Option.some.inj hp
        simp [silentSecret, hrequest, hvalue]
      · cases hp

theorem asks_prompt {load : CredentialRef → Option String} {p : PendingPrompt} {m : PromptModal}
    (h : a.asks load p = some m) : m.prompt = p := by
  cases p with
  | hostKey p =>
      simp only [asks] at h
      split at h
      · cases h
      · exact Option.some.inj h ▸ rfl
  | credential p =>
      simp only [asks] at h
      split at h
      · cases h
      · exact Option.some.inj h ▸ rfl

theorem shown_mem_held {m : PromptModal} (h : a.shown = some m) : m.prompt ∈ a.held := by
  rw [held_shown h]
  exact List.mem_cons_self

theorem raise_answered (a : Answerer) (p : PendingPrompt) (load : CredentialRef → Option String) :
    a.AnsweredFromCache (.raise p load) := by
  intro keyPath value hp hvalue
  obtain ⟨prompt, rfl, hsilent⟩ := asks_none load hp hvalue
  exact ⟨prompt, rfl, by simp [react, handlePrompt, hsilent]⟩

theorem raise_held (h : a.NoneHeldUnlocked) (p : PendingPrompt)
    (load : CredentialRef → Option String) : (react a (.raise p load)).1.NoneHeldUnlocked := by
  simp only [react]
  intro q hq keyPath hkey
  rw [handlePrompt_cache]
  rw [handlePrompt_fst] at hq
  cases hasks : a.asks load p with
  | none =>
      rw [hasks] at hq
      exact h q hq keyPath hkey
  | some m =>
      rw [hasks] at hq
      rcases List.mem_cons.mp ((held_enqueue a m).mem_iff.mpr hq) with rfl | hq
      · rw [asks_prompt hasks] at hkey
        cases hcache : a.passphraseCache.lookup keyPath with
        | none => rfl
        | some value =>
            obtain ⟨prompt, rfl, hsilent⟩ := asks_none load hkey hcache
            simp [asks, hsilent] at hasks
      · exact h q hq keyPath hkey

theorem taken_held (a : Answerer) :
    a.taken.held = a.slot.promote.waiting.map PromptModal.prompt := by
  rw [held_eq, slot_taken, Slot.items_vacate]

/-- What the end of a frame leaves held: all of it, unless the modal shown is
answered for good. -/
theorem ends_held {verify : String → String → PassphraseCheck} {u : ModalInput}
    (h : Ends verify u a b) :
    (b.held = a.held ∧ b.passphraseCache = a.passphraseCache) ∨
      ∃ m, a.shown = some m ∧ retry verify (m.show u).1 (m.show u).2 = none ∧
        b.held = a.taken.held ∧
        b.passphraseCache = (unlocks verify (m.show u).1 (m.show u).2).elim a.passphraseCache
          fun kv => a.passphraseCache.insert kv.1 kv.2 := by
  cases h with
  | idle _ hslot hcache =>
      refine Or.inl ⟨?_, hcache⟩
      rw [held_eq, hslot, Slot.items_promote, held_eq]
  | stays m hm _ hslot hcache =>
      refine Or.inl ⟨?_, hcache⟩
      rw [held_shown hm, taken_held, held_eq, hslot, ← show_prompt m u]
      rfl
  | answered m hm hanswer hslot hcache =>
      cases hretry : retry verify (m.show u).1 (m.show u).2 with
      | none =>
          rw [hretry] at hslot
          refine Or.inr ⟨m, hm, hretry, ?_, hcache⟩
          rw [held_eq, hslot, taken_held]
          rfl
      | some again =>
          obtain ⟨hprompt, hunlocks⟩ := retry_prompt hretry
          rw [hretry] at hslot
          rw [hunlocks] at hcache
          refine Or.inl ⟨?_, hcache⟩
          rw [held_shown hm, taken_held, held_eq, hslot, ← show_prompt m u, ← hprompt]
          rfl

theorem taken_held_subset {m : PromptModal} (hm : a.shown = some m) {p : PendingPrompt}
    (hp : p ∈ a.taken.held) : p ∈ a.held := by
  rw [held_shown hm]
  exact List.mem_cons_of_mem _ hp

/-- A step that unlocks nothing somebody waits for leaves nobody waiting for an
unlocked key. -/
theorem step_held (h : a.NoneHeldUnlocked) (halone : a.UnlocksAlone e) :
    (react a e).1.NoneHeldUnlocked := by
  cases e with
  | raise p load => exact raise_held h p load
  | forgetPassphrases =>
      intro p hp keyPath hkey
      exact AList.lookup_empty keyPath
  | frameEnd u verify written =>
      intro p hp keyPath hkey
      simp only [react] at hp ⊢
      rcases ends_held (answerModal_ends verify written u a) with
        ⟨hheld, hcache⟩ | ⟨m, hm, -, hheld, hcache⟩
      · rw [hcache]
        exact h p (hheld ▸ hp) keyPath hkey
      · rw [hheld] at hp
        rw [hcache]
        have hold := h p (taken_held_subset hm hp) keyPath hkey
        cases hunlocks : unlocks verify (m.show u).1 (m.show u).2 with
        | none => exact hold
        | some kv =>
            have hne : keyPath ≠ kv.1 := by
              rintro rfl
              exact halone m hm kv.1 kv.2 hunlocks p hp hkey
            rw [Option.elim_some, AList.lookup_insert_ne hne]
            exact hold

theorem step_fromCache (h : a.NoneHeldUnlocked) (e : Answerer.Event) : a.AnsweredFromCache e := by
  cases e with
  | raise p load => exact raise_answered a p load
  | frameEnd u verify written =>
      intro m hm keyPath hkey
      exact h m.prompt (shown_mem_held hm) keyPath hkey
  | forgetPassphrases => trivial

/-- A prompt left waiting for a key that was just unlocked. -/
theorem unlocksAlone_of_once (h : a.UnlockedOnce e) : a.UnlocksAlone e := by
  cases e with
  | raise p load => trivial
  | forgetPassphrases => trivial
  | frameEnd u verify written =>
      intro m hm keyPath value hunlocks p hp hkey
      have hretry := (unlocks_keyPath hunlocks).2
      have hends := answerModal_ends verify written u a
      have hcached :
          (answerModal verify written u a).1.passphraseCache.lookup keyPath = some value ∧
            (answerModal verify written u a).1.held = a.taken.held := by
        cases hends with
        | idle hnone => exact absurd (hnone.symm.trans hm) nofun
        | stays m' hm' hpending =>
            obtain rfl := Option.some.inj (hm.symm.trans hm')
            rw [hpending] at hunlocks
            unfold unlocks at hunlocks
            split at hunlocks <;> simp_all
        | answered m' hm' _ hslot hcache =>
            obtain rfl := Option.some.inj (hm.symm.trans hm')
            rw [hunlocks] at hcache
            rw [hretry] at hslot
            refine ⟨?_, ?_⟩
            · rw [hcache]
              exact AList.lookup_insert _
            · rw [held_eq, hslot, taken_held]
              rfl
      have hnone := h.2 p (hcached.2 ▸ hp) keyPath hkey
      exact absurd (hcached.1.symm.trans hnone) nofun

/-! ## Runs -/

/-- In every run a key is unlocked once exactly when every passphrase is given
with no other prompt for its key held. -/
theorem unlocked_once_iff (knownHosts : Option KnownHosts) (events : List Answerer.Event) :
    Along step UnlockedOnce (start knownHosts) events ↔
      Along step UnlocksAlone (start knownHosts) events := by
  constructor
  · exact fun h => h.mono fun _ _ => unlocksAlone_of_once
  · refine along_of_invariant (I := NoneHeldUnlocked) (fun a e b h halone hb => ?_)
      (fun a e h halone => ⟨step_fromCache h e, step_held h halone⟩)
      (by simp [NoneHeldUnlocked, start, held])
    obtain rfl := Option.some.inj hb
    exact step_held h halone

/-- Two sessions ask for the passphrase of one key; it is given to the first. -/
def sharedKey : List Answerer.Event :=
  let input : ModalInput := ⟨false, false, false, true, false, false, fun _ => "right", false⟩
  [.raise (.credential ⟨.passphrase "/id", none, ⟨0⟩⟩) fun _ => none,
    .raise (.credential ⟨.passphrase "/id", none, ⟨1⟩⟩) fun _ => none,
    .frameEnd input (fun _ _ => .correct) true]

theorem sharedKey_asked_again :
    (∃ a, run step (start none) sharedKey = some a ∧
      a.passphraseCache.lookup "/id" = some "right" ∧
      a.shown.map PromptModal.prompt = some (.credential ⟨.passphrase "/id", none, ⟨1⟩⟩)) ∧
    ¬Along step UnlockedOnce (start none) sharedKey := by
  refine ⟨⟨_, rfl, by decide, by decide⟩, fun honce => ?_⟩
  have hlast := (honce.2 _ rfl).2 _ rfl
  exact absurd (hlast.1.2 (.credential ⟨.passphrase "/id", none, ⟨1⟩⟩) (by decide) "/id" rfl)
    (by decide)

end Answerer

end PolyTerm

import PolyTerm.KeyUnlock
import PolyTerm.SecretSources

/-!
# A remembered secret is never asked for again

The app reads an entry of the keyring before it asks, writes one only where it
asked, and deletes none. So once a secret is stored and nobody is being asked
for it, every later prompt for the entry is answered with that secret, right or
wrong, and the entry stays as it is (`remembered_for_good`): only another
program can replace it, or a moment in which the keyring cannot be read.
-/

namespace PolyTerm

open Runs Answerer

namespace Unlocking

variable {s t : Unlocking} {c : CredentialRef} {v : String}

/-- The prompt asks for a secret that the entry `c` may hold. -/
def AsksFor (c : CredentialRef) : PendingPrompt → Prop
  | .hostKey _ => False
  | .credential p => p.credential = some c ∧ interactive p.request = none

/-- The entry holds `v` and no modal asks for it. -/
structure Settled (c : CredentialRef) (v : String) (s : Unlocking) : Prop where
  entry : s.keyring.lookup c = some v
  unasked : ∀ p ∈ s.answerer.held, ¬AsksFor c p

/-- The keyring can be read when the entry is asked for, and no other program
changes it. -/
def Steady (c : CredentialRef) : Unlocking.Event → Prop
  | .raise prompt fault => AsksFor c prompt → fault = none
  | .changed c' _ => c' ≠ c
  | _ => True

/-- What a prompt is answered with that asks for an entry holding `v`: a
passphrase unlocked this run goes first. -/
def supplied (a : Answerer) (p : CredentialPrompt) (v : String) : String :=
  match p.request with
  | .passphrase keyPath => (a.passphraseCache.lookup keyPath).getD v
  | _ => v

/-- A prompt for the entry is answered at once, and no modal shown is one. -/
def AnsweredUnasked (c : CredentialRef) (v : String) (s : Unlocking) : Unlocking.Event → Prop
  | .raise prompt fault =>
      ∀ p, prompt = .credential p → AsksFor c prompt →
        s.sent (.raise prompt fault) = [.credential p (.secret (supplied s.answerer p v) false)]
  | .frameEnd _ _ _ _ => ∀ m, s.answerer.shown = some m → ¬AsksFor c m.prompt
  | _ => True

/-! ## One step -/

theorem lookup_perform_none {fault : Option String} :
    ∀ {actions : List PromptAction} {ring : Keyring},
      (∀ value, .keyringStore c value ∉ actions) →
        (actions.foldl (perform fault) ring).lookup c = ring.lookup c := by
  intro actions
  induction actions with
  | nil => exact fun _ => rfl
  | cons x actions ih =>
      intro ring h
      rw [List.foldl_cons, ih fun value hmem => h value (List.mem_cons_of_mem _ hmem)]
      cases x with
      | keyringStore c' value =>
          rw [perform, Keyring.lookup_store, if_neg]
          rintro ⟨-, rfl⟩
          exact h value List.mem_cons_self
      | trust q d => rfl
      | credential p reply => rfl

theorem Settled.silent (h : Settled c v s) {p : CredentialPrompt}
    (hasks : AsksFor c (.credential p)) :
    s.answerer.silentSecret (s.keyring.stored none) p = some (supplied s.answerer p v) := by
  obtain ⟨hc, hsecret⟩ := hasks
  have hstored : s.keyring.stored none c = some v := by
    rw [Keyring.stored_eq]
    exact h.entry
  cases hp : p.request with
  | password username host => simp [silentSecret, supplied, hp, hc, hstored]
  | passphrase keyPath =>
      cases hcache : s.answerer.passphraseCache.lookup keyPath <;>
        simp [silentSecret, supplied, hp, hc, hstored, hcache]
  | keyboardInteractive name instruction prompts =>
      rw [hp] at hsecret
      cases hsecret

theorem Settled.raise_sent (h : Settled c v s) {p : CredentialPrompt}
    (hasks : AsksFor c (.credential p)) :
    s.sent (.raise (.credential p) none) =
      [.credential p (.secret (supplied s.answerer p v) false)] := by
  simp only [sent, seen, Answerer.sent, Answerer.react, handlePrompt, h.silent hasks]

/-- A prompt left to the user does not ask for the entry. -/
theorem Settled.asks_none (h : Settled c v s) {prompt : PendingPrompt} {fault : Option String}
    (hsteady : Steady c (.raise prompt fault)) {m : PromptModal}
    (hm : s.answerer.asks (s.keyring.stored fault) prompt = some m) : ¬AsksFor c prompt := by
  intro hasks
  obtain rfl := hsteady hasks
  cases prompt with
  | hostKey q => exact hasks
  | credential p => simp [asks, h.silent hasks] at hm

theorem Settled.unasked_raise (h : Settled c v s) {prompt : PendingPrompt}
    {fault : Option String} (hsteady : Steady c (.raise prompt fault)) :
    ∀ p ∈ (handlePrompt (s.keyring.stored fault) s.answerer prompt).1.held, ¬AsksFor c p := by
  intro p hp
  rw [handlePrompt_fst] at hp
  cases hm : s.answerer.asks (s.keyring.stored fault) prompt with
  | none =>
      rw [hm] at hp
      exact h.unasked p hp
  | some m =>
      rw [hm] at hp
      rcases List.mem_cons.mp ((held_enqueue s.answerer m).mem_iff.mpr hp) with rfl | hp
      · rw [asks_prompt hm]
        exact h.asks_none hsteady hm
      · exact h.unasked p hp

/-- A frame stores only in an entry that its modal asks for. -/
theorem Settled.frameEnd_stores (h : Settled c v s) {u : ModalInput}
    {verify : String → String → PassphraseCheck} {written : Bool} (value : String) :
    .keyringStore c value ∉ (answerModal verify written u s.answerer).2 := by
  intro hstore
  obtain ⟨m, hm, hsends⟩ := frameEnd_sends hstore
  refine h.unasked m.prompt (shown_mem_held hm) ?_
  rw [← show_prompt m u]
  generalize hdrawn : (m.show u).1 = drawn at hsends
  cases hsends with
  | store p inputs r error value c answered right names =>
      obtain ⟨q, _, _, _, rfl, hsecret⟩ := show_secret answered
      have hprompt : PromptModal.prompt (.credential p inputs r error) = .credential q :=
        hdrawn ▸ show_prompt _ u
      obtain rfl : p = q := PendingPrompt.credential.inj hprompt
      exact ⟨names, hsecret⟩

theorem Settled.unasked_frameEnd (h : Settled c v s) {u : ModalInput}
    {verify : String → String → PassphraseCheck} {written : Bool} :
    ∀ p ∈ (answerModal verify written u s.answerer).1.held, ¬AsksFor c p := by
  intro p hp
  rcases ends_held (answerModal_ends verify written u s.answerer) with
    ⟨hheld, -⟩ | ⟨m, hm, -, hheld, -⟩
  · exact h.unasked p (hheld ▸ hp)
  · exact h.unasked p (taken_held_subset hm (hheld ▸ hp))

theorem Settled.react (h : Settled c v s) {e : Unlocking.Event} (hsteady : Steady c e) :
    Settled c v (s.react e) := by
  cases e with
  | raise prompt fault =>
      refine ⟨?_, h.unasked_raise hsteady⟩
      refine (lookup_perform_none fun value hmem => ?_).trans h.entry
      rcases raise_sends hmem with ⟨q, hq⟩ | ⟨p, w, -, -, hq⟩ <;> cases hq
  | frameEnd u verify written fault =>
      exact ⟨(lookup_perform_none h.frameEnd_stores).trans h.entry, h.unasked_frameEnd⟩
  | forgetPassphrases => exact ⟨h.entry, h.unasked⟩
  | changed c' new =>
      have hne : c ≠ c' := Ne.symm hsteady
      cases new with
      | none => exact ⟨(AList.lookup_erase_ne hne).trans h.entry, h.unasked⟩
      | some w => exact ⟨(AList.lookup_insert_ne hne).trans h.entry, h.unasked⟩

theorem Settled.answered (h : Settled c v s) {e : Unlocking.Event} (hsteady : Steady c e) :
    AnsweredUnasked c v s e := by
  cases e with
  | raise prompt fault =>
      rintro p rfl hasks
      obtain rfl := hsteady hasks
      exact h.raise_sent hasks
  | frameEnd u verify written fault => exact fun m hm => h.unasked m.prompt (shown_mem_held hm)
  | forgetPassphrases => trivial
  | changed c' new => trivial

/-! ## Runs -/

theorem Settled.along (h : Settled c v s) {events : List Unlocking.Event}
    (hsteady : Along step (fun _ e => Steady c e) s events) :
    Along step (AnsweredUnasked c v) s events ∧
      ∀ t, run step s events = some t → Settled c v t := by
  have hstep : ∀ (s : Unlocking) (e : Unlocking.Event) (t : Unlocking),
      Settled c v s → Steady c e → step s e = some t → Settled c v t := by
    intro s e t hs he ht
    obtain rfl := Option.some.inj ht
    exact hs.react he
  exact ⟨along_of_invariant hstep (fun s e hs he => hs.answered he) h hsteady,
    fun t hrun => run_invariant hstep h hsteady hrun⟩

/-! ## Remembering -/

/-- What the modal shown was answered, if the frame takes in a secret. -/
theorem given_typed {u : ModalInput} {verify : String → String → PassphraseCheck}
    {written : Bool} {fault : Option String} {p : CredentialPrompt} {remember : Bool}
    (h : s.given (.frameEnd u verify written fault) = [.typed p v remember]) :
    ∃ m inputs r error, s.answerer.shown = some m ∧
      (m.show u).1 = .credential p inputs r error ∧
      (m.show u).2 = .credentialSecret v remember ∧
      retry verify (m.show u).1 (m.show u).2 = none := by
  cases hm : s.answerer.shown with
  | none => simp [given, hm] at h
  | some m =>
      rw [given_frameEnd hm] at h
      generalize hdrawn : (m.show u).1 = drawn at h
      generalize hanswer : (m.show u).2 = answer at h
      unfold accepted at h
      split at h
      · rename_i q inputs r error value rem
        split at h
        · cases h
        · rename_i hright
          obtain ⟨rfl, rfl, rfl⟩ := Given.typed.inj (List.singleton_inj.mp h)
          refine ⟨m, inputs, r, error, rfl, hdrawn, hanswer, ?_⟩
          rw [hdrawn, hanswer]
          exact Option.not_isSome_iff_eq_none.mp hright
      · cases List.singleton_inj.mp h
      · cases h

theorem resolveModal_secret {verify : String → String → PassphraseCheck} {written : Bool}
    {a : Answerer} {p : CredentialPrompt} {inputs : List String} {r remember : Bool}
    {error : Option String}
    (h : retry verify (.credential p inputs r error) (.credentialSecret v remember) = none) :
    (resolveModal verify written a (.credential p inputs r error)
      (.credentialSecret v remember)).2 = sendSecret p v remember := by
  cases hp : p.request with
  | password username host => simp [resolveModal, hp]
  | keyboardInteractive name instruction prompts => simp [resolveModal, hp]
  | passphrase keyPath =>
      simp only [retry, hp] at h
      simp only [resolveModal, hp]
      split at h
      · cases h
      · rename_i hverify
        split
        · rename_i hincorrect
          exact absurd hincorrect hverify
        · rfl

/-- An accepted secret to be remembered settles its entry, if no other modal
asks for it. -/
theorem settled_of_typed {u : ModalInput} {verify : String → String → PassphraseCheck}
    {written : Bool} {p : CredentialPrompt}
    (hgiven : s.given (.frameEnd u verify written none) = [.typed p v true])
    (hc : p.credential = some c) (halone : ∀ q ∈ s.answerer.taken.held, ¬AsksFor c q) :
    Settled c v (s.react (.frameEnd u verify written none)) := by
  obtain ⟨m, inputs, r, error, hm, hdrawn, hanswer, hright⟩ := given_typed hgiven
  have hpending : (m.show u).2 ≠ .pending := by
    rw [hanswer]
    rintro ⟨⟩
  constructor
  · have hsent : s.sent (.frameEnd u verify written none) = sendSecret p v true := by
      simp only [sent, seen, Answerer.sent, Answerer.react]
      rw [answerModal_resolve hm hpending]
      rw [hdrawn, hanswer] at hright ⊢
      exact resolveModal_secret hright
    change ((s.sent (.frameEnd u verify written none)).foldl (perform none) s.keyring).lookup c =
      some v
    rw [hsent]
    simp [sendSecret, hc, perform, Keyring.store]
  · intro q hq
    refine halone q ?_
    have hends := answerModal_ends verify written u s.answerer
    change q ∈ (answerModal verify written u s.answerer).1.held at hq
    cases hends with
    | idle hnone => cases hnone.symm.trans hm
    | stays m' hm' hstays =>
        obtain rfl := Option.some.inj (hm.symm.trans hm')
        exact absurd hstays hpending
    | answered m' hm' _ hslot _ =>
        obtain rfl := Option.some.inj (hm.symm.trans hm')
        rw [hright] at hslot
        rw [held_eq, hslot] at hq
        rw [taken_held]
        exact hq

/-- A secret that the user asks to remember, with no other modal for its entry
waiting, is what every later prompt for the entry is answered with, and the
user is not asked for it again, in any run in which the keyring can be read and
no other program changes the entry. -/
theorem remembered_for_good {u : ModalInput} {verify : String → String → PassphraseCheck}
    {written : Bool} {p : CredentialPrompt} {events : List Unlocking.Event}
    (hgiven : s.given (.frameEnd u verify written none) = [.typed p v true])
    (hc : p.credential = some c) (halone : ∀ q ∈ s.answerer.taken.held, ¬AsksFor c q)
    (hsteady : Along step (fun _ e => Steady c e) (s.react (.frameEnd u verify written none))
      events) :
    Along step (AnsweredUnasked c v) (s.react (.frameEnd u verify written none)) events ∧
      ∀ t, run step (s.react (.frameEnd u verify written none)) events = some t →
        t.keyring.lookup c = some v := by
  obtain ⟨halong, hend⟩ := (settled_of_typed hgiven hc halone).along hsteady
  exact ⟨halong, fun t hrun => (hend t hrun).entry⟩

/-- The password remembered is wrong; the session tries again, and again. -/
theorem remembered_for_good_again :
    let s := (start none ∅).react (.raise (.credential (dbPassword 0)) none)
    let e := Unlocking.Event.frameEnd
      ⟨false, false, false, true, false, false, fun _ => "wrong", true⟩
      (fun _ _ => .unverifiable) true none
    Along step (AnsweredUnasked ⟨"polyterm", "ann@db"⟩ "wrong") (s.react e)
        [.raise (.credential (dbPassword 1)) none, .raise (.credential (dbPassword 2)) none] ∧
      ∀ t, run step (s.react e)
          [.raise (.credential (dbPassword 1)) none, .raise (.credential (dbPassword 2)) none] =
            some t →
        t.keyring.lookup ⟨"polyterm", "ann@db"⟩ = some "wrong" := by
  refine remembered_for_good (p := dbPassword 0) (by decide) rfl (fun q hq => ?_) ?_
  · cases hq
  · exact ⟨fun _ => rfl, fun t _ => ⟨fun _ => rfl, fun _ _ => trivial⟩⟩

end Unlocking

end PolyTerm

import PolyTerm.EventProtocol
import PolyTerm.Standing
import PolyTerm.TrustStatus

/-!
# No secret before the host is trusted

The whole way of a host key: the server offers it to the session, the session
raises a prompt, the app answers it from the trust store or asks the user, and the
session goes on or gives the hop up. A key the app lets pass was on record for its
host at the start, or the user has accepted it for this host (`Rooted`). So in
every run of a session, each prompt for a secret and each authentication stands
behind the prompt for a rooted key of the hop it is for
(`secrets_behind_trusted`).
-/

namespace PolyTerm

open Runs Answerer Standing

/-! ## Where a trusted key comes from -/

/-- The key was on record for the host at the start, or the user has accepted it in a
modal that asked about it. -/
def Rooted (knownHosts : Option KnownHosts) (events : List Answerer.Event) (id : HostId)
    (key : Bytes) : Prop :=
  (∃ s, knownHosts = some s ∧ s.recorded id = some key) ∨
    ∃ past e future a p status, events = past ++ e :: future ∧
      run step (start knownHosts) past = some a ∧ Accepts a e p status ∧
      p.id = id ∧ p.publicKey = key

section Rooted

variable {knownHosts : Option KnownHosts} {events : List Answerer.Event} {id : HostId} {key : Bytes}
  {a b : Answerer} {e : Answerer.Event} {p : HostKeyPrompt}

theorem Rooted.append (h : Rooted knownHosts events id key) (more : List Answerer.Event) :
    Rooted knownHosts (events ++ more) id key := by
  rcases h with hstart | ⟨past, e, future, a, p, status, rfl, hrun, haccepts, hid, hkey⟩
  · exact Or.inl hstart
  · exact Or.inr ⟨past, e, future ++ more, a, p, status, by simp, hrun, haccepts, hid, hkey⟩

theorem rooted_accept {status : KnownHostStatus}
    (hrun : run step (start knownHosts) events = some a) (h : Accepts a e p status) :
    Rooted knownHosts (events ++ [e]) p.id p.publicKey :=
  Or.inr ⟨events, e, [], a, p, status, rfl, hrun, h, rfl, rfl⟩

/-- The store changes only where the user accepts a key, and in one entry. -/
theorem step_recorded {s : KnownHosts} (hstep : step a e = some b) (hs : b.knownHosts = some s)
    (hkey : s.recorded id = some key) :
    (∃ s, a.knownHosts = some s ∧ s.recorded id = some key) ∨
      ∃ p status, Accepts a e p status ∧ p.id = id ∧ p.publicKey = key := by
  obtain rfl := step_eq hstep
  by_cases haccepts : ∃ p status, Accepts a e p status
  · obtain ⟨p, status, u, verify, written, rfl, hshown, haccept, hopen⟩ := haccepts
    simp only [react, frameEnd_accept hshown haccept hopen, Option.map_eq_some_iff] at hs
    obtain ⟨s', hs', rfl⟩ := hs
    rw [KnownHosts.recorded_remember, Function.update_apply] at hkey
    split at hkey
    · rename_i hid
      exact Or.inr ⟨p, status, ⟨u, verify, written, rfl, hshown, haccept, hopen⟩, hid.symm,
        Option.some.inj hkey⟩
    · exact Or.inl ⟨s', hs', hkey⟩
  · have hother : (react a e).1.knownHosts = a.knownHosts := by
      cases e with
      | raise p load => exact (raise_hostKey a p load).1
      | frameEnd u verify written =>
          exact (frameEnd_other fun p status h => haccepts ⟨p, status, h⟩).1
      | forgetPassphrases => rfl
    exact Or.inl ⟨s, hother.symm.trans hs, hkey⟩

theorem recorded_rooted {s : KnownHosts} (hrun : run step (start knownHosts) events = some a)
    (hs : a.knownHosts = some s) (hkey : s.recorded id = some key) :
    Rooted knownHosts events id key := by
  induction events using List.reverseRecOn generalizing a s with
  | nil =>
      obtain rfl := Option.some.inj hrun
      exact Or.inl ⟨s, hs, hkey⟩
  | append_singleton events e ih =>
      obtain ⟨before, hbefore, hstep⟩ := run_concat.mp hrun
      rcases step_recorded hstep hs hkey with ⟨s', hs', hkey'⟩ | ⟨p, status, haccepts, rfl, rfl⟩
      · exact (ih hbefore hs' hkey').append [e]
      · exact rooted_accept hbefore haccepts

theorem run_total (a : Answerer) (events : List Answerer.Event) :
    ∃ b, run step a events = some b := by
  induction events generalizing a with
  | nil => exact ⟨a, rfl⟩
  | cons e events ih => exact ih (react a e).1

/-- The app lets no other key pass. -/
theorem trust_rooted {d : TrustDecision}
    (hsent : .trust p d ∈ outputs step sent (start knownHosts) events) (hd : d ≠ .reject) :
    Rooted knownHosts events p.id p.publicKey := by
  induction events using List.reverseRecOn with
  | nil => cases hsent
  | append_singleton events e ih =>
      obtain ⟨a, hrun⟩ := run_total (start knownHosts) events
      rw [outputs_concat hrun rfl] at hsent
      rcases List.mem_append.mp hsent with hearlier | hnow
      · exact (ih hearlier).append [e]
      · rcases step_trust a e p d hnow hd with ⟨s, hs, hkey⟩ |
          ⟨u, verify, written, status, rfl, hshown, haccept, hopen⟩
        · exact (recorded_rooted hrun hs hkey).append [e]
        · exact rooted_accept hrun ⟨u, verify, written, rfl, hshown, haccept, hopen⟩

end Rooted

/-! ## What a session does with the answer -/

/-- The key a mark asks about. -/
def Mark.offers : Mark → Option HostKeyPrompt
  | .event (.hostKey p) => some p
  | _ => none

/-- A prompt for a secret needs a trusted key of the hop it is for to stand, and so
does an authentication. -/
def Mark.Behind (trusted : HostKeyPrompt → Prop) (hops : List Hop) (m : Mark)
    (key : Option HostKeyPrompt) : Prop :=
  match m with
  | .event (.credential c) => ∃ p hop, key = some p ∧ trusted p ∧ hop ∈ hops ∧
      Ssh.PromptOf hop p ∧ Ssh.CredentialFor hop c
  | .authenticated k => ∃ p hop, key = some p ∧ trusted p ∧ hops[k]? = some hop ∧
      Ssh.PromptOf hop p
  | _ => True

namespace Ssh

/-- The prompt for a key that a hop offers. -/
def offered (hop : Hop) (key : KeyOffer) : HostKeyPrompt :=
  ⟨⟨hop.host, hop.port, key.keyType⟩, key.fingerprint, key.publicKey, key.reply⟩

/-- The reply to a prompt comes from the app: what an attempt is told about a key is
among what the app sent. -/
def Decided (sent : List PromptAction) (hops : List Hop) (o : AttemptOutcome) : Prop :=
  ∀ k hop key rejected rest d, hops[k]? = some hop →
    (o.hops k).connect = .checked key rejected rest → key.decision = some d →
    .trust (offered hop key) d ∈ sent

section Hops

variable {trusted : HostKeyPrompt → Prop} {hops : List Hop} {k : Nat} {hop : Hop} {o : HopOutcome}

/-- The key of the hop, if it is accepted, is trusted. -/
def Vouched (trusted : HostKeyPrompt → Prop) (hop : Hop) (o : HopOutcome) : Prop :=
  ∀ key rejected rest, o.connect = .checked key rejected rest → key.accepted = true →
    trusted (offered hop key)

/-- Contacting a hop asks about its key, if it gets that far, and fails unless the key
is accepted. -/
theorem reach_offers (k : Nat) (hop : Hop) (o : HopOutcome) :
    ((reach k hop o).1 = [.contact k] ∧ (reach k hop o).2 ≠ .ok ()) ∨
      ∃ key rejected rest, o.connect = .checked key rejected rest ∧
        (reach k hop o).1 =
          [.contact k, .event (.hostKey (offered hop key)), .keyAnswered k key.accepted] ∧
        ((reach k hop o).2 = .ok () → key.accepted = true) := by
  have hconnect (f : String → String) :
      (.contact k :: (connect k hop o.connect).1 = [.contact k] ∧
        (connect k hop o.connect).2.mapError f ≠ .ok ()) ∨
      ∃ key rejected rest, o.connect = .checked key rejected rest ∧
        .contact k :: (connect k hop o.connect).1 =
          [.contact k, .event (.hostKey (offered hop key)), .keyAnswered k key.accepted] ∧
        ((connect k hop o.connect).2.mapError f = .ok () → key.accepted = true) := by
    cases o.connect with
    | unreached e => exact Or.inl ⟨rfl, by rintro ⟨⟩⟩
    | checked key rejected rest =>
        refine Or.inr ⟨key, rejected, rest, rfl, rfl, fun hok => ?_⟩
        by_contra hnot
        simp only [connect, checkServerKey, Bool.eq_false_iff.mpr hnot] at hok
        cases hok
  unfold reach
  cases k with
  | zero => exact hconnect _
  | succ k =>
      cases o.tunnel with
      | error e => exact Or.inl ⟨rfl, by rintro ⟨⟩⟩
      | ok _ => exact hconnect _

theorem asksFor_behind {p : HostKeyPrompt} {m : Mark} (hmem : hop ∈ hops) (htrusted : trusted p)
    (hprompt : PromptOf hop p) (h : AsksFor hop m) :
    m.offers = none ∧ m.Behind trusted hops (some p) := by
  rcases h with ⟨c, rfl, hfor⟩ | ⟨message, rfl⟩
  · exact ⟨rfl, p, hop, rfl, htrusted, hmem, hprompt, hfor⟩
  · exact ⟨rfl, trivial⟩

theorem hopUp_backed (hhop : hops[k]? = some hop) (hvouched : Vouched trusted hop o)
    (standing : Option HostKeyPrompt) :
    Backed Mark.offers (Mark.Behind trusted hops) standing (hopUp k hop o).1 := by
  have hreach := reach_offers k hop o
  have hasks := authenticateWith_asks hop o.auth
  have hmem : hop ∈ hops := List.mem_of_getElem? hhop
  unfold hopUp
  generalize reach k hop o = r at hreach
  obtain ⟨reached, connected⟩ := r
  rcases hreach with ⟨rfl, hnot⟩ | ⟨key, rejected, rest, hkey, rfl, haccepted⟩
  · cases connected with
    | error message => exact ⟨trivial, trivial⟩
    | ok u => exact absurd rfl hnot
  · have hprompt : PromptOf hop (offered hop key) := ⟨rfl, rfl⟩
    cases connected with
    | error message => exact ⟨trivial, trivial, trivial, trivial⟩
    | ok u =>
        have htrusted := hvouched key rejected rest hkey (haccepted rfl)
        obtain ⟨hasked, hstands⟩ := backed_of_forall fun m hm =>
          asksFor_behind hmem htrusted hprompt (hasks m hm)
        have hboth : Backed Mark.offers (Mark.Behind trusted hops) standing
            ([.contact k, .event (.hostKey (offered hop key)), .keyAnswered k key.accepted] ++
              (authenticateWith hop o.auth).1) :=
          backed_append.mpr ⟨⟨trivial, trivial, trivial, trivial⟩, hasked⟩
        dsimp only
        split
        · refine backed_append.mpr ⟨hboth, ?_, trivial⟩
          rw [latest_append]
          exact ⟨_, hop, hstands, htrusted, hhop, hprompt⟩
        · exact hboth
        · exact hboth

theorem establish_backed {outcome : Nat → HopOutcome}
    (hvouched : ∀ k hop, hops[k]? = some hop → Vouched trusted hop (outcome k))
    {chain rest : List Hop} (hsplit : hops = chain ++ rest) (standing : Option HostKeyPrompt) :
    Backed Mark.offers (Mark.Behind trusted hops) standing (establish outcome chain rest).1 := by
  induction rest generalizing chain standing with
  | nil => exact trivial
  | cons hop rest ih =>
      have hhop : hops[chain.length]? = some hop := by
        rw [hsplit, List.getElem?_append_right (Nat.le_refl _), Nat.sub_self]
        rfl
      have hup := hopUp_backed hhop (hvouched _ _ hhop) standing
      rw [establish]
      generalize hopUp chain.length hop (outcome chain.length) = up at hup
      obtain ⟨marks, result⟩ := up
      cases result with
      | error message => exact backed_append.mpr ⟨hup, trivial, trivial⟩
      | ok u =>
          have hsplit' : hops = chain ++ [hop] ++ rest := by
            rw [hsplit, List.append_assoc, List.singleton_append]
          exact backed_append.mpr ⟨hup, ih hsplit' _⟩

/-- Connecting sends nothing that needs a key. -/
theorem runConnected_backed (chain : List Hop) (size : UInt16 × UInt16) (o : AttemptOutcome)
    (standing : Option HostKeyPrompt) :
    Backed Mark.offers (Mark.Behind trusted hops) standing (runConnected chain size o).1 := by
  unfold runConnected
  split
  · exact trivial
  · exact trivial
  · exact ⟨trivial, trivial⟩

theorem attempt_backed {o : AttemptOutcome}
    (hvouched : ∀ k hop, hops[k]? = some hop → Vouched trusted hop (o.hops k)) (s : RunState)
    (standing : Option HostKeyPrompt) :
    Backed Mark.offers (Mark.Behind trusted hops) standing (attempt hops s o).1 := by
  have hall : hops = [] ++ hops := rfl
  have hestablish := establish_backed hvouched hall
  unfold attempt
  generalize establish o.hops [] hops = established at hestablish
  obtain ⟨marks, chain⟩ := established
  cases chain with
  | none => exact ⟨trivial, hestablish _⟩
  | some chain =>
      have hconnected : ∀ standing, Backed Mark.offers (Mark.Behind trusted hops) standing
          (runConnected chain s.size o).1 := runConnected_backed chain s.size o
      dsimp only
      generalize runConnected chain s.size o = connected at hconnected
      obtain ⟨more, reason, size⟩ := connected
      have hmarks : Backed Mark.offers (Mark.Behind trusted hops) standing
          (.event .connecting :: marks ++ .event .authenticated :: more) :=
        backed_append.mpr ⟨⟨trivial, hestablish _⟩, trivial, hconnected _⟩
      cases reason with
      | none => exact hmarks
      | some reason => exact backed_append.mpr ⟨hmarks, trivial, trivial⟩

theorem run_backed {attempts : List AttemptOutcome}
    (hvouched : ∀ o ∈ attempts, ∀ k hop, hops[k]? = some hop → Vouched trusted hop (o.hops k))
    (s : RunState) (standing : Option HostKeyPrompt) :
    Backed Mark.offers (Mark.Behind trusted hops) standing (run hops s attempts).1 := by
  induction attempts generalizing s standing with
  | nil => exact trivial
  | cons o attempts ih =>
      have hattempt := attempt_backed (hvouched o List.mem_cons_self) s standing
      rw [run]
      generalize attempt hops s o = turned at hattempt
      obtain ⟨marks, turn⟩ := turned
      cases turn with
      | returns => exact hattempt
      | pumping => exact hattempt
      | again s' =>
          exact backed_append.mpr
            ⟨hattempt, ih (fun o ho => hvouched o (List.mem_cons_of_mem _ ho)) s' _⟩

end Hops

theorem decided_vouched {knownHosts : Option KnownHosts} {events : List Answerer.Event}
    {hops : List Hop} {o : AttemptOutcome}
    (h : Decided (outputs step sent (start knownHosts) events) hops o) {k : Nat} {hop : Hop}
    (hhop : hops[k]? = some hop) :
    Vouched (fun p => Rooted knownHosts events p.id p.publicKey) hop (o.hops k) := by
  intro key rejected rest hkey haccepted
  obtain ⟨d, hdecision, hd⟩ : ∃ d, key.decision = some d ∧ d ≠ .reject := by
    simp only [KeyOffer.accepted, Bool.or_eq_true, decide_eq_true_eq] at haccepted
    rcases haccepted with h | h
    · exact ⟨_, h, by decide⟩
    · exact ⟨_, h, by decide⟩
  exact trust_rooted (h k hop key rejected rest d hhop hkey hdecision) hd

/-- Whatever the servers, the user and the network do: a session asks for a secret of a
hop, and authenticates there, only behind the prompt for a key of that hop which was
on record at the start or which the user has accepted for it. -/
theorem secrets_behind_trusted {knownHosts : Option KnownHosts} {events : List Answerer.Event}
    {hops : List Hop} {attempts : List AttemptOutcome}
    (hdecided : ∀ o ∈ attempts, Decided (outputs step sent (start knownHosts) events) hops o)
    (s : RunState) {before after : List Mark} {m : Mark}
    (hmarks : (run hops s attempts).1 = before ++ m :: after) :
    m.Behind (fun p => Rooted knownHosts events p.id p.publicKey) hops
      (latest Mark.offers none before) :=
  (run_backed (fun o ho _ _ hhop => decided_vouched (hdecided o ho) hhop) s none).at_place hmarks

/-- The app records the key when the user accepts it, and the session then asks for the
password. -/
def acceptKey : List Answerer.Event :=
  let idle : ModalInput := ⟨false, false, false, false, false, false, fun _ => "", false⟩
  [.raise (.hostKey ⟨⟨"db", 22, "ssh-ed25519"⟩, "SHA256:k", [1], ⟨0⟩⟩) fun _ => none,
    .frameEnd { idle with accept := true } (fun _ _ => .unverifiable) true]

def dbHop : Hop := ⟨"db", 22, "root", .password ⟨"polyterm", "db"⟩⟩

def dbAttempt : AttemptOutcome where
  hops _ :=
    { tunnel := .ok ()
      connect := .checked ⟨"ssh-ed25519", "SHA256:k", [1], ⟨0⟩, some .acceptAndRemember⟩ "" (.ok ())
      auth := ⟨⟨1⟩, .secret "pw" false, false, .error "", .ok (), .ok true, .failure, .error "",
        .error ""⟩ }
  shell := .error "no shell"
  pump := []
  backoff := []

theorem secrets_behind_trusted_accepted :
    ∃ before after, (run [dbHop] .start [dbAttempt]).1 = before ++ .authenticated 0 :: after ∧
      (Mark.authenticated 0).Behind
        (fun p => Rooted (some ⟨"", []⟩) acceptKey p.id p.publicKey) [dbHop]
        (latest Mark.offers none before) := by
  have hdecided : ∀ o ∈ [dbAttempt],
      Decided (outputs step sent (start (some ⟨"", []⟩)) acceptKey) [dbHop] o := by
    intro o ho k hop key rejected rest d hhop hconnect hdecision
    obtain rfl := List.mem_singleton.mp ho
    obtain ⟨rfl, -, -⟩ := ConnectOutcome.checked.inj hconnect
    obtain rfl := Option.some.inj hdecision
    cases k with
    | zero =>
        obtain rfl := Option.some.inj hhop
        decide
    | succ k => cases hhop
  have hmarks : (run [dbHop] .start [dbAttempt]).1 =
      (run [dbHop] .start [dbAttempt]).1.take 5 ++
        .authenticated 0 :: (run [dbHop] .start [dbAttempt]).1.drop 6 := rfl
  exact ⟨_, _, hmarks, secrets_behind_trusted hdecided .start hmarks⟩

end Ssh

end PolyTerm

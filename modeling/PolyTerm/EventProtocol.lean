import PolyTerm.SshRun

/-!
# The events of one SSH run

A run is a sequence of attempts, and an attempt is one of three things
(`AttemptTrace`): a hop fails after the ones before it passed; all hops pass
and the shell is refused; or all pass and the link comes up and ends. The
proof follows the code: one lemma per function that sends something, then the
list of hops, then the list of attempts.
-/

namespace PolyTerm

namespace Ssh

/-! ## The language -/

/-- The prompt asks for something that authenticating at `hop` needs. -/
def CredentialFor (hop : Hop) (p : CredentialPrompt) : Prop :=
  match p.request with
  | .password user host => user = hop.user ∧ host = hop.host
  | .passphrase keyPath => ∃ passphrase, hop.auth = .publicKey keyPath passphrase
  | .keyboardInteractive _ _ _ => hop.auth = .keyboardInteractive

/-- A credential prompt for the hop, or an error report. -/
def AsksFor (hop : Hop) (m : Mark) : Prop :=
  (∃ p, m = .event (.credential p) ∧ CredentialFor hop p) ∨ ∃ message, m = .event (.error message)

def PromptOf (hop : Hop) (p : HostKeyPrompt) : Prop := p.id.host = hop.host ∧ p.id.port = hop.port

/-- The `k`-th hop is contacted, its key accepted, and it authenticates. -/
inductive HopPassed (k : Nat) (hop : Hop) : List Mark → Prop where
  | mk {p : HostKeyPrompt} {asked : List Mark} (prompt : PromptOf hop p)
      (asks : ∀ m ∈ asked, AsksFor hop m) :
      HopPassed k hop (.contact k :: .event (.hostKey p) :: .keyAnswered k true :: asked ++
        [.authenticated k])

/-- The `k`-th hop is contacted and comes to nothing. -/
inductive HopFailed (k : Nat) (hop : Hop) : List Mark → Prop where
  | unreached : HopFailed k hop [.contact k]
  | rejected {p : HostKeyPrompt} (prompt : PromptOf hop p) :
      HopFailed k hop [.contact k, .event (.hostKey p), .keyAnswered k false]
  | refused {p : HostKeyPrompt} {asked : List Mark} (prompt : PromptOf hop p)
      (asks : ∀ m ∈ asked, AsksFor hop m) :
      HopFailed k hop (.contact k :: .event (.hostKey p) :: .keyAnswered k true :: asked)

/-- The hops pass one after the other, the first of them in place `k`. -/
inductive HopsPassed : Nat → List Hop → List Mark → Prop where
  | nil (k : Nat) : HopsPassed k [] []
  | cons {k : Nat} {hop : Hop} {hops : List Hop} {ms ms' : List Mark} :
      HopPassed k hop ms → HopsPassed (k + 1) hops ms' → HopsPassed k (hop :: hops) (ms ++ ms')

inductive AttemptTrace (hops : List Hop) : List Mark → Prop where
  | failed {before after : List Hop} {hop : Hop} {ms ms' : List Mark} {message : String}
      (split : hops = before ++ hop :: after) (passed : HopsPassed 0 before ms)
      (failed : HopFailed before.length hop ms') :
      AttemptTrace hops (.event .connecting :: (ms ++ ms') ++ [fail message])
  | noShell {ms : List Mark} {message : String} (passed : HopsPassed 0 hops ms) :
      AttemptTrace hops (.event .connecting :: (ms ++ [.event .authenticated]) ++ [fail message])
  | connected {ms : List Mark} {reason : DisconnectReason} (passed : HopsPassed 0 hops ms) :
      AttemptTrace hops (.event .connecting ::
        (ms ++ [.event .authenticated, .event .connected]) ++ [.event (.disconnected reason)])

/-- Whole attempts, and then, if it is still pumped, one without its end. -/
inductive Attempts (hops : List Hop) : Bool → List Mark → Prop where
  | nil : Attempts hops false []
  | pumping {ms : List Mark} (passed : HopsPassed 0 hops ms) :
      Attempts hops true (.event .connecting :: ms ++ [.event .authenticated, .event .connected])
  | cons {pumping : Bool} {ms rest : List Mark} :
      AttemptTrace hops ms → Attempts hops pumping rest → Attempts hops pumping (ms ++ rest)

/-! ## One hop -/

section Hop

variable {k : Nat} {hop : Hop}

theorem asksFor_ask {request : CredentialRequest} {credential : Option CredentialRef}
    {reply : ReplyId} (h : CredentialFor hop ⟨request, credential, reply⟩) :
    AsksFor hop (askCredential request credential reply) := Or.inl ⟨_, rfl, h⟩

theorem asksFor_error (message : String) : AsksFor hop (.event (.error message)) :=
  Or.inr ⟨message, rfl⟩

theorem loadKey_asks {path : String} {passphrase : Option CredentialRef}
    (hauth : hop.auth = .publicKey path passphrase) (o : AuthOutcome) :
    ∀ m ∈ (loadKey path passphrase o).1, AsksFor hop m := by
  have hask : AsksFor hop (askCredential (.passphrase path) passphrase o.reply) :=
    asksFor_ask ⟨passphrase, hauth⟩
  unfold loadKey
  split
  · simp
  · dsimp only
    split
    · split
      · simpa using hask
      · simpa using ⟨hask, asksFor_error _⟩
    · simpa using hask

theorem keyboardInteractive_asks (hauth : hop.auth = .keyboardInteractive) (x : Exchange) :
    ∀ m ∈ (keyboardInteractive x).1, AsksFor hop m := by
  induction x with
  | error | success | failure => simp [keyboardInteractive]
  | infoRequest name instructions prompts reply answer next ih =>
      have hask : AsksFor hop
          (askCredential (.keyboardInteractive name instructions prompts) none reply) :=
        asksFor_ask hauth
      unfold keyboardInteractive
      dsimp only
      split
      · simpa using ⟨hask, ih⟩
      · simpa using hask

theorem agentAuth_asks (o : AuthOutcome) : ∀ m ∈ (agentAuth o).1, AsksFor hop m := by
  unfold agentAuth
  split
  · simpa using asksFor_error _
  · split
    · simpa using asksFor_error _
    · simpa using asksFor_error _
    · split <;> simp

/-- Authenticating asks for this hop's credentials and reports errors. -/
theorem authenticateWith_asks (hop : Hop) (o : AuthOutcome) :
    ∀ m ∈ (authenticateWith hop o).1, AsksFor hop m := by
  unfold authenticateWith
  split
  · rename_i credential hauth
    have hask : AsksFor hop
        (askCredential (.password hop.user hop.host) (some credential) o.reply) :=
      asksFor_ask ⟨rfl, rfl⟩
    dsimp only
    split <;> simpa using hask
  · rename_i keyPath passphrase hauth
    have hload := loadKey_asks hauth o
    dsimp only
    split
    · split <;> exact hload
    · exact hload
  · rename_i hauth
    exact keyboardInteractive_asks hauth o.exchange
  · exact agentAuth_asks o

/-- A hop that is reached has had its key accepted; if it is not, no more than
its key was asked about. -/
theorem reach_cases (k : Nat) (hop : Hop) (o : HopOutcome) :
    (∃ message, (reach k hop o).2 = .error message ∧ HopFailed k hop (reach k hop o).1) ∨
      ∃ p, PromptOf hop p ∧ reach k hop o =
        ([.contact k, .event (.hostKey p), .keyAnswered k true], .ok ()) := by
  have hfail (f : String → String) :
      (∃ message, ((connect k hop o.connect).2.mapError f) = .error message ∧
        HopFailed k hop (.contact k :: (connect k hop o.connect).1)) ∨
      ∃ p, PromptOf hop p ∧
        (.contact k :: (connect k hop o.connect).1, (connect k hop o.connect).2.mapError f) =
          ([.contact k, .event (.hostKey p), .keyAnswered k true], .ok ()) := by
    cases o.connect with
    | unreached e => exact Or.inl ⟨f e, rfl, .unreached⟩
    | checked key rejected rest =>
        have hprompt : PromptOf hop
            ⟨⟨hop.host, hop.port, key.keyType⟩, key.fingerprint, key.publicKey, key.reply⟩ :=
          ⟨rfl, rfl⟩
        by_cases haccepted : key.accepted = true
        · simp only [connect, checkServerKey, haccepted, if_true]
          cases rest with
          | error e => exact Or.inl ⟨f e, rfl, .refused hprompt nofun⟩
          | ok _ => exact Or.inr ⟨_, hprompt, rfl⟩
        · simp only [connect, checkServerKey, Bool.eq_false_iff.mpr haccepted]
          exact Or.inl ⟨f rejected, rfl, .rejected hprompt⟩
  unfold reach
  cases k with
  | zero => exact hfail _
  | succ k =>
      cases o.tunnel with
      | error e => exact Or.inl ⟨_, rfl, .unreached⟩
      | ok _ => exact hfail _

/-- A hop passes or fails, and says so. -/
theorem hopUp_cases (k : Nat) (hop : Hop) (o : HopOutcome) :
    ((hopUp k hop o).2 = .ok () ∧ HopPassed k hop (hopUp k hop o).1) ∨
      ∃ message, (hopUp k hop o).2 = .error message ∧ HopFailed k hop (hopUp k hop o).1 := by
  have hasks := authenticateWith_asks hop o.auth
  have hreached := reach_cases k hop o
  unfold hopUp
  generalize reach k hop o = r at hreached
  obtain ⟨reached, connected⟩ := r
  rcases hreached with ⟨message, rfl, hfailed⟩ | ⟨p, hprompt, heq⟩
  · exact Or.inr ⟨message, rfl, hfailed⟩
  · obtain ⟨rfl, rfl⟩ := Prod.mk.inj heq
    dsimp only
    split
    · exact Or.inl ⟨rfl, .mk hprompt hasks⟩
    · exact Or.inr ⟨_, rfl, .refused hprompt hasks⟩
    · exact Or.inr ⟨_, rfl, .refused hprompt hasks⟩

end Hop

/-! ## The chain -/

/-- All hops pass, or one fails after the ones before it passed. -/
theorem establish_cases (outcome : Nat → HopOutcome) (hops chain : List Hop) :
    ((establish outcome chain hops).2 = some (chain ++ hops) ∧
      HopsPassed chain.length hops (establish outcome chain hops).1) ∨
    ((establish outcome chain hops).2 = none ∧
      ∃ before hop after ms ms' message, hops = before ++ hop :: after ∧
        HopsPassed chain.length before ms ∧ HopFailed (chain.length + before.length) hop ms' ∧
        (establish outcome chain hops).1 = ms ++ ms' ++ [fail message]) := by
  induction hops generalizing chain with
  | nil =>
      refine Or.inl ⟨?_, .nil _⟩
      rw [establish, List.append_nil]
  | cons hop hops ih =>
      have hhop := hopUp_cases chain.length hop (outcome chain.length)
      have hrest := ih (chain ++ [hop])
      rw [establish]
      generalize hopUp chain.length hop (outcome chain.length) = up at hhop
      obtain ⟨ms, result⟩ := up
      rw [List.length_append, List.length_singleton] at hrest
      rcases hhop with ⟨rfl, hpassed⟩ | ⟨message, rfl, hfailed⟩
      · rcases hrest with ⟨hall, hothers⟩ | ⟨hnone, before, hop', after, ms₁, ms₂, message, rfl,
          hbefore, hfailed, hmarks⟩
        · refine Or.inl ⟨?_, .cons hpassed hothers⟩
          simpa using hall
        · refine Or.inr ⟨hnone, hop :: before, hop', after, ms ++ ms₁, ms₂, message, rfl,
            .cons hpassed hbefore, ?_, ?_⟩
          · rw [List.length_cons]
            rwa [Nat.add_assoc, Nat.add_comm 1] at hfailed
          · dsimp only
            rw [hmarks]
            simp
      · exact Or.inr ⟨rfl, [], hop, hops, [], ms, message, rfl, .nil _, hfailed, rfl⟩

theorem hops_ne_nil (cfg : SshConfig) : cfg.hops ≠ [] := by
  simp [SshConfig.hops]

/-! ## Attempts -/

variable {hops : List Hop}

/-- The turn ended with its attempt still pumped. -/
def Turn.isPumping : Turn → Bool
  | .pumping => true
  | _ => false

theorem backOff_not_pumping (s : RunState) (msgs : List (Option ControlMsg)) :
    (backOff s msgs).isPumping = false := by
  unfold backOff
  split <;> rfl

/-- A turn is one attempt: whole, or connected and still pumped. -/
theorem attempt_cases (hhops : hops ≠ []) (s : RunState) (o : AttemptOutcome) :
    ((attempt hops s o).2.isPumping = false ∧ AttemptTrace hops (attempt hops s o).1) ∨
      ∃ ms, (attempt hops s o).2 = .pumping ∧ HopsPassed 0 hops ms ∧
        (attempt hops s o).1 =
          .event .connecting :: ms ++ [.event .authenticated, .event .connected] := by
  have hestablish := establish_cases o.hops hops []
  unfold attempt
  generalize establish o.hops [] hops = established at hestablish
  obtain ⟨marks, chain⟩ := established
  rcases hestablish with ⟨hall, hpassed⟩ | ⟨hnone, before, hop, after, ms, ms', message, hsplit,
    hbefore, hfailed, hmarks⟩
  · obtain rfl : chain = some hops := hall
    dsimp only [List.length_nil] at hpassed ⊢
    unfold runConnected
    obtain ⟨target, htarget⟩ := List.getLast?_isSome.mpr hhops |> Option.isSome_iff_exists.mp
    rw [htarget]
    cases hshell : o.shell with
    | error e =>
        refine Or.inl ⟨?_, ?_⟩
        · simp [Session.reconnects, backOff_not_pumping]
        · exact .noShell hpassed
    | ok _ =>
        dsimp only
        cases hreason : PolyTerm.pump (.start s.size) o.pump with
        | none => exact Or.inr ⟨marks, rfl, hpassed, by simp⟩
        | some reason =>
            refine Or.inl ⟨?_, ?_⟩
            · dsimp only
              split
              · exact backOff_not_pumping _ _
              · rfl
            · have htrace : AttemptTrace hops (.event .connecting ::
                  (marks ++ [.event .authenticated, .event .connected]) ++
                    [.event (.disconnected reason)]) := .connected hpassed
              simpa using htrace
  · obtain rfl : chain = none := hnone
    dsimp only at hmarks hbefore hfailed ⊢
    refine Or.inl ⟨?_, ?_⟩
    · split
      · exact backOff_not_pumping _ _
      · rfl
    · rw [hmarks]
      rw [List.length_nil, Nat.zero_add] at hfailed
      exact .failed hsplit hbefore hfailed

theorem run_attempts (hhops : hops ≠ []) (s : RunState) (attempts : List AttemptOutcome) :
    Attempts hops (run hops s attempts).2 (run hops s attempts).1 := by
  induction attempts generalizing s with
  | nil => exact .nil
  | cons o rest ih =>
      have hattempt := attempt_cases hhops s o
      rw [run]
      generalize attempt hops s o = turned at hattempt
      obtain ⟨marks, turn⟩ := turned
      rcases hattempt with ⟨hnot, htrace⟩ | ⟨ms, rfl, hpassed, rfl⟩
      · cases turn with
        | returns => simpa using Attempts.cons htrace .nil
        | pumping => cases hnot
        | again s' => exact .cons htrace (ih s')
      · exact .pumping hpassed

/-! ## Where an attempt begins and ends -/

/-- Neither the first nor the last mark of an attempt. -/
def Inner (m : Mark) : Prop := m ≠ .event .connecting ∧ ∀ reason, m ≠ .event (.disconnected reason)

/-- Sent while a hop is brought up. -/
def OfHop (m : Mark) : Prop := Inner m ∧ m ≠ .event .connected

theorem AsksFor.ofHop {hop : Hop} {m : Mark} (h : AsksFor hop m) : OfHop m := by
  rcases h with ⟨p, rfl, -⟩ | ⟨message, rfl⟩ <;> exact ⟨⟨nofun, nofun⟩, nofun⟩

theorem HopPassed.ofHop {k : Nat} {hop : Hop} {ms : List Mark} (h : HopPassed k hop ms) :
    ∀ m ∈ ms, OfHop m := by
  obtain ⟨prompt, asks⟩ := h
  intro m hm
  simp only [List.cons_append, List.mem_cons, List.mem_append, List.not_mem_nil, or_false] at hm
  rcases hm with rfl | rfl | rfl | hm | rfl
  case inr.inr.inr.inl => exact (asks m hm).ofHop
  all_goals exact ⟨⟨nofun, nofun⟩, nofun⟩

theorem HopFailed.ofHop {k : Nat} {hop : Hop} {ms : List Mark} (h : HopFailed k hop ms) :
    ∀ m ∈ ms, OfHop m := by
  intro m hm
  cases h with
  | unreached =>
      obtain rfl := List.mem_singleton.mp hm
      exact ⟨⟨nofun, nofun⟩, nofun⟩
  | rejected prompt =>
      simp only [List.mem_cons, List.not_mem_nil, or_false] at hm
      rcases hm with rfl | rfl | rfl <;> exact ⟨⟨nofun, nofun⟩, nofun⟩
  | refused prompt asks =>
      simp only [List.mem_cons] at hm
      rcases hm with rfl | rfl | rfl | hm
      case inr.inr.inr => exact (asks m hm).ofHop
      all_goals exact ⟨⟨nofun, nofun⟩, nofun⟩

theorem HopsPassed.ofHop {k : Nat} {hops : List Hop} {ms : List Mark} (h : HopsPassed k hops ms) :
    ∀ m ∈ ms, OfHop m := by
  induction h with
  | nil => exact nofun
  | cons hhop _ ih =>
      intro m hm
      rcases List.mem_append.mp hm with hm | hm
      · exact hhop.ofHop m hm
      · exact ih m hm

/-- An attempt begins with `connecting` and ends with `disconnected`, and has
neither in between. -/
theorem AttemptTrace.shape {ms : List Mark} (h : AttemptTrace hops ms) :
    ∃ body reason, ms = .event .connecting :: body ++ [.event (.disconnected reason)] ∧
      ∀ m ∈ body, Inner m := by
  cases h with
  | @failed before after hop ms ms' message split passed failed =>
      refine ⟨ms ++ ms', .failed message, rfl, fun m hm => ?_⟩
      rcases List.mem_append.mp hm with hm | hm
      · exact (passed.ofHop m hm).1
      · exact (failed.ofHop m hm).1
  | @noShell ms message passed =>
      refine ⟨ms ++ [.event .authenticated], .failed message, rfl, fun m hm => ?_⟩
      rcases List.mem_append.mp hm with hm | hm
      · exact (passed.ofHop m hm).1
      · obtain rfl := List.mem_singleton.mp hm
        exact ⟨nofun, nofun⟩
  | @connected ms reason passed =>
      refine ⟨ms ++ [.event .authenticated, .event .connected], reason, rfl, fun m hm => ?_⟩
      simp only [List.mem_append, List.mem_cons, List.not_mem_nil, or_false] at hm
      rcases hm with hm | rfl | rfl
      · exact (passed.ofHop m hm).1
      all_goals exact ⟨nofun, nofun⟩

theorem Attempts.head {pumping : Bool} {ms : List Mark} (h : Attempts hops pumping ms) :
    ms = [] ∨ ∃ rest, ms = .event .connecting :: rest := by
  cases h with
  | nil => exact Or.inl rfl
  | pumping passed => exact Or.inr ⟨_, rfl⟩
  | cons htrace _ =>
      obtain ⟨body, reason, rfl, -⟩ := htrace.shape
      exact Or.inr ⟨_, rfl⟩

/-- After a `disconnected` comes the next attempt, or nothing. -/
theorem Attempts.after_disconnected {pumping : Bool} {ms : List Mark}
    (h : Attempts hops pumping ms) {before after : List Mark} {reason : DisconnectReason}
    (hms : ms = before ++ .event (.disconnected reason) :: after) :
    after = [] ∨ ∃ rest, after = .event .connecting :: rest := by
  induction h generalizing before with
  | nil => simp at hms
  | pumping passed =>
      have hmem : Mark.event (.disconnected reason) ∈
          before ++ .event (.disconnected reason) :: after := by simp
      rw [← hms] at hmem
      simp only [List.cons_append, List.mem_cons, List.mem_append, List.not_mem_nil,
        or_false] at hmem
      rcases hmem with hmem | hmem | hmem | hmem
      case inr.inl => exact absurd rfl ((passed.ofHop _ hmem).1.2 reason)
      all_goals cases hmem
  | @cons _ ms rest htrace hrest ih =>
      obtain ⟨body, last, rfl, hinner⟩ := htrace.shape
      rcases List.append_eq_append_iff.mp hms with ⟨c, hbefore, hrest'⟩ | ⟨c, hms', hafter⟩
      · exact ih hrest'
      · cases c with
        | nil =>
            have hrest' : rest = [] ++ .event (.disconnected reason) :: after := hafter.symm
            exact ih hrest'
        | cons d c =>
            obtain ⟨rfl, rfl⟩ := List.cons.inj hafter
            induction c using List.reverseRecOn with
            | nil => exact hrest.head
            | append_singleton c x _ =>
                -- the mark would be inside the attempt
                rw [← List.cons_append, ← List.append_assoc] at hms'
                obtain ⟨hbody, -⟩ := List.append_inj' hms' rfl
                have hmem : Mark.event (.disconnected reason) ∈
                    before ++ .event (.disconnected reason) :: c := by simp
                rw [← hbody] at hmem
                rcases List.mem_cons.mp hmem with hmem | hmem
                · cases hmem
                · exact absurd rfl ((hinner _ hmem).2 reason)

/-! ## Runs -/

/-- The events of every run are a sequence of attempts, and after a
`disconnected` only `connecting` follows. -/
theorem run_protocol (cfg : SshConfig) (attempts : List AttemptOutcome) :
    Attempts cfg.hops (run cfg.hops .start attempts).2 (run cfg.hops .start attempts).1 ∧
      ∀ before reason after,
        (run cfg.hops .start attempts).1 = before ++ .event (.disconnected reason) :: after →
          after = [] ∨ ∃ rest, after = .event .connecting :: rest := by
  have hattempts := run_attempts (hops_ne_nil cfg) .start attempts
  exact ⟨hattempts, fun _ _ _ h => hattempts.after_disconnected h⟩

end Ssh

end PolyTerm

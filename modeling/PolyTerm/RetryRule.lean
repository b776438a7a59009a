import PolyTerm.EventProtocol

/-!
# What is retried

`run` goes on after a failure once `connectedBefore` is set, and sets it when
the hops have authenticated; `connected` is reported only when the shell is
open. The two differ for a server that authenticates and then refuses the
shell: if that is the first attempt, it is retried although the session was
never up (`retried_iff`).
-/

namespace PolyTerm

namespace Ssh

/-- A second or later attempt is made only after a connection was reported. -/
def OnlyUpRetried (marks : List Mark) : Prop :=
  ∀ before after, marks = before ++ .event .connecting :: after →
    .event .connecting ∈ before → .event .connected ∈ before

/-- The `k`-th hop is reached, its key is accepted, and it lets the user in. -/
def LetsIn (k : Nat) (hop : Hop) (o : HopOutcome) : Prop :=
  (k = 0 ∨ o.tunnel = .ok ()) ∧
    (∃ key rejected, o.connect = .checked key rejected (.ok ()) ∧ key.accepted = true) ∧
      (authenticateWith hop o.auth).2 = .ok true

def Authenticates (hops : List Hop) (o : AttemptOutcome) : Prop :=
  ∀ k hop, hops[k]? = some hop → LetsIn k hop (o.hops k)

/-- The first attempt authenticates and is refused the shell, and the backoff
after it ends in a further attempt. -/
def RefusedFirst (hops : List Hop) (attempts : List AttemptOutcome) : Prop :=
  ∃ o next rest e, attempts = o :: next :: rest ∧ Authenticates hops o ∧ o.shell = .error e ∧
    waitBackoff o.backoff ≠ .disconnect

/-! ## One hop -/

theorem mapError_ok {f : String → String} {x : Except String Unit} :
    x.mapError f = .ok () ↔ x = .ok () := by
  cases x <;> simp [Except.mapError]

theorem connect_ok {k : Nat} {hop : Hop} {c : ConnectOutcome} :
    (connect k hop c).2 = .ok () ↔
      ∃ key rejected, c = .checked key rejected (.ok ()) ∧ key.accepted = true := by
  cases c with
  | unreached e => simp [connect]
  | checked key rejected rest =>
      cases haccepted : key.accepted <;> simp [connect, checkServerKey, haccepted]

theorem reach_ok {k : Nat} {hop : Hop} {o : HopOutcome} :
    (reach k hop o).2 = .ok () ↔ (k = 0 ∨ o.tunnel = .ok ()) ∧
      ∃ key rejected, o.connect = .checked key rejected (.ok ()) ∧ key.accepted = true := by
  unfold reach
  cases k with
  | zero => rw [mapError_ok, connect_ok, and_iff_right (Or.inl rfl)]
  | succ k =>
      cases htunnel : o.tunnel with
      | error e => simp
      | ok u => rw [mapError_ok, connect_ok, and_iff_right (Or.inr rfl)]

theorem hopUp_ok {k : Nat} {hop : Hop} {o : HopOutcome} :
    (hopUp k hop o).2 = .ok () ↔ LetsIn k hop o := by
  rw [LetsIn, ← and_assoc, ← reach_ok]
  unfold hopUp
  cases reach k hop o with
  | mk reached connected =>
      cases connected with
      | error message => simp
      | ok u =>
          dsimp only
          split <;> simp_all

/-! ## The first attempt -/

variable {hops : List Hop} {o : AttemptOutcome}

theorem establish_isSome (outcome : Nat → HopOutcome) (hops chain : List Hop) :
    (establish outcome chain hops).2.isSome = true ↔
      ∀ k hop, hops[k]? = some hop →
        (hopUp (chain.length + k) hop (outcome (chain.length + k))).2 = .ok () := by
  induction hops generalizing chain with
  | nil => simp [establish]
  | cons hop hops ih =>
      have hrest := ih (chain ++ [hop])
      rw [List.length_append, List.length_singleton] at hrest
      rw [establish]
      constructor
      · intro hsome k hop' hk
        cases hup : hopUp chain.length hop (outcome chain.length) with
        | mk marks result =>
            rw [hup] at hsome
            cases result with
            | error message => cases hsome
            | ok _ =>
                cases k with
                | zero =>
                    obtain rfl := Option.some.inj hk
                    rw [Nat.add_zero, hup]
                | succ k =>
                    have hlater := hrest.mp hsome k hop' hk
                    rwa [Nat.add_assoc, Nat.add_comm 1] at hlater
      · intro hall
        have hfirst := hall 0 hop rfl
        rw [Nat.add_zero] at hfirst
        cases hup : hopUp chain.length hop (outcome chain.length) with
        | mk marks result =>
            rw [hup] at hfirst
            obtain rfl := hfirst
            refine hrest.mpr fun k hop' hk => ?_
            have hlater := hall (k + 1) hop' hk
            rwa [Nat.add_assoc, Nat.add_comm 1]

theorem authenticates_iff : Authenticates hops o ↔ (establish o.hops [] hops).2.isSome = true := by
  rw [establish_isSome]
  simp [Authenticates, hopUp_ok]

/-! ## Attempts in a run -/

/-- An attempt connects once, first of all. -/
theorem attempt_connecting (hhops : hops ≠ []) (s : RunState) (o : AttemptOutcome) :
    ∃ tail, (attempt hops s o).1 = .event .connecting :: tail ∧ .event .connecting ∉ tail := by
  rcases attempt_cases hhops s o with ⟨-, htrace⟩ | ⟨ms, -, hpassed, hmarks⟩
  · obtain ⟨body, reason, hmarks, hinner⟩ := htrace.shape
    refine ⟨_, hmarks, fun hmem => ?_⟩
    rcases List.mem_append.mp hmem with hmem | hmem
    · exact (hinner _ hmem).1 rfl
    · cases List.mem_singleton.mp hmem
  · rw [List.cons_append] at hmarks
    refine ⟨_, hmarks, fun hmem => ?_⟩
    simp only [List.mem_append, List.mem_cons, List.not_mem_nil, or_false] at hmem
    rcases hmem with hmem | hmem | hmem
    case inl => exact (hpassed.ofHop _ hmem).1.1 rfl
    all_goals cases hmem

/-- A further `connecting` comes after the whole first attempt. -/
theorem prefix_of_connecting {tail more before after : List Mark}
    (htail : .event .connecting ∉ tail)
    (hsplit : .event .connecting :: tail ++ more = before ++ .event .connecting :: after)
    (hbefore : .event .connecting ∈ before) : (.event .connecting :: tail) <+: before := by
  rcases List.append_eq_append_iff.mp hsplit with ⟨c, hc, -⟩ | ⟨c, hfirst, hc⟩
  · exact ⟨c, hc.symm⟩
  · cases c with
    | nil =>
        rw [List.append_nil] at hfirst
        rw [hfirst]
    | cons d c =>
        obtain ⟨rfl, -⟩ := List.cons.inj hc
        cases before with
        | nil => cases hbefore
        | cons b before =>
            obtain ⟨-, htail'⟩ := List.cons.inj hfirst
            exact absurd (by simp [htail']) htail

theorem run_connecting (hhops : hops ≠ []) (s : RunState) (o : AttemptOutcome)
    (rest : List AttemptOutcome) :
    ∃ more, (run hops s (o :: rest)).1 = .event .connecting :: more := by
  obtain ⟨tail, hmarks, -⟩ := attempt_connecting hhops s o
  rw [run]
  generalize attempt hops s o = turned at hmarks
  obtain ⟨marks, turn⟩ := turned
  obtain rfl : marks = .event .connecting :: tail := hmarks
  cases turn <;> exact ⟨_, rfl⟩

theorem onlyUpRetried_single {tail : List Mark} (htail : .event .connecting ∉ tail) :
    OnlyUpRetried (.event .connecting :: tail) := by
  intro before after hsplit hbefore
  have hwhole : .event .connecting :: tail ++ [] = before ++ .event .connecting :: after := by
    rw [List.append_nil, hsplit]
  -- before the second `connecting` there would be the whole list
  have hle := (prefix_of_connecting htail hwhole hbefore).length_le
  have hlength := congrArg List.length hsplit
  simp only [List.length_cons, List.length_append] at hle hlength
  omega

theorem onlyUpRetried_append {tail more : List Mark} (htail : .event .connecting ∉ tail)
    (hconnected : .event .connected ∈ Mark.event .connecting :: tail) :
    OnlyUpRetried (.event .connecting :: tail ++ more) := by
  intro before after hsplit hbefore
  exact (prefix_of_connecting htail hsplit hbefore).subset hconnected

theorem backOff_cases (s : RunState) (msgs : List (Option ControlMsg)) :
    (waitBackoff msgs = .disconnect ∧ backOff s msgs = .returns) ∨
      (waitBackoff msgs ≠ .disconnect ∧ ∃ s', backOff s msgs = .again s') := by
  unfold backOff
  split
  · exact Or.inl ⟨‹_›, rfl⟩
  · exact Or.inr ⟨‹_›, _, rfl⟩

/-- How the first attempt goes: no hop chain, and the run returns; no shell; or
a connection is reported. -/
theorem attempt_start (hhops : hops ≠ []) (o : AttemptOutcome) :
    (¬Authenticates hops o ∧ ∃ marks, attempt hops .start o = (marks, .returns)) ∨
    (Authenticates hops o ∧ ∃ marks e s, attempt hops .start o = (marks, backOff s o.backoff) ∧
      o.shell = .error e ∧ .event .connected ∉ marks) ∨
    ((∃ u, o.shell = .ok u) ∧ .event .connected ∈ (attempt hops .start o).1) := by
  have hestablish := establish_cases o.hops hops []
  rw [authenticates_iff]
  unfold attempt
  generalize establish o.hops [] hops = established at hestablish
  obtain ⟨marks, chain⟩ := established
  rcases hestablish with ⟨hall, hpassed⟩ | ⟨hnone, -⟩
  · obtain rfl : chain = some hops := hall
    refine Or.inr ?_
    obtain ⟨target, htarget⟩ := List.getLast?_isSome.mpr hhops |> Option.isSome_iff_exists.mp
    dsimp only [runConnected]
    rw [htarget]
    cases hshell : o.shell with
    | error e =>
        refine Or.inl ⟨rfl, _, e, _, rfl, rfl, fun hmem => ?_⟩
        simp only [List.cons_append, List.mem_cons, List.mem_append, List.not_mem_nil,
          or_false] at hmem
        rcases hmem with hmem | (hmem | hmem) | hmem
        case inr.inl.inl => exact (hpassed.ofHop _ hmem).2 rfl
        all_goals cases hmem
    | ok u =>
        refine Or.inr ⟨⟨u, rfl⟩, ?_⟩
        dsimp only
        cases PolyTerm.pump (.start RunState.start.size) o.pump <;> simp
  · obtain rfl : chain = none := hnone
    exact Or.inl ⟨nofun, _, rfl⟩

/-! ## The rule -/

theorem retried_iff (cfg : SshConfig) (attempts : List AttemptOutcome) :
    OnlyUpRetried (run cfg.hops .start attempts).1 ↔ ¬RefusedFirst cfg.hops attempts := by
  have hhops := hops_ne_nil cfg
  cases attempts with
  | nil =>
      refine iff_of_true (fun before after hsplit => ?_) ?_
      · simp [run] at hsplit
      · rintro ⟨o, next, rest, e, hcons, -⟩
        cases hcons
  | cons o rest =>
      obtain ⟨tail, hmarks, htail⟩ := attempt_connecting hhops .start o
      have hstart := attempt_start hhops o
      rw [run]
      generalize attempt cfg.hops .start o = turned at hmarks hstart
      obtain ⟨marks, turn⟩ := turned
      obtain rfl : marks = .event .connecting :: tail := hmarks
      rcases hstart with ⟨hnot, _, hreturns⟩ | ⟨hauth, _, e, s, hback, hshell, hnever⟩ |
        ⟨⟨u, hshell⟩, hconnected⟩
      · obtain ⟨-, rfl⟩ := Prod.mk.inj hreturns
        refine iff_of_true (onlyUpRetried_single htail) ?_
        rintro ⟨_, next, rest', e, hcons, hauth, -⟩
        cases hcons
        exact hnot hauth
      · obtain ⟨rfl, rfl⟩ := Prod.mk.inj hback
        rcases backOff_cases s o.backoff with ⟨hwait, hback⟩ | ⟨hwait, s', hback⟩
        · rw [hback]
          refine iff_of_true (onlyUpRetried_single htail) ?_
          rintro ⟨_, next, rest', e', hcons, -, -, hgoes⟩
          cases hcons
          exact hgoes hwait
        · rw [hback]
          cases rest with
          | nil =>
              refine iff_of_true ?_ ?_
              · simpa [run] using onlyUpRetried_single htail
              · rintro ⟨_, next, rest', e', hcons, -⟩
                cases hcons
          | cons next rest =>
              -- the run goes on, with nothing connected so far
              refine iff_of_false (fun honly => ?_) ?_
              · obtain ⟨more, hmore⟩ := run_connecting hhops s' next rest
                refine hnever (honly _ more ?_ List.mem_cons_self)
                simp [hmore]
              · exact not_not.mpr ⟨o, next, rest, e, rfl, hauth, hshell, hwait⟩
      · refine iff_of_true ?_ ?_
        · cases turn with
          | returns | pumping => exact onlyUpRetried_single htail
          | again s' => exact onlyUpRetried_append htail hconnected
        · rintro ⟨_, next, rest', e, hcons, -, hrefused, -⟩
          cases hcons
          rw [hshell] at hrefused
          cases hrefused

/-! ## A server that refuses the shell -/

def agentOnly : SshConfig := ⟨"host", 22, "user", .agent, []⟩

/-- The host key is accepted and the agent's key lets the user in, but no shell
is opened. -/
def shellRefused : AttemptOutcome where
  hops _ := {
    tunnel := .ok ()
    connect := .checked ⟨"ssh-ed25519", "SHA256:k", [], ⟨0⟩, some .acceptOnce⟩ "Unknown server key"
      (.ok ())
    auth := {
      reply := ⟨1⟩
      answer := .cancelled
      keyLoads := false
      keyUnlocks := .ok ()
      rsaHash := .ok ()
      verdict := .ok false
      exchange := .failure
      agent := .ok ()
      identities := .ok [.ok true] } }
  shell := .error "channel open failed"
  pump := []
  backoff := []

theorem shellRefused_retried :
    ¬OnlyUpRetried (run agentOnly.hops .start [shellRefused, shellRefused]).1 := by
  intro honly
  have hfirst : (attempt agentOnly.hops .start shellRefused).1 ++
      (attempt agentOnly.hops .start shellRefused).1 =
        (run agentOnly.hops .start [shellRefused, shellRefused]).1 := by rfl
  have hconnected := honly (attempt agentOnly.hops .start shellRefused).1 _ hfirst.symm
    (by decide)
  exact absurd hconnected (by decide)

end Ssh

end PolyTerm

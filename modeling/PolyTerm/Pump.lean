import PolyTerm.SessionSteps

/-!
# The pump and a shell that has exited

`pump` races the keystrokes, the control messages and the shell channel and
returns why the link ended; `run` reconnects on that reason alone. The file
embeds the loop over the sequence of events its `select` takes, finds the
reason in closed form (`pump_eq`), and settles when a shell that reported its
exit is left alone: always, unless the loop ends on a chunk that could not be
written (`pump_exited_iff`).

`step_pump` ties the loop to the session of `SshSession`, whose steps are the
same arms with every other party's steps between them; from it
`exited_stays_down` reads the same fact off the session's runs.
-/

namespace PolyTerm

open Runs

/-- What the shell channel yields. -/
inductive ShellMsg where
  | data (bytes : Bytes)
  | extendedData (bytes : Bytes)
  | exitStatus
  | exitSignal
  | eof
  | close
  | other
deriving DecidableEq, Repr

/-- One turn of the `select`; `none` is a source that has ended. -/
inductive PumpEvent where
  /-- `written`: the channel takes the chunk -/
  | input (chunk : Option Bytes) (written : Bool)
  | control (msg : Option ControlMsg)
  /-- `relayed`: the terminal still takes output -/
  | channel (msg : Option ShellMsg) (relayed : Bool)
deriving DecidableEq, Repr

structure Pump where
  exited : Bool
  size : UInt16 × UInt16
  /-- written to the shell channel -/
  sent : List Bytes
  /-- relayed to the terminal -/
  output : List Bytes
  /-- handed to the forwards and to SFTP -/
  requests : List ControlMsg
deriving DecidableEq, Repr

namespace Pump

def start (size : UInt16 × UInt16) : Pump := ⟨false, size, [], [], []⟩

/-- One arm of the `select`: `error` is a `break` with its reason. -/
def step (p : Pump) : PumpEvent → Except DisconnectReason Pump
  | .input (some bytes) written =>
      if written then .ok { p with sent := p.sent ++ [bytes] }
      else .error (.failed "write to channel failed")
  | .input none _ => .error .local
  | .control (some (.resize cols rows)) => .ok { p with size := (cols, rows) }
  | .control (some (.addForward id spec)) =>
      .ok { p with requests := p.requests ++ [.addForward id spec] }
  | .control (some (.removeForward id)) =>
      .ok { p with requests := p.requests ++ [.removeForward id] }
  | .control (some .openSftp) => .ok { p with requests := p.requests ++ [.openSftp] }
  | .control (some .disconnect) => .error .local
  | .control (some _) => .ok p
  | .control none => .error .local
  | .channel (some (.data bytes)) relayed =>
      if relayed then .ok { p with output := p.output ++ [bytes] } else .error .local
  | .channel (some (.extendedData bytes)) relayed =>
      .ok (if relayed then { p with output := p.output ++ [bytes] } else p)
  | .channel (some .exitStatus) _ => .ok { p with exited := true }
  | .channel (some .exitSignal) _ => .ok { p with exited := true }
  | .channel (some .eof) _ => .ok p
  | .channel (some .close) _ => .error .remote
  | .channel (some .other) _ => .ok p
  | .channel none _ => .error (if p.exited then .remote else .timeout)

end Pump

/-- The loop: `none` while it is still waiting for its next event. -/
def pump (p : Pump) : List PumpEvent → Option DisconnectReason
  | [] => none
  | e :: events =>
      match p.step e with
      | .ok p' => pump p' events
      | .error reason => some reason

/-! ## What ends the loop, and with which reason -/

namespace PumpEvent

/-- The event breaks the loop. -/
def ends : PumpEvent → Bool
  | .input (some _) written => !written
  | .channel (some (.data _)) relayed => !relayed
  | .input none _ | .control none | .control (some .disconnect) => true
  | .channel (some .close) _ | .channel none _ => true
  | _ => false

/-- The shell reports that it has exited. -/
def reportsExit : PumpEvent → Bool
  | .channel (some .exitStatus) _ | .channel (some .exitSignal) _ => true
  | _ => false

/-- A chunk the channel does not take. -/
def failedWrite : PumpEvent → Bool
  | .input (some _) written => !written
  | _ => false

/-- The reason of a `break` on this event. -/
def reason (exited : Bool) : PumpEvent → DisconnectReason
  | .input (some _) _ => .failed "write to channel failed"
  | .channel (some .close) _ => .remote
  | .channel none _ => if exited then .remote else .timeout
  | _ => .local

end PumpEvent

/-- The exit was reported before the loop ended. -/
def exitReported (events : List PumpEvent) : Bool :=
  (events.takeWhile fun e => !e.ends).any (·.reportsExit)

/-- The loop ends on a chunk that could not be written. -/
def endsInFailedWrite (events : List PumpEvent) : Bool :=
  (events.find? (·.ends)).any (·.failedWrite)

namespace Pump

theorem step_of_ends {p : Pump} {e : PumpEvent} (h : e.ends = true) :
    p.step e = .error (e.reason p.exited) := by
  cases e with
  | input chunk written =>
      cases chunk with
      | none => rfl
      | some bytes =>
          obtain rfl : written = false := by simpa [PumpEvent.ends] using h
          rfl
  | control msg =>
      cases msg with
      | none => rfl
      | some msg => cases msg <;> first | rfl | cases h
  | channel msg relayed =>
      cases msg with
      | none => rfl
      | some msg =>
          cases msg with
          | close => rfl
          | data bytes =>
              obtain rfl : relayed = false := by simpa [PumpEvent.ends] using h
              rfl
          | _ => cases h

theorem step_of_not_ends {p : Pump} {e : PumpEvent} (h : e.ends = false) :
    ∃ p', p.step e = .ok p' ∧ p'.exited = (p.exited || e.reportsExit) := by
  cases e with
  | input chunk written =>
      cases chunk with
      | none => cases h
      | some bytes =>
          obtain rfl : written = true := by simpa [PumpEvent.ends] using h
          exact ⟨_, rfl, (Bool.or_false _).symm⟩
  | control msg =>
      cases msg with
      | none => cases h
      | some msg =>
          cases msg <;> first
            | exact ⟨_, rfl, (Bool.or_false _).symm⟩
            | cases h
  | channel msg relayed =>
      cases msg with
      | none => cases h
      | some msg =>
          cases msg with
          | close => cases h
          | data bytes =>
              obtain rfl : relayed = true := by simpa [PumpEvent.ends] using h
              exact ⟨_, rfl, (Bool.or_false _).symm⟩
          | extendedData bytes =>
              refine ⟨_, rfl, ?_⟩
              cases relayed <;> exact (Bool.or_false _).symm
          | exitStatus => exact ⟨_, rfl, (Bool.or_true _).symm⟩
          | exitSignal => exact ⟨_, rfl, (Bool.or_true _).symm⟩
          | eof => exact ⟨_, rfl, (Bool.or_false _).symm⟩
          | other => exact ⟨_, rfl, (Bool.or_false _).symm⟩

end Pump

/-- The reason is that of the first event that ends the loop, given whether
the exit was reported before it. -/
theorem pump_eq (p : Pump) (events : List PumpEvent) :
    pump p events =
      (events.find? (·.ends)).map (·.reason (p.exited || exitReported events)) := by
  induction events generalizing p with
  | nil => rfl
  | cons e events ih =>
      cases he : e.ends with
      | true =>
          have hexit : exitReported (e :: events) = false := by simp [exitReported, he]
          simp [pump, Pump.step_of_ends he, hexit, he]
      | false =>
          obtain ⟨p', hstep, hexited⟩ := Pump.step_of_not_ends (p := p) he
          have hexit : exitReported (e :: events) = (e.reportsExit || exitReported events) := by
            simp [exitReported, he]
          rw [List.find?_cons_of_neg (by simp [he]), hexit, ← Bool.or_assoc, ← hexited, ← ih p']
          simp only [pump, hstep]

theorem reason_of_exited {e : PumpEvent} (h : e.ends = true) :
    (e.reason true = .remote ∨ e.reason true = .local) ↔ e.failedWrite = false := by
  cases e with
  | input chunk written =>
      cases chunk with
      | none => simp [PumpEvent.reason, PumpEvent.failedWrite]
      | some bytes =>
          obtain rfl : written = false := by simpa [PumpEvent.ends] using h
          simp [PumpEvent.reason, PumpEvent.failedWrite]
  | control msg => simp [PumpEvent.reason, PumpEvent.failedWrite]
  | channel msg relayed =>
      cases msg with
      | none => simp [PumpEvent.reason, PumpEvent.failedWrite]
      | some msg => cases msg <;> simp [PumpEvent.reason, PumpEvent.failedWrite]

theorem reconnects_reason {e : PumpEvent} (h : e.ends = true) :
    Session.reconnects (e.reason true) = e.failedWrite := by
  cases e with
  | input chunk written =>
      cases chunk with
      | none => rfl
      | some bytes =>
          obtain rfl : written = false := by simpa [PumpEvent.ends] using h
          rfl
  | control msg => rfl
  | channel msg relayed =>
      cases msg with
      | none => rfl
      | some msg => cases msg <;> rfl

/-- A shell that reported its exit: the loop's reason is `remote` or `local`,
and `run` opens no new connection, exactly if it does not end on a failed
write. -/
theorem pump_exited_iff (size : UInt16 × UInt16) (events : List PumpEvent)
    (reason : DisconnectReason) (hend : pump (.start size) events = some reason)
    (hexit : exitReported events = true) :
    ((reason = .remote ∨ reason = .local) ∧ Session.reconnects reason = false) ↔
      endsInFailedWrite events = false := by
  rw [pump_eq, hexit, Bool.or_true] at hend
  obtain ⟨e, hfind, rfl⟩ := Option.map_eq_some_iff.mp hend
  have hends : e.ends = true := List.find?_some hfind
  have hfailed : endsInFailedWrite events = e.failedWrite := by simp [endsInFailedWrite, hfind]
  rw [reason_of_exited hends, reconnects_reason hends, hfailed, and_self]

/-- Logged out, and the connection closed behind it. -/
theorem pump_exited_iff_logout :
    (DisconnectReason.remote = .remote ∨ DisconnectReason.remote = .local) ∧
      Session.reconnects .remote = false :=
  (pump_exited_iff (80, 24)
    [.channel (some .exitStatus) true, .channel (some .eof) true, .channel none true]
    .remote (by decide) (by decide)).mpr (by decide)

/-- A key pressed after the exit, on a channel that takes no more: `failed`,
so the user is logged back in. -/
theorem pump_reconnects_after_exit :
    ∃ (events : List PumpEvent) (reason : DisconnectReason),
      pump (.start (80, 24)) events = some reason ∧ exitReported events = true ∧
        ¬ (reason = .remote ∨ reason = .local) ∧ Session.reconnects reason = true :=
  ⟨[.channel (some .exitStatus) true, .input (some []) false],
    .failed "write to channel failed", by decide⟩

/-! ## The pump of a session -/

/-- What a session's channel message leaves of the shell's. -/
def ChannelMsg.of : Option ShellMsg → ChannelMsg
  | some (.data _) => .data
  | some (.extendedData _) => .extendedData
  | some .exitStatus | some .exitSignal => .exitStatus
  | some .eof => .eof
  | some .close => .close
  | some .other => .other
  | none => .gone

namespace Session

/-- The event with which a session's label reaches the pump. -/
def Presents (s : Session) : SessionLabel → PumpEvent → Prop
  | .readInput written, .input chunk taken =>
      chunk = s.pane.input.recv.map Prod.fst ∧ taken = written
  | .readControl, .control msg => msg = s.pane.control.recv.map Prod.fst
  | .channel msg, .channel shell relayed => ChannelMsg.of shell = msg ∧ relayed = !s.uiClosed
  | _, _ => False

/-- The phase the pump's own step leads to. -/
def phaseAfter : Except DisconnectReason Pump → Phase
  | .ok p => .pumping p.exited
  | .error reason => .closing reason

theorem readInput_pump {s t : Session} {p : Pump} {written : Bool}
    (hphase : s.phase = .pumping p.exited) (h : s.readInput written = some t) :
    ∃ e, s.Presents (.readInput written) e ∧ t.phase = phaseAfter (p.step e) := by
  refine ⟨.input (s.pane.input.recv.map Prod.fst) written, ⟨rfl, rfl⟩, ?_⟩
  cases readInput_reads h with
  | wrote bytes input hsel hrecv =>
      rw [hrecv]
      exact hphase
  | failed bytes input hsel hrecv | closed hsel hrecv =>
      rw [hrecv]
      rfl

theorem readControl_pump {s t : Session} {p : Pump} (hphase : s.phase = .pumping p.exited)
    (h : s.readControl = some t) :
    ∃ e, s.Presents .readControl e ∧ t.phase = phaseAfter (p.step e) := by
  refine ⟨.control (s.pane.control.recv.map Prod.fst), rfl, ?_⟩
  cases readControl_reads h with
  | pumped msg control hsel hrecv =>
      rw [hrecv]
      cases msg with
      | disconnect => rfl
      | _ => exact hphase
  | closed hsel hrecv =>
      rw [hrecv]
      rfl
  | backedOff msg control hsel hwaiting | gaveUp hsel hwaiting => cases hphase.symm.trans hwaiting

theorem readChannel_pump {s t : Session} {p : Pump} {msg : ChannelMsg}
    (hphase : s.phase = .pumping p.exited) (h : s.readChannel msg = some t)
    {shell : Option ShellMsg} (hshell : ChannelMsg.of shell = msg) :
    t.phase = phaseAfter (p.step (.channel shell (!s.uiClosed))) := by
  unfold readChannel at h
  rw [hphase] at h
  simp only at h
  split at h
  · cases h
  · subst hshell
    cases shell with
    | none => exact Option.some.inj h ▸ rfl
    | some shell =>
        cases shell with
        | data bytes =>
            obtain rfl := Option.some.inj h
            cases s.uiClosed with
            | true => rfl
            | false => exact hphase
        | extendedData bytes =>
            obtain rfl := Option.some.inj h
            cases s.uiClosed <;> exact hphase
        | exitStatus | exitSignal | close => exact Option.some.inj h ▸ rfl
        | eof | other => exact Option.some.inj h ▸ hphase

/-- No other step moves a session that is past its setup and not waiting. -/
theorem step_phase {s t : Session} {l : SessionLabel} (h : s.step l = some t)
    (hsetup : s.phase ≠ .establishing ∧ s.phase ≠ .opening ∧ s.phase ≠ .waiting)
    (hemit : l ≠ .emit) (hinput : ∀ written, l ≠ .readInput written)
    (hcontrol : l ≠ .readControl) (hchannel : ∀ msg, l ≠ .channel msg) : t.phase = s.phase := by
  obtain ⟨hestablishing, hopening, hwaiting⟩ := hsetup
  have hpane : ∀ {u : Session} {f : LivePane → LivePane}, u.onPane f = some t →
      t.phase = u.phase := fun hu => (onPane_open hu).2 ▸ rfl
  cases l with
  | emit => exact absurd rfl hemit
  | readInput written => exact absurd rfl (hinput written)
  | readControl => exact absurd rfl hcontrol
  | channel msg => exact absurd rfl (hchannel msg)
  | sendInput | sendBestEffort | pumpPane | resize =>
      simp only [step] at h
      exact hpane h
  | addForward id spec =>
      simp only [step] at h
      split at h
      · cases h
      · have hkeep : t.phase = ({ s with minted := id :: s.minted } : Session).phase := hpane h
        exact hkeep
  | removeForward id =>
      simp only [step] at h
      split at h
      · exact hpane h
      · cases h
  | forward op => exact (forwardStep_phase h).1
  | earlierReply id refused => exact (earlierReply_phase h).1
  | earlierReport id => exact (earlierReport_phase h).1
  | relay =>
      simp only [step] at h
      split at h
      · exact Option.some.inj h ▸ rfl
      · cases h
  | closePane | relayEnds =>
      simp only [step] at h
      split at h <;> first | cases h; done | exact Option.some.inj h ▸ rfl
  | prompt | agentError | established | establishFailed =>
      simp only [step, if_neg hestablishing] at h
      cases h
  | shellOpened | shellFailed =>
      simp only [step, if_neg hopening] at h
      cases h
  | backoffElapsed =>
      simp only [step, if_neg hwaiting] at h
      cases h

/-- A step of a pumping session is a turn of the pump's loop, or somebody
else's and leaves the pump where it is. -/
theorem step_pump {s t : Session} {p : Pump} {l : SessionLabel}
    (hphase : s.phase = .pumping p.exited) (h : s.step l = some t) :
    t.phase = s.phase ∨ ∃ e, s.Presents l e ∧ t.phase = phaseAfter (p.step e) := by
  cases l with
  | readInput written => exact .inr (readInput_pump hphase h)
  | readControl => exact .inr (readControl_pump hphase h)
  | channel msg =>
      obtain ⟨shell, hshell⟩ : ∃ shell, ChannelMsg.of shell = msg := by
        cases msg with
        | data => exact ⟨some (.data []), rfl⟩
        | extendedData => exact ⟨some (.extendedData []), rfl⟩
        | exitStatus => exact ⟨some .exitStatus, rfl⟩
        | eof => exact ⟨some .eof, rfl⟩
        | close => exact ⟨some .close, rfl⟩
        | other => exact ⟨some .other, rfl⟩
        | gone => exact ⟨none, rfl⟩
      exact .inr ⟨.channel shell (!s.uiClosed), ⟨hshell, rfl⟩, readChannel_pump hphase h hshell⟩
  | emit =>
      simp only [step, emit, hphase] at h
      cases h
  | _ =>
      refine .inl (step_phase h ?_ ?_ ?_ ?_ ?_) <;> simp [hphase]

/-! ## After the exit -/

/-- The shell's exit was reported and no connection opened since. -/
def LoggedOut (s : Session) : Prop :=
  s.phase = .pumping true ∨ s.phase = .closing .remote ∨ s.phase = .closing .local ∨
    s.phase = .ended

/-- No chunk fails to be written. -/
def NoFailedWrite (_ : Session) : SessionLabel → Prop
  | .readInput written => written = true
  | _ => True

theorem pump_loggedOut {s t : Session} {l : SessionLabel} (hphase : s.phase = .pumping true)
    (hwrite : NoFailedWrite s l) (h : s.step l = some t) : LoggedOut t := by
  let p : Pump := { Pump.start s.size with exited := true }
  rcases step_pump (p := p) hphase h with hkeep | ⟨e, hpresents, hstep⟩
  · exact .inl (hkeep.trans hphase)
  · cases hends : e.ends with
    | false =>
        obtain ⟨p', hok, hexited⟩ := Pump.step_of_not_ends (p := p) hends
        rw [hok] at hstep
        exact .inl (hstep.trans (congrArg Phase.pumping (hexited.trans (Bool.true_or _))))
    | true =>
        rw [Pump.step_of_ends hends] at hstep
        have hwritten : e.failedWrite = false := by
          cases e with
          | input chunk written =>
              cases l with
              | readInput taken =>
                  obtain ⟨-, rfl⟩ := hpresents
                  obtain rfl : written = true := hwrite
                  cases chunk <;> rfl
              | _ => exact hpresents.elim
          | _ => rfl
        rcases (reason_of_exited hends).mpr hwritten with hreason | hreason
        · exact .inr (.inl (hstep.trans (congrArg Phase.closing hreason)))
        · exact .inr (.inr (.inl (hstep.trans (congrArg Phase.closing hreason))))

theorem emit_loggedOut {s t : Session} (hs : LoggedOut s) (h : s.emit = some t) :
    LoggedOut t := by
  rcases hs with hphase | hphase | hphase | hphase <;> simp only [emit, hphase] at h
  · cases h
  · obtain ⟨u, -, rfl⟩ := Option.map_eq_some_iff.mp h
    exact .inr (.inr (.inr rfl))
  · obtain ⟨u, -, rfl⟩ := Option.map_eq_some_iff.mp h
    exact .inr (.inr (.inr rfl))
  · cases h

theorem step_loggedOut {s t : Session} {l : SessionLabel} (hs : LoggedOut s)
    (hwrite : NoFailedWrite s l) (h : s.step l = some t) : LoggedOut t := by
  by_cases hpump : s.phase = .pumping true
  · exact pump_loggedOut hpump hwrite h
  · have hidle : s.phase.isPumping = false ∧ s.phase ≠ .waiting ∧ s.phase ≠ .establishing ∧
        s.phase ≠ .opening := by
      rcases hs with hphase | hphase | hphase | hphase
      · exact absurd hphase hpump
      all_goals simp [hphase, Phase.isPumping]
    obtain ⟨hpumping, hwaiting, hestablishing, hopening⟩ := hidle
    have hselect : s.selecting = false := by simp [selecting, hpumping]
    cases l with
    | emit => exact emit_loggedOut hs h
    | readInput written => simp [step, readInput, hselect] at h
    | readControl => simp [step, readControl, hselect, hwaiting] at h
    | channel msg =>
        simp only [step, readChannel] at h
        split at h
        case h_1 hphase => simp [hphase, Phase.isPumping] at hpumping
        case h_2 => cases h
    | _ =>
        have hkeep : t.phase = s.phase := by
          refine step_phase h ⟨hestablishing, hopening, hwaiting⟩ ?_ ?_ ?_ ?_ <;> simp
        simpa only [LoggedOut, hkeep] using hs

/-- Once the exit has been reported, a session whose chunks are all written
only ever closes, in every interleaving. -/
theorem exited_stays_down {s t : Session} {labels : List SessionLabel} (hs : LoggedOut s)
    (hwrite : Along step NoFailedWrite s labels) (hrun : run step s labels = some t) :
    LoggedOut t :=
  run_invariant (fun _ _ _ hs hp h => step_loggedOut hs hp h) hs hwrite hrun

end Session

end PolyTerm

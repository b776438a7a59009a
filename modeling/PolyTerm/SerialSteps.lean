import PolyTerm.Lifecycle
import PolyTerm.Serial

/-!
# What a step of the serial session does

Besides sending the event of its phase and writing a chunk, the loop only moves
on: it puts nothing on the line, says nothing, and how the phase may change
depends on the phase alone.
-/

namespace PolyTerm

/-! ## The phases -/

/-- The port is open and the loop is in the middle of a turn. -/
def SerialPhase.isWorking : SerialPhase → Bool
  | .control | .housekeeping | .reporting | .input | .reading | .relaying _ => true
  | _ => false

/-- Reached by sending an event or by a reconnect only. -/
def SerialPhase.isResting : SerialPhase → Bool
  | .opened | .waiting | .reopened => true
  | _ => false

/-- What a step does to the phase, and what it says of the link. -/
inductive SerialPhase.Turns : SerialPhase → SerialPhase → List Life → Prop where
  | stays (phase : SerialPhase) : Turns phase phase []
  | works {phase phase' : SerialPhase} (h : phase.isWorking = true)
      (h' : phase'.isResting = false) : Turns phase phase' []
  | reopens : Turns .waiting .reopened []
  | givesUp : Turns .waiting .ended []
  | opens : Turns .opened .control [.connected]
  | comesBack : Turns .reopened .control [.connected]
  | closes : Turns .closing .ended [.disconnected]
  | breaks : Turns .removed .waiting [.disconnected]

namespace Serial

variable {s t : Serial} {l : SerialLabel}

/-- The loop moves on. -/
structure Quiet (s t : Serial) : Prop where
  turns : s.phase.Turns t.phase []
  line : t.line = s.line
  events : t.pair.events = s.pair.events

theorem emit_cases (h : s.emit = some t) :
    ∃ e pair, s.phase.announces = some e ∧ s.pair.send e = some pair ∧
      t = ({ s with pair := pair } : Serial).announced := by
  obtain ⟨e, he, hsend⟩ := Option.bind_eq_some_iff.mp h
  obtain ⟨pair, hpair, rfl⟩ := Option.map_eq_some_iff.mp hsend
  exact ⟨e, pair, he, hpair, rfl⟩

theorem announced_same (s : Serial) :
    s.announced.line = s.line ∧ s.announced.pair.events = s.pair.events := by
  unfold announced
  split <;> exact ⟨rfl, rfl⟩

theorem readControl_quiet (h : s.readControl = some t) : Quiet s t := by
  obtain ⟨hphase, heq⟩ := Option.ite_none_right_eq_some.mp h
  have hworking : s.phase.isWorking = true := by rw [hphase]; rfl
  split at heq
  · rename_i msg control hrecv
    obtain rfl := Option.some.inj heq
    cases msg with
    | disconnect => exact ⟨.works hworking rfl, rfl, rfl⟩
    | _ => exact ⟨.stays _, rfl, rfl⟩
  · obtain rfl := Option.some.inj heq
    split <;> exact ⟨.works hworking rfl, rfl, rfl⟩

theorem housekeep_quiet {lines : Option ModemLines} (h : s.housekeep lines = some t) :
    Quiet s t := by
  obtain ⟨hphase, heq⟩ := Option.ite_none_right_eq_some.mp h
  have hworking : s.phase.isWorking = true := by rw [hphase]; rfl
  obtain rfl := Option.some.inj heq
  have hbreak : s.clearBreak.line = s.line ∧ s.clearBreak.pair = s.pair := by
    unfold clearBreak
    split <;> exact ⟨rfl, rfl⟩
  have hpoll : (s.clearBreak.pollModem lines).line = s.clearBreak.line ∧
      (s.clearBreak.pollModem lines).pair = s.clearBreak.pair ∧
      (s.clearBreak.pollModem lines).phase.isResting = false := by
    unfold pollModem
    split
    · dsimp only
      split <;> exact ⟨rfl, rfl, rfl⟩
    · exact ⟨rfl, rfl, rfl⟩
  exact ⟨.works hworking hpoll.2.2, hpoll.1.trans hbreak.1, by rw [hpoll.2.1, hbreak.2]⟩

/-- A chunk is taken and written as far as the port takes it, or there is none. -/
theorem readInput_cases {results : List WriteResult} (h : s.readInput results = some t) :
    s.phase = .input ∧
      ((∃ bytes input r, s.pair.input.recv = some (bytes, input) ∧
          writeAll bytes results = some r ∧
          t = { s with pair := { s.pair with input := input }, line := s.line ++ r.1 }) ∨
        (s.pair.input.recv = none ∧ Quiet s t)) := by
  obtain ⟨hphase, heq⟩ := Option.ite_none_right_eq_some.mp h
  have hworking : s.phase.isWorking = true := by rw [hphase]; rfl
  refine ⟨hphase, ?_⟩
  split at heq
  · rename_i bytes input hrecv
    obtain ⟨r, hr, rfl⟩ := Option.map_eq_some_iff.mp heq
    exact Or.inl ⟨bytes, input, r, hrecv, hr, rfl⟩
  · rename_i hrecv
    obtain rfl := Option.some.inj heq
    refine Or.inr ⟨hrecv, ?_⟩
    split <;> exact ⟨.works hworking rfl, rfl, rfl⟩

theorem readLine_quiet {result : ReadResult} (h : s.readLine result = some t) : Quiet s t := by
  obtain ⟨hphase, heq⟩ := Option.ite_none_right_eq_some.mp h
  have hworking : s.phase.isWorking = true := by rw [hphase]; rfl
  cases result with
  | data bytes =>
      dsimp only at heq
      split at heq
      · exact Option.some.inj heq ▸ ⟨.works hworking rfl, rfl, rfl⟩
      · obtain ⟨-, heq⟩ := Option.ite_none_right_eq_some.mp heq
        exact Option.some.inj heq ▸ ⟨.works hworking rfl, rfl, rfl⟩
  | timedOut | interrupted | failed =>
      exact Option.some.inj heq ▸ ⟨.works hworking rfl, rfl, rfl⟩

theorem relay_quiet (h : s.relay = some t) : Quiet s t := by
  unfold relay at h
  split at h
  · rename_i bytes hphase
    have hworking : s.phase.isWorking = true := by rw [hphase]; rfl
    obtain ⟨r, hr, rfl⟩ := Option.map_eq_some_iff.mp h
    have hevents := TransportPair.deliver_events hr
    dsimp only
    split <;> exact ⟨.works hworking rfl, rfl, hevents⟩
  · cases h

theorem awaitReconnect_quiet {reopened : Bool} (h : s.awaitReconnect reopened = some t) :
    Quiet s t := by
  obtain ⟨hphase, heq⟩ := Option.ite_none_right_eq_some.mp h
  split at heq
  · rename_i msg control hrecv
    obtain rfl := Option.some.inj heq
    cases msg with
    | reconnect =>
        cases reopened with
        | true => exact ⟨hphase ▸ .reopens, rfl, rfl⟩
        | false => exact ⟨.stays _, rfl, rfl⟩
    | disconnect => exact ⟨hphase ▸ .givesUp, rfl, rfl⟩
    | _ => exact ⟨.stays _, rfl, rfl⟩
  · obtain ⟨-, heq⟩ := Option.ite_none_right_eq_some.mp heq
    exact Option.some.inj heq ▸ ⟨hphase ▸ .givesUp, rfl, rfl⟩

end Serial

end PolyTerm

import PolyTerm.SerialSteps
import PolyTerm.SshContract

/-!
# The serial session and the contract

The loop never says that it is connecting, so a port that was unplugged and
reopened comes back unannounced. And like the SSH session while it backs off,
it takes a `disconnect` without a word while it waits for the port. Nothing
else can go wrong.
-/

namespace PolyTerm

open Runs

namespace SerialPhase

/-- What has been said of the link before the phase. -/
def After (xs : List Life) : SerialPhase → Prop
  | .opened => xs = []
  | .waiting | .reopened => .disconnected ∈ xs
  | _ => True

variable {phase phase' : SerialPhase} {xs ys : List Life}

theorem after_of_not_resting (h : phase.isResting = false) : phase.After xs := by
  cases phase with
  | opened | waiting | reopened => cases h
  | _ => trivial

theorem Turns.after (h : Turns phase phase' ys) (hxs : phase.After xs) :
    phase'.After (xs ++ ys) := by
  cases h with
  | stays | reopens => rwa [List.append_nil]
  | works _ h' => exact after_of_not_resting h'
  | givesUp | opens | comesBack | closes => trivial
  | breaks => exact List.mem_append_right xs List.mem_cons_self

/-- The loop never says that it is connecting. -/
theorem Turns.no_connecting (h : Turns phase phase' ys) : .connecting ∉ ys := by
  cases h with
  | stays | works | reopens | givesUp => exact List.not_mem_nil
  | opens | comesBack | closes | breaks => decide

/-- Only a reopened port comes back unannounced. -/
theorem Turns.heralded (h : Turns phase phase' ys) (hxs : phase.After xs)
    (hnone : .connecting ∉ xs) :
    Heralded .disconnected .connecting .connected (xs ++ ys) ↔
      Heralded .disconnected .connecting .connected xs ∧ ¬(phase = .reopened ∧ ys ≠ []) := by
  cases h with
  | stays | works | reopens | givesUp => simp
  | closes | breaks => simp [heralded_concat]
  | opens =>
      obtain rfl : xs = [] := hxs
      have hsingle : Heralded .disconnected .connecting .connected [Life.connected] :=
        heralded_of_not_mem (by decide)
      have hnil : Heralded .disconnected .connecting .connected ([] : List Life) :=
        heralded_of_not_mem List.not_mem_nil
      simp [hsingle, hnil]
  | comesBack =>
      have hbad : ¬Heralded .disconnected .connecting .connected (xs ++ [Life.connected]) :=
        not_heralded_concat hxs hnone
      simp [hbad]

end SerialPhase

namespace Serial

/-- The lifecycle event a step sends. -/
def lives (s : Serial) (l : SerialLabel) : List Life := (s.sends l).filterMap TransportEvent.life

/-- The step takes a `disconnect` off the control channel. -/
def TakesDisconnect (s : Serial) : SerialLabel → Prop
  | .readControl | .awaitReconnect _ => s.pair.control.queue.head? = some .disconnect
  | _ => False

/-- The step reports a reopened port as connected. -/
def ComesBack (s : Serial) (l : SerialLabel) : Prop := l = .emit ∧ s.phase = .reopened

instance (s : Serial) : ∀ l, Decidable (s.TakesDisconnect l)
  | .readControl | .awaitReconnect _ => inferInstanceAs (Decidable (_ = _))
  | .ui _ | .tick _ | .emit | .housekeep _ | .readInput _ | .readLine _ | .relay => .isFalse id

instance (s : Serial) (l : SerialLabel) : Decidable (s.ComesBack l) :=
  inferInstanceAs (Decidable (_ ∧ _))

/-- What can be relied on to happen: the turns of the session, and the UI taking its events. -/
def Assured (_ : Serial) : SerialLabel → Prop
  | .ui move => move = .takeEvent
  | _ => True

def service : Service Serial SerialLabel Life where
  step := step
  out := lives
  asks := TakesDisconnect
  answer := .disconnected
  ended := fun s => s.phase = .ended
  owed := Assured

variable {s t : Serial} {l : SerialLabel}

theorem emit_turns (h : s.emit = some t) :
    s.phase.Turns t.phase (s.lives .emit) ∧ (s.pair.Standard → t.pair.Standard) := by
  obtain ⟨e, pair, he, hpair, rfl⟩ := emit_cases h
  have hlives : s.lives .emit = e.life.toList := by
    simp only [lives, sends, he, Option.toList_some, List.filterMap_cons, List.filterMap_nil]
    cases e.life <;> rfl
  have hevents := (announced_same { s with pair := pair }).2
  refine ⟨?_, fun hs => (congrArg Fifo.capacity hevents).trans (hs.send hpair)⟩
  rw [hlives]
  obtain ⟨pair', phase, now, breakUntil, modemDeadline, lastModem, line⟩ := s
  cases phase with
  | opened => exact Option.some.inj he ▸ .opens
  | reopened => exact Option.some.inj he ▸ .comesBack
  | reporting => exact Option.some.inj he ▸ .works rfl rfl
  | closing => exact Option.some.inj he ▸ .closes
  | removed => exact Option.some.inj he ▸ .breaks
  | _ => cases he

theorem step_turns (h : s.step l = some t) :
    s.phase.Turns t.phase (s.lives l) ∧ (s.pair.Standard → t.pair.Standard) := by
  have hquiet : Quiet s t → s.phase.Turns t.phase [] ∧ (s.pair.Standard → t.pair.Standard) :=
    fun h => ⟨h.turns, fun hs => (congrArg Fifo.capacity h.events).trans hs⟩
  cases l with
  | emit => exact emit_turns h
  | ui move =>
      obtain ⟨pair, hpair, rfl⟩ := Option.map_eq_some_iff.mp h
      exact ⟨.stays _, fun hs => hs.ui hpair⟩
  | tick elapsed => exact Option.some.inj h ▸ ⟨.stays _, id⟩
  | readInput results =>
      obtain ⟨-, ⟨bytes, input, r, -, -, rfl⟩ | ⟨-, hmoves⟩⟩ := readInput_cases h
      · exact ⟨.stays _, id⟩
      · exact hquiet hmoves
  | readControl => exact hquiet (readControl_quiet h)
  | housekeep lines => exact hquiet (housekeep_quiet h)
  | readLine result => exact hquiet (readLine_quiet h)
  | relay => exact hquiet (relay_quiet h)
  | awaitReconnect reopened => exact hquiet (awaitReconnect_quiet h)

/-! ## Announced first -/

theorem comesBack_iff : s.ComesBack l ↔ s.phase = .reopened ∧ s.lives l ≠ [] := by
  constructor
  · rintro ⟨rfl, hphase⟩
    refine ⟨hphase, ?_⟩
    simp [lives, sends, hphase, SerialPhase.announces, TransportEvent.life]
  · rintro ⟨hphase, hlives⟩
    cases l with
    | emit => exact ⟨rfl, hphase⟩
    | _ => exact absurd rfl hlives

theorem run_heralded {labels : List SerialLabel} (hrun : run step start labels = some t) :
    t.phase.After (outputs step lives start labels) ∧
      .connecting ∉ outputs step lives start labels ∧
      (Heralded .disconnected .connecting .connected (outputs step lives start labels) ↔
        Along step (fun s l => ¬s.ComesBack l) start labels) := by
  induction labels using List.reverseRecOn generalizing t with
  | nil =>
      obtain rfl := Option.some.inj hrun
      refine ⟨rfl, List.not_mem_nil, fun _ => trivial, fun _ => ?_⟩
      exact heralded_of_not_mem List.not_mem_nil
  | append_singleton labels l ih =>
      obtain ⟨r, hr, hstep⟩ := run_concat.mp hrun
      obtain ⟨hafter, hnone, hheralded⟩ := ih hr
      have hturns := (step_turns hstep).1
      rw [outputs_concat hr hstep, along_concat, hturns.heralded hafter hnone, hheralded,
        ← comesBack_iff]
      refine ⟨hturns.after hafter, ?_, and_congr_right fun _ => ?_⟩
      · exact fun h => (List.mem_append.mp h).elim hnone hturns.no_connecting
      · refine ⟨fun h u hu => ?_, fun h => h r hr⟩
        obtain rfl := Option.some.inj (hr.symm.trans hu)
        exact h

/-! ## The answer -/

/-- The `disconnected` of a `disconnect` is to be sent. -/
def Due (s : Serial) : Prop := s.phase = .closing ∧ s.pair.Standard

theorem due_step (hs : s.Due) (h : s.step l = some t) :
    (s.lives l = [] ∧ t.Due) ∨ (s.lives l = [.disconnected] ∧ t.phase = .ended) := by
  obtain ⟨hphase, hstandard⟩ := hs
  obtain ⟨hturns, hkeep⟩ := step_turns h
  have hstandard' := hkeep hstandard
  unfold Due
  rw [hphase] at hturns
  generalize t.phase = phase, s.lives l = ys at hturns ⊢
  cases hturns with
  | stays => exact Or.inl ⟨rfl, rfl, hstandard'⟩
  | works hworking => cases hworking
  | closes => exact Or.inr ⟨rfl, rfl⟩

theorem ended_step (hs : s.phase = .ended) (h : s.step l = some t) :
    s.lives l = [] ∧ t.phase = .ended := by
  have hturns := (step_turns h).1
  rw [hs] at hturns
  generalize t.phase = phase, s.lives l = ys at hturns ⊢
  cases hturns with
  | stays => exact ⟨rfl, rfl⟩
  | works hworking => cases hworking

/-- With room for it, the `disconnected` goes out. -/
theorem emit_ends {pair : TransportPair} (hphase : s.phase = .closing)
    (hsend : s.pair.send (.disconnected .local) = some pair) : service.CanEnd s := by
  have hemit : s.step .emit = some ({ s with pair := pair } : Serial).announced := by
    rw [step, emit, hphase]
    simp only [SerialPhase.announces, Option.bind_some, hsend, Option.map_some]
  have hended : service.ended ({ s with pair := pair } : Serial).announced := by
    simp [service, announced, hphase, finish]
  exact .of_step (b := service) (a := .emit) trivial hemit (.of_ended hended)

theorem due_ends (hs : s.Due) : service.CanEnd s := by
  obtain ⟨hphase, hstandard⟩ := hs
  cases hsend : s.pair.send (.disconnected .local) with
  | some pair => exact emit_ends hphase hsend
  | none =>
      obtain ⟨q, pair, hq, hpair⟩ := TransportPair.send_waits hstandard hsend
      have htaken : s.step (.ui .takeEvent) = some { s with pair := q } := by
        rw [step, hq]
        rfl
      exact .of_step (b := service) (a := .ui .takeEvent) rfl htaken
        (emit_ends (s := { s with pair := q }) hphase hpair)

theorem service_ends : service.Ends Due where
  due_step _ _ _ := due_step
  ended_step _ _ _ := ended_step
  due_open s hs hended := by
    have hphase : s.phase = .ended := hended
    rw [hs.1] at hphase
    cases hphase
  due_ends _ := due_ends

/-- A `disconnect` taken by the loop is answered, one taken while waiting for
the port ends the session. -/
theorem takesDisconnect_step (hasks : s.TakesDisconnect l) (h : s.step l = some t) :
    (s.phase ≠ .waiting → t.phase = .closing) ∧ (s.phase = .waiting → t.phase = .ended) := by
  cases l with
  | readControl =>
      obtain ⟨control, hrecv⟩ := Fifo.recv_of_head hasks
      obtain ⟨hphase, heq⟩ := Option.ite_none_right_eq_some.mp h
      rw [hrecv] at heq
      refine ⟨fun _ => Option.some.inj heq ▸ rfl, fun hwait => ?_⟩
      rw [hphase] at hwait
      cases hwait
  | awaitReconnect reopened =>
      obtain ⟨control, hrecv⟩ := Fifo.recv_of_head hasks
      obtain ⟨hphase, heq⟩ := Option.ite_none_right_eq_some.mp h
      rw [hrecv] at heq
      exact ⟨fun hnot => absurd hphase hnot, fun _ => Option.some.inj heq ▸ rfl⟩
  | _ => cases hasks

/-- The step neither reports a reopened port nor takes a `disconnect` while
waiting for it. -/
def Regular (s : Serial) (l : SerialLabel) : Prop :=
  ¬s.ComesBack l ∧ ¬(s.TakesDisconnect l ∧ s.phase = .waiting)

instance (s : Serial) (l : SerialLabel) : Decidable (s.Regular l) :=
  inferInstanceAs (Decidable (_ ∧ _))

theorem contract_iff {labels : List SerialLabel} (hrun : run step start labels = some t) :
    Contract service start labels ↔ Along step Regular start labels := by
  have hstart : start.pair.Standard := TransportPair.standard_newPair
  have hanswered : service.Answered start labels ↔ _ :=
    service_ends.answered_iff (fun s => s.pair.Standard) (fun s => s.phase = .waiting)
      (fun s l t hs h => (step_turns h).2 hs)
      (fun s l t hs h hasks hopen => ⟨(takesDisconnect_step hasks h).1 hopen, (step_turns h).2 hs⟩)
      (fun s l t h hasks hwaits => (takesDisconnect_step hasks h).2 hwaits)
      hstart hrun
  have hheralded := (run_heralded hrun).2.2
  have hregular : Along step Regular start labels ↔
      Along step (fun s l => ¬s.ComesBack l) start labels ∧
        Along step (fun s l => ¬(s.TakesDisconnect l ∧ s.phase = .waiting)) start labels :=
    along_and
  rw [hregular]
  exact ⟨fun h => ⟨hheralded.mp h.heralded, hanswered.mp h.answered⟩,
    fun h => ⟨hheralded.mpr h.1, hanswered.mpr h.2⟩⟩

end Serial

end PolyTerm

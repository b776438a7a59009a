import PolyTerm.EventProtocol
import PolyTerm.Runs
import PolyTerm.SessionSteps

/-!
# The lifecycle of a session

The session as a step function and the setup as a function of its outcomes are
two models of the same `run`. Both send their lifecycle events in the same
order: `Follows` says what may come next, and the phase of the step function
says what came last (`Phase.After`).
-/

namespace PolyTerm

open Runs

/-! ## The order -/

/-- A lifecycle event, without what it carries. -/
inductive Life where
  | connecting
  | authenticated
  | connected
  | disconnected
deriving DecidableEq, Repr

def TransportEvent.life : TransportEvent → Option Life
  | .connecting => some .connecting
  | .authenticated => some .authenticated
  | .connected => some .connected
  | .disconnected _ => some .disconnected
  | _ => none

namespace Life

/-- `x` may come after `last`. -/
def Follows (last : Option Life) : Life → Prop
  | .connecting => last = none ∨ last = some .disconnected
  | .authenticated => last = some .connecting
  | .connected => last = some .authenticated
  | .disconnected => last ≠ none ∧ last ≠ some .disconnected

/-- Each of the events may come after the one before, the first after `last`. -/
def Ordered (last : Option Life) : List Life → Prop
  | [] => True
  | x :: xs => Follows last x ∧ Ordered (some x) xs

/-- The last event of all. -/
def latest (last : Option Life) (xs : List Life) : Option Life := xs.getLast?.or last

theorem latest_cons (last : Option Life) (x : Life) (xs : List Life) :
    latest last (x :: xs) = latest (some x) xs := by
  cases xs with
  | nil => rfl
  | cons y ys => simp [latest, List.getLast?_cons]

theorem ordered_append {xs ys : List Life} : ∀ {last : Option Life},
    Ordered last (xs ++ ys) ↔ Ordered last xs ∧ Ordered (latest last xs) ys := by
  induction xs with
  | nil => simp [Ordered, latest]
  | cons x xs ih =>
      intro last
      rw [List.cons_append, Ordered, Ordered, ih, latest_cons, and_assoc]

theorem latest_append (last : Option Life) (xs ys : List Life) :
    latest last (xs ++ ys) = latest (latest last xs) ys := by
  simp [latest, List.getLast?_append, Option.or_assoc]

/-- `After` says of a state what came last: where each step sends the next
events in order, every run does. -/
theorem ordered_run {σ α : Type*} {step : σ → α → Option σ} {lives : σ → α → List Life}
    (After : Option Life → σ → Prop) {last : Option Life}
    (hstep : ∀ s a t last, After last s → step s a = some t →
      Ordered last (lives s a) ∧ After (latest last (lives s a)) t)
    {s t : σ} {as : List α} (hs : After last s) (hrun : run step s as = some t) :
    Ordered last (outputs step lives s as) ∧ After (latest last (outputs step lives s as)) t := by
  induction as using List.reverseRecOn generalizing t with
  | nil =>
      obtain rfl := Option.some.inj hrun
      exact ⟨trivial, hs⟩
  | append_singleton as a ih =>
      obtain ⟨r, hr, hlast⟩ := run_concat.mp hrun
      obtain ⟨hordered, hafter⟩ := ih hr
      obtain ⟨hnext, hafter'⟩ := hstep r a t _ hafter hlast
      rw [outputs_concat hr hlast, ordered_append, latest_append]
      exact ⟨⟨hordered, hnext⟩, hafter'⟩

end Life

/-! ## The step function -/

/-- What the phase waits to send. -/
def Phase.announces : Phase → Option TransportEvent
  | .connecting => some .connecting
  | .failing message => some (.disconnected (.failed message))
  | .authenticated => some .authenticated
  | .opened => some .connected
  | .closing reason => some (.disconnected reason)
  | _ => none

/-- The lifecycle event sent last, as far as the phase tells. -/
def Phase.After (last : Option Life) : Phase → Prop
  | .connecting => last = none ∨ last = some .disconnected
  | .establishing | .failing _ | .authenticated => last = some .connecting
  | .opening | .opened => last = some .authenticated
  | .pumping _ => last = some .connected
  | .closing _ => last = some .authenticated ∨ last = some .connected
  | .waiting | .ended => last = some .disconnected

/-- What a step other than `emit` does to the phase. -/
inductive Phase.Moves : Phase → Phase → Prop where
  | stays (phase : Phase) : Moves phase phase
  | pumps (exited exited' : Bool) : Moves (.pumping exited) (.pumping exited')
  | breaks (exited : Bool) (reason : DisconnectReason) : Moves (.pumping exited) (.closing reason)
  | retries : Moves .waiting .connecting
  | ends : Moves .waiting .ended
  | setUp : Moves .establishing .authenticated
  | fails (message : String) : Moves .establishing (.failing message)
  | opens : Moves .opening .opened
  | refused (reason : DisconnectReason) : Moves .opening (.closing reason)

theorem Phase.Moves.after {phase phase' : Phase} {last : Option Life} (h : Moves phase phase')
    (hlast : phase.After last) : phase'.After last := by
  cases h with
  | stays => exact hlast
  | pumps => exact hlast
  | breaks => exact Or.inr hlast
  | retries => exact Or.inr hlast
  | ends => exact hlast
  | setUp => exact hlast
  | fails => exact hlast
  | opens => exact hlast
  | refused => exact Or.inl hlast

namespace Session

variable {s t : Session} {l : SessionLabel} {last : Option Life}

def lives (s : Session) : SessionLabel → List Life
  | .emit => (s.phase.announces.bind TransportEvent.life).toList
  | _ => []

/-- What a phase announces is what `emit` sends. -/
theorem emit_sends (h : s.emit = some t) :
    ∃ e u, s.phase.announces = some e ∧ s.send e = some u ∧ t.events = u.events := by
  cases emit_emits h with
  | connecting u hphase hsend | authenticated u hphase hsend | opened u hphase hsend =>
      exact ⟨_, _, by rw [hphase]; rfl, hsend, rfl⟩
  | failing message u hphase hsend | closing reason u hphase hsend =>
      refine ⟨_, _, by rw [hphase]; rfl, hsend, ?_⟩
      split <;> rfl

theorem endPump_moves {reason : DisconnectReason} (h : s.phase.isPumping = true) :
    Phase.Moves s.phase (s.endPump reason).phase := by
  cases hphase : s.phase with
  | pumping exited => exact .breaks exited reason
  | _ =>
      rw [hphase] at h
      cases h

theorem onPane_moves {f : LivePane → LivePane} (h : s.onPane f = some t) :
    Phase.Moves s.phase t.phase := by
  obtain ⟨-, rfl⟩ := onPane_open h
  exact .stays _

theorem readInput_moves {written : Bool} (h : s.readInput written = some t) :
    Phase.Moves s.phase t.phase := by
  have hpump := selecting_pumping (readInput_selecting h)
  cases readInput_reads h with
  | wrote => exact .stays _
  | failed | closed => exact endPump_moves hpump

theorem readControl_moves (h : s.readControl = some t) : Phase.Moves s.phase t.phase := by
  cases readControl_reads h with
  | pumped msg control hsel =>
      have hpump := selecting_pumping hsel
      cases msg with
      | disconnect => exact endPump_moves hpump
      | _ => exact .stays _
  | closed hsel => exact endPump_moves (selecting_pumping hsel)
  | backedOff msg control hsel hphase =>
      cases msg with
      | reconnect => exact hphase ▸ .retries
      | disconnect => exact hphase ▸ .ends
      | _ => exact .stays _
  | gaveUp hsel hphase => exact hphase ▸ .ends

theorem readChannel_moves {msg : ChannelMsg} (h : s.readChannel msg = some t) :
    Phase.Moves s.phase t.phase := by
  cases readChannel_reads h with
  | goesOn => exact .stays _
  | exited hphase => exact hphase ▸ .pumps _ true
  | ends hphase => exact endPump_moves (by rw [hphase]; rfl)

theorem step_moves (hl : l ≠ .emit) (h : s.step l = some t) : Phase.Moves s.phase t.phase := by
  have hsame : t.phase = s.phase → Phase.Moves s.phase t.phase := fun heq => heq ▸ .stays _
  cases l with
  | emit => exact absurd rfl hl
  | sendInput | sendBestEffort | pumpPane | resize =>
      simp only [step] at h
      exact onPane_moves h
  | addForward id spec =>
      simp only [step] at h
      split at h
      · cases h
      · have hmoves : Phase.Moves ({ s with minted := id :: s.minted } : Session).phase t.phase :=
          onPane_moves h
        exact hmoves
  | removeForward id =>
      simp only [step] at h
      split at h
      · exact onPane_moves h
      · cases h
  | readInput written => exact readInput_moves h
  | readControl => exact readControl_moves h
  | channel msg => exact readChannel_moves h
  | forward op => exact hsame (forwardStep_phase h).1
  | earlierReply id refused => exact hsame (earlierReply_phase h).1
  | earlierReport id => exact hsame (earlierReport_phase h).1
  | relay =>
      simp only [step] at h
      split at h
      · exact hsame (Option.some.inj h ▸ rfl)
      · cases h
  | prompt | agentError =>
      simp only [step] at h
      split at h
      · exact hsame (send_phase h).1
      · cases h
  | closePane | relayEnds =>
      simp only [step] at h
      split at h <;> first | cases h; done | exact hsame (Option.some.inj h ▸ rfl)
  | established =>
      obtain ⟨hphase, heq⟩ := Option.ite_none_right_eq_some.mp h
      exact Option.some.inj heq ▸ hphase ▸ .setUp
  | establishFailed message =>
      obtain ⟨hphase, heq⟩ := Option.ite_none_right_eq_some.mp h
      exact Option.some.inj heq ▸ hphase ▸ .fails message
  | shellOpened =>
      obtain ⟨hphase, heq⟩ := Option.ite_none_right_eq_some.mp h
      exact Option.some.inj heq ▸ hphase ▸ .opens
  | shellFailed message =>
      obtain ⟨hphase, heq⟩ := Option.ite_none_right_eq_some.mp h
      exact Option.some.inj heq ▸ hphase ▸ .refused _
  | backoffElapsed =>
      obtain ⟨hphase, heq⟩ := Option.ite_none_right_eq_some.mp h
      exact Option.some.inj heq ▸ hphase ▸ .retries

/-- Sending what the phase announces is in order. -/
theorem emit_lives (hlast : s.phase.After last) (h : s.emit = some t) :
    Life.Ordered last (s.lives .emit) ∧ t.phase.After (Life.latest last (s.lives .emit)) := by
  cases emit_emits h with
  | connecting u hphase | authenticated u hphase | opened u hphase =>
      rw [hphase] at hlast
      simp only [lives, hphase]
      exact ⟨⟨hlast, trivial⟩, rfl⟩
  | failing message u hphase =>
      rw [hphase] at hlast
      obtain rfl : last = some .connecting := hlast
      simp only [lives, hphase]
      refine ⟨⟨⟨nofun, nofun⟩, trivial⟩, ?_⟩
      split <;> rfl
  | closing reason u hphase =>
      rw [hphase] at hlast
      simp only [lives, hphase]
      refine ⟨⟨?_, trivial⟩, ?_⟩
      · rcases hlast with rfl | rfl <;> exact ⟨nofun, nofun⟩
      · split <;> rfl

theorem step_lives (hlast : s.phase.After last) (h : s.step l = some t) :
    Life.Ordered last (s.lives l) ∧ t.phase.After (Life.latest last (s.lives l)) := by
  by_cases hl : l = .emit
  · subst hl
    exact emit_lives hlast h
  · have hnone : s.lives l = [] := by
      unfold lives
      split
      · exact absurd rfl hl
      · rfl
    rw [hnone]
    exact ⟨trivial, (step_moves hl h).after hlast⟩

/-- The lifecycle events of every run are in order. -/
theorem run_lives {onExit : ExitAction} {labels : List SessionLabel}
    (hrun : run step (start onExit) labels = some s) :
    Life.Ordered none (outputs step lives (start onExit) labels) ∧
      s.phase.After (Life.latest none (outputs step lives (start onExit) labels)) :=
  Life.ordered_run (fun last s => s.phase.After last) (fun _ _ _ _ => step_lives) (Or.inl rfl) hrun

end Session

/-! ## The setup -/

namespace Ssh

def Mark.life : Mark → Option Life
  | .event e => e.life
  | _ => none

theorem AsksFor.life {hop : Hop} {m : Mark} (h : AsksFor hop m) : Mark.life m = none := by
  rcases h with ⟨p, rfl, -⟩ | ⟨message, rfl⟩ <;> rfl

theorem HopPassed.life {k : Nat} {hop : Hop} {ms : List Mark} (h : HopPassed k hop ms) :
    ms.filterMap Mark.life = [] := by
  obtain ⟨prompt, asks⟩ := h
  refine List.filterMap_eq_nil_iff.mpr fun m hm => ?_
  simp only [List.cons_append, List.mem_cons, List.mem_append, List.not_mem_nil, or_false] at hm
  rcases hm with rfl | rfl | rfl | hm | rfl
  case inr.inr.inr.inl => exact (asks m hm).life
  all_goals rfl

theorem HopsPassed.life {k : Nat} {hops : List Hop} {ms : List Mark} (h : HopsPassed k hops ms) :
    ms.filterMap Mark.life = [] := by
  induction h with
  | nil => rfl
  | cons hhop _ ih => rw [List.filterMap_append, hhop.life, ih, List.nil_append]

theorem HopFailed.life {k : Nat} {hop : Hop} {ms : List Mark} (h : HopFailed k hop ms) :
    ms.filterMap Mark.life = [] := by
  cases h with
  | unreached => rfl
  | rejected => rfl
  | refused prompt asks =>
      refine List.filterMap_eq_nil_iff.mpr fun m hm => ?_
      simp only [List.mem_cons] at hm
      rcases hm with rfl | rfl | rfl | hm
      case inr.inr.inr => exact (asks m hm).life
      all_goals rfl

/-- An attempt is in order after nothing or a `disconnected`, and ends with
one. -/
theorem AttemptTrace.life {hops : List Hop} {ms : List Mark} {last : Option Life}
    (h : AttemptTrace hops ms) (hlast : last = none ∨ last = some .disconnected) :
    Life.Ordered last (ms.filterMap Mark.life) ∧
      Life.latest last (ms.filterMap Mark.life) = some .disconnected := by
  cases h with
  | failed _ passed failed =>
      simp [Mark.life, TransportEvent.life, fail, passed.life, failed.life, Life.Ordered,
        Life.Follows, Life.latest, hlast]
  | noShell passed =>
      simp [Mark.life, TransportEvent.life, fail, passed.life, Life.Ordered, Life.Follows,
        Life.latest, hlast]
  | connected passed =>
      simp [Mark.life, TransportEvent.life, passed.life, Life.Ordered, Life.Follows,
        Life.latest, hlast]

theorem Attempts.life {hops : List Hop} {pumping : Bool} {ms : List Mark}
    (h : Attempts hops pumping ms) {last : Option Life}
    (hlast : last = none ∨ last = some .disconnected) :
    Life.Ordered last (ms.filterMap Mark.life) := by
  induction h generalizing last with
  | nil => trivial
  | pumping passed =>
      simp [Mark.life, TransportEvent.life, passed.life, Life.Ordered, Life.Follows, hlast]
  | cons htrace _ ih =>
      obtain ⟨hordered, hlatest⟩ := htrace.life hlast
      rw [List.filterMap_append, Life.ordered_append, hlatest]
      exact ⟨hordered, ih (Or.inr rfl)⟩

/-- So are those of the setup. -/
theorem run_life (cfg : SshConfig) (attempts : List AttemptOutcome) :
    Life.Ordered none ((run cfg.hops .start attempts).1.filterMap Mark.life) :=
  (run_attempts (hops_ne_nil cfg) .start attempts).life (Or.inl rfl)

end Ssh

end PolyTerm

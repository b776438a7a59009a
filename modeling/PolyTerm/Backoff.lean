import Mathlib.Algebra.Group.Nat.Defs
import PolyTerm.SessionSteps

/-!
# How long a session waits before it reconnects

The delay doubles with every wait, up to a cap, and starts again once a
connection is established. So it is told by the attempts alone: the delay of a
session that is waiting is that of the attempts that have failed since one last
got through the authentication (`backoff_exact`), whatever cut the waits short.
What happens after the authentication does not count: a server that refuses the
shell every time is tried again after the shortest delay every time.
-/

namespace PolyTerm

open Runs

/-- The delay after that many failed attempts. -/
def delay (failures : Nat) : Nat := min (2 ^ failures) maxBackoff

theorem delay_succ (n : Nat) : min (delay n * 2) maxBackoff = delay (n + 1) := by
  unfold delay
  rw [Nat.pow_succ]
  omega

/-- The attempts that failed since one last got through. -/
def countFailure (failures : Nat) : SessionLabel → Nat
  | .established => 0
  | .establishFailed _ => failures + 1
  | _ => failures

def failures (labels : List SessionLabel) : Nat := labels.foldl countFailure 0

namespace Session

variable {s t : Session} {l : SessionLabel} {n : Nat}

/-- In each phase the delay is that of the failures, or the next one already. -/
def Paced (n : Nat) (s : Session) : Prop :=
  match s.phase with
  | .connecting | .establishing => s.connectedBefore = true → s.backoff = delay (n + 1)
  | .failing _ => s.connectedBefore = true → s.backoff = delay n
  | .waiting => s.connectedBefore = true ∧ s.backoff = delay n
  | .ended => True
  | _ => s.connectedBefore = true ∧ s.backoff = delay 0 ∧ n = 0

/-- The steps that have nothing to do with connecting. -/
structure Still (s t : Session) : Prop where
  phase : t.phase = s.phase
  connectedBefore : t.connectedBefore = s.connectedBefore
  backoff : t.backoff = s.backoff

theorem Still.paced (h : Still s t) (hs : Paced n s) : Paced n t := by
  unfold Paced at hs ⊢
  rw [h.phase, h.connectedBefore, h.backoff]
  exact hs

theorem send_still {e : TransportEvent} (h : s.send e = some t) : Still s t := by
  obtain ⟨events, rfl⟩ := send_eq h
  exact ⟨rfl, rfl, rfl⟩

theorem onPane_still {f : LivePane → LivePane} (h : s.onPane f = some t) : Still s t := by
  obtain ⟨-, rfl⟩ := onPane_open h
  exact ⟨rfl, rfl, rfl⟩

theorem forwardStep_still {op : ForwardOp} (h : s.forwardStep op = some t) : Still s t := by
  obtain ⟨-, -, c, -, ⟨status, u, -, hsend, rfl⟩ | ⟨-, rfl⟩⟩ := forwardStep_cases h
  · have hsame := send_still hsend
    exact ⟨hsame.phase, hsame.connectedBefore, hsame.backoff⟩
  · exact ⟨rfl, rfl, rfl⟩

/-- The session is connected, and the delay starts again. -/
structure Fresh (n : Nat) (s : Session) : Prop where
  connectedBefore : s.connectedBefore = true
  backoff : s.backoff = delay 0
  failures : n = 0

theorem Fresh.endPump (h : Fresh n s) (reason : DisconnectReason) :
    Paced n (s.endPump reason) := ⟨h.connectedBefore, h.backoff, h.failures⟩

theorem Fresh.tookInput (h : Fresh n s) (input : Fifo Bytes) : Fresh n (s.tookInput input) :=
  ⟨h.connectedBefore, h.backoff, h.failures⟩

theorem fresh_of_pumping (hs : Paced n s) (h : s.phase.isPumping = true) : Fresh n s := by
  unfold Paced at hs
  cases hp : s.phase with
  | pumping exited =>
      rw [hp] at hs
      exact ⟨hs.1, hs.2.1, hs.2.2⟩
  | _ =>
      rw [hp] at h
      cases h

theorem Paced.retry (hs : Paced n s) (h : s.phase = .waiting) : Paced n s.retry := by
  unfold Paced at hs
  rw [h] at hs
  intro _
  have hdelay : s.backoff = delay n := hs.2
  change min (s.backoff * 2) maxBackoff = delay (n + 1)
  rw [hdelay, delay_succ]

theorem Paced.emit (hs : Paced n s) (h : s.emit = some t) : Paced n t := by
  unfold Paced at hs
  cases emit_emits h with
  | connecting u hphase hsend =>
      have hsame := send_still hsend
      rw [hphase] at hs
      intro hbefore
      exact hsame.backoff.trans (hs (hsame.connectedBefore.symm.trans hbefore))
  | failing message u hphase hsend =>
      have hsame := send_still hsend
      rw [hphase] at hs
      split
      · rename_i hbefore
        exact ⟨hbefore, hsame.backoff.trans (hs (hsame.connectedBefore.symm.trans hbefore))⟩
      · trivial
  | authenticated u hphase hsend | opened u hphase hsend =>
      have hsame := send_still hsend
      rw [hphase] at hs
      exact ⟨hsame.connectedBefore.trans hs.1, hsame.backoff.trans hs.2.1, hs.2.2⟩
  | closing reason u hphase hsend =>
      have hsame := send_still hsend
      rw [hphase] at hs
      obtain ⟨hbefore, hdelay, rfl⟩ := hs
      split
      · exact ⟨hsame.connectedBefore.trans hbefore, hsame.backoff.trans hdelay⟩
      · trivial

theorem Paced.readInput {written : Bool} (hs : Paced n s) (h : s.readInput written = some t) :
    Paced n t := by
  have hfresh := fresh_of_pumping hs (selecting_pumping (readInput_selecting h))
  cases readInput_reads h with
  | wrote bytes input => exact Still.paced ⟨rfl, rfl, rfl⟩ hs
  | failed bytes input => exact (hfresh.tookInput input).endPump _
  | closed => exact hfresh.endPump _

theorem Paced.readControl (hs : Paced n s) (h : s.readControl = some t) : Paced n t := by
  cases readControl_reads h with
  | pumped msg control hsel =>
      have hfresh := fresh_of_pumping hs (selecting_pumping hsel)
      cases msg with
      | disconnect => exact ⟨hfresh.connectedBefore, hfresh.backoff, hfresh.failures⟩
      | _ => exact Still.paced ⟨rfl, rfl, rfl⟩ hs
  | closed hsel => exact (fresh_of_pumping hs (selecting_pumping hsel)).endPump _
  | backedOff msg control hsel hphase =>
      have hread : Paced n (s.readOff control) := Still.paced ⟨rfl, rfl, rfl⟩ hs
      cases msg with
      | reconnect => exact hread.retry hphase
      | disconnect => trivial
      | _ => exact hread
  | gaveUp => trivial

theorem Paced.readChannel {msg : ChannelMsg} (hs : Paced n s) (h : s.readChannel msg = some t) :
    Paced n t := by
  cases readChannel_reads h with
  | goesOn => exact hs
  | exited hphase =>
      have hfresh := fresh_of_pumping hs (by rw [hphase]; rfl)
      exact ⟨hfresh.connectedBefore, hfresh.backoff, hfresh.failures⟩
  | ends hphase => exact (fresh_of_pumping hs (by rw [hphase]; rfl)).endPump _

theorem step_paced (hs : Paced n s) (h : s.step l = some t) : Paced (countFailure n l) t := by
  cases l with
  | sendInput | sendBestEffort | pumpPane | resize =>
      simp only [step] at h
      exact (onPane_still h).paced hs
  | addForward id spec =>
      simp only [step] at h
      split at h
      · cases h
      · have hminted : Paced n { s with minted := id :: s.minted } :=
          Still.paced ⟨rfl, rfl, rfl⟩ hs
        exact (onPane_still h).paced hminted
  | removeForward id =>
      simp only [step] at h
      split at h
      · exact (onPane_still h).paced hs
      · cases h
  | closePane | relayEnds =>
      simp only [step] at h
      split at h
      all_goals first | cases h; done | exact Option.some.inj h ▸ Still.paced ⟨rfl, rfl, rfl⟩ hs
  | relay =>
      simp only [step] at h
      split at h
      · exact Option.some.inj h ▸ Still.paced ⟨rfl, rfl, rfl⟩ hs
      · cases h
  | prompt | agentError =>
      simp only [step] at h
      split at h
      · exact (send_still h).paced hs
      · cases h
  | established =>
      obtain ⟨hphase, heq⟩ := Option.ite_none_right_eq_some.mp h
      exact Option.some.inj heq ▸ ⟨rfl, rfl, rfl⟩
  | establishFailed message =>
      obtain ⟨hphase, heq⟩ := Option.ite_none_right_eq_some.mp h
      unfold Paced at hs
      rw [hphase] at hs
      exact Option.some.inj heq ▸ hs
  | shellOpened | shellFailed =>
      obtain ⟨hphase, heq⟩ := Option.ite_none_right_eq_some.mp h
      unfold Paced at hs
      rw [hphase] at hs
      exact Option.some.inj heq ▸ hs
  | emit => exact hs.emit h
  | readInput written => exact hs.readInput h
  | readControl => exact hs.readControl h
  | channel msg => exact hs.readChannel h
  | backoffElapsed =>
      obtain ⟨hphase, heq⟩ := Option.ite_none_right_eq_some.mp h
      exact Option.some.inj heq ▸ hs.retry hphase
  | forward op => exact (forwardStep_still h).paced hs
  | earlierReply id refused =>
      obtain ⟨spec, -, rfl⟩ := earlierReply_cases h
      exact Still.paced ⟨rfl, rfl, rfl⟩ hs
  | earlierReport id =>
      obtain ⟨spec, outcome, u, -, hsend, rfl⟩ := earlierReport_cases h
      have hsame := send_still hsend
      exact Still.paced ⟨hsame.phase, hsame.connectedBefore, hsame.backoff⟩ hs

theorem paced_run {onExit : ExitAction} {labels : List SessionLabel}
    (hrun : run step (start onExit) labels = some s) : Paced (failures labels) s := by
  induction labels using List.reverseRecOn generalizing s with
  | nil =>
      obtain rfl := Option.some.inj hrun
      exact nofun
  | append_singleton labels l ih =>
      obtain ⟨before, hbefore, hstep⟩ := run_concat.mp hrun
      rw [failures, List.foldl_append]
      exact step_paced (ih hbefore) hstep

/-- A session that waits to reconnect has been connected before, and waits as long
as the attempts demand that failed since it last got through. -/
theorem backoff_exact {onExit : ExitAction} {labels : List SessionLabel}
    (hrun : run step (start onExit) labels = some s) (hwaiting : s.phase = .waiting) :
    s.connectedBefore = true ∧ s.backoff = delay (failures labels) := by
  have hpaced := paced_run hrun
  unfold Paced at hpaced
  rw [hwaiting] at hpaced
  exact hpaced

/-- The link drops, and six attempts fail. -/
def sixFailures : List SessionLabel :=
  [.emit, .established, .emit, .shellOpened, .emit, .channel .gone, .emit] ++
    (List.replicate 6 [.backoffElapsed, .emit, .establishFailed "unreachable", .relay, .relay,
      .emit]).flatten

theorem backoff_exact_sixFailures : ∃ s, run step (start .prompt) sixFailures = some s ∧
    s.backoff = delay (failures sixFailures) ∧ s.backoff = 30 := by
  have hstate : (run step (start .prompt) sixFailures).map (fun s => (s.phase, s.backoff)) =
      some (.waiting, 30) := rfl
  obtain ⟨s, hs, hall⟩ := Option.map_eq_some_iff.mp hstate
  exact ⟨s, hs, (backoff_exact hs (Prod.mk.inj hall).1).2, (Prod.mk.inj hall).2⟩

end Session

end PolyTerm

import PolyTerm.Runs
import PolyTerm.SessionSteps

/-!
# Keystrokes that outlive a reconnect

The input channel is one receiver for the whole session: the pump of every
connection reads on where the last one stopped, and nothing empties it in
between. `Watched` stamps each chunk of the channel with whether the link was
down when it was accepted. Chunks are written only by a pump, and no pump
starts without reporting `connected`; so what counts is what the channel holds
at that moment (`no_stale_written`).
-/

namespace PolyTerm

open Runs Session

/-! ## The input channel over one step -/

/-- After a step that is not a read, the channel holds what it held and more,
or its receiver is gone. -/
def InputGrows (s t : Session) : Prop :=
  s.pane.input.Extends t.pane.input ∨
    (t.pane.input.closed = true ∧ t.pane.input.queue = [])

theorem inputGrows_refl (s : Session) : InputGrows s s := Or.inl (.refl _)

theorem inputGrows_of_eq {s t : Session} (h : t.pane.input = s.pane.input) : InputGrows s t := by
  refine Or.inl ?_
  rw [h]
  exact .refl _

theorem inputGrows_finish (s : Session) : InputGrows s s.finish := Or.inr ⟨rfl, rfl⟩

theorem onPane_grows {s t : Session} {f : LivePane → LivePane}
    (hf : ∀ p : LivePane, p.input.Extends (f p).input) (h : s.onPane f = some t) :
    InputGrows s t := by
  obtain ⟨-, rfl⟩ := onPane_open h
  exact Or.inl (hf s.pane)

theorem emit_grows {s t : Session} (h : s.emit = some t) : InputGrows s t := by
  cases emit_emits h with
  | connecting u hphase hsend | authenticated u hphase hsend | opened u hphase hsend =>
      have hinput := congrArg LivePane.input (send_pane hsend)
      exact inputGrows_of_eq hinput
  | failing message u hphase hsend | closing reason u hphase hsend =>
      have hinput := congrArg LivePane.input (send_pane hsend)
      split
      · exact inputGrows_of_eq hinput
      · exact Or.inr ⟨rfl, rfl⟩

theorem handleControl_input (s : Session) (msg : ControlMsg) :
    (s.handleControl msg).pane = s.pane := by
  cases msg <;> rfl

theorem backoffControl_grows (s : Session) (msg : ControlMsg) :
    InputGrows s (s.backoffControl msg) := by
  cases msg
  case disconnect => exact inputGrows_finish s
  all_goals exact inputGrows_refl _

theorem readControl_grows {s t : Session} (h : s.readControl = some t) : InputGrows s t := by
  cases readControl_reads h with
  | pumped msg control =>
      refine inputGrows_of_eq ?_
      rw [handleControl_input]
      rfl
  | closed => exact inputGrows_refl _
  | backedOff msg control => exact backoffControl_grows (s.readOff control) msg
  | gaveUp => exact inputGrows_finish s

theorem readChannel_pane {s t : Session} {msg : ChannelMsg} (h : s.readChannel msg = some t) :
    t.pane = s.pane := by
  cases readChannel_reads h <;> rfl

theorem forwardStep_pane {s t : Session} {op : ForwardOp} (h : s.forwardStep op = some t) :
    t.pane = s.pane := by
  obtain ⟨-, -, c, -, ⟨status, u, -, hsend, rfl⟩ | ⟨-, rfl⟩⟩ := forwardStep_cases h
  · have hpane := send_pane hsend
    exact hpane
  · rfl

theorem earlierReply_pane {s t : Session} {id : ForwardId} {refused : Option String}
    (h : s.earlierReply id refused = some t) : t.pane = s.pane := by
  obtain ⟨spec, -, rfl⟩ := earlierReply_cases h
  rfl

theorem earlierReport_pane {s t : Session} {id : ForwardId} (h : s.earlierReport id = some t) :
    t.pane = s.pane := by
  obtain ⟨spec, outcome, u, -, hsend, rfl⟩ := earlierReport_cases h
  have hpane := send_pane hsend
  exact hpane

/-- The label reads the input channel. -/
def SessionLabel.isRead : SessionLabel → Bool
  | .readInput _ => true
  | _ => false

theorem step_grows {s t : Session} {l : SessionLabel} (hl : l.isRead = false)
    (h : s.step l = some t) : InputGrows s t := by
  cases l with
  | readInput written => cases hl
  | sendInput bytes => exact onPane_grows (fun p => p.sendInput_extends bytes) h
  | sendBestEffort bytes => exact onPane_grows (fun p => p.sendBestEffort_extends bytes) h
  | pumpPane fed => exact onPane_grows (fun p => p.pump_extends fed) h
  | resize cols rows =>
      simp only [step] at h
      refine onPane_grows ?_ h
      exact fun p => .refl _
  | addForward id spec =>
      simp only [step] at h
      split at h
      · cases h
      · have hgrows : InputGrows { s with minted := id :: s.minted } t := by
          refine onPane_grows ?_ h
          exact fun p => .refl _
        exact hgrows
  | removeForward id =>
      simp only [step] at h
      split at h
      · refine onPane_grows ?_ h
        exact fun p => .refl _
      · cases h
  | emit => exact emit_grows h
  | readControl => exact readControl_grows h
  | channel msg => exact inputGrows_of_eq (congrArg _ (readChannel_pane h))
  | forward op => exact inputGrows_of_eq (congrArg _ (forwardStep_pane h))
  | earlierReply id refused => exact inputGrows_of_eq (congrArg _ (earlierReply_pane h))
  | earlierReport id => exact inputGrows_of_eq (congrArg _ (earlierReport_pane h))
  | relay =>
      simp only [step] at h
      split at h
      · exact Option.some.inj h ▸ inputGrows_refl _
      · cases h
  | prompt p =>
      simp only [step] at h
      split at h
      · exact inputGrows_of_eq (congrArg _ (send_pane h))
      · cases h
  | agentError message =>
      simp only [step] at h
      split at h
      · exact inputGrows_of_eq (congrArg _ (send_pane h))
      · cases h
  | closePane | relayEnds | established | establishFailed | shellOpened | shellFailed
  | backoffElapsed =>
      simp only [step] at h
      split at h <;> first | cases h; done | exact Option.some.inj h ▸ inputGrows_refl _

/-- A read takes the oldest chunk, if there is one. -/
theorem read_input {s t : Session} {written : Bool} (h : s.step (.readInput written) = some t) :
    t.pane.input.queue = s.pane.input.queue.tail := by
  cases readInput_reads h with
  | wrote bytes input hsel hrecv | failed bytes input hsel hrecv => exact ((Fifo.recv_some hrecv).1 ▸ rfl)
  | closed hsel hrecv =>
      have hnil := Fifo.recv_eq_none.mp hrecv
      rw [hnil]
      exact hnil

theorem read_closed {s t : Session} {written : Bool} (h : s.step (.readInput written) = some t) :
    t.pane.input.closed = s.pane.input.closed := by
  cases readInput_reads h with
  | wrote bytes input hsel hrecv | failed bytes input hsel hrecv => exact (Fifo.recv_some hrecv).2
  | closed => rfl

/-! ## Stamping the chunks -/

/-- A session with, for each chunk in its input channel, whether the link was
down when the channel accepted it. -/
structure Watched where
  session : Session
  stamps : List Bool

namespace Watched

def start (onExit : ExitAction) : Watched := ⟨.start onExit, []⟩

/-- The stamps of the chunks the channel accepts in a step. -/
def accepts (s t : Session) : List Bool :=
  List.replicate (t.pane.input.queue.length - s.pane.input.queue.length) s.linkDown

def step (w : Watched) (l : SessionLabel) : Option Watched :=
  (w.session.step l).map fun t =>
    ⟨t, if l.isRead then w.stamps.tail
      else if t.pane.input.closed then [] else w.stamps ++ accepts w.session t⟩

/-- The stamps of the chunks written to a shell channel. -/
def wrote (w : Watched) : SessionLabel → List Bool
  | .readInput true => w.stamps.take 1
  | _ => []

end Watched

/-- Every chunk in the channel has its stamp, and a channel without a receiver
holds none. -/
def Stamped (w : Watched) : Prop :=
  w.stamps.length = w.session.pane.input.queue.length ∧
    (w.session.pane.input.closed = true → w.session.pane.input.queue = [])

theorem stamped_start (onExit : ExitAction) : Stamped (.start onExit) := ⟨rfl, fun _ => rfl⟩

theorem step_stamped {w v : Watched} {l : SessionLabel} (hw : Stamped w)
    (h : w.step l = some v) : Stamped v := by
  obtain ⟨t, ht, rfl⟩ := Option.map_eq_some_iff.mp h
  cases hl : l.isRead with
  | true =>
      cases l <;> cases hl
      have hqueue := read_input ht
      have hclosed := read_closed ht
      refine ⟨by simp [hqueue, hw.1], fun hc => ?_⟩
      have hnone := hw.2 (hclosed ▸ hc)
      simp [hqueue, hnone]
  | false =>
      rcases step_grows hl ht with ⟨hclosed, xs, hqueue, hnil⟩ | ⟨hclosed, hqueue⟩
      · have hnone (hc : t.pane.input.closed = true) : t.pane.input.queue = [] := by
          have hsent := hnil (hclosed ▸ hc)
          have hheld := hw.2 (hclosed ▸ hc)
          rw [hqueue, hheld, hsent, List.append_nil]
        refine ⟨?_, hnone⟩
        cases hc : t.pane.input.closed with
        | true => simp [hnone hc]
        | false => simp [hqueue, hw.1, Watched.accepts]
      · exact ⟨by simp [hqueue, hclosed], fun _ => hqueue⟩

/-! ## No stale chunk is written -/

/-- While the pump runs the link is up, and nothing in the channel was put
there while it was down. -/
def Fresh (w : Watched) : Prop :=
  w.session.phase.isPumping = true → w.session.linkDown = false ∧ true ∉ w.stamps

/-- A connection is reported only when nothing put on the channel while the
link was down is left in it. -/
def ConnectsFresh (w : Watched) : SessionLabel → Prop
  | .emit => w.session.phase = .opened → true ∉ w.stamps
  | _ => True

instance (w : Watched) (l : SessionLabel) : Decidable (ConnectsFresh w l) := by
  unfold ConnectsFresh
  split <;> infer_instance

/-- What a step leaves of the stamps and adds to them. -/
theorem step_stamps {w v : Watched} {l : SessionLabel} (h : w.step l = some v) {b : Bool}
    (hb : b ∈ v.stamps) : b ∈ w.stamps ∨ (l.isRead = false ∧ b = w.session.linkDown) := by
  obtain ⟨t, ht, rfl⟩ := Option.map_eq_some_iff.mp h
  dsimp only at hb
  split at hb
  · exact Or.inl (List.mem_of_mem_tail hb)
  · rename_i hl
    split at hb
    · cases hb
    · rcases List.mem_append.mp hb with hb | hb
      · exact Or.inl hb
      · exact Or.inr ⟨by simpa using hl, List.eq_of_mem_replicate hb⟩

theorem emit_input {s t : Session} (h : s.emit = some t) (hphase : s.phase = .opened) :
    t.pane = s.pane ∧ t.connection = s.connection ∧ t.phase = .pumping false := by
  cases emit_emits h with
  | opened u _ hsend =>
      have hpane := send_pane hsend
      have hconn := (send_phase hsend).2.2
      exact ⟨hpane, hconn, rfl⟩
  | connecting u hother | failing message u hother | authenticated u hother | closing reason u hother =>
      cases hphase.symm.trans hother

/-- Reporting a connection does not touch the channel. -/
theorem emit_stamps {w v : Watched} (h : w.step .emit = some v)
    (hphase : w.session.phase = .opened) (hw : Stamped w) : v.stamps = w.stamps := by
  obtain ⟨t, ht, rfl⟩ := Option.map_eq_some_iff.mp h
  have hpane := (emit_input ht hphase).1
  cases hc : t.pane.input.closed with
  | false => simp [SessionLabel.isRead, Watched.accepts, hpane]
  | true =>
      have hnone := hw.2 (hpane ▸ hc)
      have hstamps := hw.1
      rw [hnone] at hstamps
      rw [List.length_eq_zero_iff.mp hstamps]
      rfl

theorem step_fresh {w v : Watched} {l : SessionLabel} (hw : Stamped w) (hfresh : Fresh w)
    (hl : ConnectsFresh w l) (h : w.step l = some v) : Fresh v := by
  intro hpump
  obtain ⟨t, ht, hv⟩ := Option.map_eq_some_iff.mp h
  have hsession : v.session = t := hv ▸ rfl
  rw [hsession] at hpump ⊢
  by_cases hemit : l = .emit
  · subst hemit
    obtain ⟨hphase, hdown⟩ := emit_pump ht hpump
    exact ⟨hdown, emit_stamps h hphase hw ▸ hl hphase⟩
  · obtain ⟨hbefore, hdown⟩ := step_samePump hemit ht hpump
    have hclear := hfresh hbefore
    refine ⟨hdown.trans hclear.1, fun hstale => ?_⟩
    rcases step_stamps h hstale with hold | ⟨-, hnew⟩
    · exact hclear.2 hold
    · rw [hclear.1] at hnew
      cases hnew

/-- Only a pump writes. -/
theorem wrote_fresh {w v : Watched} {l : SessionLabel} (hfresh : Fresh w)
    (h : w.step l = some v) : true ∉ Watched.wrote w l := by
  intro hstale
  cases l with
  | readInput written =>
      obtain ⟨t, ht, -⟩ := Option.map_eq_some_iff.mp h
      have hpump := selecting_pumping (readInput_selecting ht)
      cases written with
      | true => exact (hfresh hpump).2 (List.mem_of_mem_take hstale)
      | false => cases hstale
  | _ => cases hstale

/-! ## The condition is exact -/

theorem recv_cons {c : Fifo Bytes} (h : c.queue ≠ []) : ∃ chunk d, c.recv = some (chunk, d) := by
  cases hrecv : c.recv with
  | none => exact absurd (Fifo.recv_eq_none.mp hrecv) h
  | some r => exact ⟨r.1, r.2, rfl⟩

/-- A pump with a chunk before it can write it. -/
theorem read_step {w : Watched} (hw : Stamped w) (hsel : w.session.selecting = true)
    (hpos : w.stamps ≠ []) :
    ∃ v, w.step (.readInput true) = some v ∧ v.stamps = w.stamps.tail ∧
      v.session.selecting = true := by
  have hqueue : w.session.pane.input.queue ≠ [] := by
    rw [← List.length_pos_iff, ← hw.1]
    exact List.length_pos_iff.mpr hpos
  obtain ⟨chunk, input, hrecv⟩ := recv_cons hqueue
  let t : Session := { w.session with pane := { w.session.pane with input := input } }
  have hread : w.session.step (.readInput true) = some t := by
    simp [Session.step, readInput, hsel, hrecv, t]
  refine ⟨⟨t, w.stamps.tail⟩, ?_, rfl, hsel⟩
  rw [Watched.step, hread]
  rfl

theorem watched_idle {w v : Watched} {l : SessionLabel} (hw : Idle w.session)
    (h : w.step l = some v) : Idle v.session := by
  obtain ⟨t, ht, rfl⟩ := Option.map_eq_some_iff.mp h
  exact step_idle hw ht

/-- A connection is reported with nothing of it under way. -/
theorem emit_selecting {w v : Watched} (hw : Idle w.session) (hphase : w.session.phase = .opened)
    (h : w.step .emit = some v) : v.session.selecting = true := by
  obtain ⟨t, ht, rfl⟩ := Option.map_eq_some_iff.mp h
  obtain ⟨-, hconn, hpump⟩ := emit_input ht hphase
  have hempty : w.session.connection = .empty := hw (by rw [hphase]; rfl)
  rw [selecting, hpump, hconn, hempty]
  rfl

/-- Reading on writes the stamps off, oldest first. -/
theorem wrote_reads (n : Nat) : ∀ {w : Watched}, Stamped w → w.session.selecting = true →
    n ≤ w.stamps.length →
    outputs Watched.step Watched.wrote w (List.replicate n (.readInput true)) =
      w.stamps.take n := by
  induction n with
  | zero => intros; simp [outputs]
  | succ n ih =>
      intro w hw hsel hlen
      have hpos : w.stamps ≠ [] := List.length_pos_iff.mp (by omega)
      obtain ⟨v, hv, hstamps, hselv⟩ := read_step hw hsel hpos
      have hrest := ih (step_stamped hw hv) hselv (by rw [hstamps, List.length_tail]; omega)
      obtain ⟨stamp, stamps, hcons⟩ := List.exists_cons_of_ne_nil hpos
      simp [List.replicate_succ, outputs, hv, hrest, Watched.wrote, hstamps, hcons]

/-- Nothing typed while the link was down reaches a later shell, as long as
none of it is left in the channel when a connection is reported; and once a
connection is reported over such a chunk, reading on writes it. -/
theorem no_stale_written {onExit : ExitAction} {labels : List SessionLabel} :
    (Along Watched.step ConnectsFresh (.start onExit) labels →
      true ∉ outputs Watched.step Watched.wrote (.start onExit) labels) ∧
    (∀ w v, run Watched.step (.start onExit) labels = some w → w.step .emit = some v →
      ¬ConnectsFresh w .emit →
      ∃ n, true ∈ outputs Watched.step Watched.wrote (.start onExit)
        (labels ++ .emit :: List.replicate n (.readInput true))) := by
  constructor
  · intro hconnects hstale
    have hstep : ∀ w l v, Stamped w ∧ Fresh w → ConnectsFresh w l → w.step l = some v →
        Stamped v ∧ Fresh v := by
      rintro w l v ⟨hw, hfresh⟩ hl h
      exact ⟨step_stamped hw h, step_fresh hw hfresh hl h⟩
    have hout : ∀ w l v, Stamped w ∧ Fresh w → ConnectsFresh w l → w.step l = some v →
        ∀ stamp ∈ Watched.wrote w l, stamp ≠ true := by
      rintro w l v ⟨-, hfresh⟩ - h stamp hmem rfl
      exact wrote_fresh hfresh h hmem
    have hstart : Stamped (.start onExit) ∧ Fresh (.start onExit) :=
      ⟨stamped_start onExit, fun hpump => nomatch hpump⟩
    exact outputs_all hstep hout hstart hconnects true hstale rfl
  · intro w v hrun hemit hstale
    obtain ⟨hphase, hmem⟩ := Classical.not_imp.mp hstale
    rw [not_not] at hmem
    have hw : Stamped w := invariant (fun w l v hw h => step_stamped hw h)
      (stamped_start onExit) hrun
    have hidle : Idle w.session := invariant (fun w l v hw h => watched_idle hw h)
      (idle_start onExit) hrun
    have hsel := emit_selecting hidle hphase hemit
    have hreads := wrote_reads v.stamps.length (step_stamped hw hemit) hsel le_rfl
    have hkept := emit_stamps hemit hphase hw
    rw [List.take_length] at hreads
    refine ⟨v.stamps.length, ?_⟩
    rw [outputs_append hrun, List.mem_append]
    refine Or.inr ?_
    simp only [outputs, hemit, hreads, List.mem_append]
    exact Or.inr (hkept ▸ hmem)

/-! ## Typing into a session that is down -/

/-- A first connection is up and its link drops. -/
def down : List SessionLabel :=
  [.emit, .established, .emit, .shellOpened, .emit, .channel .gone, .emit]

/-- The backoff passes and the session is up again. -/
def up : List SessionLabel :=
  [.backoffElapsed, .emit, .established, .emit, .shellOpened, .emit]

def reconnects (typed : List SessionLabel) : List SessionLabel :=
  down ++ typed ++ up ++ [.readInput true]

def typedWhileDown : SessionLabel := .sendInput [0x72, 0x6d, 0x0d]

theorem no_stale_written_quiet :
    true ∉ outputs Watched.step Watched.wrote (.start .prompt) (reconnects []) ∧
      ∃ n, true ∈ outputs Watched.step Watched.wrote (.start .prompt)
        (down ++ [typedWhileDown] ++ up.dropLast ++ .emit :: List.replicate n (.readInput true)) := by
  have hrun : run Watched.step (.start .prompt) (down ++ [typedWhileDown] ++ up.dropLast) = some _ :=
    rfl
  exact ⟨no_stale_written.1 (by decide), no_stale_written.2 _ _ hrun rfl (by decide)⟩

/-- The chunk typed while the link was down is the first the new shell gets. -/
theorem stale_written_reconnect :
    ¬∀ (onExit : ExitAction) (labels : List SessionLabel),
      true ∉ outputs Watched.step Watched.wrote (.start onExit) labels := by
  intro h
  exact h .prompt (reconnects [typedWhileDown]) (by decide)

end PolyTerm

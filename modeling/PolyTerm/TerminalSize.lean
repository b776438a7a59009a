import PolyTerm.ForwardSession
import PolyTerm.Runs

/-!
# The size of the remote terminal

The pane sends a resize when the size it is drawn at changes, and does not
look whether the control channel took it. The backend keeps the last size it
read and gives it to the shell, at once when it pumps, else when the next
shell opens; a resize read while backing off is dropped.

`comingSize` is the size once the control channel has been read: it is the
pane's own size for as long as no resize is lost, and the shell has been given
the backend's size whenever there is one (`Sound`).
-/

namespace PolyTerm

open Runs Session

/-- The phases in which there is a shell. -/
def Phase.hasShell : Phase → Bool
  | .opened | .pumping _ => true
  | _ => false

def ControlMsg.isResize : ControlMsg → Bool
  | .resize _ _ => true
  | _ => false

/-- The size after a control message is handled. -/
def sizeAfter (size : UInt16 × UInt16) : ControlMsg → UInt16 × UInt16
  | .resize cols rows => (cols, rows)
  | _ => size

/-- The size once everything in the control channel is handled. -/
def Session.comingSize (s : Session) : UInt16 × UInt16 :=
  s.pane.control.queue.foldl sizeAfter s.size

/-! ## What a session's step does to the size -/

/-- The size is as before, now and once the channel has been read; no shell is
opened, and an ended session stays so. -/
structure SameSize (s t : Session) : Prop where
  size : t.size = s.size
  coming : t.comingSize = s.comingSize
  shell : t.phase.hasShell = true → s.phase.hasShell = true
  ended : s.phase = .ended → t.phase = .ended

section SameSize

variable {s t : Session}

theorem sameSize_of_eq (hsize : t.size = s.size) (hcontrol : t.pane.control = s.pane.control)
    (hphase : t.phase = s.phase) : SameSize s t :=
  ⟨hsize, by rw [comingSize, comingSize, hcontrol, hsize], fun h => hphase ▸ h,
    fun h => hphase.trans h⟩

theorem sameSize_of_not (hsize : t.size = s.size) (hcontrol : t.pane.control = s.pane.control)
    (hshell : t.phase.hasShell = false) (hended : s.phase ≠ .ended) : SameSize s t :=
  ⟨hsize, by rw [comingSize, comingSize, hcontrol, hsize],
    fun h => absurd (hshell.symm.trans h) nofun, fun h => absurd h hended⟩

/-- A message that is no resize goes on the channel, or is lost. -/
theorem sameSize_ask (msg : ControlMsg) (hmsg : ∀ size, sizeAfter size msg = size)
    (hsize : t.size = s.size)
    (hcontrol : t.pane.control = (s.pane.control.trySend msg).toOption.getD s.pane.control)
    (hphase : t.phase = s.phase) : SameSize s t := by
  refine ⟨hsize, ?_, fun h => hphase ▸ h, fun h => hphase.trans h⟩
  rw [comingSize, comingSize, hcontrol, hsize, Fifo.getD_trySend_queue]
  split
  · rw [List.foldl_append, List.foldl_cons, List.foldl_nil, hmsg]
  · rfl

theorem send_sameSize {e : TransportEvent} (h : s.send e = some t) : SameSize s t := by
  obtain ⟨events, rfl⟩ := send_eq h
  exact sameSize_of_eq rfl rfl rfl

theorem onPane_sameSize {f : LivePane → LivePane} (hf : ∀ p : LivePane, (f p).control = p.control)
    (h : s.onPane f = some t) : SameSize s t := by
  obtain ⟨-, rfl⟩ := onPane_open h
  exact sameSize_of_eq rfl (hf _) rfl

theorem emit_sameSize (h : s.emit = some t) : t.phase = .ended ∨ SameSize s t := by
  cases emit_emits h with
  | connecting u hphase hsend | authenticated u hphase hsend =>
      obtain ⟨events, rfl⟩ := send_eq hsend
      exact Or.inr (sameSize_of_not rfl rfl rfl (by simp [hphase]))
  | opened u hphase hsend =>
      obtain ⟨events, rfl⟩ := send_eq hsend
      exact Or.inr ⟨rfl, rfl, fun _ => by rw [hphase]; rfl, fun h => by simp [hphase] at h⟩
  | failing message u hphase hsend | closing reason u hphase hsend =>
      obtain ⟨events, rfl⟩ := send_eq hsend
      split
      · exact Or.inr (sameSize_of_not rfl rfl rfl (by simp [hphase]))
      · exact Or.inl rfl

theorem endPump_sameSize (hpump : s.phase.isPumping = true) (reason : DisconnectReason)
    (hcontrol : t.pane.control = s.pane.control) (hsize : t.size = s.size) :
    SameSize s (t.endPump reason) := by
  refine sameSize_of_not hsize hcontrol rfl fun hended => ?_
  rw [hended] at hpump
  cases hpump

theorem readInput_sameSize {written : Bool} (h : s.readInput written = some t) : SameSize s t := by
  have hpump := selecting_pumping (readInput_selecting h)
  cases readInput_reads h with
  | wrote => exact sameSize_of_eq rfl rfl rfl
  | failed | closed => exact endPump_sameSize hpump _ rfl rfl

theorem readChannel_sameSize {msg : ChannelMsg} (h : s.readChannel msg = some t) :
    SameSize s t := by
  cases readChannel_reads h with
  | goesOn => exact sameSize_of_eq rfl rfl rfl
  | exited hphase =>
      exact ⟨rfl, rfl, fun _ => by rw [hphase]; rfl, fun h => by simp [hphase] at h⟩
  | ends hphase => exact endPump_sameSize (by rw [hphase]; rfl) _ rfl rfl

theorem forwardStep_sameSize {op : ForwardOp} (h : s.forwardStep op = some t) : SameSize s t := by
  obtain ⟨-, -, c, -, ⟨status, u, -, hsend, rfl⟩ | ⟨-, rfl⟩⟩ := forwardStep_cases h
  · obtain ⟨events, rfl⟩ := send_eq hsend
    exact sameSize_of_eq rfl rfl rfl
  · exact sameSize_of_eq rfl rfl rfl

/-- Besides the resizes, the reads of the control channel and a shell that
opens, no step touches the size. -/
theorem step_sameSize {l : SessionLabel} (hresize : ∀ cols rows, l ≠ .resize cols rows)
    (hread : l ≠ .readControl) (hopen : l ≠ .shellOpened) (h : s.step l = some t) :
    t.phase = .ended ∨ SameSize s t := by
  cases l with
  | resize cols rows => exact absurd rfl (hresize cols rows)
  | readControl => exact absurd rfl hread
  | shellOpened => exact absurd rfl hopen
  | emit => exact emit_sameSize h
  | sendInput bytes => exact Or.inr (onPane_sameSize (fun p => (sendInput_same p bytes).2.2) h)
  | sendBestEffort bytes =>
      exact Or.inr (onPane_sameSize (fun p => (foldl_sendBestEffort_same [bytes] p).2.2) h)
  | pumpPane fed => exact Or.inr (onPane_sameSize (fun p => (pump_same p fed).2.2) h)
  | addForward id spec =>
      simp only [step] at h
      split at h
      · cases h
      · obtain ⟨-, rfl⟩ := onPane_open h
        exact Or.inr (sameSize_ask (.addForward id spec) (fun _ => rfl) rfl rfl rfl)
  | removeForward id =>
      obtain ⟨-, h⟩ := Option.ite_none_right_eq_some.mp h
      obtain ⟨-, rfl⟩ := onPane_open h
      exact Or.inr (sameSize_ask (.removeForward id) (fun _ => rfl) rfl rfl rfl)
  | readInput written => exact Or.inr (readInput_sameSize h)
  | channel msg => exact Or.inr (readChannel_sameSize h)
  | forward op => exact Or.inr (forwardStep_sameSize h)
  | earlierReply id refused =>
      obtain ⟨spec, -, rfl⟩ := earlierReply_cases h
      exact Or.inr (sameSize_of_eq rfl rfl rfl)
  | earlierReport id =>
      obtain ⟨spec, outcome, u, -, hsend, rfl⟩ := earlierReport_cases h
      obtain ⟨events, rfl⟩ := send_eq hsend
      exact Or.inr (sameSize_of_eq rfl rfl rfl)
  | relay | closePane | relayEnds =>
      simp only [step] at h
      split at h <;> first
        | cases h; done
        | exact Or.inr (Option.some.inj h ▸ sameSize_of_eq rfl rfl rfl)
  | prompt | agentError =>
      simp only [step] at h
      split at h
      · exact Or.inr (send_sameSize h)
      · cases h
  | established | establishFailed | shellFailed | backoffElapsed =>
      simp only [step] at h
      split at h
      · rename_i hphase
        exact Or.inr (Option.some.inj h ▸ sameSize_of_not rfl rfl rfl (by simp [hphase]))
      · cases h

/-- What a read of the control channel does: the size once all is read is as
before, unless a resize is dropped while backing off. -/
theorem readControl_coming (h : s.readControl = some t)
    (hbackoff : s.phase = .waiting →
      s.pane.control.queue.head?.any ControlMsg.isResize = false) :
    t.phase = .ended ∨ (t.comingSize = s.comingSize ∧ s.phase ≠ .ended ∧
      (t.phase.hasShell = true → s.phase.hasShell = true)) := by
  have hpumping : s.selecting = true → s.phase ≠ .ended ∧ s.phase.hasShell = true := by
    intro hsel
    have hpump := selecting_pumping hsel
    revert hpump
    cases s.phase <;> simp [Phase.isPumping, Phase.hasShell]
  cases readControl_reads h with
  | pumped msg control hsel hrecv =>
      obtain ⟨hended, hshell⟩ := hpumping hsel
      refine Or.inr ⟨?_, hended, fun _ => hshell⟩
      rw [comingSize, comingSize, (Fifo.recv_some hrecv).1, List.foldl_cons]
      cases msg <;> rfl
  | closed hsel =>
      obtain ⟨hended, hshell⟩ := hpumping hsel
      exact Or.inr ⟨rfl, hended, fun _ => hshell⟩
  | backedOff msg control hsel hwaiting hrecv =>
      have hended : s.phase ≠ .ended := by simp [hwaiting]
      have hqueue := (Fifo.recv_some hrecv).1
      have hmsg : sizeAfter s.size msg = s.size := by
        cases msg with
        | resize cols rows =>
            have hhead := hbackoff hwaiting
            rw [hqueue] at hhead
            cases hhead
        | _ => rfl
      have hcoming : control.queue.foldl sizeAfter s.size = s.comingSize := by
        rw [comingSize, hqueue, List.foldl_cons, hmsg]
      cases msg with
      | disconnect => exact Or.inl rfl
      | reconnect => exact Or.inr ⟨hcoming, hended, nofun⟩
      | _ => exact Or.inr ⟨hcoming, hended, fun h => h⟩
  | gaveUp => exact Or.inl rfl

end SameSize

/-! ## The pane's size beside the session -/

structure Sized where
  session : Session
  /-- the size the pane was last drawn at -/
  lastSize : UInt16 × UInt16
  /-- the size last given to a shell -/
  given : Option (UInt16 × UInt16)

inductive SizedLabel where
  /-- the pane is drawn with room for so many cells -/
  | show (cols rows : UInt16)
  | step (l : SessionLabel)

def SessionLabel.isResize : SessionLabel → Bool
  | .resize _ _ => true
  | _ => false

namespace Sized

variable {onExit : ExitAction} {x y : Sized} {a : SizedLabel} {as : List SizedLabel}

def start (onExit : ExitAction) : Sized := ⟨.start onExit, (80, 24), none⟩

/-- The size a step gives to a shell: at its opening, or by a change of its
window. -/
def gives (s : Session) : SessionLabel → Option (UInt16 × UInt16)
  | .shellOpened => some s.size
  | .readControl =>
      if s.selecting then
        match s.pane.control.queue.head? with
        | some (.resize cols rows) => some (cols, rows)
        | _ => none
      else none
  | _ => none

/-- Resizes are sent by a drawing only, and only when the size has changed. -/
def step (x : Sized) : SizedLabel → Option Sized
  | .show cols rows =>
      let size := (max cols 1, max rows 1)
      if x.session.uiClosed then none
      else if size = x.lastSize then some x
      else (x.session.step (.resize size.1 size.2)).map fun s =>
        { x with session := s, lastSize := size }
  | .step l =>
      if l.isResize then none
      else (x.session.step l).map fun s =>
        { x with session := s, given := (gives x.session l).or x.given }

/-- No resize is lost: the control channel has room for each, and none is read
while backing off. -/
def LosesNoResize (x : Sized) : SizedLabel → Prop
  | .show cols rows =>
      (max cols 1, max rows 1) ≠ x.lastSize →
        x.session.phase = .ended ∨ x.session.pane.control.room = true
  | .step .readControl =>
      x.session.phase = .waiting →
        x.session.pane.control.queue.head?.any ControlMsg.isResize = false
  | _ => True

instance (x : Sized) : ∀ a, Decidable (x.LosesNoResize a)
  | .show _ _ => inferInstanceAs (Decidable (_ → _))
  | .step .readControl => inferInstanceAs (Decidable (_ → _))
  | .step (.sendInput _) | .step (.sendBestEffort _) | .step (.pumpPane _)
  | .step (.addForward _ _) | .step (.removeForward _) | .step (.resize _ _) | .step .closePane
  | .step .relay | .step .relayEnds | .step (.prompt _) | .step (.agentError _)
  | .step .established | .step (.establishFailed _) | .step .shellOpened
  | .step (.shellFailed _) | .step .emit | .step (.readInput _) | .step (.channel _)
  | .step .backoffElapsed | .step (.forward _) | .step (.earlierReply _ _)
  | .step (.earlierReport _) => .isTrue trivial

/-- The size coming to the backend is the pane's, and a shell has been given
the backend's. -/
structure Sound (x : Sized) : Prop where
  coming : x.session.phase ≠ .ended → x.session.comingSize = x.lastSize
  given : x.session.phase.hasShell = true → x.given = some x.session.size

theorem sound_start (onExit : ExitAction) : (start onExit).Sound := ⟨fun _ => rfl, nofun⟩

/-! ### Steps -/

theorem show_sound (h : x.Sound) {cols rows : UInt16} (hkeeps : x.LosesNoResize (.show cols rows))
    (hstep : x.step (.show cols rows) = some y) : y.Sound := by
  simp only [step] at hstep
  split at hstep
  · cases hstep
  · split at hstep
    · exact Option.some.inj hstep ▸ h
    · rename_i hui hchanged
      obtain ⟨s, hs, rfl⟩ := Option.map_eq_some_iff.mp hstep
      simp only [Session.step] at hs
      obtain ⟨-, rfl⟩ := onPane_open hs
      refine ⟨fun hended => ?_, h.given⟩
      have hroom := (hkeeps hchanged).resolve_left hended
      simp only [comingSize, Fifo.getD_trySend_queue, hroom, if_true, List.foldl_append,
        List.foldl_cons, List.foldl_nil, sizeAfter]

/-- The size after a read is the one given to the shell, if one was. -/
theorem readControl_size {s t : Session} (h : s.readControl = some t) :
    t.size = (gives s .readControl).getD s.size := by
  simp only [gives]
  cases readControl_reads h with
  | pumped msg control hsel hrecv =>
      rw [if_pos hsel, (Fifo.recv_some hrecv).1, List.head?_cons]
      cases msg <;> rfl
  | closed hsel hrecv =>
      rw [if_pos hsel, Fifo.recv_eq_none.mp hrecv]
      rfl
  | backedOff msg control hsel =>
      rw [if_neg (by rw [hsel]; exact Bool.false_ne_true)]
      cases msg <;> rfl
  | gaveUp hsel =>
      rw [if_neg (by rw [hsel]; exact Bool.false_ne_true)]
      rfl

theorem hasShell_not_ended {s : Session} (h : s.phase.hasShell = true) : s.phase ≠ .ended := by
  intro hended
  rw [hended] at h
  cases h

theorem step_sound (h : x.Sound) (hkeeps : x.LosesNoResize a) (hstep : x.step a = some y) :
    y.Sound := by
  cases a with
  | «show» cols rows => exact show_sound h hkeeps hstep
  | step l =>
      simp only [step] at hstep
      split at hstep
      · cases hstep
      · rename_i hresize
        obtain ⟨s, hs, rfl⟩ := Option.map_eq_some_iff.mp hstep
        by_cases hread : l = .readControl
        · subst hread
          have hsize := readControl_size hs
          rcases readControl_coming hs hkeeps with hended | ⟨hcoming, hnot, hshell⟩
          · exact ⟨fun hne => absurd hended hne, fun hs => absurd hended (hasShell_not_ended hs)⟩
          · refine ⟨fun _ => hcoming.trans (h.coming hnot), fun hs => ?_⟩
            dsimp only
            rw [hsize, h.given (hshell hs)]
            cases gives x.session .readControl <;> rfl
        · by_cases hopen : l = .shellOpened
          · subst hopen
            simp only [Session.step] at hs
            split at hs
            · rename_i hphase
              obtain rfl := Option.some.inj hs
              exact ⟨fun _ => h.coming (by simp [hphase]), fun _ => rfl⟩
            · cases hs
          · have hgives : gives x.session l = none := by
              cases l <;> first | rfl | exact absurd rfl hread | exact absurd rfl hopen
            have hnot : ∀ cols rows, l ≠ .resize cols rows := by
              rintro cols rows rfl
              exact hresize rfl
            rcases step_sameSize hnot hread hopen hs with hended | hsame
            · exact ⟨fun hne => absurd hended hne, fun hs => absurd hended (hasShell_not_ended hs)⟩
            · refine ⟨fun hne => hsame.coming.trans (h.coming fun he => hne (hsame.ended he)),
                fun hs => ?_⟩
              dsimp only
              rw [hgives, hsame.size, Option.none_or]
              exact h.given (hsame.shell hs)

/-! ### Runs -/

/-- In every run that loses no resize, a connected session whose control
channel is empty has given its shell the size of the pane. -/
theorem size_agrees (hkeeps : Along step LosesNoResize (start onExit) as)
    (hrun : run step (start onExit) as = some x) (hconnected : x.session.phase.isPumping = true)
    (hempty : x.session.pane.control.queue = []) : x.given = some x.lastSize := by
  have h : x.Sound :=
    run_invariant (fun _ _ _ h ha hstep => step_sound h ha hstep) (sound_start onExit) hkeeps hrun
  have hshell : x.session.phase.hasShell = true := by
    revert hconnected
    cases x.session.phase <;> simp [Phase.isPumping, Phase.hasShell]
  have hcoming := h.coming (hasShell_not_ended hshell)
  rw [comingSize, hempty, List.foldl_nil] at hcoming
  rw [h.given hshell, hcoming]

/-- From the start of an attempt to its pump. -/
def connects : List SizedLabel :=
  [.step .emit, .step .established, .step .emit, .step .shellOpened, .step .emit]

/-- Connected, drawn at another size, and the backend has read that. -/
def resized : List SizedLabel := connects ++ [.show 100 30, .step .readControl]

theorem size_agrees_resized : ∃ x, run step (start .prompt) resized = some x ∧
    x.lastSize = (100, 30) ∧ x.given = some x.lastSize := by
  obtain ⟨x, hrun⟩ : ∃ x, run step (start .prompt) resized = some x := ⟨_, rfl⟩
  have hsize : x.lastSize = (100, 30) ∧ x.session.phase.isPumping = true ∧
      x.session.pane.control.queue = [] := by
    obtain rfl := Option.some.inj hrun
    exact ⟨rfl, rfl, rfl⟩
  have hkeeps : Along step LosesNoResize (start .prompt) resized := by decide
  exact ⟨x, hrun, hsize.1, size_agrees hkeeps hrun hsize.2.1 hsize.2.2⟩

/-- The link drops, the pane is drawn at a third size while backing off, and the
session reconnects. -/
def resizedWhileWaiting : List SizedLabel :=
  resized ++ [.step (.channel .gone), .step .emit, .show 120 40, .step .readControl,
    .step .backoffElapsed] ++ connects

theorem resize_lost_in_backoff : ∃ x, run step (start .prompt) resizedWhileWaiting = some x ∧
    x.session.phase.isPumping = true ∧ x.session.pane.control.queue = [] ∧
    x.given = some (100, 30) ∧ x.lastSize = (120, 40) :=
  ⟨_, rfl, rfl, rfl, rfl, rfl⟩

end Sized

end PolyTerm

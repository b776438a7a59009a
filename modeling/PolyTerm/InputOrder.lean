import PolyTerm.ArrivalOrder
import PolyTerm.InputLine

/-!
# The order of what a pane sends

`sendInput` and the drains alone neither reorder nor duplicate: what the
backend has, what the channel holds and what is pending are, in this order,
the chunks given to `sendInput` less those offered to a full pending queue
(`kept_in_order`). Mouse reports and replies do not look at the pending queue.
Numbers go up along the line exactly when none of them is accepted while
something is pending (`in_order_iff`).
-/

namespace PolyTerm

open Runs

/-- A step that leaves the channel to `sendInput` and the drains, and open. -/
def LineLabel.inTurn : LineLabel → Bool
  | .mouse _ | .reply _ | .hangUp => false
  | _ => true

namespace Line

variable {onExit : ExitAction} {as : List LineLabel} {s t : Line} {l : LineLabel}

/-! ## Loss at the full pending queue -/

/-- The bytes a label gives to `sendInput`. -/
def given (s : Line) : LineLabel → Option Bytes
  | .input bytes => some bytes
  | .paste text => some (LivePane.wrapPaste text s.pane.bracketedPaste)
  | _ => none

/-- A chunk is offered while the pending queue is full. -/
def Drops (s : Line) (l : LineLabel) : Prop :=
  ∃ bytes, s.given l = some bytes ∧ bytes ≠ [] ∧ inputPendingCap ≤ s.pane.pendingInput.length

/-- A drain leaves nothing pending. -/
def Empties (s : Line) (l : LineLabel) : Prop :=
  l = .drain ∧ s.pane.drainInput.pendingInput = []

/-- The chunks given to `sendInput` that are not offered to a full pending
queue. -/
def kept (s : Line) (l : LineLabel) : List Bytes :=
  match s.given l with
  | some bytes =>
      if bytes ≠ [] ∧ s.pane.pendingInput.length < inputPendingCap then [bytes] else []
  | none => []

/-- The bytes of the line: what the backend has, what the channel holds, what
is pending. -/
def bytes (s : Line) : List Bytes :=
  s.received.map Prod.snd ++ s.pane.input.queue ++ s.pane.pendingInput

theorem bytes_eq (h : s.Agrees) :
    s.bytes = s.received.map Prod.snd ++ s.numbered.content.map Prod.snd := by
  rw [bytes, h.input, h.pending]
  simp [Backlog.content]

/-- What carries the result: the queues agree, the receiver is there, and a
marked line has something pending. -/
structure Open (s : Line) : Prop where
  agrees : s.Agrees
  opened : s.numbered.channel.closed = false
  marked : s.numbered.dropping = true → s.numbered.pending ≠ []

theorem open_start (onExit : ExitAction) : (start onExit).Open :=
  ⟨agrees_start onExit, rfl, fun h => by cases h⟩

theorem Open.cap (h : s.Open) : s.numbered.cap = inputPendingCap := h.agrees.cap

theorem Open.pending_length (h : s.Open) :
    s.pane.pendingInput.length = s.numbered.pending.length := by
  rw [h.agrees.pending, Backlog.map_pending, List.length_map]

/-- What one step in turn does to the line. -/
structure Moved (s : Line) (l : LineLabel) (t : Line) : Prop where
  opened : t.Open
  bytes : t.bytes = s.bytes ++ s.kept l
  dropping : t.pane.droppingInput = true ↔
    (s.Drops l ∨ s.pane.droppingInput = true) ∧ ¬s.Empties l

theorem Open.marked_send (h : s.Open) (x : Nat × Bytes)
    (hmark : (s.numbered.send x).dropping = true) : (s.numbered.send x).pending ≠ [] := by
  have hcap : 0 < s.numbered.cap := by
    rw [h.cap]
    decide
  have hpending : s.numbered.pending ≠ [] := by
    rw [Backlog.send_dropping hcap, Bool.or_eq_true, decide_eq_true_eq] at hmark
    rcases hmark with hfull | hmark
    · intro hnil
      rw [hnil, List.length_nil] at hfull
      omega
    · exact h.marked hmark
  intro hnil
  have hprefix := Backlog.send_pending s.numbered x
  rw [hnil] at hprefix
  exact hpending (List.prefix_nil.mp hprefix)

/-- A chunk given to `sendInput`. -/
theorem Open.typed (h : s.Open) {bytes : Bytes} (hl : s.given l = some bytes)
    (hdrain : l ≠ .drain) (hstep : s.step l = some (s.typed bytes (s.pane.sendInput bytes))) :
    Moved s l (s.typed bytes (s.pane.sendInput bytes)) := by
  have hagrees := step_agrees h.agrees hstep
  have hnot : ¬s.Empties l := fun hempties => hdrain hempties.1
  have hlen := h.pending_length
  cases hbytes : bytes.isEmpty with
  | true =>
      have hnil : bytes = [] := List.isEmpty_iff.mp hbytes
      have hsame : s.typed bytes (s.pane.sendInput bytes) = s := by
        simp only [Line.typed, hbytes, LivePane.sendInput_empty hbytes, if_true]
      have hdrops : ¬s.Drops l := by
        rintro ⟨b, hb, hne, -⟩
        obtain rfl := Option.some.inj (hl.symm.trans hb)
        exact hne hnil
      rw [hsame]
      exact ⟨h, by simp [kept, hl, hnil], by simp [hdrops, hnot]⟩
  | false =>
      have hne : bytes ≠ [] := by
        rintro rfl
        cases hbytes
      have hcap : 0 < s.numbered.cap := by
        rw [h.cap]
        decide
      have hsent : s.typed bytes (s.pane.sendInput bytes) = { s with
          pane := s.pane.sendInput bytes
          numbered := s.numbered.send (s.produced, bytes)
          produced := s.produced + 1 } := by
        simp only [Line.typed, hbytes, Bool.false_eq_true, if_false]
      have hdrops : s.Drops l ↔ inputPendingCap ≤ s.numbered.pending.length := by
        rw [← hlen]
        exact ⟨fun ⟨_, _, _, hfull⟩ => hfull, fun hfull => ⟨bytes, hl, hne, hfull⟩⟩
      rw [hsent] at hagrees ⊢
      have hopened : Open { s with
          pane := s.pane.sendInput bytes
          numbered := s.numbered.send (s.produced, bytes)
          produced := s.produced + 1 } :=
        ⟨hagrees, (Backlog.send_extends _ _).1.trans h.opened, h.marked_send _⟩
      refine ⟨hopened, ?_, ?_⟩
      · rw [bytes_eq hagrees, bytes_eq h.agrees]
        simp only [Backlog.send_content h.opened hcap, kept, hl, hlen, h.cap]
        split <;> simp_all
      · have hmark := hagrees.dropping
        simp only [Backlog.map_dropping, Backlog.send_dropping hcap, h.cap] at hmark
        rw [hmark, hdrops, h.agrees.dropping]
        simp [hnot]

/-- A label that gives nothing to `sendInput` and moves no chunk out of or into
the line leaves its bytes and its mark. -/
theorem Moved.of_idle (hl : s.given l = none) (hdrain : l ≠ .drain) (ht : t.Open)
    (hbytes : t.bytes = s.bytes) (hmark : t.pane.droppingInput = s.pane.droppingInput) :
    Moved s l t := by
  have hdrops : ¬s.Drops l := by
    rintro ⟨b, hb, -⟩
    rw [hl] at hb
    cases hb
  have hnot : ¬s.Empties l := fun hempties => hdrain hempties.1
  exact ⟨ht, by simp [hbytes, kept, hl], by simp [hmark, hdrops, hnot]⟩

theorem Open.drain (h : s.Open) (hstep : s.step .drain = some t) : Moved s .drain t := by
  have hagrees := step_agrees h.agrees hstep
  obtain rfl := Option.some.inj hstep
  have hdropping := Backlog.drain_dropping s.numbered
  have hopened : Open { s with pane := s.pane.drainInput, numbered := s.numbered.drain } := by
    refine ⟨hagrees, (Backlog.drain_extends _).1.trans h.opened, fun hmark hnil => ?_⟩
    simp only at hmark hnil
    rw [hdropping, hnil] at hmark
    cases hmark
  refine ⟨hopened, ?_, ?_⟩
  · rw [bytes_eq hagrees, bytes_eq h.agrees]
    simp [Backlog.drain_content h.opened, kept, given]
  · have hdrops : ¬s.Drops .drain := by
      rintro ⟨b, hb, -⟩
      cases hb
    have hempties : s.Empties .drain ↔ s.numbered.drain.pending = [] := by
      have hpending : s.pane.drainInput.pendingInput = s.numbered.drain.pending.map Prod.snd :=
        hagrees.pending
      simp [Empties, hpending]
    rw [hempties, hagrees.dropping, h.agrees.dropping]
    simp only [Backlog.map_dropping, hdropping, hdrops, false_or]
    cases s.numbered.drain.pending with
    | nil => simp
    | cons front rest => simp

theorem Open.take (h : s.Open) (hstep : s.step .take = some t) : Moved s .take t := by
  obtain ⟨n, bytes, hreceived, hcontent, hpending, hdropping, hclosed, -, hagrees⟩ :=
    take_cases h.agrees hstep
  refine .of_idle rfl nofun ⟨hagrees, hclosed.trans h.opened, ?_⟩ ?_ ?_
  · rw [hdropping, hpending]
    exact h.marked
  · rw [bytes_eq hagrees, bytes_eq h.agrees, hreceived, hcontent]
    simp
  · rw [hagrees.dropping, h.agrees.dropping, Backlog.map_dropping, hdropping]
    rfl

theorem step_moved (hs : s.Open) (hl : l.inTurn = true) (hstep : s.step l = some t) :
    Moved s l t := by
  have hagrees := step_agrees hs.agrees hstep
  cases l with
  | input bytes =>
      obtain rfl := Option.some.inj hstep
      exact hs.typed rfl nofun hstep
  | paste text =>
      obtain rfl := Option.some.inj hstep
      exact hs.typed rfl nofun hstep
  | drain => exact hs.drain hstep
  | take => exact hs.take hstep
  | absorb fed =>
      obtain rfl := Option.some.inj hstep
      refine .of_idle rfl nofun ⟨hagrees, hs.opened, hs.marked⟩ ?_ ?_
      · rw [bytes_eq hagrees, bytes_eq hs.agrees]
      · exact hagrees.dropping.trans hs.agrees.dropping.symm
  | relay e =>
      obtain rfl := Option.some.inj hstep
      exact .of_idle rfl nofun ⟨hagrees, hs.opened, hs.marked⟩ rfl rfl
  | mouse out => cases hl
  | reply bytes => cases hl
  | hangUp => cases hl

/-- A run in turn: the line holds what was kept, and is marked since the last
loss. -/
theorem run_moved (hlabels : ∀ l ∈ as, l.inTurn = true)
    (hrun : run step (start onExit) as = some s) :
    s.Open ∧ s.bytes = outputs step kept (start onExit) as ∧
      (s.pane.droppingInput = true ↔ Since step Drops Empties (start onExit) as) := by
  induction as using List.reverseRecOn generalizing s with
  | nil =>
      obtain rfl := Option.some.inj hrun
      refine ⟨open_start onExit, rfl, iff_of_false ?_ not_since_nil⟩
      simp [start, LivePane.new]
  | append_singleton as l ih =>
      obtain ⟨r, hr, hstep⟩ := run_concat.mp hrun
      obtain ⟨hopen, hbytes, hmark⟩ := ih (fun k hk => hlabels k (List.mem_append_left _ hk)) hr
      have hmoved := step_moved hopen (hlabels l (by simp)) hstep
      refine ⟨hmoved.opened, ?_, ?_⟩
      · rw [hmoved.bytes, hbytes, outputs_concat hr hstep]
      · rw [hmoved.dropping, hmark, since_concat hr]

/-- Every chunk given to `sendInput` is on the line once, in order, unless it
was offered to a full pending queue; and the mark says that this happened since
the queue was last emptied. -/
theorem kept_in_order (hlabels : ∀ l ∈ as, l.inTurn = true)
    (hrun : run step (start onExit) as = some s) :
    s.received.map Prod.snd ++ s.pane.input.queue ++ s.pane.pendingInput =
        outputs step kept (start onExit) as ∧
      s.pane.pendingInput.length ≤ inputPendingCap ∧
      (s.pane.droppingInput = true ↔ Since step Drops Empties (start onExit) as) ∧
      (s.pane.droppingInput = true → s.pane.pendingInput ≠ []) := by
  obtain ⟨hopen, hbytes, hmark⟩ := run_moved hlabels hrun
  refine ⟨hbytes, ?_, hmark, fun hdropping => ?_⟩
  · rw [hopen.pending_length, ← hopen.cap]
    exact s.numbered.bounded
  · rw [hopen.agrees.dropping] at hdropping
    rw [hopen.agrees.pending, Backlog.map_pending, Ne, List.map_eq_nil_iff]
    exact hopen.marked hdropping

/-- One is taken, then more keystrokes than the channel and the pending queue hold. -/
def flood : List LineLabel :=
  .input [0x62] :: .take ::
    List.replicate (inputChannelCapacity + inputPendingCap + 2) (.input [0x61])

theorem kept_in_order_flood : ∃ s, run step (start .prompt) flood = some s ∧
    s.pane.pendingInput.length = inputPendingCap ∧
    s.received.map Prod.snd ++ s.pane.input.queue ++ s.pane.pendingInput =
      outputs step kept (start .prompt) flood ∧
    Since step Drops Empties (start .prompt) flood := by
  have hflood : (run step (start .prompt) flood).any (fun s => decide
      (s.pane.pendingInput.length = inputPendingCap ∧ s.pane.droppingInput = true)) = true := by
    decide +kernel
  obtain ⟨s, hrun, hshow⟩ := (Option.any_eq_true _ _).mp hflood
  obtain ⟨hfull, hdropping⟩ := of_decide_eq_true hshow
  have hturn : ∀ l ∈ flood, l.inTurn = true := by
    intro l hl
    simp only [flood, List.mem_cons, List.mem_replicate] at hl
    rcases hl with rfl | rfl | ⟨-, rfl⟩ <;> rfl
  obtain ⟨hkept, -, hmark, -⟩ := kept_in_order hturn hrun
  exact ⟨s, hrun, hfull, hkept, hmark.mp hdropping⟩

/-! ## The order of production -/

/-- The numbers along the line: of what the backend has, what the channel
holds, what is pending. -/
def numbers (s : Line) : List Nat := (s.received ++ s.numbered.content).map Prod.fst

/-- Nothing on the line is ahead of a chunk produced before it. -/
def InOrder (s : Line) : Prop := s.numbers.Pairwise (· < ·)

/-- A mouse report or a reply is not accepted while anything is pending. -/
def WaitsItsTurn (s : Line) : LineLabel → Prop
  | .mouse out => out ≠ [] → s.pane.input.room = true → s.pane.pendingInput = []
  | .reply _ => s.pane.input.room = true → s.pane.pendingInput = []
  | _ => True

/-- What a step does to the numbers; none is lost while the receiver is
there. -/
abbrev Shift (s : Line) (l : LineLabel) (t : Line) : Prop :=
  ArrivalOrder.Shift (· < ·) numbers produced (s.WaitsItsTurn l)
    (t.numbered.channel.closed = false) s t

theorem typed_shift (s : Line) (bytes : Bytes) (pane : LivePane) (hl : s.WaitsItsTurn l) :
    Shift s l (s.typed bytes pane) := by
  unfold typed
  split
  · exact .of_eq (Nat.le_refl _) rfl hl
  · rcases Backlog.send_content_cases s.numbered (s.produced, bytes) with hsent | hlost
    · refine .add s.numbers [] rfl (List.append_nil _).symm ?_ (iff_of_true hl rfl)
      simp [numbers, hsent]
    · exact .of_eq (Nat.le_succ _) (by simp [numbers, hlost]) hl

theorem direct_shift (h : s.Agrees) (bytes : Bytes) (pane : LivePane)
    (hl : s.WaitsItsTurn l ↔ (s.pane.input.room = true → s.pane.pendingInput = [])) :
    Shift s l (s.direct bytes pane) := by
  have hcontent := Backlog.sendNow_content s.numbered (s.produced, bytes)
  rw [h.input, h.pending, Backlog.map_channel, Fifo.map_room, Backlog.map_pending,
    List.map_eq_nil_iff] at hl
  cases hroom : s.numbered.channel.room with
  | false =>
      rw [hroom] at hl hcontent
      refine .of_eq (Nat.le_succ _) ?_ (hl.mpr nofun)
      simp only [numbers, direct, hcontent]
      simp [Backlog.content]
  | true =>
      rw [hroom] at hl hcontent
      refine .add ((s.received ++ s.numbered.channel.queue).map Prod.fst)
        (s.numbered.pending.map Prod.fst) rfl ?_ ?_ ?_
      · simp [numbers, Backlog.content]
      · simp [numbers, direct, hcontent]
      · simp [hl]

theorem step_shift (hs : s.Agrees) (hstep : s.step l = some t) : Shift s l t := by
  cases l with
  | input bytes => exact Option.some.inj hstep ▸ typed_shift s bytes _ trivial
  | paste text => exact Option.some.inj hstep ▸ typed_shift s _ _ trivial
  | mouse out =>
      obtain rfl := Option.some.inj hstep
      split
      · rename_i hout
        exact .of_eq (Nat.le_refl _) rfl fun hne => absurd (List.isEmpty_iff.mp hout) hne
      · rename_i hout
        have hne : out ≠ [] := fun hnil => hout (List.isEmpty_iff.mpr hnil)
        exact direct_shift hs out _ ⟨fun h => h hne, fun h _ => h⟩
  | drain =>
      obtain rfl := Option.some.inj hstep
      cases hclosed : s.numbered.channel.closed with
      | false =>
          exact .of_eq (Nat.le_refl _) (by simp [numbers, Backlog.drain_content hclosed]) trivial
      | true =>
          refine .of_sublist (Nat.le_refl _) ?_ trivial fun hopen => ?_
          · simp only [numbers, Backlog.drain_content_closed hclosed]
            exact ((List.sublist_append_left _ _).append_left _).map _
          · rw [(Backlog.drain_extends s.numbered).1, hclosed] at hopen
            cases hopen
  | absorb fed => exact Option.some.inj hstep ▸ .of_eq (Nat.le_refl _) rfl trivial
  | reply bytes => exact Option.some.inj hstep ▸ direct_shift hs bytes _ Iff.rfl
  | relay e => exact Option.some.inj hstep ▸ .of_eq (Nat.le_refl _) rfl trivial
  | take =>
      obtain ⟨n, bytes, hreceived, hcontent, -, -, -, hproduced, -⟩ := take_cases hs hstep
      refine .of_eq (Nat.le_of_eq hproduced.symm) ?_ trivial
      simp [numbers, hreceived, hcontent]
  | hangUp =>
      obtain rfl := Option.some.inj hstep
      refine .of_sublist (Nat.le_refl _) ?_ trivial nofun
      exact ((List.sublist_append_right _ _).append_left _).map _

/-- A receiver does not come back. -/
theorem step_closed (hstep : s.step l = some t) (hopen : t.numbered.channel.closed = false) :
    s.numbered.channel.closed = false := by
  have htyped (bytes : Bytes) (pane : LivePane)
      (h : (s.typed bytes pane).numbered.channel.closed = false) :
      s.numbered.channel.closed = false := by
    unfold typed at h
    split at h
    · exact h
    · exact (Backlog.send_extends _ _).1.symm.trans h
  have hdirect (bytes : Bytes) (pane : LivePane)
      (h : (s.direct bytes pane).numbered.channel.closed = false) :
      s.numbered.channel.closed = false := (Backlog.sendNow_extends _ _).1.symm.trans h
  cases l with
  | input bytes => exact htyped bytes _ (Option.some.inj hstep ▸ hopen)
  | paste text => exact htyped _ _ (Option.some.inj hstep ▸ hopen)
  | mouse out =>
      obtain rfl := Option.some.inj hstep
      split at hopen
      · exact hopen
      · exact hdirect out _ hopen
  | drain =>
      obtain rfl := Option.some.inj hstep
      exact (Backlog.drain_extends _).1.symm.trans hopen
  | absorb fed | relay e =>
      obtain rfl := Option.some.inj hstep
      exact hopen
  | reply bytes => exact hdirect bytes _ (Option.some.inj hstep ▸ hopen)
  | take =>
      obtain ⟨got, -, htake⟩ := Option.bind_eq_some_iff.mp hstep
      obtain ⟨took, hrecv, rfl⟩ := Option.map_eq_some_iff.mp htake
      obtain ⟨got', hgot', rfl⟩ := Option.map_eq_some_iff.mp hrecv
      exact (Fifo.recv_some hgot').2.symm.trans hopen
  | hangUp =>
      obtain rfl := Option.some.inj hstep
      cases hopen

/-- Along every run the pane's queues hold the numbered chunks; the line is in
order when every mouse report and reply waited its turn, and, as long as the
receiver is there, only then. -/
theorem in_order_iff (hrun : run step (start onExit) as = some s) :
    s.Agrees ∧ (Along step WaitsItsTurn (start onExit) as → s.InOrder) ∧
      (s.pane.input.closed = false → s.InOrder → Along step WaitsItsTurn (start onExit) as) := by
  have hagrees := run_agrees hrun
  refine ⟨hagrees, ?_⟩
  rw [show s.pane.input.closed = s.numbered.channel.closed from congrArg Fifo.closed hagrees.input]
  exact ArrivalOrder.run_inOrder (I := Agrees) produced (fun h => ⟨h, Nat.lt_asymm h⟩)
    (fun r l t h hstep => ⟨step_agrees h hstep, step_shift h hstep⟩)
    (fun r l t hstep => step_closed hstep) (agrees_start onExit) rfl hrun

/-- A keystroke and a mouse report with nothing pending. -/
theorem in_order_iff_idle : ∃ s,
    run step (start .prompt) [.input [0x61], .mouse [0x1b, 0x5b, 0x4d], .take] = some s ∧
      s.Agrees ∧ s.InOrder := by
  obtain ⟨s, hrun⟩ : ∃ s, run step (start .prompt)
    [.input [0x61], .mouse [0x1b, 0x5b, 0x4d], .take] = some s := ⟨_, rfl⟩
  obtain ⟨hagrees, hinto, -⟩ := in_order_iff hrun
  refine ⟨s, hrun, hagrees, hinto ⟨trivial, fun t ht => ⟨fun _ _ => ?_, fun u hu => ?_⟩⟩⟩
  · obtain rfl := Option.some.inj ht
    rfl
  · exact ⟨trivial, fun _ _ => trivial⟩

/-- Keystrokes fill the channel and one more is pending; the backend takes one,
and a mouse report goes into its slot. -/
def overtaking : List LineLabel :=
  List.replicate (inputChannelCapacity + 1) (.input [0x61]) ++
    [.take, .mouse [0x1b, 0x5b, 0x4d]] ++ List.replicate inputChannelCapacity .take ++
    [.drain, .take]

theorem mouse_report_overtakes :
    ∃ s, run step (start .prompt) overtaking = some s ∧
      s.received.drop inputChannelCapacity = [(257, [0x1b, 0x5b, 0x4d]), (256, [0x61])] ∧
      ¬s.InOrder := by
  have hrun : (run step (start .prompt) overtaking).map
      (fun s => s.received.drop inputChannelCapacity) =
        some [(257, [0x1b, 0x5b, 0x4d]), (256, [0x61])] := by decide +kernel
  obtain ⟨s, hs, hdrop⟩ := Option.map_eq_some_iff.mp hrun
  refine ⟨s, hs, hdrop, fun horder => ?_⟩
  have hreceived : (s.received.map Prod.fst).Pairwise (· < ·) :=
    List.Pairwise.sublist ((List.sublist_append_left _ _).map _) horder
  have htail := hreceived.sublist ((List.drop_sublist inputChannelCapacity s.received).map _)
  rw [hdrop] at htail
  simp at htail

end Line

end PolyTerm

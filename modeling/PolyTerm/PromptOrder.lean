import PolyTerm.ArrivalOrder
import PolyTerm.PromptSlot

/-!
# The order in which prompts are shown

`Arrivals` numbers the prompts as they are enqueued and runs the same slot and
queue over numbered modals beside the answerer's own; every frame that draws a
modal adds its number to `showings`. A modal that asks again keeps its number.

A prompt that arrives while the slot is empty takes it, even if others wait:
this happens in the frame after an answer, which leaves the slot empty until
that frame ends. The showings stay in the order of arrival exactly when no
prompt arrives so (`shown_in_order_iff`).
-/

namespace PolyTerm

open Runs Answerer

structure Arrivals where
  answerer : Answerer
  /-- the answerer's modals, each with its number -/
  numbered : Slot (Nat × PromptModal)
  arrived : Nat
  /-- the number of the modal each frame has drawn, oldest first -/
  showings : List Nat

namespace Arrivals

variable {knownHosts : Option KnownHosts} {events : List Answerer.Event} {s t : Arrivals}
  {e : Answerer.Event}

def start (knownHosts : Option KnownHosts) : Arrivals := ⟨Answerer.start knownHosts, .empty, 0, []⟩

/-- The numbered slot at the end of a frame that has drawn `m`, the prompt
`n`. -/
def ended (verify : String → String → PassphraseCheck) (u : ModalInput)
    (left : Slot (Nat × PromptModal)) (n : Nat) (m : PromptModal) : Slot (Nat × PromptModal) :=
  if (m.show u).2 = .pending then { left with current := some (n, (m.show u).1) }
  else (retry verify (m.show u).1 (m.show u).2).elim left fun again => left.enqueue (n, again)

def advance (s : Arrivals) : Answerer.Event → Arrivals
  | .raise p load =>
      match s.answerer.asks load p with
      | none => { s with answerer := (react s.answerer (.raise p load)).1 }
      | some m =>
          { s with
            answerer := (react s.answerer (.raise p load)).1
            numbered := s.numbered.enqueue (s.arrived, m)
            arrived := s.arrived + 1 }
  | .frameEnd u verify written =>
      match s.numbered.promote.current with
      | none =>
          { s with
            answerer := (react s.answerer (.frameEnd u verify written)).1
            numbered := s.numbered.promote }
      | some (n, m) =>
          { s with
            answerer := (react s.answerer (.frameEnd u verify written)).1
            numbered := ended verify u s.numbered.promote.vacate n m
            showings := s.showings ++ [n] }
  | .forgetPassphrases => { s with answerer := (react s.answerer .forgetPassphrases).1 }

def step (s : Arrivals) (e : Answerer.Event) : Option Arrivals := some (s.advance e)

/-! ## The numbered modals are the answerer's -/

/-- The answerer's slot holds the numbered modals. -/
def Agrees (s : Arrivals) : Prop := s.answerer.slot = s.numbered.map Prod.snd

theorem agrees_start (knownHosts : Option KnownHosts) : (start knownHosts).Agrees := rfl

theorem advance_answerer (s : Arrivals) (e : Answerer.Event) :
    (s.advance e).answerer = (react s.answerer e).1 := by
  cases e with
  | raise p load =>
      simp only [advance]
      split <;> rfl
  | frameEnd u verify written =>
      simp only [advance]
      split <;> rfl
  | forgetPassphrases => rfl

theorem ended_map (verify : String → String → PassphraseCheck) (u : ModalInput)
    (left : Slot (Nat × PromptModal)) (n : Nat) (m : PromptModal) :
    (ended verify u left n m).map Prod.snd =
      if (m.show u).2 = .pending then { left.map Prod.snd with current := some (m.show u).1 }
      else (retry verify (m.show u).1 (m.show u).2).elim (left.map Prod.snd)
        (left.map Prod.snd).enqueue := by
  unfold ended
  split
  · rfl
  · cases retry verify (m.show u).1 (m.show u).2 with
    | none => rfl
    | some again => exact Slot.map_enqueue Prod.snd left (n, again)

theorem advance_agrees (h : s.Agrees) (e : Answerer.Event) : (s.advance e).Agrees := by
  unfold Agrees
  cases e with
  | raise p load =>
      have hslot : (react s.answerer (.raise p load)).1.slot =
          (s.answerer.asks load p).elim s.answerer.slot s.answerer.slot.enqueue := by
        simp only [react, handlePrompt_fst]
        cases s.answerer.asks load p with
        | none => rfl
        | some m => exact slot_enqueueModal s.answerer m
      rw [advance_answerer, hslot]
      simp only [advance]
      cases s.answerer.asks load p with
      | none => exact h
      | some m =>
          simp only [Option.elim_some]
          rw [Slot.map_enqueue, ← h]
  | frameEnd u verify written =>
      have hends := answerModal_ends verify written u s.answerer
      have hshown : s.answerer.shown = (s.numbered.promote.current).map Prod.snd := by
        rw [shown_eq, h, ← Slot.map_promote]
        rfl
      have hvacate : s.answerer.slot.promote.vacate = (s.numbered.promote.vacate).map Prod.snd := by
        rw [h, ← Slot.map_promote]
        rfl
      rw [advance_answerer]
      simp only [react, advance]
      cases hcurrent : s.numbered.promote.current with
      | none =>
          rw [hcurrent, Option.map_none] at hshown
          cases hends with
          | idle _ hslot _ => rw [hslot, h, Slot.map_promote]
          | stays m hm =>
              rw [hm] at hshown
              cases hshown
          | answered m hm =>
              rw [hm] at hshown
              cases hshown
      | some nm =>
          obtain ⟨n, m⟩ := nm
          rw [hcurrent, Option.map_some] at hshown
          simp only [ended_map]
          cases hends with
          | idle hm =>
              rw [hm] at hshown
              cases hshown
          | stays m' hm hanswer hslot =>
              obtain rfl := Option.some.inj (hshown.symm.trans hm)
              rw [if_pos hanswer, hslot, hvacate]
          | answered m' hm hanswer hslot =>
              obtain rfl := Option.some.inj (hshown.symm.trans hm)
              rw [if_neg hanswer, hslot, hvacate]
  | forgetPassphrases => exact h

/-- The answerer's part of a run is a run of the answerer. -/
theorem run_answerer (hrun : run step s events = some t) :
    run Answerer.step s.answerer events = some t.answerer := by
  induction events generalizing s with
  | nil =>
      obtain rfl := Option.some.inj hrun
      rfl
  | cons e events ih =>
      obtain ⟨r, hr, hrest⟩ := run_cons_eq_some.mp hrun
      obtain rfl := Option.some.inj hr
      refine run_cons_eq_some.mpr ⟨_, ?_, ih hrest⟩
      rw [advance_answerer]
      rfl

/-! ## The line of prompts -/

/-- The numbers shown, then those still to be shown. -/
def line (s : Arrivals) : List Nat := s.showings ++ s.numbered.items.map Prod.fst

/-- A prompt is shown before all that arrived after it, and not again once a
later one was shown. -/
def InOrder (s : Arrivals) : Prop := s.line.Pairwise (· ≤ ·)

/-- No prompt is enqueued while the slot is empty and others wait. -/
def WaitsBehind (s : Arrivals) : Answerer.Event → Prop
  | .raise p load =>
      s.answerer.asks load p ≠ none → s.answerer.modal = none → s.answerer.modalQueue = []
  | _ => True

/-- What a step does to the line. -/
inductive LineStep (s : Arrivals) (e : Answerer.Event) (t : Arrivals) : Prop where
  | same (arrived : t.arrived = s.arrived) (line : t.line = s.line) (waits : s.WaitsBehind e)
  /-- a modal is drawn and stays, or asks again -/
  | again (before after : List Nat) (n : Nat) (arrived : t.arrived = s.arrived)
      (old : s.line = before ++ n :: after) (new : t.line = before ++ n :: n :: after)
      (waits : s.WaitsBehind e)
  | added (before after : List Nat) (arrived : t.arrived = s.arrived + 1)
      (old : s.line = before ++ after) (new : t.line = before ++ s.arrived :: after)
      (waits : s.WaitsBehind e ↔ after = [])

theorem enqueue_line (h : s.Agrees) {p : PendingPrompt} {load : CredentialRef → Option String}
    {m : PromptModal} (hasks : s.answerer.asks load p = some m)
    (ht : t.numbered = s.numbered.enqueue (s.arrived, m)) (harrived : t.arrived = s.arrived + 1)
    (hshowings : t.showings = s.showings) : LineStep s (.raise p load) t := by
  have hmodal : s.answerer.modal = s.numbered.current.map Prod.snd := congrArg Slot.current h
  have hqueue : s.answerer.modalQueue = s.numbered.waiting.map Prod.snd := congrArg Slot.waiting h
  have hitems := Slot.items_enqueue s.numbered (s.arrived, m)
  cases hcurrent : s.numbered.current with
  | some x =>
      rw [hcurrent] at hitems hmodal
      refine .added s.line [] harrived (List.append_nil _).symm ?_ (iff_of_true ?_ rfl)
      · simp [line, ht, hshowings, hitems]
      · intro _ hnone
        rw [hmodal] at hnone
        cases hnone
  | none =>
      rw [hcurrent] at hitems hmodal
      refine .added s.showings (s.numbered.waiting.map Prod.fst) harrived ?_ ?_ ?_
      · simp [line, Slot.items, hcurrent]
      · simp [line, ht, hshowings, hitems]
      · simp [WaitsBehind, hasks, hmodal, hqueue]

theorem ended_items (verify : String → String → PassphraseCheck) (u : ModalInput)
    {left : Slot (Nat × PromptModal)} (hleft : left.current = none) (n : Nat) (m : PromptModal) :
    (ended verify u left n m).items.map Prod.fst = left.waiting.map Prod.fst ∨
      (ended verify u left n m).items.map Prod.fst = n :: left.waiting.map Prod.fst := by
  unfold ended
  split
  · exact Or.inr rfl
  · cases retry verify (m.show u).1 (m.show u).2 with
    | none =>
        refine Or.inl ?_
        simp [Slot.items, hleft]
    | some again =>
        refine Or.inr ?_
        simp [Slot.items_enqueue, hleft]

theorem advance_line (h : s.Agrees) (e : Answerer.Event) : LineStep s e (s.advance e) := by
  cases e with
  | raise p load =>
      simp only [advance]
      cases hasks : s.answerer.asks load p with
      | none => exact .same rfl rfl fun hne => absurd hasks hne
      | some m => exact enqueue_line h hasks rfl rfl rfl
  | frameEnd u verify written =>
      simp only [advance]
      cases hcurrent : s.numbered.promote.current with
      | none =>
          refine .same rfl ?_ trivial
          simp [line]
      | some nm =>
          obtain ⟨n, m⟩ := nm
          have hold : s.line = s.showings ++ n :: s.numbered.promote.waiting.map Prod.fst := by
            rw [line, ← Slot.items_promote, Slot.items_current hcurrent, List.map_cons]
          have hleft : s.numbered.promote.vacate.current = none := rfl
          rcases ended_items verify u hleft n m with hgone | hstays
          · refine .same rfl ?_ trivial
            simp only [line, hgone] at hold ⊢
            rw [hold, List.append_assoc]
            rfl
          · refine .again s.showings (s.numbered.promote.waiting.map Prod.fst) n rfl hold ?_ trivial
            simp only [line, hstays, List.append_assoc]
            rfl
  | forgetPassphrases => exact .same rfl rfl trivial

/-- Nothing on the line is lost, and what is added is the next number. -/
theorem LineStep.mem (h : LineStep s e t) (hs : ∀ n, n ∈ s.line ↔ n < s.arrived) (n : Nat) :
    n ∈ t.line ↔ n < t.arrived := by
  cases h with
  | same arrived line => rw [line, arrived, hs]
  | again before after m arrived old new =>
      rw [arrived, ← hs, old, new]
      simp
  | added before after arrived old new =>
      have hn := hs n
      rw [old, List.mem_append] at hn
      rw [new, arrived, List.mem_append, List.mem_cons, Nat.lt_succ_iff_lt_or_eq, ← hn]
      tauto

theorem LineStep.shift (h : LineStep s e t) :
    ArrivalOrder.Shift (· ≤ ·) line arrived (s.WaitsBehind e) True s t := by
  cases h with
  | same arrived line waits => exact .of_eq arrived.ge line waits
  | again before after n arrived old new waits =>
      refine .keep arrived.ge (fun m hm => ?_) waits (fun horder => ?_) fun _ horder => ?_
      · rw [new] at hm
        rw [old]
        simpa using hm
      · rw [new]
        rw [old] at horder
        obtain ⟨hbefore, hafter, hcross⟩ := List.pairwise_append.mp horder
        obtain ⟨hhead, htail⟩ := List.pairwise_cons.mp hafter
        refine List.pairwise_append.mpr ⟨hbefore, ?_, fun a ha b hb => ?_⟩
        · refine List.pairwise_cons.mpr ⟨fun b hb => ?_, hafter⟩
          rcases List.mem_cons.mp hb with rfl | hb
          · exact Nat.le_refl _
          · exact hhead b hb
        · exact hcross a ha b (by simpa using hb)
      · rw [new] at horder
        rw [old]
        exact horder.sublist ((List.sublist_cons_self _ _).append_left _)
  | added before after arrived old new waits => exact .add before after arrived old new waits

/-- Along every run the answerer's modals are the numbered ones and no number
is lost; the prompts are shown in the order they were enqueued exactly when
none is enqueued into an empty slot with others waiting. -/
theorem shown_in_order_iff (hrun : run step (start knownHosts) events = some s) :
    run Answerer.step (Answerer.start knownHosts) events = some s.answerer ∧ s.Agrees ∧
      (∀ n, n ∈ s.line ↔ n < s.arrived) ∧
      (s.InOrder ↔ Along step WaitsBehind (start knownHosts) events) := by
  have hinv : s.Agrees ∧ ∀ n, n ∈ s.line ↔ n < s.arrived := by
    refine Runs.invariant (I := fun s => s.Agrees ∧ ∀ n, n ∈ s.line ↔ n < s.arrived)
      (fun r e t h ht => ?_) ⟨agrees_start knownHosts, by simp [start, line]⟩ hrun
    obtain rfl := Option.some.inj ht
    exact ⟨advance_agrees h.1 e, (advance_line h.1 e).mem h.2⟩
  have horder : (Along step WaitsBehind (start knownHosts) events → s.line.Pairwise (· ≤ ·)) ∧
      (True → s.line.Pairwise (· ≤ ·) → Along step WaitsBehind (start knownHosts) events) := by
    refine ArrivalOrder.run_inOrder (I := Agrees) arrived
      (fun h => ⟨Nat.le_of_lt h, Nat.not_le_of_lt h⟩) (fun r e t h ht => ?_)
      (fun _ _ _ _ _ => trivial) (agrees_start knownHosts) rfl hrun
    obtain rfl := Option.some.inj ht
    exact ⟨advance_agrees h e, (advance_line h e).shift⟩
  exact ⟨run_answerer hrun, hinv.1, hinv.2, horder.2 trivial, horder.1⟩

/-- A host key to check. -/
def keyAsked (n : Nat) : Answerer.Event :=
  .raise (.hostKey ⟨⟨"db", 22, "ssh-ed25519"⟩, "SHA256:k", [1], ⟨n⟩⟩) fun _ => none

/-- A frame in which the modal shown is accepted. -/
def acceptShown : Answerer.Event :=
  .frameEnd ⟨false, false, true, false, false, false, fun _ => "", false⟩ (fun _ _ => .correct) true

/-- Two host keys to check; the first is accepted, and before that frame's end
reaches the second a third one comes in. -/
def lateArrival : List Answerer.Event :=
  [keyAsked 0, keyAsked 1, acceptShown, keyAsked 2, acceptShown, acceptShown]

theorem lateArrival_shown_first :
    ∃ s, run step (start none) lateArrival = some s ∧ s.showings = [0, 2, 1] ∧ ¬s.InOrder :=
  ⟨_, rfl, by decide, by unfold InOrder; decide⟩

/-- All three come in before the first is answered. -/
def earlyArrival : List Answerer.Event :=
  [keyAsked 0, keyAsked 1, keyAsked 2, acceptShown, acceptShown, acceptShown]

theorem shown_in_order_iff_threeKeys :
    (∃ s, run step (start none) earlyArrival = some s ∧ s.showings = [0, 1, 2] ∧
        Along step WaitsBehind (start none) earlyArrival) ∧
      ¬Along step WaitsBehind (start none) lateArrival := by
  have hearly : ∃ s, run step (start none) earlyArrival = some s ∧ s.showings = [0, 1, 2] ∧
      s.InOrder := ⟨_, rfl, by decide, by unfold InOrder; decide⟩
  have hlate : ∃ s, run step (start none) lateArrival = some s ∧ ¬s.InOrder :=
    ⟨_, rfl, by unfold InOrder; decide⟩
  obtain ⟨s, hrun, hshown, horder⟩ := hearly
  obtain ⟨t, hrun', hnot⟩ := hlate
  exact ⟨⟨s, hrun, hshown, (shown_in_order_iff hrun).2.2.2.mp horder⟩,
    fun halong => hnot ((shown_in_order_iff hrun').2.2.2.mpr halong)⟩

end Arrivals

end PolyTerm

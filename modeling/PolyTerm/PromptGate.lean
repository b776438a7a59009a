import PolyTerm.Frames
import PolyTerm.KeyIsolation
import PolyTerm.PromptSlot

/-!
# The keyboard while a prompt waits

The window and the answerer side by side. A pump hands the prompts of all
panes to the answerer, in whatever order the panes come; the keyboard is gated
by the modal, besides all else; and the end of a frame, after the settings
dialog, promotes, draws and answers.

The gate looks at the modal, and a prompt may wait in the queue with no modal
open: from an answer to the end of the next frame. No key gets past a prompt
when no modal is answered for good while another prompt waits behind it.
-/

namespace PolyTerm

open Runs Answerer

/-- The stages that raise prompts, look at the modal, or answer it. -/
def FrameStep.prompting : FrameStep → Bool
  | .launch _ _ | .pump _ | .keys _ _ _ _ | .settings _ => true
  | _ => false

/-- The prompts a pump collects, pane by pane. -/
def App.raised (app : App) (fed : SessionId → LivePane.Fed) (order : List SessionId) :
    List PendingPrompt :=
  order.flatMap fun s => ((app.live.lookup s).map fun p => (p.pump (fed s)).2).getD []

/-- The answerer after some things have happened to it. -/
def Answerer.after (a : Answerer) (events : List Answerer.Event) : Answerer :=
  events.foldl (fun a e => (react a e).1) a

structure Screen where
  window : Window
  answerer : Answerer

inductive ScreenStep where
  | launch (env : Env) (initial : SessionSpec) (knownHosts : Option KnownHosts)
  /-- `order` is the order in which the map of panes is gone through -/
  | pump (fed : SessionId → LivePane.Fed) (order : List SessionId)
      (load : CredentialRef → Option String)
  | keys (env : Env) (logStarts elsewhere : Bool) (events : List InputEvent)
  | endFrame (choice : Option (Bool × Bool)) (forget : Bool) (u : ModalInput)
      (verify : String → String → PassphraseCheck) (written : Bool)
  | stage (s : FrameStep)

namespace Screen

variable {lib : TileLib} {x y : Screen} {l : ScreenStep}

def start : Screen := ⟨Window.start, .start none⟩

def step (lib : TileLib) (x : Screen) : ScreenStep → Option Screen
  | .launch env initial knownHosts =>
      (x.window.step lib (.launch env initial)).map fun w => ⟨w, .start knownHosts⟩
  | .pump fed order load =>
      if order.isPerm x.window.app.live.keys then
        (x.window.step lib (.pump fed)).map fun w =>
          ⟨w, x.answerer.after ((x.window.app.raised fed order).map (.raise · load))⟩
      else none
  | .keys env logStarts elsewhere events =>
      (x.window.step lib
        (.keys env logStarts (elsewhere || x.answerer.modal.isSome) events)).map fun w =>
          { x with window := w }
  | .endFrame choice forget u verify written =>
      (x.window.step lib (.settings choice)).map fun w =>
        ⟨w, x.answerer.after
          ((if forget then [.forgetPassphrases] else []) ++ [.frameEnd u verify written])⟩
  | .stage s =>
      if s.prompting then none
      else (x.window.step lib s).map fun w => { x with window := w }

/-- What the frame's input is handed to. -/
def delivered (lib : TileLib) (x : Screen) : ScreenStep → List Delivery
  | .keys env logStarts elsewhere events =>
      if x.window.app.dialogOpen (elsewhere || x.answerer.modal.isSome) then []
      else (x.window.app.routeKeyboard lib env logStarts events).2
  | _ => []

/-- While a prompt waits, the frame's input is handed to nobody and changes
nothing, whatever else may or may not have the keyboard. -/
def Withheld (lib : TileLib) (x : Screen) : ScreenStep → Prop
  | .keys env logStarts elsewhere events =>
      x.answerer.held ≠ [] →
        x.delivered lib (.keys env logStarts elsewhere events) = [] ∧
          ∀ y, x.step lib (.keys env logStarts elsewhere events) = some y →
            y.window.app = x.window.app
  | _ => True

/-- A modal is answered for good only with no prompt behind it. -/
def AnswersLast (x : Screen) : ScreenStep → Prop
  | .endFrame _ _ u verify _ =>
      ∀ m, x.answerer.shown = some m → (m.show u).2 ≠ .pending →
        retry verify (m.show u).1 (m.show u).2 = none → x.answerer.taken.modalQueue = []
  | _ => True

end Screen

/-! ## A prompt waits in the queue only behind a modal -/

namespace Answerer

variable {a b : Answerer}

def Fronted (a : Answerer) : Prop := a.slot.current = none → a.slot.waiting = []

theorem fronted_start (knownHosts : Option KnownHosts) : (start knownHosts).Fronted := fun _ => rfl

theorem fronted_enqueue (s : Slot PromptModal) (m : PromptModal) :
    (s.enqueue m).current ≠ none := by
  unfold Slot.enqueue
  cases s.current <;> simp

theorem Fronted.held (h : a.Fronted) (hheld : a.held ≠ []) : a.modal.isSome = true := by
  cases hmodal : a.modal with
  | some m => rfl
  | none =>
      have hqueue : a.modalQueue = [] := h hmodal
      exact absurd (by simp [Answerer.held, hmodal, hqueue]) hheld

theorem Fronted.raise (h : a.Fronted) (p : PendingPrompt) (load : CredentialRef → Option String) :
    (react a (.raise p load)).1.Fronted := by
  simp only [react, handlePrompt_fst]
  cases a.asks load p with
  | none => exact h
  | some m =>
      intro hnone
      rw [Option.elim_some, slot_enqueueModal] at hnone
      exact absurd hnone (fronted_enqueue a.slot m)

theorem Fronted.raises (h : a.Fronted) (prompts : List PendingPrompt)
    (load : CredentialRef → Option String) :
    (a.after (prompts.map (.raise · load))).Fronted := by
  induction prompts generalizing a with
  | nil => exact h
  | cons p prompts ih => exact ih (h.raise p load)

/-- The end of a frame that answers no modal for good with another behind
it. -/
theorem fronted_ends {verify : String → String → PassphraseCheck} {u : ModalInput}
    (h : Ends verify u a b)
    (hlast : ∀ m, a.shown = some m → (m.show u).2 ≠ .pending →
      retry verify (m.show u).1 (m.show u).2 = none → a.taken.modalQueue = []) : b.Fronted := by
  intro hnone
  cases h with
  | idle _ hslot =>
      rw [hslot] at hnone ⊢
      have hitems := Slot.promote_none hnone
      rw [← Slot.items_promote, Slot.items, hnone] at hitems
      exact hitems
  | stays m _ _ hslot =>
      rw [hslot] at hnone
      cases hnone
  | answered m hm hanswer hslot =>
      cases hretry : retry verify (m.show u).1 (m.show u).2 with
      | none =>
          rw [hslot, hretry]
          have hwaiting := hlast m hm hanswer hretry
          exact (congrArg Slot.waiting (slot_taken a)).symm.trans hwaiting
      | some again =>
          rw [hslot, hretry, Option.elim_some] at hnone
          exact absurd hnone (fronted_enqueue _ again)

end Answerer

namespace Screen

variable {lib : TileLib} {x y : Screen} {l : ScreenStep}

theorem step_fronted (h : x.answerer.Fronted) (hlast : x.AnswersLast l)
    (hstep : x.step lib l = some y) : y.answerer.Fronted := by
  cases l with
  | launch env initial knownHosts =>
      obtain ⟨w, -, rfl⟩ := Option.map_eq_some_iff.mp hstep
      exact fronted_start knownHosts
  | pump fed order load =>
      simp only [step] at hstep
      split at hstep
      · obtain ⟨w, -, rfl⟩ := Option.map_eq_some_iff.mp hstep
        exact h.raises _ load
      · cases hstep
  | keys env logStarts elsewhere events =>
      obtain ⟨w, -, rfl⟩ := Option.map_eq_some_iff.mp hstep
      exact h
  | endFrame choice forget u verify written =>
      obtain ⟨w, -, rfl⟩ := Option.map_eq_some_iff.mp hstep
      cases forget with
      | false => exact fronted_ends (answerModal_ends verify written u x.answerer) hlast
      | true =>
          have hends := answerModal_ends verify written u
            { x.answerer with passphraseCache := ∅ }
          refine fronted_ends hends fun m hm hanswer hretry => ?_
          rw [shown_eq] at hm
          have hwaiting := hlast m ((shown_eq x.answerer).trans hm) hanswer hretry
          have htaken := congrArg Slot.waiting (slot_taken x.answerer)
          exact (congrArg Slot.waiting (slot_taken { x.answerer with passphraseCache := ∅ })).trans
            (htaken.symm.trans hwaiting)
  | stage s =>
      simp only [step] at hstep
      split at hstep
      · cases hstep
      · obtain ⟨w, -, rfl⟩ := Option.map_eq_some_iff.mp hstep
        exact h

theorem withheld_of_fronted (h : x.answerer.Fronted) (l : ScreenStep) : x.Withheld lib l := by
  cases l with
  | keys env logStarts elsewhere events =>
      intro hheld
      have hmodal := h.held hheld
      have hopen : x.window.app.dialogOpen (elsewhere || x.answerer.modal.isSome) = true := by
        simp [App.dialogOpen, hmodal]
      refine ⟨by simp only [delivered, hopen, if_true], fun y hy => ?_⟩
      obtain ⟨w, hw, rfl⟩ := Option.map_eq_some_iff.mp hy
      simp only [Window.step, App.keyboard, hopen, if_true] at hw
      split at hw
      · exact Option.some.inj hw ▸ rfl
      · cases hw
  | launch | pump | endFrame | stage => trivial

/-- In every run in which modals are answered for good only with no prompt
behind them, no key gets past a waiting prompt. -/
theorem no_typing_past_prompt {as : List ScreenStep} (h : Along (step lib) AnswersLast start as) :
    Along (step lib) (Withheld lib) start as :=
  along_of_invariant (I := fun x => x.answerer.Fronted)
    (fun _ _ _ hx hlast hstep => step_fronted hx hlast hstep)
    (fun _ l hx _ => withheld_of_fronted hx l) (fronted_start none) h

/-- A shell is open, and its backend raises `n` prompts; into the next frame, up
to the keyboard. -/
def asking (n : Nat) : List ScreenStep :=
  .launch .willing localShellSpec none ::
    (List.range n).map (fun k => .stage (.backend ⟨0⟩ (.report (.hostKey
      ⟨⟨"db", 22, "ssh-ed25519"⟩, "SHA256:k", [1], ⟨k⟩⟩)))) ++
    [.pump (fun _ => .blank) [⟨0⟩] fun _ => none, .stage .closeFinished]

def typeA : ScreenStep := .keys .willing false false [.text [0x61]]

/-- One prompt waits, in the modal. -/
theorem no_typing_past_prompt_one :
    ∃ x, run (step tileReference) start (asking 1) = some x ∧ x.answerer.held ≠ [] ∧
      x.Withheld tileReference typeA := by
  have hend : (run (step tileReference) start (asking 1)).any
      (fun x => decide (x.answerer.held ≠ [])) = true := by
    decide +kernel
  obtain ⟨x, hrun, hx⟩ := (Option.any_eq_true _ _).mp hend
  have hlast : Along (step tileReference) AnswersLast start (asking 1 ++ [typeA]) :=
    ⟨trivial, fun _ _ => ⟨trivial, fun _ _ => ⟨trivial, fun _ _ => ⟨trivial, fun _ _ =>
      ⟨trivial, fun _ _ => trivial⟩⟩⟩⟩⟩
  exact ⟨x, hrun, of_decide_eq_true hx,
    (along_concat.mp (no_typing_past_prompt hlast)).2 x hrun⟩

/-- The rest of a frame, in which the modal's key is accepted. -/
def acceptOne : List ScreenStep :=
  [.keys .willing false false [], .stage (.panel .willing []), .stage (.draw .willing ∅),
    .stage (.drawn .willing), .stage (.pasteDialog .idle), .stage (.forwardsDialog .idle),
    .stage (.confirmCloseDialog .idle),
    .endFrame none false ⟨false, false, true, false, false, false, fun _ => "", false⟩
      (fun _ _ => .correct) true]

/-- Two prompts come in, and the first is answered: in the next frame the other
one waits, and what is typed goes to the shell. -/
theorem types_past_waiting_prompt :
    ∃ x, run (step tileReference) start
        (asking 2 ++ acceptOne ++ [.pump (fun _ => .blank) [⟨0⟩] fun _ => none,
          .stage .closeFinished]) = some x ∧
      x.answerer.held ≠ [] ∧ x.delivered tileReference typeA = [⟨0, ⟨0⟩, [0x61]⟩] ∧
      ¬x.Withheld tileReference typeA := by
  have hend : (run (step tileReference) start
      (asking 2 ++ acceptOne ++ [.pump (fun _ => .blank) [⟨0⟩] fun _ => none,
        .stage .closeFinished])).any
      (fun x => decide (x.answerer.held ≠ [] ∧
        x.delivered tileReference typeA = [⟨0, ⟨0⟩, [0x61]⟩])) = true := by
    decide +kernel
  obtain ⟨x, hrun, hx⟩ := (Option.any_eq_true _ _).mp hend
  obtain ⟨hheld, hdelivered⟩ := of_decide_eq_true hx
  refine ⟨x, hrun, hheld, hdelivered, fun hwithheld => ?_⟩
  have hnone := (hwithheld hheld).1
  rw [show ScreenStep.keys .willing false false [.text [0x61]] = typeA from rfl,
    hdelivered] at hnone
  cases hnone

end Screen

end PolyTerm

import PolyTerm.KeyIsolation

/-!
# The calls a frame's input makes

What one `route_keyboard` hands to the panes, call by call: one call for all the
bytes gathered, then one for each paste up to the first that waits for a
confirmation. Carrying the calls out, in order, is what the function does to
the panes (`routeKeyboard_fst`).
-/

namespace PolyTerm

/-- One call of `send_input`. Its bytes come in pieces, each with the place of
the event it stands for. -/
structure Send where
  session : SessionId
  pieces : List (Nat × Bytes)
deriving DecidableEq, Repr

namespace Send

def bytes (x : Send) : Bytes := x.pieces.flatMap Prod.snd

/-- What the call does to the pane. -/
def toPane (p : LivePane) (x : Send) : LivePane := (p.sendInput x.bytes).onTyped

/-- Carry the call out. -/
def apply (live : Table SessionId LivePane) (x : Send) : Table SessionId LivePane :=
  live.modify x.session (toPane · x)

end Send

namespace App

def outSends (app : App) (out : List (Nat × Bytes)) : List Send :=
  if (out.flatMap Prod.snd).isEmpty then []
  else (app.recipients.filter (· ∈ app.live)).map (⟨·, out⟩)

/-- The calls for one paste. -/
def pasteSend (app : App) (recipients : List SessionId) (i : Nat) (text : Bytes) : List Send :=
  recipients.filterMap fun s =>
    (app.live.lookup s).map fun p => ⟨s, [(i, LivePane.wrapPaste text p.bracketedPaste)]⟩

def pasteSends (app : App) : List (Nat × Bytes) → List Send
  | [] => []
  | (i, text) :: rest =>
      if hasNewline text then [] else app.pasteSend app.recipients i text ++ app.pasteSends rest

/-- The paste that is held. -/
def heldPaste (app : App) (pastes : List (Nat × Bytes)) : Option PendingPaste :=
  (pastes.find? fun paste => hasNewline paste.2).map fun paste => ⟨paste.2, app.recipients⟩

def keyboardSends (logStarts : Bool) (app : App) (events : List InputEvent) : List Send :=
  match app.focusedSession with
  | none => []
  | some focused =>
      if (app.live.lookup focused).any (·.finished) then []
      else
        let routing := Routing.events logStarts focused app events
        routing.app.outSends routing.out ++ routing.app.pasteSends routing.pastes

end App

/-! ## Carrying calls out -/

theorem Table.modify_of_notMem {κ α : Type*} [DecidableEq κ] {t : Table κ α} {k : κ}
    (h : k ∉ t) (f : α → α) : t.modify k f = t := by
  unfold Table.modify
  rw [AList.lookup_eq_none.mpr h]

theorem Table.modify_congr {κ α : Type*} [DecidableEq κ] {t : Table κ α} {k : κ} {f g : α → α}
    (h : ∀ a, t.lookup k = some a → f a = g a) : t.modify k f = t.modify k g := by
  unfold Table.modify
  cases hk : t.lookup k with
  | none => rfl
  | some a => simp only [h a hk]

namespace App

variable {app : App}

theorem deliverOut_fst (app : App) (out : List (Nat × Bytes)) :
    (app.deliverOut out).1 =
      { app with live := (app.outSends out).foldl Send.apply app.live } := by
  cases hempty : (out.flatMap Prod.snd).isEmpty with
  | true => simp only [deliverOut, outSends, hempty, if_true, List.foldl_nil]
  | false =>
      have hfold : ∀ (recipients : List SessionId) (live : Table SessionId LivePane),
          (∀ s, s ∈ live ↔ s ∈ app.live) →
          recipients.foldl (fun live s =>
              live.modify s fun p => (p.sendInput (out.flatMap Prod.snd)).onTyped) live =
            ((recipients.filter (· ∈ app.live)).map (⟨·, out⟩)).foldl Send.apply live := by
        intro recipients
        induction recipients with
        | nil => exact fun _ _ => rfl
        | cons s recipients ih =>
            intro live hlive
            rw [List.foldl_cons, List.filter_cons]
            split
            · rw [List.map_cons, List.foldl_cons]
              exact ih _ fun s' => Table.mem_modify.trans (hlive s')
            · rename_i hs
              rw [Table.modify_of_notMem fun hmem => hs (decide_eq_true ((hlive s).mp hmem))]
              exact ih live hlive
      simp only [deliverOut, outSends, hempty, Bool.false_eq_true, if_false, sendEach,
        hfold _ _ fun _ => Iff.rfl]

theorem deliverPaste_eq (app : App) (i : Nat) (text : Bytes) (recipients : List SessionId) :
    app.deliverPaste text recipients =
      { app with live := (app.pasteSend recipients i text).foldl Send.apply app.live } := by
  have hfold : ∀ (recipients : List SessionId) (live : Table SessionId LivePane),
      (∀ s, (live.lookup s).map (·.bracketedPaste) =
        (app.live.lookup s).map (·.bracketedPaste)) →
      recipients.foldl (fun live s => live.modify s fun p => (p.sendPaste text).onTyped) live =
        (app.pasteSend recipients i text).foldl Send.apply live := by
    intro recipients
    induction recipients with
    | nil => exact fun _ _ => rfl
    | cons s recipients ih =>
        intro live hmodes
        have hmode := hmodes s
        rw [List.foldl_cons, pasteSend, List.filterMap_cons]
        cases hs : app.live.lookup s with
        | none =>
            rw [hs, Option.map_none, Option.map_eq_none_iff] at hmode
            rw [Table.modify_of_notMem (AList.lookup_eq_none.mp hmode)]
            exact ih live hmodes
        | some p =>
            rw [hs, Option.map_some] at hmode
            have hsame : live.modify s (fun p => (p.sendPaste text).onTyped) =
                Send.apply live ⟨s, [(i, LivePane.wrapPaste text p.bracketedPaste)]⟩ := by
              refine Table.modify_congr fun q hq => ?_
              rw [hq, Option.map_some] at hmode
              simp [Send.toPane, Send.bytes, LivePane.sendPaste, Option.some.inj hmode]
            rw [hsame]
            refine ih _ fun s' => ?_
            rw [← hmodes s', Send.apply, Table.lookup_modify]
            split
            · rw [Option.map_map]
              exact congrArg (Option.map · _) (funext fun q => q.sendInput_bracketedPaste _)
            · rfl
  rw [deliverPaste, sendEach, hfold _ _ fun _ => rfl]

/-- The modes of the panes are all that the calls for a paste depend on. -/
theorem pasteSend_congr {app app' : App} (hmodes : app.SameModes app')
    (recipients : List SessionId) (i : Nat) (text : Bytes) :
    app'.pasteSend recipients i text = app.pasteSend recipients i text := by
  refine List.filterMap_congr fun s _ => ?_
  have hmode := congrArg (Option.map fun mode =>
    (⟨s, [(i, LivePane.wrapPaste text mode)]⟩ : Send)) (hmodes s)
  rwa [Option.map_map, Option.map_map] at hmode

theorem pasteSends_congr {app app' : App} (hmodes : app.SameModes app')
    (hrecipients : app'.recipients = app.recipients) (pastes : List (Nat × Bytes)) :
    app'.pasteSends pastes = app.pasteSends pastes := by
  induction pastes with
  | nil => rfl
  | cons paste pastes ih =>
      rw [pasteSends, pasteSends, ih, hrecipients, pasteSend_congr hmodes]

theorem routePastes_fst (app : App) (pastes : List (Nat × Bytes)) :
    (app.routePastes pastes).1 = { app with
      live := (app.pasteSends pastes).foldl Send.apply app.live
      pendingPaste := (app.heldPaste pastes).or app.pendingPaste } := by
  induction pastes generalizing app with
  | nil => rfl
  | cons paste pastes ih =>
      obtain ⟨i, text⟩ := paste
      cases hnew : hasNewline text with
      | true => simp [routePastes, pasteSends, heldPaste, hnew]
      | false =>
          obtain ⟨hfocus, hmodes⟩ := app.deliverPaste_same text app.recipients
          have hsends := pasteSends_congr hmodes hfocus.recipients pastes
          have hheld : (app.deliverPaste text app.recipients).heldPaste pastes =
              app.heldPaste ((i, text) :: pastes) := by
            simp [heldPaste, hnew, hfocus.recipients]
          simp only [routePastes, hnew, Bool.false_eq_true, if_false, ih, hsends, hheld, pasteSends,
            List.foldl_append]
          rw [deliverPaste_eq app i]

variable (lib : TileLib) (env : Env) (logStarts : Bool) (events : List InputEvent)

/-- The app after a frame's input: the pass over the events, then the calls, and
the paste that is held. -/
theorem routeKeyboard_fst {focused : SessionId} (hfocused : app.focusedSession = some focused)
    (hrunning : (app.live.lookup focused).any (·.finished) = false) :
    (app.routeKeyboard lib env logStarts events).1 =
      { (Routing.events logStarts focused app events).app with
        live := (app.keyboardSends logStarts events).foldl Send.apply
          (Routing.events logStarts focused app events).app.live
        pendingPaste := ((Routing.events logStarts focused app events).app.heldPaste
            (Routing.events logStarts focused app events).pastes).or
          (Routing.events logStarts focused app events).app.pendingPaste } := by
  obtain ⟨hfocus, hmodes⟩ := (Routing.events logStarts focused app events).app.deliverOut_same
    (Routing.events logStarts focused app events).out
  have hsends := pasteSends_congr hmodes hfocus.recipients
    (Routing.events logStarts focused app events).pastes
  simp only [routeKeyboard, keyboardSends, hfocused, hrunning, Bool.false_eq_true, if_false,
    routePastes_fst, hsends, heldPaste, hfocus.recipients, List.foldl_append]
  rw [deliverOut_fst]

end App

end PolyTerm

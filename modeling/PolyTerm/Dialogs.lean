import PolyTerm.Keyboard

/-!
# The app's own dialogs

The paste confirmation, the forwards of a connection, and the confirmation
before a close that tears tunnels down. Each is drawn once a frame; what the
user did with its widgets in that frame is the argument.
-/

namespace PolyTerm

/-! ## A forward's draft -/

/-- A port from 1 to 65535. -/
def parsePort (s field : String) : Except String UInt16 :=
  match parseU16 (trim s) with
  | some p => if p = 0 then .error (field ++ " must be a number 1–65535.") else .ok p
  | none => .error (field ++ " must be a number 1–65535.")

namespace ForwardForm

/-- The target of a draft; a dynamic forward names its target per connection. -/
def toTarget (form : ForwardForm) : Except String (String × UInt16) :=
  match form.kind with
  | .dynamic => .ok ("", 0)
  | .local | .remote =>
      match nonBlank form.targetHost with
      | none => .error "Target host is required."
      | some host => (parsePort form.targetPort "Target port").map fun port => (host, port)

/-- The forward a draft asks for, or what is wrong with the draft. -/
def toSpec (form : ForwardForm) : Except String ForwardSpec :=
  let bindHost := (nonBlank form.bindHost).getD "127.0.0.1"
  (parsePort form.bindPort "Listen port").bind fun bindPort =>
    form.toTarget.map fun (targetHost, targetPort) =>
      ⟨form.kind, bindHost, bindPort, targetHost, targetPort⟩

/-- After an add: ready for the next one. -/
def cleared (form : ForwardForm) : ForwardForm :=
  { form with bindPort := "", targetHost := "", targetPort := "", error := none }

end ForwardForm

/-! ## The dialogs -/

/-- The buttons of a confirmation, and the window's own close button. -/
structure DialogInput where
  closed : Bool
  confirm : Bool
  cancel : Bool
deriving DecidableEq, Repr

structure ForwardsInput where
  closed : Bool
  /-- the draft's fields as they are left -/
  form : ForwardForm
  /-- the row whose remove button was pressed -/
  remove : Option ForwardId
  add : Bool

namespace App

def showPasteConfirmDialog (app : App) (input : DialogInput) : App :=
  match app.pendingPaste with
  | none => app
  | some pending =>
      let app := { app with pendingPaste := none }
      if input.closed || input.cancel then app
      else if input.confirm then app.deliverPaste pending.text pending.recipients
      else { app with pendingPaste := some pending }

/-- Ask the dialog's connection for a new forward, if the draft makes one. -/
def addFromForm (app : App) (dialog : ForwardsDialog) : App × ForwardsDialog :=
  match dialog.form.toSpec with
  | .ok spec =>
      ({ app with
          live := app.live.modify dialog.pane (·.addForward ⟨app.minted⟩ spec)
          minted := app.minted + 1 },
        { dialog with form := dialog.form.cleared })
  | .error e => (app, { dialog with form := { dialog.form with error := some e } })

def removeForward (app : App) (pane : SessionId) (id : ForwardId) : App :=
  { app with live := app.live.modify pane (·.removeForward id) }

def showForwardsDialog (app : App) (input : ForwardsInput) : App :=
  match app.forwardsDialog with
  | none => app
  | some dialog =>
      let app := { app with forwardsDialog := none }
      if dialog.pane ∉ app.live || input.closed then app
      else
        let dialog := { dialog with form := { input.form with error := dialog.form.error } }
        let app := input.remove.elim app (app.removeForward dialog.pane)
        let (app, dialog) := if input.add then app.addFromForm dialog else (app, dialog)
        { app with forwardsDialog := some dialog }

/-- How many tunnels the pane at `tile` has up. -/
def activeForwardsAt (app : App) (tile : TileId) : Nat :=
  ((app.paneAt tile).map LivePane.activeForwardCount).getD 0

def showConfirmCloseDialog (lib : TileLib) (app : App) (input : DialogInput) : App :=
  match app.confirmClose with
  | none => app
  | some pending =>
      let settled := { app with confirmClose := none }
      -- the forwards, or the pane, went away while asking
      if app.activeForwardsAt pending.tile = 0 then settled.closeTile lib pending.tile
      else if input.cancel || input.closed then settled
      else if input.confirm then settled.closeTile lib pending.tile
      else app

end App

end PolyTerm

import Mathlib.Data.List.Sort
import PolyTerm.Flushed
import PolyTerm.Pastes

/-!
# The order of a frame's input

The typed bytes of a frame are gathered in one buffer and its pastes in
another; the second is flushed behind the first, and up to the first paste that
is held. So what a recipient is sent is the frame's input, in order, exactly
when no paste has typing behind it and no held paste another paste: typing
overtakes the pastes in front of it, and the pastes behind a held one are lost.
-/

namespace PolyTerm

/-! ## What an event is to send -/

namespace InputEvent

/-- The bytes of a text or a key press, if any. -/
def typed (e : InputEvent) : Option Bytes :=
  Option.filter (· ≠ []) <| match e with
    | .text bytes => some bytes
    | .key k true m => keyBytes k m
    | _ => none

/-- The bytes of a paste that is not held, if any. -/
def straight (bracketed : Bool) (e : InputEvent) : Option Bytes :=
  ((e.pasted.filter (!hasNewline ·)).map (LivePane.wrapPaste · bracketed)).filter (· ≠ [])

/-- The bytes of a text, a key press or a paste that is not held, if any. -/
def encoding (bracketed : Bool) (e : InputEvent) : Option Bytes :=
  e.typed.or (e.straight bracketed)

theorem straight_eq_none_of_typed {e : InputEvent} (h : e.typed ≠ none) (bracketed : Bool) :
    e.straight bracketed = none := by
  cases e with
  | paste text => exact absurd rfl h
  | _ => rfl

theorem straight_eq_none_of_confirms {e : InputEvent} (h : e.confirms = true) (bracketed : Bool) :
    e.straight bracketed = none := by
  cases e with
  | paste text =>
      have hnew : hasNewline text = true := h
      simp [straight, pasted, hnew]
  | _ => rfl

/-- What the pass gathers of an event that is no copy is what is typed. -/
theorem typed_eq_some {app : App} {focused : SessionId} {before : List InputEvent}
    {e : InputEvent} {b : Bytes} :
    e.typed = some b ↔ (app.Gathers focused before b e ∧ e.isCopy = false) ∧ b ≠ [] := by
  unfold typed
  rw [Option.filter_eq_some_iff, decide_eq_true_eq]
  refine and_congr_left fun _ => ?_
  cases e with
  | text bytes =>
      simp only [Option.some.injEq, App.Gathers, isCopy, and_true]
      exact eq_comm
  | key k pressed m => cases pressed <;> simp [App.Gathers, isCopy]
  | _ => simp [App.Gathers, isCopy]

end InputEvent

/-- The input of a frame for a pane, each piece with the place of its event. -/
def encodings (bracketed : Bool) (events : List InputEvent) : List (Nat × Bytes) :=
  events.zipIdx.filterMap fun e => (e.1.encoding bracketed).map (e.2, ·)

namespace App

/-- What the session is sent in the frame, less the interrupts of its copies. -/
def sentTo (logStarts : Bool) (app : App) (events : List InputEvent) (s : SessionId) :
    List (Nat × Bytes) :=
  (((app.keyboardSends logStarts events).filter (·.session = s)).flatMap Send.pieces).filter
    fun piece => piece.2 ≠ [] ∧ ¬events[piece.1]?.any InputEvent.isCopy

/-- Each live recipient is sent the frame's input in its order, and each paste
with a newline is held. -/
structure EventsKept (lib : TileLib) (env : Env) (logStarts : Bool) (app : App)
    (events : List InputEvent) : Prop where
  sent : ∀ s ∈ app.recipients, ∀ p, app.live.lookup s = some p →
    app.sentTo logStarts events s = encodings p.bracketedPaste events
  held : (app.routeKeyboard lib env logStarts events).1.pendingPaste.toList =
    ((events.filterMap InputEvent.pasted).filter hasNewline).map (⟨·, app.recipients⟩)

/-- Behind a held paste stands no other paste, and behind a paste that a
recipient is sent nothing typed. -/
structure PastesLast (app : App) (events : List InputEvent) : Prop where
  held : events.Pairwise fun e e' => e.confirms = true → e'.confirms = false
  sent : ∀ s ∈ app.recipients, ∀ p, app.live.lookup s = some p →
    events.Pairwise fun e e' =>
      (e.confirms = true → e'.straight p.bracketedPaste = none) ∧
        (e.straight p.bracketedPaste ≠ none → e'.typed = none)

end App

/-! ## The gathered bytes -/

/-- An event adds its own bytes at most, and holds no paste. -/
theorem Routing.event_adds (logStarts : Bool) (focused : SessionId) (r : Routing)
    (e : InputEvent × Nat) :
    (∃ b : Option Bytes,
        (r.event logStarts focused e).out = r.out ++ b.toList.map (e.2, ·)) ∧
      (r.event logStarts focused e).app.pendingPaste = r.app.pendingPaste := by
  obtain ⟨e, i⟩ := e
  have hnone : ∃ b : Option Bytes, r.out = r.out ++ b.toList.map (i, ·) :=
    ⟨none, (List.append_nil _).symm⟩
  have hcopy : (∃ b : Option Bytes,
        (r.copySelection focused i).out = r.out ++ b.toList.map (i, ·)) ∧
      (r.copySelection focused i).app.pendingPaste = r.app.pendingPaste := by
    unfold Routing.copySelection
    cases r.app.live.lookup focused with
    | none => exact ⟨hnone, rfl⟩
    | some p =>
        simp only [LivePane.copySelection_eq]
        cases p.copyText with
        | some text => exact ⟨hnone, rfl⟩
        | none => exact ⟨⟨some [0x03], rfl⟩, rfl⟩
  cases e with
  | text bytes => exact ⟨⟨some bytes, rfl⟩, rfl⟩
  | paste bytes => exact ⟨hnone, rfl⟩
  | copy => exact hcopy
  | cut => exact hcopy
  | other => exact ⟨hnone, rfl⟩
  | key k pressed m =>
      cases pressed with
      | false => exact ⟨hnone, rfl⟩
      | true =>
          simp only [Routing.event, Routing.keyPress]
          split
          · exact ⟨hnone, rfl⟩
          · split
            · exact ⟨hnone, rfl⟩
            · split
              · exact ⟨hnone, by rw [App.focusNeighbor_eq]⟩
              · split
                · rename_i bytes hbytes
                  exact ⟨⟨some bytes, rfl⟩, rfl⟩
                · exact ⟨hnone, rfl⟩

theorem Routing.events_concat (logStarts : Bool) (focused : SessionId) (app : App)
    (events : List InputEvent) (e : InputEvent) :
    Routing.events logStarts focused app (events ++ [e]) =
      (Routing.events logStarts focused app events).event logStarts focused
        (e, events.length) := by
  simp [Routing.events, List.zipIdx_append]

theorem Routing.events_pendingPaste (logStarts : Bool) (focused : SessionId) (app : App)
    (events : List InputEvent) :
    (Routing.events logStarts focused app events).app.pendingPaste = app.pendingPaste := by
  induction events using List.reverseRecOn with
  | nil => rfl
  | append_singleton events e ih =>
      rw [Routing.events_concat, (Routing.event_adds ..).2, ih]

/-- The bytes are gathered in the order of the events. -/
theorem Routing.events_out_sorted (logStarts : Bool) (focused : SessionId) (app : App)
    (events : List InputEvent) :
    (Routing.events logStarts focused app events).out.Pairwise fun x y => x.1 < y.1 := by
  induction events using List.reverseRecOn with
  | nil => exact List.Pairwise.nil
  | append_singleton events e ih =>
      have hpass := passed_events logStarts focused app events
      obtain ⟨⟨b, hout⟩, -⟩ := Routing.event_adds logStarts focused
        (Routing.events logStarts focused app events) (e, events.length)
      rw [Routing.events_concat, hout, List.pairwise_append]
      refine ⟨ih, ?_, ?_⟩
      · cases b <;> simp
      · rintro ⟨i, a⟩ hia x hx
        obtain ⟨b, -, rfl⟩ := List.mem_map.mp hx
        obtain ⟨e', he', -⟩ := (hpass.out i a).mp hia
        exact (List.getElem?_eq_some_iff.mp he').1

/-- So are those of any function of the events. -/
theorem zipIdx_filterMap_sorted (f : InputEvent → Option Bytes) (events : List InputEvent) :
    (events.zipIdx.filterMap fun e => (f e.1).map (e.2, ·)).Pairwise fun x y => x.1 < y.1 := by
  have hplaces : events.zipIdx.Pairwise fun x y => x.2 < y.2 := by
    rw [← List.pairwise_map, List.zipIdx_map_snd]
    exact List.pairwise_lt_range'
  refine List.Pairwise.filterMap _ (fun x y hlt a ha b hb => ?_) hplaces
  obtain ⟨-, -, rfl⟩ := Option.map_eq_some_iff.mp ha
  obtain ⟨-, -, rfl⟩ := Option.map_eq_some_iff.mp hb
  exact hlt

theorem mem_zipIdx_filterMap {f : InputEvent → Option Bytes} {events : List InputEvent} {i : Nat}
    {b : Bytes} :
    (i, b) ∈ (events.zipIdx.filterMap fun e => (f e.1).map (e.2, ·)) ↔
      ∃ e, events[i]? = some e ∧ f e = some b := by
  simp only [List.mem_filterMap, Prod.exists, List.mem_zipIdx_iff_getElem?, Option.map_eq_some_iff,
    Prod.mk.injEq]
  constructor
  · rintro ⟨e, i, he, b, hb, rfl, rfl⟩
    exact ⟨e, he, hb⟩
  · rintro ⟨e, he, hb⟩
    exact ⟨e, i, he, b, hb, rfl, rfl⟩

/-- Less the interrupts, what is gathered is what is typed, in its order. -/
theorem typed_out (logStarts : Bool) (focused : SessionId) (app : App)
    (events : List InputEvent) :
    ((Routing.events logStarts focused app events).out.filter
        fun piece => piece.2 ≠ [] ∧ ¬events[piece.1]?.any InputEvent.isCopy) =
      events.zipIdx.filterMap fun e => e.1.typed.map (e.2, ·) := by
  have hpass := passed_events logStarts focused app events
  have hirrefl : Std.Irrefl fun x y : Nat × Bytes => x.1 < y.1 := ⟨fun x => lt_irrefl x.1⟩
  have hantisymm : Std.Antisymm fun x y : Nat × Bytes => x.1 < y.1 :=
    ⟨fun x y h h' => absurd h' h.asymm⟩
  refine ((Routing.events_out_sorted logStarts focused app events).filter _).eq_of_mem_iff
    (zipIdx_filterMap_sorted InputEvent.typed events) ?_
  rintro ⟨i, b⟩
  rw [mem_zipIdx_filterMap, List.mem_filter, hpass.out]
  constructor
  · rintro ⟨⟨e, he, hgathers⟩, hkeep⟩
    simp only [he, Option.any_some, decide_eq_true_eq, Bool.not_eq_true] at hkeep
    exact ⟨e, he, InputEvent.typed_eq_some.mpr ⟨⟨hgathers, hkeep.2⟩, hkeep.1⟩⟩
  · rintro ⟨e, he, hb⟩
    obtain ⟨⟨hgathers, hcopy⟩, hne⟩ := InputEvent.typed_eq_some.mp hb
    refine ⟨⟨e, he, hgathers⟩, ?_⟩
    simp only [he, Option.any_some, decide_eq_true_eq, Bool.not_eq_true]
    exact ⟨hne, hcopy⟩

/-! ## What a session is sent -/

theorem takeWhile_zipIdx (events : List InputEvent) (k : Nat) :
    (events.zipIdx k).takeWhile (!·.1.confirms) = (unheld events).zipIdx k := by
  induction events generalizing k with
  | nil => rfl
  | cons e events ih =>
      rw [List.zipIdx_cons, List.takeWhile_cons, unheld, List.takeWhile_cons]
      cases e.confirms with
      | true => rfl
      | false => exact congrArg (List.cons _) (ih (k + 1))

theorem filter_eq_singleton {l : List SessionId} (hnodup : l.Nodup) {s : SessionId} (hs : s ∈ l) :
    l.filter (· = s) = [s] := by
  rw [List.filter_eq, List.count_eq_one_of_mem hnodup hs]
  rfl

namespace App

variable {app : App} {events : List InputEvent} {logStarts : Bool} {focused s : SessionId}
  {p : LivePane}

theorem recipients_nodup (hwf : WellFormed app.tree.tiles) : app.recipients.Nodup := by
  unfold recipients
  cases app.focused with
  | none => exact List.nodup_nil
  | some tile =>
      obtain ⟨scope, -, heq⟩ := scope_exists hwf app.multiExec tile
      simp only [heq]
      exact sessionIds_nodup hwf scope

/-- One call has all the bytes gathered. -/
theorem outSends_filter (hnodup : app.recipients.Nodup) (hs : s ∈ app.recipients)
    (hlive : s ∈ app.live) {out : List (Nat × Bytes)} (hout : out.flatMap Prod.snd ≠ []) :
    (app.outSends out).filter (·.session = s) = [⟨s, out⟩] := by
  have hsession : ((fun x : Send => decide (x.session = s)) ∘ fun s => ⟨s, out⟩) =
      fun s' => decide (s' = s) := rfl
  rw [outSends, if_neg (by simpa using hout), List.filter_map, hsession,
    filter_eq_singleton (hnodup.filter _) (List.mem_filter.mpr ⟨hs, decide_eq_true hlive⟩)]
  rfl

theorem pasteSend_filter (hnodup : app.recipients.Nodup) (hs : s ∈ app.recipients)
    (hp : app.live.lookup s = some p) (i : Nat) (text : Bytes) :
    (app.pasteSend app.recipients i text).filter (·.session = s) =
      [⟨s, [(i, LivePane.wrapPaste text p.bracketedPaste)]⟩] := by
  have hsession : ∀ s' ∈ app.recipients,
      ((app.live.lookup s').map fun p =>
        Send.mk s' [(i, LivePane.wrapPaste text p.bracketedPaste)]).filter (·.session = s) =
      if s' = s then some ⟨s, [(i, LivePane.wrapPaste text p.bracketedPaste)]⟩ else none := by
    intro s' _
    by_cases heq : s' = s
    · subst heq
      simp [hp, Option.filter]
    · cases app.live.lookup s' <;> simp [heq, Option.filter]
  have hselect : (app.recipients.filterMap fun s' => if s' = s then
      some (⟨s, [(i, LivePane.wrapPaste text p.bracketedPaste)]⟩ : Send) else none) =
      (app.recipients.filter (· = s)).map
        fun _ => ⟨s, [(i, LivePane.wrapPaste text p.bracketedPaste)]⟩ := by
    rw [← List.filterMap_eq_map, List.filterMap_filter]
    simp
  rw [pasteSend, List.filter_filterMap, List.filterMap_congr hsession, hselect,
    filter_eq_singleton hnodup hs]
  rfl

theorem pastes_pieces (hnodup : app.recipients.Nodup) (hs : s ∈ app.recipients)
    (hp : app.live.lookup s = some p) (pastes : List (Nat × Bytes)) :
    ((pastes.flatMap fun paste => app.pasteSend app.recipients paste.1 paste.2).filter
        (·.session = s)).flatMap Send.pieces =
      pastes.map fun paste => (paste.1, LivePane.wrapPaste paste.2 p.bracketedPaste) := by
  rw [List.filter_flatMap]
  simp only [pasteSend_filter hnodup hs hp, List.flatMap_assoc, List.flatMap_singleton]
  exact List.map_eq_flatMap.symm

theorem moved_eq_self (hfocus : (app.moved events).focused = app.focused) :
    app.moved events = app := by
  rw [app.moved_eq events, hfocus]

/-- The typed bytes, and behind them the pastes in front of the first that is
held. -/
theorem sentTo_eq (hwf : WellFormed app.tree.tiles) (hfocused : app.focusedSession = some focused)
    (hrunning : (app.live.lookup focused).any (·.finished) = false)
    (hfocus : (app.moved events).focused = app.focused) (hs : s ∈ app.recipients)
    (hp : app.live.lookup s = some p) :
    app.sentTo logStarts events s =
      (events.zipIdx.filterMap fun e => e.1.typed.map (e.2, ·)) ++
        ((events.zipIdx.takeWhile (!·.1.confirms)).filterMap fun e =>
          (e.1.straight p.bracketedPaste).map (e.2, ·)) := by
  have hpass := passed_events logStarts focused app events
  have hmodes : app.SameModes (Routing.events logStarts focused app events).app := hpass.bracketed
  have hnodup := recipients_nodup hwf
  have hrecipients := hpass.same.recipients
  have hpastes := pasteSends_events hpass
  rw [moved_eq_self hfocus] at hrecipients hpastes
  simp only [sentTo, keyboardSends, hfocused, hrunning, Bool.false_eq_true, if_false,
    List.filter_append, List.flatMap_append]
  congr 1
  · rw [← typed_out logStarts focused app events]
    by_cases hout : (Routing.events logStarts focused app events).out.flatMap Prod.snd = []
    · -- no call is made, and no piece has bytes
      rw [outSends, if_pos (List.isEmpty_iff.mpr hout)]
      refine (List.filter_eq_nil_iff.mpr fun piece hpiece => ?_).symm
      have hnil := List.flatMap_eq_nil_iff.mp hout piece hpiece
      simp [hnil]
    · rw [outSends_filter (hrecipients ▸ hnodup) (hrecipients ▸ hs)
        (hmodes.mem.mpr (Table.mem_of_lookup hp)) hout, List.flatMap_singleton]
  · rw [hpastes, pastes_pieces hnodup hs hp, takeWhile_zipIdx,
      List.map_filterMap, List.filter_filterMap]
    refine List.filterMap_congr ?_
    rintro ⟨e, i⟩ he
    have hat : (unheld events)[i]? = some e := List.mem_zipIdx_iff_getElem?.mp he
    have hheld := not_confirms_of_mem_unheld (List.mem_of_getElem? hat)
    have hevent := unheld_getElem? hat
    cases e with
    | paste text =>
        have hnew : hasNewline text = false := hheld
        by_cases hempty : LivePane.wrapPaste text p.bracketedPaste = [] <;>
          simp [InputEvent.pasted, InputEvent.straight, InputEvent.isCopy, hevent, hnew, hempty,
            Option.filter]
    | _ => rfl

/-- One paste is held: the first with a newline. -/
theorem held_iff (hfocused : app.focusedSession = some focused)
    (hrunning : (app.live.lookup focused).any (·.finished) = false)
    (hfocus : (app.moved events).focused = app.focused) (hpending : app.pendingPaste = none)
    (lib : TileLib) (env : Env) :
    (app.routeKeyboard lib env logStarts events).1.pendingPaste.toList =
        ((events.filterMap InputEvent.pasted).filter hasNewline).map (⟨·, app.recipients⟩) ↔
      events.Pairwise fun e e' => e.confirms = true → e'.confirms = false := by
  have hpass := passed_events logStarts focused app events
  have hrecipients := hpass.same.recipients
  rw [moved_eq_self hfocus] at hrecipients
  have htexts : (Routing.events logStarts focused app events).pastes.map Prod.snd =
      events.filterMap InputEvent.pasted := by
    rw [hpass.pastes, List.map_filterMap]
    conv_rhs => rw [← List.zipIdx_map_fst 0 events, List.filterMap_map]
    exact List.filterMap_congr fun e _ => by simp
  have hheld : (app.routeKeyboard lib env logStarts events).1.pendingPaste =
      ((events.filterMap InputEvent.pasted).find? hasNewline).map (⟨·, app.recipients⟩) := by
    rw [routeKeyboard_fst lib env logStarts events hfocused hrunning]
    simp only [heldPaste, Routing.events_pendingPaste, hpending, Option.or_none, hrecipients,
      ← htexts, List.find?_map, Option.map_map]
    rfl
  have hinjective : Function.Injective fun text => PendingPaste.mk text app.recipients :=
    fun _ _ heq => (PendingPaste.mk.inj heq).1
  rw [hheld, Option.toList_map, (List.map_injective_iff.mpr hinjective).eq_iff,
    Flushed.find?_toList_iff, List.pairwise_filterMap]
  refine List.Pairwise.iff fun e e' => ?_
  unfold InputEvent.confirms
  cases e.pasted <;> cases e'.pasted <;> simp

/-- A frame's input is kept exactly when its pastes stand last, and at most one
of them, behind the others, is to be held. -/
theorem eventsKept_iff (hwf : WellFormed app.tree.tiles)
    (hfocused : app.focusedSession = some focused)
    (hrunning : (app.live.lookup focused).any (·.finished) = false)
    (hfocus : (app.moved events).focused = app.focused) (hpending : app.pendingPaste = none)
    (lib : TileLib) (env : Env) :
    app.EventsKept lib env logStarts events ↔ app.PastesLast events := by
  have hheld :
      (app.routeKeyboard lib env logStarts events).1.pendingPaste.toList =
          ((events.filterMap InputEvent.pasted).filter hasNewline).map (⟨·, app.recipients⟩) ↔
        events.Pairwise fun e e' => e.confirms = true → e'.confirms = false :=
    held_iff hfocused hrunning hfocus hpending lib env
  have hsent : ∀ s ∈ app.recipients, ∀ p, app.live.lookup s = some p →
      (app.sentTo logStarts events s = encodings p.bracketedPaste events ↔
        events.Pairwise fun e e' =>
          (e.confirms = true → e'.straight p.bracketedPaste = none) ∧
            (e.straight p.bracketedPaste ≠ none → e'.typed = none)) := by
    intro s hs p hp
    have hmerged : encodings p.bracketedPaste events =
        Flushed.merged (fun e => e.1.typed.map (e.2, ·))
          (fun e => (e.1.straight p.bracketedPaste).map (e.2, ·)) events.zipIdx :=
      List.filterMap_congr fun _ _ => Option.map_or
    have hevents : ∀ R : InputEvent → InputEvent → Prop,
        events.Pairwise R ↔ events.zipIdx.Pairwise fun x y => R x.1 y.1 := by
      intro R
      conv_lhs => rw [← List.zipIdx_map_fst 0 events, List.pairwise_map]
    rw [sentTo_eq hwf hfocused hrunning hfocus hs hp, hmerged,
      Flushed.flushed_eq_merged_iff ?hone ?hapart ?hstop, hevents, ← List.pairwise_and_iff]
    · simp only [ne_eq, Option.map_eq_none_iff]
    case hone =>
      intro e _ htyped
      rw [InputEvent.straight_eq_none_of_typed (by simpa using htyped), Option.map_none]
    case hstop =>
      intro e _ hconfirms
      rw [InputEvent.straight_eq_none_of_confirms hconfirms, Option.map_none]
    case hapart =>
      -- the place tells the event
      rintro ⟨e, i⟩ he ⟨e', j⟩ he' ⟨k, b⟩ htyped hstraight
      obtain ⟨a, hbytes, heq⟩ := Option.map_eq_some_iff.mp htyped
      obtain ⟨rfl, rfl⟩ := Prod.mk.inj heq
      obtain ⟨a', hbytes', heq⟩ := Option.map_eq_some_iff.mp hstraight
      obtain ⟨rfl, rfl⟩ := Prod.mk.inj heq
      have hevent : events[j]? = some e := List.mem_zipIdx_iff_getElem?.mp he
      obtain rfl := Option.some.inj (hevent.symm.trans (List.mem_zipIdx_iff_getElem?.mp he'))
      rw [InputEvent.straight_eq_none_of_typed (hbytes ▸ Option.some_ne_none _)] at hbytes'
      cases hbytes'
  constructor
  · rintro ⟨h, hpaste⟩
    exact ⟨hheld.mp hpaste, fun s hs p hp => (hsent s hs p hp).mp (h s hs p hp)⟩
  · rintro ⟨hpaste, h⟩
    exact ⟨fun s hs p hp => (hsent s hs p hp).mpr (h s hs p hp), hheld.mpr hpaste⟩

/-- A letter typed, and a word pasted behind it. -/
theorem eventsKept_typed_then_pasted :
    sideBySide.EventsKept tileReference .willing false [.text [0x61], .paste [0x62]] := by
  have hwf : WellFormed sideBySide.tree.tiles :=
    wellFormed_of_depth TileId.raw (by decide) (by decide) (by decide)
  have hfocused : sideBySide.focusedSession = some ⟨0⟩ := rfl
  refine (eventsKept_iff hwf hfocused rfl rfl rfl tileReference .willing).mpr
    ⟨by decide, fun s _ p _ => ?_⟩
  generalize p.bracketedPaste = mode
  cases mode <;> decide

/-- A letter typed behind a paste comes out in front of it, and a paste behind
a held one is lost. -/
theorem typing_overtakes_and_paste_lost :
    ¬sideBySide.EventsKept tileReference .willing false [.paste [0x62], .text [0x61]] ∧
      ¬sideBySide.EventsKept tileReference .willing false
        [.paste [0x61, 0x0a], .paste [0x62]] := by
  constructor
  · intro h
    exact absurd (h.sent ⟨0⟩ (by decide) _ rfl) (by decide +kernel)
  · intro h
    exact absurd (h.sent ⟨0⟩ (by decide) _ rfl) (by decide +kernel)

end App

end PolyTerm

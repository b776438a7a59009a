import PolyTerm.PaneFrames
import PolyTerm.Transducer

/-!
# A resize within the output

`clear_screen` clears through the parser that reads the far end's output. Its
first byte ends whatever escape sequence or character the output has left
unfinished, so that the rest of it is read as if nothing had come before. The
output is read as it would be without the resize exactly if what has come
before cannot be told from nothing unfinished (`resize_undisturbed_iff`).
-/

namespace PolyTerm

/-! ## The parser -/

def esc : UInt8 := 0x1b

/-- `ESC[H ESC[2J`. -/
def clearBytes : Bytes := [0x1b, 0x5b, 0x48, 0x1b, 0x5b, 0x32, 0x4a]

/-- What is relied on of the parser of `vte`, at the level of the characters and
sequences it recognises: it is a state machine over bytes in which `ESC` ends
what is unfinished (`abandon` is what it emits then, a replacement character for
one), and from its ground state it recognises the two sequences of the clear.
What `ansi::Processor` keeps besides, the preceding character for a repetition
and the buffer of a synchronized update, comes after that and is left out. -/
structure Processor (Action : Type) where
  State : Type
  machine : Transducer State UInt8 Action
  ground : State
  escape : State
  abandon : State → List Action
  /-- home the cursor, and erase the display -/
  clear : List Action
  step_esc : ∀ s, machine.step s esc = (escape, abandon s)
  abandon_ground : abandon ground = []
  after_clear : machine.after ground clearBytes = ground
  emits_clear : machine.emits ground clearBytes = clear

variable {Action : Type}

/-! ## The terminal -/

/-- The parser's state, and all it has recognised. -/
structure Terminal (vte : Processor Action) where
  parser : vte.State
  recognised : List Action
  size : GridSize

namespace Terminal

variable {vte : Processor Action}

def new (vte : Processor Action) (size : GridSize) : Terminal vte := ⟨vte.ground, [], size⟩

def feed (t : Terminal vte) (bytes : Bytes) : Terminal vte :=
  { t with
    parser := vte.machine.after t.parser bytes
    recognised := t.recognised ++ vte.machine.emits t.parser bytes }

/-- Chunks make no difference. -/
theorem feed_append (t : Terminal vte) (first second : Bytes) :
    t.feed (first ++ second) = (t.feed first).feed second := by
  simp only [feed, Transducer.after_append, Transducer.emits_append, List.append_assoc]

def resize (t : Terminal vte) (size : GridSize) : Terminal vte := { t with size := size }

def clearScreen (t : Terminal vte) : Terminal vte := t.feed clearBytes

/-- What a pane does that is drawn at another size. -/
def fit (t : Terminal vte) (size : GridSize) : Terminal vte :=
  if size ≠ t.size then (t.resize size).clearScreen else t

/-- The stream is recognised around the resize as it is without it, and in its
place is the clear. -/
def Undisturbed (t : Terminal vte) (first second : Bytes) (size : GridSize) : Prop :=
  ∃ early late,
    ((t.feed first).fit size).recognised = early ++ vte.clear ∧
    (((t.feed first).fit size).feed second).recognised = early ++ vte.clear ++ late ∧
    (t.feed (first ++ second)).recognised = early ++ late

end Terminal

/-! ## The clear -/

namespace Processor

variable {vte : Processor Action}

/-- After `ESC` it does not matter what came before. -/
theorem emits_esc (s : vte.State) (bytes : Bytes) :
    vte.machine.emits s (esc :: bytes) =
      vte.abandon s ++ vte.machine.emits vte.ground (esc :: bytes) := by
  simp only [Transducer.emits, vte.step_esc, vte.abandon_ground, List.nil_append]

theorem after_esc (s : vte.State) (bytes : Bytes) :
    vte.machine.after s (esc :: bytes) = vte.machine.after vte.ground (esc :: bytes) := by
  simp only [Transducer.after, vte.step_esc]

theorem emits_clearBytes (s : vte.State) :
    vte.machine.emits s clearBytes = vte.abandon s ++ vte.clear := by
  rw [← vte.emits_clear]
  exact emits_esc s _

theorem after_clearBytes (s : vte.State) : vte.machine.after s clearBytes = vte.ground :=
  (after_esc s _).trans vte.after_clear

/-- Nothing is unfinished: no continuation tells the state from ground. -/
def Between (vte : Processor Action) (s : vte.State) : Prop := vte.machine.Alike s vte.ground

theorem Between.abandon {s : vte.State} (h : vte.Between s) : vte.abandon s = [] := by
  have hesc := h [esc]
  rw [emits_esc] at hesc
  exact List.append_left_eq_self.mp hesc

end Processor

namespace Terminal

variable {vte : Processor Action} {t : Terminal vte}

theorem fit_of_ne {size : GridSize} (hsize : size ≠ t.size) :
    t.fit size = ⟨vte.ground, t.recognised ++ (vte.abandon t.parser ++ vte.clear), size⟩ := by
  rw [fit, if_pos hsize, clearScreen, feed, resize, Processor.emits_clearBytes,
    Processor.after_clearBytes]

/-- One continuation: it is recognised behind what the first chunk has left
unfinished as it is behind what is emitted for abandoning that. -/
theorem undisturbed_iff (t : Terminal vte) (first second : Bytes) {size : GridSize}
    (hsize : size ≠ t.size) :
    t.Undisturbed first second size ↔
      vte.machine.emits (t.feed first).parser second =
        vte.abandon (t.feed first).parser ++ vte.machine.emits vte.ground second := by
  have hwhole : (t.feed (first ++ second)).recognised = (t.feed first).recognised ++
      vte.machine.emits (t.feed first).parser second := by
    rw [feed_append]
    rfl
  have hsize' : size ≠ (t.feed first).size := hsize
  rw [Undisturbed, fit_of_ne hsize', hwhole]
  constructor
  · rintro ⟨early, late, hearly, hlate, heq⟩
    obtain rfl : (t.feed first).recognised ++ vte.abandon (t.feed first).parser = early :=
      List.append_cancel_right ((List.append_assoc _ _ _).trans hearly)
    obtain rfl : vte.machine.emits vte.ground second = late := by
      simpa [feed] using hlate
    rw [List.append_assoc] at heq
    exact List.append_cancel_left heq
  · intro h
    refine ⟨(t.feed first).recognised ++ vte.abandon (t.feed first).parser,
      vte.machine.emits vte.ground second, by simp, by simp [feed], ?_⟩
    rw [h, List.append_assoc]

/-- A resize between two chunks of the output leaves the recognition of every
continuation as it is exactly if the first ends with nothing unfinished; a
single one it leaves exactly if behind what is unfinished it is recognised as
behind what is emitted for abandoning that. -/
theorem resize_undisturbed_iff (vte : Processor Action) (t : Terminal vte) (first : Bytes) :
    (∀ second size, size ≠ t.size →
      (t.Undisturbed first second size ↔
        vte.machine.emits (t.feed first).parser second =
          vte.abandon (t.feed first).parser ++ vte.machine.emits vte.ground second)) ∧
    ((∀ second size, size ≠ t.size → t.Undisturbed first second size) ↔
      vte.Between (t.feed first).parser) := by
  refine ⟨fun second _ hsize => t.undisturbed_iff first second hsize, fun h => ?_, fun h => ?_⟩
  · have hsize : (⟨t.size.cols + 1, t.size.rows⟩ : GridSize) ≠ t.size := fun heq => by
      have hcols := congrArg GridSize.cols heq
      simp at hcols
    exact (vte.machine.alike_iff.mp fun second =>
      (t.undisturbed_iff first second hsize).mp (h second _ hsize)).2
  · intro second size hsize
    rw [t.undisturbed_iff first second hsize, h.abandon]
    exact h second

end Terminal

/-! ## A parser to run on -/

/-- What a small terminal parser has unfinished. -/
inductive VteState where
  | ground
  | escape
  | csi (params : Bytes)
  | osc (text : Bytes)
  /-- a character of which so many bytes are to come -/
  | utf8 (left : Nat) (bytes : Bytes)
deriving DecidableEq, Repr

inductive VteAction where
  | print (bytes : Bytes)
  | replacement
  | execute (byte : UInt8)
  | escDispatch (byte : UInt8)
  | csiDispatch (params : Bytes) (final : UInt8)
  | oscDispatch (text : Bytes)
deriving DecidableEq, Repr

/-- What ending it emits: the text of an operating system command, which needs
no terminator, or a replacement for the character. -/
def VteState.abandon : VteState → List VteAction
  | .osc text => [.oscDispatch text]
  | .utf8 _ _ => [.replacement]
  | _ => []

def groundStep (byte : UInt8) : VteState × List VteAction :=
  if byte < 0x20 ∨ byte = 0x7f then (.ground, [.execute byte])
  else if byte < 0x80 then (.ground, [.print [byte]])
  else if byte < 0xc2 ∨ 0xf4 < byte then (.ground, [.replacement])
  else if byte < 0xe0 then (.utf8 1 [byte], [])
  else if byte < 0xf0 then (.utf8 2 [byte], [])
  else (.utf8 3 [byte], [])

def vteStep (s : VteState) (byte : UInt8) : VteState × List VteAction :=
  if byte = esc then (.escape, s.abandon)
  else match s with
    | .ground => groundStep byte
    | .escape =>
        if byte = 0x5b then (.csi [], [])
        else if byte = 0x5d then (.osc [], [])
        else if byte < 0x20 then (.escape, [.execute byte])
        else (.ground, [.escDispatch byte])
    | .csi params =>
        if byte = 0x18 ∨ byte = 0x1a then (.ground, [.execute byte])
        else if byte < 0x20 then (.csi params, [.execute byte])
        else if byte < 0x40 then (.csi (params ++ [byte]), [])
        else if byte < 0x7f then (.ground, [.csiDispatch params byte])
        else (.csi params, [])
    | .osc text =>
        if byte = 0x07 then (.ground, [.oscDispatch text])
        else if byte = 0x18 ∨ byte = 0x1a then (.ground, [.oscDispatch text, .execute byte])
        else (.osc (text ++ [byte]), [])
    | .utf8 left bytes =>
        if 0x80 ≤ byte ∧ byte < 0xc0 then
          if left ≤ 1 then (.ground, [.print (bytes ++ [byte])])
          else (.utf8 (left - 1) (bytes ++ [byte]), [])
        else ((groundStep byte).1, .replacement :: (groundStep byte).2)

def Processor.small : Processor VteAction where
  State := VteState
  machine := ⟨vteStep⟩
  ground := .ground
  escape := .escape
  abandon := VteState.abandon
  clear := [.csiDispatch [] 0x48, .csiDispatch [0x32] 0x4a]
  step_esc _ := rfl
  abandon_ground := rfl
  after_clear := by decide
  emits_clear := by decide

/-- A resize behind the sequence that makes text red. -/
theorem resize_undisturbed_behind :
    (Terminal.new Processor.small ⟨80, 24⟩).Undisturbed [0x1b, 0x5b, 0x33, 0x31, 0x6d] [0x58]
      ⟨100, 30⟩ :=
  (Terminal.resize_undisturbed_iff .small (.new .small ⟨80, 24⟩)
    [0x1b, 0x5b, 0x33, 0x31, 0x6d]).2.mpr (fun _ => rfl) [0x58] ⟨100, 30⟩ (by decide)

/-- The same with the resize within the sequence: `1m` is printed. -/
theorem resize_disturbs :
    ¬∀ (vte : Processor VteAction) (t : Terminal vte) (first second : Bytes) (size : GridSize),
      size ≠ t.size → t.Undisturbed first second size := by
  intro h
  have hundisturbed := h .small (.new .small ⟨80, 24⟩) [0x1b, 0x5b, 0x33] [0x31, 0x6d, 0x58]
    ⟨100, 30⟩ (by decide)
  rw [Terminal.undisturbed_iff _ _ _ (by decide)] at hundisturbed
  exact absurd hundisturbed (by decide)

end PolyTerm

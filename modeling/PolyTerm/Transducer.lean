import Mathlib.Data.List.Basic

/-!
# Transducers

A machine that reads letters one after the other and emits outputs as it goes.
What it emits on a word continued is what it emits on the word and then on the
rest from the state it has reached (`emits_append`). Two states are alike if no
word tells them apart.
-/

structure Transducer (σ ι ω : Type*) where
  step : σ → ι → σ × List ω

namespace Transducer

variable {σ ι ω : Type*} (m : Transducer σ ι ω)

def after : σ → List ι → σ
  | s, [] => s
  | s, i :: word => after (m.step s i).1 word

def emits : σ → List ι → List ω
  | _, [] => []
  | s, i :: word => (m.step s i).2 ++ emits (m.step s i).1 word

theorem after_append (s : σ) (word rest : List ι) :
    m.after s (word ++ rest) = m.after (m.after s word) rest := by
  induction word generalizing s with
  | nil => rfl
  | cons i word ih => exact ih (m.step s i).1

theorem emits_append (s : σ) (word rest : List ι) :
    m.emits s (word ++ rest) = m.emits s word ++ m.emits (m.after s word) rest := by
  induction word generalizing s with
  | nil => rfl
  | cons i word ih =>
      rw [List.cons_append, emits, emits, after, ih, List.append_assoc]

/-- No word tells the two states apart. -/
def Alike (s t : σ) : Prop := ∀ word, m.emits s word = m.emits t word

/-- If everything is emitted behind the same outputs, there are none. -/
theorem alike_iff {s t : σ} {out : List ω} :
    (∀ word, m.emits s word = out ++ m.emits t word) ↔ out = [] ∧ m.Alike s t := by
  constructor
  · intro h
    obtain rfl : out = [] := by simpa [emits] using (h []).symm
    exact ⟨rfl, h⟩
  · rintro ⟨rfl, h⟩ word
    exact h word

end Transducer

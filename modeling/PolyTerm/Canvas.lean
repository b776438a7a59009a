import Mathlib.Data.List.Basic
import Mathlib.Logic.Function.Basic

/-!
# Painting a grid

A canvas shows a look in each place: a ground, and the marks made on it, the
earliest first. A fill covers what stood in its place. What a painting shows in
one place depends on the strokes in that place only (`paint_apply`), so a
painting made place by place is read off place by place.
-/

/-- What shows in one place. -/
structure Look (γ χ : Type*) where
  ground : χ
  marks : List (γ × χ)
deriving DecidableEq

inductive Stroke (γ χ : Type*) where
  | fill (color : χ)
  | mark (shape : γ) (color : χ)
deriving DecidableEq

namespace Canvas

variable {κ γ χ α : Type*}

/-- A place of one colour with nothing on it. -/
def clear (color : χ) : Look γ χ := ⟨color, []⟩

def draw (look : Look γ χ) : Stroke γ χ → Look γ χ
  | .fill color => clear color
  | .mark shape color => { look with marks := look.marks ++ [(shape, color)] }

/-- The look after several strokes in the same place. -/
def drawAll (look : Look γ χ) (strokes : List (Stroke γ χ)) : Look γ χ := strokes.foldl draw look

/-- Strokes that are all marks, as marks. -/
def ofMarks (marks : List (γ × χ)) : List (Stroke γ χ) := marks.map fun m => .mark m.1 m.2

@[simp] theorem drawAll_nil (look : Look γ χ) : drawAll look [] = look := rfl

theorem drawAll_append (look : Look γ χ) (ss ts : List (Stroke γ χ)) :
    drawAll look (ss ++ ts) = drawAll (drawAll look ss) ts := List.foldl_append

/-- Nothing shows through a fill. -/
@[simp] theorem drawAll_fill (look : Look γ χ) (color : χ) (ss : List (Stroke γ χ)) :
    drawAll look (.fill color :: ss) = drawAll (clear color) ss := rfl

theorem drawAll_ofMarks (marks : List (γ × χ)) : ∀ look : Look γ χ,
    drawAll look (ofMarks marks) = ⟨look.ground, look.marks ++ marks⟩ := by
  induction marks with
  | nil => intro look; simp [ofMarks]
  | cons m marks ih =>
      intro look
      have hrest := ih (draw look (.mark m.1 m.2))
      simp only [ofMarks, List.map_cons, drawAll, List.foldl_cons] at hrest ⊢
      rw [hrest]
      simp [draw]

variable [DecidableEq κ]

def stroke (canvas : κ → Look γ χ) (op : κ × Stroke γ χ) : κ → Look γ χ :=
  Function.update canvas op.1 (draw (canvas op.1) op.2)

def paint (canvas : κ → Look γ χ) (ops : List (κ × Stroke γ χ)) : κ → Look γ χ :=
  ops.foldl stroke canvas

/-- The strokes of a painting that are made in the place `k`. -/
def strokesAt (k : κ) (ops : List (κ × Stroke γ χ)) : List (Stroke γ χ) :=
  (ops.filter fun op => op.1 = k).map Prod.snd

@[simp] theorem strokesAt_nil (k : κ) : strokesAt k ([] : List (κ × Stroke γ χ)) = [] := rfl

@[simp] theorem strokesAt_cons_self (k : κ) (s : Stroke γ χ) (ops : List (κ × Stroke γ χ)) :
    strokesAt k ((k, s) :: ops) = s :: strokesAt k ops := by
  simp [strokesAt]

theorem strokesAt_cons_ne {k k' : κ} (h : k' ≠ k) (s : Stroke γ χ)
    (ops : List (κ × Stroke γ χ)) : strokesAt k ((k', s) :: ops) = strokesAt k ops := by
  simp [strokesAt, h]

theorem strokesAt_append (k : κ) (ops ops' : List (κ × Stroke γ χ)) :
    strokesAt k (ops ++ ops') = strokesAt k ops ++ strokesAt k ops' := by
  simp [strokesAt]

theorem strokesAt_flatMap (k : κ) (l : List α) (f : α → List (κ × Stroke γ χ)) :
    strokesAt k (l.flatMap f) = l.flatMap fun a => strokesAt k (f a) := by
  induction l with
  | nil => rfl
  | cons a l ih => rw [List.flatMap_cons, strokesAt_append, ih, List.flatMap_cons]

/-- Strokes made elsewhere. -/
theorem strokesAt_eq_nil {k : κ} {ops : List (κ × Stroke γ χ)} (h : ∀ op ∈ ops, op.1 ≠ k) :
    strokesAt k ops = [] := by
  rw [strokesAt, List.map_eq_nil_iff, List.filter_eq_nil_iff]
  exact fun op hop => by simpa using h op hop

/-- What shows in a place is what the strokes in that place make of it. -/
theorem paint_apply (ops : List (κ × Stroke γ χ)) (k : κ) : ∀ canvas : κ → Look γ χ,
    paint canvas ops k = drawAll (canvas k) (strokesAt k ops) := by
  induction ops with
  | nil => exact fun _ => rfl
  | cons op ops ih =>
      intro canvas
      obtain ⟨k', s⟩ := op
      rw [paint, List.foldl_cons]
      refine (ih (stroke canvas (k', s))).trans ?_
      by_cases hk : k' = k
      · subst hk
        rw [strokesAt_cons_self, stroke, Function.update_self]
        rfl
      · rw [strokesAt_cons_ne hk, stroke, Function.update_of_ne (Ne.symm hk)]

/-- In a list painted item by item, only the items that touch a place show
there: those before the last one that does, and that one. -/
theorem strokesAt_zipIdx {f : α → Nat → List (κ × Stroke γ χ)} {k : κ} {l : List α} {i : Nat}
    {a : α} (ha : l[i]? = some a) (hlater : ∀ b j, i < j → strokesAt k (f b j) = []) :
    strokesAt k (l.zipIdx.flatMap fun x => f x.1 x.2) =
      ((l.take i).zipIdx.flatMap fun x => strokesAt k (f x.1 x.2)) ++ strokesAt k (f a i) := by
  obtain ⟨hi, rfl⟩ := List.getElem?_eq_some_iff.mp ha
  have hsplit : l = l.take i ++ l[i] :: l.drop (i + 1) := by
    rw [← List.drop_eq_getElem_cons hi, List.take_append_drop]
  have hlength : (l.take i).length = i := by
    rw [List.length_take]
    omega
  have hrest : ((l.drop (i + 1)).zipIdx (i + 1)).flatMap
      (fun x => strokesAt k (f x.1 x.2)) = [] := by
    rw [List.flatMap_eq_nil_iff]
    intro x hx
    exact hlater x.1 x.2 (List.le_snd_of_mem_zipIdx hx)
  rw [strokesAt_flatMap]
  conv_lhs => rw [hsplit]
  rw [List.zipIdx_append, List.flatMap_append, hlength, Nat.zero_add, List.zipIdx_cons,
    List.flatMap_cons, hrest, List.append_nil]

end Canvas

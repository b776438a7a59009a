import PolyTerm.Fifo
import PolyTerm.Table

/-!
# Requests served by tasks of their own

Requests are numbered as they are sent, wait in a channel, and become tasks that
run side by side until each has replied. `Accounted` says that every request is
in one place: waiting, running, or replied to, and nowhere twice.
-/

structure Dispatch (ρ τ : Type*) where
  queue : Fifo (Nat × ρ)
  running : Table Nat τ
  /-- the number of requests so far -/
  issued : Nat

namespace Dispatch

variable {ρ τ : Type*} {d e : Dispatch ρ τ} {f : ρ → τ} {replied : List Nat} {id : Nat}

def empty (capacity : Nat) : Dispatch ρ τ := ⟨.empty capacity, ∅, 0⟩

/-- A request is sent, if there is room. -/
def submit (d : Dispatch ρ τ) (r : ρ) : Option (Dispatch ρ τ) :=
  match d.queue.trySend (d.issued, r) with
  | .ok queue => some { d with queue := queue, issued := d.issued + 1 }
  | .error _ => none

/-- The oldest request becomes a task. -/
def spawn (f : ρ → τ) (d : Dispatch ρ τ) : Option (Dispatch ρ τ) :=
  d.queue.recv.map fun r => { d with queue := r.2, running := d.running.insert r.1.1 (f r.1.2) }

/-- A task goes on. -/
def advance (d : Dispatch ρ τ) (id : Nat) (x : τ) : Dispatch ρ τ :=
  { d with running := d.running.insert id x }

/-- A task has replied. -/
def finish (d : Dispatch ρ τ) (id : Nat) : Dispatch ρ τ :=
  { d with running := d.running.erase id }

/-- Where the requests are. -/
def places (d : Dispatch ρ τ) (replied : List Nat) : List Nat :=
  d.queue.queue.map Prod.fst ++ (d.running.keys ++ replied)

def Accounted (d : Dispatch ρ τ) (replied : List Nat) : Prop :=
  (d.places replied).Perm (List.range d.issued)

theorem accounted_empty (capacity : Nat) : (empty capacity : Dispatch ρ τ).Accounted [] :=
  List.Perm.refl _

theorem Accounted.nodup (h : d.Accounted replied) : (d.places replied).Nodup :=
  (List.Perm.nodup_iff h).mpr List.nodup_range

theorem Accounted.mem_places (h : d.Accounted replied) :
    id ∈ d.places replied ↔ id < d.issued := by
  rw [List.Perm.mem_iff h, List.mem_range]

theorem submit_running {r : ρ} (h : d.submit r = some e) : e.running = d.running := by
  unfold submit at h
  split at h
  · exact Option.some.inj h ▸ rfl
  · cases h

theorem submit_open {r : ρ} (h : d.submit r = some e) : d.queue.closed = false := by
  by_contra hne
  simp [submit, Fifo.trySend, eq_true_of_ne_false hne] at h

theorem Accounted.submit {r : ρ} (h : d.Accounted replied) (hsubmit : d.submit r = some e) :
    e.Accounted replied := by
  unfold Dispatch.submit at hsubmit
  split at hsubmit
  · rename_i queue hsend
    obtain rfl := Option.some.inj hsubmit
    have hqueue := (Fifo.trySend_ok hsend).1
    unfold Accounted places
    rw [hqueue, List.map_append, List.range_succ, List.append_assoc]
    refine List.Perm.trans ?_ (h.append_right [d.issued])
    rw [places, List.append_assoc]
    exact List.Perm.append_left _ List.perm_append_comm
  · cases hsubmit

theorem Accounted.spawn (h : d.Accounted replied) (hspawn : d.spawn f = some e) :
    e.Accounted replied := by
  obtain ⟨⟨⟨id, r⟩, queue⟩, hrecv, rfl⟩ := Option.map_eq_some_iff.mp hspawn
  obtain ⟨hqueue, -⟩ := Fifo.recv_some hrecv
  have hnodup := h.nodup
  unfold Accounted places at h hnodup ⊢
  rw [hqueue, List.map_cons, List.cons_append] at h hnodup
  have hfresh : id ∉ d.running.keys := fun hmem =>
    (List.nodup_cons.mp hnodup).1 (List.mem_append_right _ (List.mem_append_left _ hmem))
  refine List.Perm.trans ?_ h
  dsimp only
  rw [AList.keys_insert, List.erase_of_not_mem hfresh]
  exact List.perm_middle

theorem Accounted.advance {x : τ} (h : d.Accounted replied) (hid : id ∈ d.running) :
    (d.advance id x).Accounted replied := by
  unfold Accounted places Dispatch.advance at *
  refine List.Perm.trans (List.Perm.append_left _ (List.Perm.append_right _ ?_)) h
  rw [AList.keys_insert]
  exact (List.perm_cons_erase (AList.mem_keys.mp hid)).symm

theorem Accounted.finish (h : d.Accounted replied) (hid : id ∈ d.running) :
    (d.finish id).Accounted (replied ++ [id]) := by
  unfold Accounted places Dispatch.finish at *
  refine List.Perm.trans (List.Perm.append_left _ ?_) h
  rw [AList.keys_erase, ← List.append_assoc]
  have hall := (List.perm_cons_erase (AList.mem_keys.mp hid)).append_right replied
  exact List.perm_append_singleton _ _ |>.trans hall.symm

/-- A request is waiting, running or replied to. -/
theorem Accounted.cases (h : d.Accounted replied) (hid : id < d.issued) :
    (∃ r, (id, r) ∈ d.queue.queue) ∨ id ∈ d.running ∨ id ∈ replied := by
  rcases List.mem_append.mp (h.mem_places.mpr hid) with hqueue | hrest
  · obtain ⟨⟨_, r⟩, hmem, rfl⟩ := List.mem_map.mp hqueue
    exact .inl ⟨r, hmem⟩
  · exact .inr ((List.mem_append.mp hrest).imp_left AList.mem_keys.mpr)

end Dispatch

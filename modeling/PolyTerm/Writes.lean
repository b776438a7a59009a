import Mathlib.Data.Nat.Find
import Mathlib.Logic.Function.Basic
import Mathlib.Order.Basic

/-!
# All-or-nothing writes

A store maps keys to values, and a write replaces the value of one key whole.
`apply` is what a list of writes makes of a store, so that the states a crash
can leave are those of the list's prefixes. A `Medium` is a store whose writes
can fail: the outcomes to come are part of it, and so is the log of the writes
that went through. `writeAll` stops at the first failure; `Wrote` says which
writes lie between two media. What a write uses besides its key, such as a
temporary file, is left out: a medium stands for a disk off such keys only.
-/

namespace Writes

variable {κ ν ε : Type*} [DecidableEq κ]

/-- The store after the writes, in order. -/
def apply : (κ → ν) → List (κ × ν) → κ → ν
  | store, [] => store
  | store, w :: ws => apply (Function.update store w.1 w.2) ws

@[simp] theorem apply_nil (store : κ → ν) : apply store [] = store := rfl

theorem apply_append (store : κ → ν) (ws vs : List (κ × ν)) :
    apply store (ws ++ vs) = apply (apply store ws) vs := by
  induction ws generalizing store with
  | nil => rfl
  | cons w ws ih => exact ih _

/-- What a key holds does not depend on the other keys. -/
theorem apply_congr {k : κ} (ws : List (κ × ν)) {store store' : κ → ν}
    (h : store k = store' k) : apply store ws k = apply store' ws k := by
  induction ws generalizing store store' with
  | nil => exact h
  | cons w ws ih =>
      refine ih ?_
      by_cases hk : k = w.1
      · rw [hk, Function.update_self, Function.update_self]
      · rw [Function.update_of_ne hk, Function.update_of_ne hk, h]

/-- A key that is not written keeps its value. -/
theorem apply_of_not_mem {ws : List (κ × ν)} {k : κ} (h : ∀ w ∈ ws, w.1 ≠ k) (store : κ → ν) :
    apply store ws k = store k := by
  induction ws generalizing store with
  | nil => rfl
  | cons w ws ih =>
      have hne : k ≠ w.1 := (h w List.mem_cons_self).symm
      rw [apply, ih fun v hv => h v (List.mem_cons_of_mem _ hv), Function.update_of_ne hne]

/-- A key that is written once has the value written. -/
theorem apply_of_mem {ws : List (κ × ν)} {k : κ} {v : ν} (hws : (ws.map Prod.fst).Nodup)
    (h : (k, v) ∈ ws) (store : κ → ν) : apply store ws k = v := by
  induction ws generalizing store with
  | nil => cases h
  | cons w ws ih =>
      obtain ⟨hw, hrest⟩ := List.nodup_cons.mp hws
      rcases List.mem_cons.mp h with rfl | hmem
      · have hlast : ∀ u ∈ ws, u.1 ≠ k := fun u hu hk => hw (List.mem_map.mpr ⟨u, hu, hk⟩)
        rw [apply, apply_of_not_mem hlast, Function.update_self]
      · exact ih hrest hmem _

/-- A key holds a value that was written to it, or its value before. -/
theorem apply_mem_or (store : κ → ν) (ws : List (κ × ν)) (k : κ) :
    (k, apply store ws k) ∈ ws ∨ (apply store ws k = store k ∧ ∀ w ∈ ws, w.1 ≠ k) := by
  induction ws generalizing store with
  | nil => exact .inr ⟨rfl, List.forall_mem_nil _⟩
  | cons w ws ih =>
      rcases ih (Function.update store w.1 w.2) with hmem | ⟨hkeep, hrest⟩
      · exact .inl (List.mem_cons_of_mem _ hmem)
      · by_cases hk : w.1 = k
        · left
          subst hk
          rw [Function.update_self] at hkeep
          exact List.mem_cons.mpr (.inl (Prod.ext rfl hkeep))
        · right
          rw [Function.update_of_ne (Ne.symm hk)] at hkeep
          refine ⟨hkeep, fun v hv => ?_⟩
          rcases List.mem_cons.mp hv with rfl | hv
          · exact hk
          · exact hrest v hv

/-! ## Interrupted rewrites

Places numbered by `Nat`, of which those in the ascending list `A` are
rewritten one after the other. `O i`: the thing looked for was at place `i`
before; `N i`: it is there afterwards. -/

theorem mem_takeWhile_le {A : List Nat} (hA : A.Pairwise (· < ·)) {i m : Nat} :
    i ∈ A.takeWhile (· ≤ m) ↔ i ∈ A ∧ i ≤ m := by
  induction A with
  | nil => simp
  | cons a A ih =>
      obtain ⟨ha, hA⟩ := List.pairwise_cons.mp hA
      by_cases hle : a ≤ m
      · simp only [List.takeWhile_cons, decide_eq_true hle, if_true, List.mem_cons, ih hA]
        constructor
        · rintro (rfl | ⟨hi, hm⟩)
          · exact ⟨.inl rfl, hle⟩
          · exact ⟨.inr hi, hm⟩
        · rintro ⟨rfl | hi, hm⟩
          · exact .inl rfl
          · exact .inr ⟨hi, hm⟩
      · have hnone : ¬ (i ∈ a :: A ∧ i ≤ m) := by
          rintro ⟨hi, hm⟩
          rcases List.mem_cons.mp hi with rfl | hi
          · exact hle hm
          · have hlt := ha i hi
            omega
        rw [List.takeWhile_cons_of_neg (by simpa using hle)]
        exact ⟨fun hi => absurd hi List.not_mem_nil, fun hi => absurd hi hnone⟩

/-- The thing is somewhere after every number of rewrites exactly if some place
that had it is not rewritten, or is rewritten no earlier than a place that
gets it. -/
theorem survives_iff {A : List Nat} (hA : A.Pairwise (· < ·)) {O N : Nat → Prop} {n : Nat}
    (hbound : ∀ i, O i → i < n) :
    (∀ k, ∃ i, (i ∈ A.take k ∧ N i) ∨ (i ∉ A.take k ∧ O i)) ↔
      ∃ i, O i ∧ (i ∉ A ∨ ∃ j ∈ A, j ≤ i ∧ N j) := by
  classical
  constructor
  · intro h
    by_contra hlost
    push Not at hlost
    have hsome : ∃ i, O i := by
      obtain ⟨i, ⟨hi, -⟩ | ⟨-, hi⟩⟩ := h 0
      · exact absurd hi (by simp)
      · exact ⟨i, hi⟩
    -- the last place that had it; every place rewritten up to there lacks it
    obtain ⟨i₀, hi₀⟩ := hsome
    have hmax : ∃ m, O m ∧ ∀ i, O i → i ≤ m := by
      refine ⟨Nat.findGreatest O n, Nat.findGreatest_spec (hbound i₀ hi₀).le hi₀, fun i hi => ?_⟩
      exact Nat.le_findGreatest (hbound i hi).le hi
    obtain ⟨m, hm, hle⟩ := hmax
    have htake : A.take (A.takeWhile (· ≤ m)).length = A.takeWhile (· ≤ m) :=
      (List.prefix_iff_eq_take.mp (List.takeWhile_prefix _)).symm
    obtain ⟨i, ⟨hi, hN⟩ | ⟨hi, hO⟩⟩ := h (A.takeWhile (· ≤ m)).length <;>
      rw [htake, mem_takeWhile_le hA] at hi
    · exact (hlost m hm).2 i hi.1 hi.2 hN
    · exact hi ⟨(hlost i hO).1, hle i hO⟩
  · rintro ⟨i, hO, hkeep⟩ k
    by_cases hi : i ∈ A.take k
    · rcases hkeep with hout | ⟨j, hj, hji, hN⟩
      · exact absurd (List.mem_of_mem_take hi) hout
      · -- `j` comes no later than `i`, so it has been rewritten too
        refine ⟨j, .inl ⟨?_, hN⟩⟩
        by_contra hnot
        have hdrop : j ∈ A.drop k := by
          rcases List.mem_append.mp ((List.take_append_drop k A).symm ▸ hj) with h | h
          · exact absurd h hnot
          · exact h
        have hlt : i < j := by
          rw [← List.take_append_drop k A] at hA
          exact (List.pairwise_append.mp hA).2.2 i hi j hdrop
        omega
    · exact ⟨i, .inr ⟨hi, hO⟩⟩

/-! ## Writes that can fail -/

/-- A store, the outcomes of the writes to come (they succeed once the list is
used up), and the writes that went through so far. -/
structure Medium (κ ν ε : Type*) where
  store : κ → ν
  fates : List (Option ε)
  log : List (κ × ν)

namespace Medium

/-- One write: it replaces the value whole or fails and leaves it. -/
def write (m : Medium κ ν ε) (k : κ) (v : ν) : Except ε Unit × Medium κ ν ε :=
  match m.fates with
  | some e :: fates => (.error e, { m with fates := fates })
  | none :: fates => (.ok (), ⟨Function.update m.store k v, fates, m.log ++ [(k, v)]⟩)
  | [] => (.ok (), ⟨Function.update m.store k v, [], m.log ++ [(k, v)]⟩)

/-- The writes in order, up to the first that fails. -/
def writeAll : List (κ × ν) → Medium κ ν ε → Except ε Unit × Medium κ ν ε
  | [], m => (.ok (), m)
  | w :: ws, m =>
      match m.write w.1 w.2 with
      | (.ok _, m) => writeAll ws m
      | (.error e, m) => (.error e, m)

/-- `n` is `m` after the writes `done`. -/
structure Wrote (m n : Medium κ ν ε) (done : List (κ × ν)) : Prop where
  store : n.store = apply m.store done
  log : n.log = m.log ++ done

theorem Wrote.refl (m : Medium κ ν ε) : Wrote m m [] := ⟨rfl, (List.append_nil _).symm⟩

theorem Wrote.trans {l m n : Medium κ ν ε} {ws vs : List (κ × ν)} (h : Wrote l m ws)
    (h' : Wrote m n vs) : Wrote l n (ws ++ vs) where
  store := by rw [h'.store, h.store, apply_append]
  log := by rw [h'.log, h.log, List.append_assoc]

theorem write_cases (m : Medium κ ν ε) (k : κ) (v : ν) :
    (∃ n, m.write k v = (.ok (), n) ∧ Wrote m n [(k, v)]) ∨
      ∃ e n, m.write k v = (.error e, n) ∧ Wrote m n [] := by
  unfold write
  split
  · exact .inr ⟨_, _, rfl, rfl, (List.append_nil _).symm⟩
  · exact .inl ⟨_, rfl, rfl, rfl⟩
  · exact .inl ⟨_, rfl, rfl, rfl⟩

/-- What `writeAll` leaves: all the writes, or those before the one that failed. -/
theorem writeAll_cases (ws : List (κ × ν)) (m : Medium κ ν ε) :
    (∃ n, writeAll ws m = (.ok (), n) ∧ Wrote m n ws) ∨
      ∃ e n done w rest, writeAll ws m = (.error e, n) ∧ ws = done ++ w :: rest ∧
        Wrote m n done := by
  induction ws generalizing m with
  | nil => exact .inl ⟨m, rfl, .refl m⟩
  | cons w ws ih =>
      rcases write_cases m w.1 w.2 with ⟨n, hw, hwrote⟩ | ⟨e, n, hw, hwrote⟩
      · rcases ih n with ⟨n', hn, hrest⟩ | ⟨e, n', done, v, rest, hn, rfl, hrest⟩
        · exact .inl ⟨n', by simp only [writeAll, hw, hn], hwrote.trans hrest⟩
        · exact .inr ⟨e, n', w :: done, v, rest, by simp only [writeAll, hw, hn], rfl,
            hwrote.trans hrest⟩
      · exact .inr ⟨e, n, [], w, ws, by simp only [writeAll, hw], rfl, hwrote⟩

/-- Writes that leave the key `k` alone. -/
def Spared (k : κ) (m n : Medium κ ν ε) : Prop := ∃ done, Wrote m n done ∧ ∀ w ∈ done, w.1 ≠ k

theorem Spared.refl (k : κ) (m : Medium κ ν ε) : Spared k m m :=
  ⟨[], .refl m, List.forall_mem_nil _⟩

theorem Spared.trans {k : κ} {l m n : Medium κ ν ε} (h : Spared k l m) (h' : Spared k m n) :
    Spared k l n := by
  obtain ⟨ws, hws, hk⟩ := h
  obtain ⟨vs, hvs, hk'⟩ := h'
  refine ⟨ws ++ vs, hws.trans hvs, fun w hw => ?_⟩
  rcases List.mem_append.mp hw with hw | hw
  · exact hk w hw
  · exact hk' w hw

theorem Spared.store {k : κ} {m n : Medium κ ν ε} (h : Spared k m n) : n.store k = m.store k := by
  obtain ⟨done, hwrote, hk⟩ := h
  rw [hwrote.store, apply_of_not_mem hk]

/-- The key `k` is neither among the writes that went through nor changed. -/
structure Untouched (k : κ) (m n : Medium κ ν ε) : Prop where
  store : n.store k = m.store k
  log : ∃ done, n.log = m.log ++ done ∧ ∀ w ∈ done, w.1 ≠ k

omit [DecidableEq κ] in
theorem Untouched.refl (k : κ) (m : Medium κ ν ε) : Untouched k m m :=
  ⟨rfl, [], (List.append_nil _).symm, List.forall_mem_nil _⟩

omit [DecidableEq κ] in
theorem Untouched.trans {k : κ} {l m n : Medium κ ν ε} (h : Untouched k l m)
    (h' : Untouched k m n) : Untouched k l n := by
  obtain ⟨hstore, ws, hws, hk⟩ := h
  obtain ⟨hstore', vs, hvs, hk'⟩ := h'
  refine ⟨hstore'.trans hstore, ws ++ vs, by rw [hvs, hws, List.append_assoc], fun w hw => ?_⟩
  rcases List.mem_append.mp hw with hw | hw
  · exact hk w hw
  · exact hk' w hw

/-- With no failure to come a write goes through. -/
theorem write_of_fates_nil {m : Medium κ ν ε} (hm : m.fates = []) (k : κ) (v : ν) :
    ∃ n, m.write k v = (.ok (), n) ∧ Wrote m n [(k, v)] ∧ n.fates = [] := by
  refine ⟨⟨Function.update m.store k v, [], m.log ++ [(k, v)]⟩, ?_, ⟨rfl, rfl⟩, rfl⟩
  simp only [write, hm]

theorem writeAll_of_fates_nil {m : Medium κ ν ε} (hm : m.fates = []) (ws : List (κ × ν)) :
    ∃ n, writeAll ws m = (.ok (), n) ∧ Wrote m n ws ∧ n.fates = [] := by
  induction ws generalizing m with
  | nil => exact ⟨m, rfl, .refl m, hm⟩
  | cons w ws ih =>
      obtain ⟨n, hw, hone, hn⟩ := write_of_fates_nil hm w.1 w.2
      obtain ⟨n', hws, hrest, hn'⟩ := ih hn
      exact ⟨n', by simp only [writeAll, hw, hws], hone.trans hrest, hn'⟩

/-- The write after the first `n` fails. -/
theorem writeAll_fails (store : κ → ν) (ws : List (κ × ν)) (e : ε) {n : Nat} (h : n < ws.length)
    (log : List (κ × ν)) :
    writeAll ws ⟨store, List.replicate n none ++ [some e], log⟩ =
      (.error e, ⟨apply store (ws.take n), [], log ++ ws.take n⟩) := by
  induction ws generalizing store n log with
  | nil => cases h
  | cons w ws ih =>
      cases n with
      | zero => simp [writeAll, write]
      | succ n =>
          have hrest := ih (Function.update store w.1 w.2) (Nat.lt_of_succ_lt_succ h) (log ++ [w])
          simpa [writeAll, write, List.replicate_succ, apply] using hrest

end Medium

end Writes

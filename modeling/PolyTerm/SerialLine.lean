import PolyTerm.SerialSteps

/-!
# What reaches the serial line

The loop writes each chunk with `write_all` and does not look at the result.
The port gives up on a write after its short timeout, so a slow line can take
the beginning of a chunk, lose the rest, and go on with the next chunk, and
nothing is reported. What is on the line is what was taken off the input
channel exactly when no chunk is cut short.
-/

namespace PolyTerm

open Runs

/-! ## One chunk -/

/-- The chunk is written whole when the call goes on after each of its answers;
else what is written is shorter. -/
theorem writeAll_spec {buf : Bytes} {results : List WriteResult} {r : Bytes × Bool}
    (h : writeAll buf results = some r) :
    (results.all (·.goesOn) = true → r.1 = buf) ∧
      (results.all (·.goesOn) = false → r.1.length < buf.length) := by
  induction results generalizing buf r with
  | nil =>
      cases buf with
      | nil => exact Option.some.inj h ▸ ⟨fun _ => rfl, nofun⟩
      | cons b rest => cases h
  | cons result results ih =>
      cases buf with
      | nil => cases h
      | cons b rest =>
          rw [List.all_cons]
          unfold writeAll at h
          split at h
          · rename_i hon
            rw [hon, Bool.true_and]
            split at h
            · rename_i n
              split at h
              · rename_i hn
                obtain ⟨r', hr', rfl⟩ := Option.map_eq_some_iff.mp h
                obtain ⟨hwhole, hcut⟩ := ih hr'
                refine ⟨fun hall => ?_, fun hall => ?_⟩
                · dsimp only
                  rw [hwhole hall, List.take_append_drop]
                · have hshort := hcut hall
                  rw [List.length_drop] at hshort
                  dsimp only
                  rw [List.length_append, List.length_take]
                  omega
              · cases h
            · exact ih h
          · rename_i hoff
            rw [Bool.eq_false_iff.mpr hoff, Bool.false_and]
            split at h
            · obtain rfl := Option.some.inj h
              exact ⟨nofun, fun _ => Nat.succ_pos _⟩
            · cases h

/-! ## The loop -/

/-- An event that tells the user that something is wrong, or over. -/
def TransportEvent.reports : TransportEvent → Bool
  | .error _ | .disconnected _ => true
  | _ => false

namespace Serial

/-- The step does not cut a chunk short: the writes of the chunk it takes are
answered by what lets `write_all` go on. -/
def Completes (s : Serial) : SerialLabel → Prop
  | .readInput results =>
      s.phase = .input → s.pair.input.queue ≠ [] → results.all (·.goesOn) = true
  | _ => True

instance (s : Serial) : ∀ l, Decidable (s.Completes l)
  | .readInput _ => inferInstanceAs (Decidable (_ → _))
  | .ui _ | .tick _ | .emit | .readControl | .housekeep _ | .readLine _ | .relay
  | .awaitReconnect _ => inferInstanceAs (Decidable True)

/-- The chunks taken off the input channel, in order. -/
def chunks (s : Serial) (labels : List SerialLabel) : List Bytes := outputs step consumes s labels

/-- An error or the end of the link was reported. -/
def Reported (s : Serial) (labels : List SerialLabel) : Prop :=
  ∃ e ∈ outputs step sends s labels, e.reports = true

variable {s t : Serial} {l : SerialLabel}

/-- A step that completes puts its chunk on the line, any other less. -/
def Puts (s t : Serial) (l : SerialLabel) : Prop :=
  ∃ w, t.line = s.line ++ w ∧ (s.Completes l → w = (s.consumes l).flatten) ∧
    (¬s.Completes l → w.length < (s.consumes l).flatten.length)

theorem puts_of_eq (hline : t.line = s.line) (hnone : s.consumes l = [])
    (hcompletes : s.Completes l) : Puts s t l :=
  ⟨[], hline.trans (List.append_nil _).symm, fun _ => by rw [hnone]; rfl,
    fun hnot => absurd hcompletes hnot⟩

theorem readInput_puts {results : List WriteResult} (h : s.readInput results = some t) :
    Puts s t (.readInput results) := by
  obtain ⟨hphase, ⟨bytes, input, r, hrecv, hr, rfl⟩ | ⟨hrecv, hquiet⟩⟩ := readInput_cases h
  · have hne : s.pair.input.queue ≠ [] := by
      rw [(Fifo.recv_some hrecv).1]
      exact List.cons_ne_nil _ _
    have hchunk : (s.consumes (.readInput results)).flatten = bytes := by
      simp [consumes, hphase, hrecv]
    obtain ⟨hwhole, hcut⟩ := writeAll_spec hr
    refine ⟨r.1, rfl, fun hall => ?_, fun hnot => ?_⟩
    · rw [hchunk, hwhole (hall hphase hne)]
    · rw [hchunk]
      exact hcut (Bool.eq_false_iff.mpr fun hall => hnot fun _ _ => hall)
  · refine puts_of_eq hquiet.line (by simp [consumes, hrecv]) ?_
    exact fun _ hne => absurd (Fifo.recv_eq_none.mp hrecv) hne

/-- Only the drain of the input puts anything on the line. -/
theorem step_puts (h : s.step l = some t) : Puts s t l := by
  cases l with
  | readInput results => exact readInput_puts h
  | ui move =>
      obtain ⟨pair, -, rfl⟩ := Option.map_eq_some_iff.mp h
      exact puts_of_eq rfl rfl trivial
  | tick elapsed => exact puts_of_eq (Option.some.inj h ▸ rfl) rfl trivial
  | emit =>
      obtain ⟨e, pair, -, -, rfl⟩ := emit_cases h
      exact puts_of_eq (announced_same { s with pair := pair }).1 rfl trivial
  | readControl => exact puts_of_eq (readControl_quiet h).line rfl trivial
  | housekeep lines => exact puts_of_eq (housekeep_quiet h).line rfl trivial
  | readLine result => exact puts_of_eq (readLine_quiet h).line rfl trivial
  | relay => exact puts_of_eq (relay_quiet h).line rfl trivial
  | awaitReconnect reopened => exact puts_of_eq (awaitReconnect_quiet h).line rfl trivial

/-- So with a run: it puts all its chunks on the line when each of its steps
completes, and fewer bytes otherwise. -/
theorem run_puts {labels : List SerialLabel} (hrun : run step s labels = some t) :
    ∃ w, t.line = s.line ++ w ∧
      (Along step Completes s labels → w = (s.chunks labels).flatten) ∧
      (¬Along step Completes s labels → w.length < (s.chunks labels).flatten.length) := by
  induction labels generalizing s with
  | nil =>
      obtain rfl := Option.some.inj hrun
      exact ⟨[], (List.append_nil _).symm, fun _ => rfl, fun hnot => absurd trivial hnot⟩
  | cons l labels ih =>
      obtain ⟨r, hstep, hrest⟩ := run_cons_eq_some.mp hrun
      obtain ⟨v, hv, hwhole, hcut⟩ := step_puts hstep
      obtain ⟨w, hw, hwholes, hcuts⟩ := ih hrest
      have hchunks : (s.chunks (l :: labels)).flatten =
          (s.consumes l).flatten ++ (r.chunks labels).flatten := by
        rw [chunks, outputs_cons hstep, List.flatten_append, chunks]
      have halong : Along step Completes s (l :: labels) ↔
          s.Completes l ∧ Along step Completes r labels := by simp [Along, hstep]
      have hle : v.length ≤ (s.consumes l).flatten.length := by
        by_cases hc : s.Completes l
        · rw [hwhole hc]
        · exact (hcut hc).le
      have hle' : w.length ≤ (r.chunks labels).flatten.length := by
        by_cases hc : Along step Completes r labels
        · rw [hwholes hc]
        · exact (hcuts hc).le
      refine ⟨v ++ w, by rw [hw, hv, List.append_assoc], fun hall => ?_, fun hnot => ?_⟩
      · rw [hchunks, hwhole (halong.mp hall).1, hwholes (halong.mp hall).2]
      · rw [hchunks, List.length_append, List.length_append]
        rcases not_and_or.mp (mt halong.mpr hnot) with hc | hc
        · exact Nat.add_lt_add_of_lt_of_le (hcut hc) hle'
        · exact Nat.add_lt_add_of_le_of_lt hle (hcuts hc)

/-- In every stretch of a run, what it adds to the line is what it took off the
input channel, or something was reported, exactly when no chunk is cut short,
or something was reported. -/
theorem line_kept_iff {labels : List SerialLabel} (hrun : run step s labels = some t) :
    (t.line = s.line ++ (s.chunks labels).flatten ∨ s.Reported labels) ↔
      (Along step Completes s labels ∨ s.Reported labels) := by
  obtain ⟨w, hw, hwhole, hcut⟩ := run_puts hrun
  refine or_congr_left' fun _ => ⟨fun hline => ?_, fun hall => by rw [hw, hwhole hall]⟩
  by_contra hnot
  have hshort := hcut hnot
  rw [List.append_cancel_left (hw.symm.trans hline)] at hshort
  exact absurd hshort (lt_irrefl _)

/-- A line that takes the three bytes of a chunk in two writes. -/
def slowLine : List SerialLabel :=
  [.emit, .ui (.input [0x61, 0x62, 0x63]), .readControl, .housekeep none,
    .readInput [.wrote 1, .interrupted, .wrote 2]]

theorem line_kept_slow : ∃ t, run step start slowLine = some t ∧
    (t.line = start.line ++ (start.chunks slowLine).flatten ∨ start.Reported slowLine) :=
  ⟨_, rfl, (line_kept_iff rfl).mpr (Or.inl (by decide))⟩

/-- A line that takes one byte of a chunk, times out, and takes the next
chunk. -/
def cutLine : List SerialLabel :=
  [.emit, .ui (.input [0x61, 0x62, 0x63]), .ui (.input [0x64]), .readControl, .housekeep none,
    .readInput [.wrote 1, .timedOut], .readInput [.wrote 1], .readInput [], .readLine .timedOut]

/-- The loop goes on as if nothing had happened, and nobody is told. -/
theorem input_lost : ¬∀ labels t, run step start labels = some t →
    t.line = start.line ++ (start.chunks labels).flatten ∨ start.Reported labels := by
  intro hkept
  have hlost : ∃ t, run step start cutLine = some t ∧ t.line = [0x61, 0x64] := ⟨_, rfl, rfl⟩
  obtain ⟨t, hrun, hline⟩ := hlost
  rcases hkept cutLine t hrun with heq | ⟨e, he, hreports⟩
  · rw [hline] at heq
    exact absurd heq (by decide)
  · have hsent : outputs step sends start cutLine = [.connected] := by decide
    rw [hsent, List.mem_singleton] at he
    rw [he] at hreports
    cases hreports

end Serial

end PolyTerm

import PolyTerm.ForwardPlaces

/-!
# When the two lists agree

What is shown as up has been asked for or is in the connection's table, and
what has been asked for or is up there is shown, unless its removal is on the
way (`Agreed`). The correspondence survives every move that is `Kept`; with
nothing on its way it says that the two lists are the same.
-/

namespace PolyTerm

/-- Not settled, or settled and up. -/
def ForwardStage.pending : ForwardStage → Bool
  | .asking | .reporting _ | .settled .active => true
  | .settled _ => false

namespace Ledger

/-! ## The correspondence -/

/-- The row will be `starting` or `active`. -/
def Shown (g : Ledger) (id : ForwardId) : Prop :=
  ∃ row, g.outcome id = some row ∧ row.state.isUp = true

/-- In the connection's table, unless it has settled as failed. -/
def Pending (g : Ledger) (id : ForwardId) : Prop :=
  ∃ f, g.connection.forwards.lookup id = some f ∧ f.stage.pending = true

/-- In the connection's table, waiting or up. -/
def Live (g : Ledger) (id : ForwardId) : Prop :=
  ∃ f, g.connection.forwards.lookup id = some f ∧ f.stage.live = true

structure Agreed (g : Ledger) : Prop where
  shown : ∀ {id}, g.Shown id → g.Requested id ∨ g.Pending id
  wanted : ∀ {id}, g.Requested id ∨ g.Live id → g.Shown id ∨ .remove id ∈ g.requests

/-- The condition, per move: no request for a forward is refused by the
channel, consumed by the backoff or dropped with it while its row is up, and
no removal of one whose row is up is refused; a connection does not end while
the row of one of its forwards is up; a forward that is no longer in the table
does not report that it is up, unless its `closed` is still to come. -/
def Kept (g : Ledger) : Move → Prop
  | .request _ _ accepted => accepted = true
  | .withdraw id accepted => accepted = true ∨ ¬g.Shown id
  | .drop => ∀ id spec, g.requests.head? = some (.add id spec) → ¬g.Shown id
  | .dropAll => ∀ id, g.Requested id → ¬g.Shown id
  | .endConnection => ∀ id ∈ g.connection.forwards, ¬g.Shown id
  | .task (.report id) => ∀ f outcome, g.connection.forwards.lookup id = none →
      g.connection.orphans.lookup id = some f → f.stage = .reporting outcome →
      outcome.isUp = true → ∃ r, g.connection.stopping = some r ∧ r.status.id = id
  | .earlierReport id => ∀ f outcome, g.earlier.lookup id = some f →
      f.stage = .reporting outcome → outcome.isUp = false
  | _ => True

theorem agreed_start : Agreed .start := by
  refine ⟨fun {id} hs => ?_, fun {id} hw => ?_⟩
  · obtain ⟨row, hrow, -⟩ := hs
    cases hrow
  · rcases hw with ⟨spec, hreq⟩ | ⟨f, hf, -⟩
    · cases hreq
    · cases hf

/-- A row up to what is on its way. -/
theorem shown_congr {g h : Ledger} {id : ForwardId} (heq : h.outcome id = g.outcome id) :
    h.Shown id ↔ g.Shown id := by
  rw [Shown, Shown, heq]

theorem request_agreed {g h : Ledger} {id : ForwardId} {spec : ForwardSpec} {accepted : Bool}
    (hp : g.Placed) (hg : g.Agreed) (hk : g.Kept (.request id spec accepted))
    (hstep : g.step (.request id spec accepted) = some h) : h.Agreed := by
  obtain rfl : accepted = true := hk
  simp only [step] at hstep
  split at hstep
  · cases hstep
  · rename_i hid
    obtain rfl := Option.some.inj hstep
    have hsilent : ∀ x ∈ g.coming, x.id ≠ id := by
      rintro x hx rfl
      exact hid (hp.coming hx)
    have hother : ∀ {id'}, id' ≠ id → (g.request id spec true).outcome id' = g.outcome id' := by
      intro id' hne
      simp only [outcome, request, AList.lookup_insert_ne hne]
      rfl
    have hnew : (g.request id spec true).outcome id = some ⟨id, spec, .starting⟩ := by
      simp only [outcome, request, AList.lookup_insert]
      exact rowAfter_silent hsilent _
    refine ⟨fun {id'} hs => ?_, fun {id'} hw => ?_⟩
    · by_cases hne : id' = id
      · subst hne
        exact Or.inl ⟨spec, List.mem_append_right _ (List.mem_singleton.mpr rfl)⟩
      · rcases hg.shown ((shown_congr (hother hne)).mp hs) with ⟨spec', hreq⟩ | hpend
        · exact Or.inl ⟨spec', List.mem_append_left _ hreq⟩
        · exact Or.inr hpend
    · by_cases hne : id' = id
      · subst hne
        exact Or.inl ⟨_, hnew, rfl⟩
      · have hw' : g.Requested id' ∨ g.Live id' := by
          refine hw.imp_left ?_
          rintro ⟨spec', hreq⟩
          rcases List.mem_append.mp hreq with hreq | hreq
          · exact ⟨spec', hreq⟩
          · obtain ⟨heq, -⟩ := ForwardRequest.add.inj (List.mem_singleton.mp hreq)
            exact absurd heq hne
        rcases hg.wanted hw' with hs | hr
        · exact Or.inl ((shown_congr (hother hne)).mpr hs)
        · exact Or.inr (List.mem_append_left _ hr)

/-- Dropping a row shows nothing new, and changes no other row. -/
theorem withdraw_outcome (g : Ledger) (id id' : ForwardId) (accepted : Bool) :
    (g.withdraw id accepted).outcome id' = g.outcome id' ∨
      (id' = id ∧ (g.withdraw id accepted).outcome id' = none) := by
  have hcoming : (g.withdraw id accepted).coming = g.coming := rfl
  rw [outcome, outcome, hcoming]
  by_cases hne : id' = id
  · subst hne
    by_cases htold : ∃ x ∈ g.coming, x.id = id'
    · exact Or.inl (rowAfter_told htold _ _)
    · refine Or.inr ⟨rfl, ?_⟩
      rw [rowAfter_silent fun x hx hid => htold ⟨x, hx, hid⟩, withdraw, AList.lookup_erase]
  · rw [withdraw, AList.lookup_erase_ne hne]
    exact Or.inl rfl

theorem withdraw_agreed {g h : Ledger} {id : ForwardId} {accepted : Bool}
    (hg : g.Agreed) (hk : g.Kept (.withdraw id accepted))
    (hstep : g.step (.withdraw id accepted) = some h) : h.Agreed := by
  simp only [step] at hstep
  split at hstep
  · obtain rfl := Option.some.inj hstep
    have hmem : ∀ {r}, r ∈ g.requests → r ∈ (g.withdraw id accepted).requests := by
      intro r hr
      rw [withdraw]
      split
      · exact List.mem_append_left _ hr
      · exact hr
    have hadds : ∀ {id'}, (g.withdraw id accepted).Requested id' → g.Requested id' := by
      rintro id' ⟨spec, hreq⟩
      rw [withdraw] at hreq
      split at hreq
      · exact ⟨spec, by simpa using hreq⟩
      · exact ⟨spec, hreq⟩
    refine ⟨fun {id'} hs => ?_, fun {id'} hw => ?_⟩
    · rcases withdraw_outcome g id id' accepted with heq | ⟨-, hnone⟩
      · refine (hg.shown ((shown_congr heq).mp hs)).imp_left ?_
        rintro ⟨spec, hr⟩
        exact ⟨spec, hmem hr⟩
      · obtain ⟨row, hrow, -⟩ := hs
        rw [hnone] at hrow
        cases hrow
    · rcases hg.wanted (hw.imp_left hadds) with hs | hr
      · by_cases hne : id' = id
        · subst hne
          rcases hk with rfl | hdown
          · exact Or.inr (List.mem_append_right _ (List.mem_singleton.mpr rfl))
          · exact absurd hs hdown
        · rcases withdraw_outcome g id id' accepted with heq | ⟨heq, -⟩
          · exact Or.inl ((shown_congr heq).mpr hs)
          · exact absurd heq hne
      · exact Or.inr (hmem hr)
  · cases hstep

theorem drain_outcome {g h : Ledger} {n : Nat} (hstep : g.step (.drain n) = some h)
    (id : ForwardId) : h.outcome id = g.outcome id := by
  obtain rfl := Option.some.inj hstep
  simp only [outcome, coming, lookup_foldl_applyStatus]
  rw [← rowAfter_append, ← List.append_assoc, List.take_append_drop]

theorem drain_agreed {g h : Ledger} {n : Nat} (hg : g.Agreed)
    (hstep : g.step (.drain n) = some h) : h.Agreed := by
  have hout := drain_outcome hstep
  obtain rfl := Option.some.inj hstep
  exact ⟨fun hs => hg.shown ((shown_congr (hout _)).mp hs),
    fun hw => (hg.wanted hw).imp_left (shown_congr (hout _)).mpr⟩

theorem drop_agreed {g h : Ledger} (hp : g.Placed) (hg : g.Agreed) (hk : g.Kept .drop)
    (hstep : g.step .drop = some h) : h.Agreed := by
  simp only [step] at hstep
  split at hstep
  · rename_i r rest hrequests
    split at hstep
    · rename_i hforwards
      obtain rfl := Option.some.inj hstep
      have horder := hp.order
      rw [hrequests, List.pairwise_cons] at horder
      refine ⟨fun {id} hs => ?_, fun {id} hw => ?_⟩
      · rcases hg.shown hs with ⟨spec, hreq⟩ | hpend
        · rw [hrequests] at hreq
          rcases List.mem_cons.mp hreq with rfl | hreq
          · exact absurd hs (hk id spec (by rw [hrequests]; rfl))
          · exact Or.inl ⟨spec, hreq⟩
        · exact Or.inr hpend
      · rcases hw with ⟨spec, hreq⟩ | ⟨f, hf, -⟩
        · have hreq' : .add id spec ∈ g.requests := hrequests ▸ List.mem_cons_of_mem _ hreq
          rcases hg.wanted (Or.inl ⟨spec, hreq'⟩) with hs | hr
          · exact Or.inl hs
          · rw [hrequests] at hr
            rcases List.mem_cons.mp hr with rfl | hr
            · exact absurd rfl (horder.1 _ hreq spec)
            · exact Or.inr hr
        · rw [hforwards] at hf
          cases hf
    · cases hstep
  · cases hstep

theorem dropAll_agreed {g h : Ledger} (hg : g.Agreed) (hk : g.Kept .dropAll)
    (hstep : g.step .dropAll = some h) : h.Agreed := by
  simp only [step] at hstep
  split at hstep
  · rename_i hforwards
    obtain rfl := Option.some.inj hstep
    refine ⟨fun {id} hs => ?_, fun {id} hw => ?_⟩
    · exact (hg.shown hs).imp_left fun hreq => absurd hs (hk id hreq)
    · rcases hw with ⟨spec, hreq⟩ | ⟨f, hf, -⟩
      · cases hreq
      · rw [hforwards] at hf
        cases hf
  · cases hstep

theorem endConnection_agreed {g h : Ledger} (hg : g.Agreed) (hk : g.Kept .endConnection)
    (hstep : g.step .endConnection = some h) : h.Agreed := by
  simp only [step] at hstep
  split at hstep
  · rename_i hstopping
    obtain rfl := Option.some.inj hstep
    have hout : ∀ id, Ledger.outcome { g with
        connection := .empty, earlier := g.earlier ∪ g.connection.abortAll } id = g.outcome id := by
      intro id
      simp only [outcome, coming, hstopping]
      rfl
    refine ⟨fun {id} hs => ?_, fun {id} hw => ?_⟩
    · have hs' := (shown_congr (hout id)).mp hs
      rcases hg.shown hs' with hreq | ⟨f, hf, -⟩
      · exact Or.inl hreq
      · exact absurd hs' (hk id (Table.mem_of_lookup hf))
    · rcases hw with hreq | ⟨f, hf, -⟩
      · exact (hg.wanted (Or.inl hreq)).imp_left (shown_congr (hout id)).mpr
      · cases hf
  · cases hstep

/-- Starting a forward moves its id from the requests to the table. -/
theorem start_agreed {g : Ledger} {id : ForwardId} {spec : ForwardSpec}
    {rest : List ForwardRequest} (hg : g.Agreed) (hrequests : g.requests = .add id spec :: rest) :
    Agreed { g with requests := rest, connection := g.connection.start id spec } := by
  rw [Connection.start_eq]
  have hmem : ∀ {r}, r ∈ rest → r ∈ g.requests := fun hr => hrequests ▸ List.mem_cons_of_mem _ hr
  refine ⟨fun {id'} hs => ?_, fun {id'} hw => ?_⟩
  · by_cases hne : id' = id
    · subst hne
      exact Or.inr ⟨_, AList.lookup_insert _, rfl⟩
    · rcases hg.shown hs with ⟨spec', hreq⟩ | ⟨f, hf, hpend⟩
      · rw [hrequests] at hreq
        rcases List.mem_cons.mp hreq with heq | hreq
        · exact absurd (ForwardRequest.add.inj heq).1 hne
        · exact Or.inl ⟨spec', hreq⟩
      · exact Or.inr ⟨f, (AList.lookup_insert_ne hne).trans hf, hpend⟩
  · have hw' : g.Requested id' ∨ g.Live id' := by
      rcases hw with ⟨spec', hreq⟩ | ⟨f, hf, hlive⟩
      · exact Or.inl ⟨spec', hmem hreq⟩
      · by_cases hne : id' = id
        · subst hne
          exact Or.inl ⟨spec, hrequests ▸ List.mem_cons_self⟩
        · exact Or.inr ⟨f, (AList.lookup_insert_ne hne).symm.trans hf, hlive⟩
    refine (hg.wanted hw').imp_right fun hr => ?_
    rw [hrequests] at hr
    exact (List.mem_cons.mp hr).resolve_left nofun

/-- Stopping a forward takes its id out of the table and its row out of what
is to come. -/
theorem stop_agreed {g : Ledger} {id : ForwardId} {rest : List ForwardRequest} (hp : g.Placed)
    (hg : g.Agreed) (hstopping : g.connection.stopping = none)
    (hrequests : g.requests = .remove id :: rest) :
    Agreed { g with requests := rest, connection := g.connection.stop id } := by
  have horder := hp.order
  rw [hrequests, List.pairwise_cons] at horder
  have hadd : ∀ {id'}, g.Requested id' → ∃ spec, .add id' spec ∈ rest := by
    rintro id' ⟨spec, hreq⟩
    rw [hrequests] at hreq
    exact ⟨spec, (List.mem_cons.mp hreq).resolve_left nofun⟩
  have hgone : ¬∃ spec, .add id spec ∈ rest := fun ⟨spec, hreq⟩ => horder.1 _ hreq spec rfl
  have hremove : ∀ {id'}, id' ≠ id → .remove id' ∈ g.requests → .remove id' ∈ rest := by
    intro id' hne hr
    rw [hrequests] at hr
    exact (List.mem_cons.mp hr).resolve_left fun heq => hne (ForwardRequest.remove.inj heq)
  cases hid : g.connection.forwards.lookup id with
  | none =>
      rw [Connection.stop_absent hid]
      refine ⟨fun {id'} hs => (hg.shown hs).imp_left hadd, fun {id'} hw => ?_⟩
      have hne : id' ≠ id := by
        rintro rfl
        rcases hw with hreq | ⟨f, hf, -⟩
        · exact hgone hreq
        · rw [hid] at hf
          cases hf
      have hw' : g.Requested id' ∨ g.Live id' :=
        hw.imp_left fun ⟨spec, hreq⟩ => ⟨spec, hrequests ▸ List.mem_cons_of_mem _ hreq⟩
      exact (hg.wanted hw').imp_right (hremove hne)
  | some f =>
      rw [Connection.stop_eq hid]
      have hout : ∀ id', Ledger.outcome { g with
          requests := rest
          connection := { g.connection with
            forwards := g.connection.forwards.erase id
            orphans := g.connection.orphans.insert id f
            remoteForwards :=
              if f.spec.kind = .remote then g.connection.remoteForwards.erase f.spec.bind
              else g.connection.remoteForwards
            stopping := some ⟨id, f.spec, f.spec.kind = .remote⟩ } } id' =
          if id' = id then none else g.outcome id' := by
        intro id'
        simp only [outcome, coming, hstopping, Option.map_some, Option.map_none, Stopping.status,
          Option.toList_some, Option.toList_none, List.append_nil, rowAfter_concat]
        by_cases hne : id' = id
        · rw [if_pos hne, if_pos hne.symm]
          rfl
        · rw [if_neg hne, if_neg (Ne.symm hne)]
      refine ⟨fun {id'} hs => ?_, fun {id'} hw => ?_⟩
      · obtain ⟨row, hrow, hup⟩ := hs
        rw [hout] at hrow
        split at hrow
        · cases hrow
        · rename_i hne
          rcases hg.shown ⟨row, hrow, hup⟩ with hreq | ⟨f', hf', hpend⟩
          · exact Or.inl (hadd hreq)
          · exact Or.inr ⟨f', (AList.lookup_erase_ne hne).trans hf', hpend⟩
      · have hne : id' ≠ id := by
          rintro rfl
          rcases hw with hreq | ⟨f', hf', -⟩
          · exact hgone hreq
          · rw [AList.lookup_erase] at hf'
            cases hf'
        have hw' : g.Requested id' ∨ g.Live id' := by
          rcases hw with ⟨spec, hreq⟩ | ⟨f', hf', hlive⟩
          · exact Or.inl ⟨spec, hrequests ▸ List.mem_cons_of_mem _ hreq⟩
          · exact Or.inr ⟨f', (AList.lookup_erase_ne hne).symm.trans hf', hlive⟩
        rcases hg.wanted hw' with ⟨row, hrow, hup⟩ | hr
        · exact Or.inl ⟨row, (hout id').trans ((if_neg hne).trans hrow), hup⟩
        · exact Or.inr (hremove hne hr)

theorem handle_agreed {g h : Ledger} (hp : g.Placed) (hg : g.Agreed)
    (hstep : g.step .handle = some h) : h.Agreed := by
  simp only [step] at hstep
  split at hstep
  case h_2 => cases hstep
  case h_1 r rest hstopping hrequests =>
    obtain rfl := Option.some.inj hstep
    cases r with
    | add id spec => exact start_agreed hg hrequests
    | remove id => exact stop_agreed hp hg hstopping hrequests

/-! ## What the tasks do -/

/-- Which ids are pending and live, when a task has moved on. -/
theorem lookup_setStage_ne {c : Connection} {id id' : ForwardId} {stage : ForwardStage}
    (hne : id' ≠ id) : (c.setStage id stage).forwards.lookup id' = c.forwards.lookup id' := by
  rw [Connection.lookup_setStage, if_neg hne]

theorem lookup_setStage_same {c : Connection} {id : ForwardId} (stage : ForwardStage) {f : Forward}
    (h : c.forwards.lookup id = some f) :
    (c.setStage id stage).forwards.lookup id = some { f with stage := stage } := by
  rw [Connection.lookup_setStage, if_pos rfl, h, Option.map_some]

/-- A reply changes no row and settles nothing. -/
theorem replied_agreed {g : Ledger} {id : ForwardId} {spec : ForwardSpec} {refused : Option String}
    {listens : List Bind} (hg : g.Agreed)
    (htask : g.connection.task id = some ⟨spec, .asking⟩) :
    Agreed { g with connection :=
      { g.connection.setStage id (.reporting (Connection.outcomeOf spec refused)) with
        listens := listens } } := by
  refine ⟨fun {id'} hs => (hg.shown hs).imp_right fun ⟨f, hf, hpend⟩ => ?_,
    fun {id'} hw => hg.wanted (hw.imp_right fun ⟨f, hf, hlive⟩ => ?_)⟩
  · by_cases hne : id' = id
    · subst hne
      exact ⟨_, lookup_setStage_same _ hf, rfl⟩
    · exact ⟨f, (lookup_setStage_ne hne).trans hf, hpend⟩
  · by_cases hne : id' = id
    · subst hne
      rw [Connection.lookup_setStage, if_pos rfl] at hf
      obtain ⟨f', hf', -⟩ := Option.map_eq_some_iff.mp hf
      have hasking := Connection.task_of_forward hf' htask
      exact ⟨f', hf', hasking ▸ rfl⟩
    · exact ⟨f, (lookup_setStage_ne hne).symm.trans hf, hlive⟩

/-- The row of a forward that has just been reported on. -/
theorem reported_outcome (g : Ledger) {c : Connection} (hc : c.stopping = g.connection.stopping)
    (earlier : Table ForwardId Forward) (status : ForwardStatus) (id : ForwardId) :
    Ledger.outcome { g with
      connection := c, earlier := earlier, inFlight := g.inFlight ++ [status] } id =
      if status.id = id then
        rowAfter id (rowOf status) (g.connection.stopping.map Stopping.status).toList
      else g.outcome id := by
  simp only [outcome, coming, hc, rowAfter_append _ _ (_ ++ _), rowAfter_concat]
  split
  · rfl
  · rw [rowAfter_append]

theorem shown_reported {g : Ledger} {c : Connection} (hc : c.stopping = g.connection.stopping)
    {earlier : Table ForwardId Forward} {status : ForwardStatus} {id : ForwardId}
    (hne : status.id ≠ id) :
    Shown { g with connection := c, earlier := earlier, inFlight := g.inFlight ++ [status] } id ↔
      g.Shown id :=
  shown_congr ((reported_outcome g hc earlier status id).trans (if_neg hne))

/-- A status that says a forward is down, or that is followed by `closed`,
shows nothing. -/
theorem not_shown_down {g : Ledger} {c : Connection} (status : ForwardStatus)
    (hc : c.stopping = g.connection.stopping) {earlier : Table ForwardId Forward}
    (hdown : status.state.isUp = false ∨ ∃ r, g.connection.stopping = some r ∧ r.id = status.id) :
    ¬Shown { g with connection := c, earlier := earlier, inFlight := g.inFlight ++ [status] }
      status.id := by
  rintro ⟨row, hrow, hup⟩
  rw [reported_outcome g hc, if_pos rfl] at hrow
  have hstatus : status.state.isUp = false → rowOf status ≠ some row := by
    intro hdown heq
    unfold rowOf at heq
    split at heq
    · cases heq
    · obtain rfl := Option.some.inj heq
      rw [hdown] at hup
      cases hup
  cases hstopping : g.connection.stopping with
  | none =>
      rw [hstopping] at hrow
      rcases hdown with hdown | ⟨r, hr, -⟩
      · exact hstatus hdown hrow
      · rw [hstopping] at hr
        cases hr
  | some r =>
      rw [hstopping] at hrow
      have hlast : rowAfter status.id (rowOf status) [r.status] =
          if r.id = status.id then none else rowOf status := rfl
      simp only [Option.map_some, Option.toList_some, hlast] at hrow
      split at hrow
      · cases hrow
      · rename_i hne
        rcases hdown with hdown | ⟨r', hr', hid⟩
        · exact hstatus hdown hrow
        · rw [hstopping] at hr'
          obtain rfl := Option.some.inj hr'
          exact hne hid

/-- The row of a forward in the table is as it was reported. -/
theorem shown_of_up {g : Ledger} {c : Connection} (status : ForwardStatus)
    (hc : c.stopping = g.connection.stopping) {earlier : Table ForwardId Forward}
    (hup : status.state.isUp = true)
    (hkept : ∀ r, g.connection.stopping = some r → r.id ≠ status.id) :
    Shown { g with connection := c, earlier := earlier, inFlight := g.inFlight ++ [status] }
      status.id := by
  have hopen : status.state ≠ .closed := by
    rintro heq
    rw [heq] at hup
    cases hup
  refine ⟨status, ?_, hup⟩
  rw [reported_outcome g hc, if_pos rfl, rowAfter_silent, rowOf, if_neg hopen]
  intro x hx
  obtain ⟨r, hr, rfl⟩ := Option.map_eq_some_iff.mp (Option.mem_toList.mp hx)
  exact hkept r hr

/-- A report of a forward that is no longer in the table. -/
theorem gone_reported {g : Ledger} {c : Connection} {earlier : Table ForwardId Forward}
    (status : ForwardStatus) (hp : g.Placed) (hg : g.Agreed) (hheld : g.Held status.id)
    (hforwards : ∀ id, id ≠ status.id → c.forwards.lookup id = g.connection.forwards.lookup id)
    (habsent' : c.forwards.lookup status.id = none)
    (hc : c.stopping = g.connection.stopping)
    (hdown : status.state.isUp = false ∨ ∃ r, g.connection.stopping = some r ∧ r.id = status.id) :
    Agreed { g with connection := c, earlier := earlier, inFlight := g.inFlight ++ [status] } := by
  refine ⟨fun {id} hs => ?_, fun {id} hw => ?_⟩
  · by_cases hid : id = status.id
    · subst hid
      exact absurd hs (not_shown_down status hc hdown)
    · refine (hg.shown ((shown_reported hc (Ne.symm hid)).mp hs)).imp_right ?_
      rintro ⟨f, hf, hpend⟩
      exact ⟨f, (hforwards id hid).trans hf, hpend⟩
  · have hid : id ≠ status.id := by
      rintro rfl
      rcases hw with hreq | ⟨f, hf, -⟩
      · exact hp.fresh hreq hheld
      · rw [habsent'] at hf
        cases hf
    have hw' : g.Requested id ∨ g.Live id := by
      refine hw.imp_right ?_
      rintro ⟨f, hf, hlive⟩
      exact ⟨f, (hforwards id hid).symm.trans hf, hlive⟩
    exact (hg.wanted hw').imp_left (shown_reported hc (Ne.symm hid)).mpr

/-- A report of a forward of the connection. -/
theorem forward_reported {g : Ledger} {id : ForwardId} {spec : ForwardSpec}
    {outcome : ForwardState} (hp : g.Placed) (hg : g.Agreed)
    (hf : g.connection.forwards.lookup id = some ⟨spec, .reporting outcome⟩) :
    Agreed { g with
      connection := g.connection.setStage id (.settled outcome)
      inFlight := g.inFlight ++ [⟨id, spec, outcome⟩] } := by
  have hc : (g.connection.setStage id (.settled outcome)).stopping = g.connection.stopping := rfl
  have hmem : id ∈ g.connection.forwards := Table.mem_of_lookup hf
  have hkept : ∀ r, g.connection.stopping = some r → r.id ≠ id := by
    rintro r hr rfl
    exact hp.removed hr hmem
  have hset := lookup_setStage_same (.settled outcome) hf
  refine ⟨fun {id'} hs => ?_, fun {id'} hw => ?_⟩
  · by_cases hid : id' = id
    · subst hid
      rcases hp.reports hf with rfl | hdown
      · exact Or.inr ⟨_, hset, rfl⟩
      · exact absurd hs (not_shown_down ⟨id', spec, outcome⟩ hc (Or.inl hdown))
    · refine (hg.shown ((shown_reported hc (Ne.symm hid)).mp hs)).imp_right ?_
      rintro ⟨f, hf', hpend⟩
      exact ⟨f, (lookup_setStage_ne hid).trans hf', hpend⟩
  · by_cases hid : id' = id
    · subst hid
      rcases hw with hreq | ⟨f, hf', hlive⟩
      · exact absurd (Or.inl hmem) (hp.fresh hreq)
      · obtain rfl := Option.some.inj (hset.symm.trans hf')
        have hup : outcome = .active := by
          cases outcome <;> first | rfl | cases hlive
        exact Or.inl (shown_of_up ⟨id', spec, outcome⟩ hc (hup ▸ rfl) hkept)
    · have hw' : g.Requested id' ∨ g.Live id' := by
        refine hw.imp_right ?_
        rintro ⟨f, hf', hlive⟩
        exact ⟨f, (lookup_setStage_ne hid).symm.trans hf', hlive⟩
      exact (hg.wanted hw').imp_left (shown_reported hc (Ne.symm hid)).mpr

/-- Moves that touch neither the requests, nor the table, nor what is to come. -/
theorem Agreed.congr {g h : Ledger} (hg : g.Agreed) (hrequests : h.requests = g.requests)
    (hforwards : h.connection.forwards = g.connection.forwards)
    (hout : ∀ id, h.outcome id = g.outcome id) : h.Agreed := by
  refine ⟨fun {id} hs => ?_, fun {id} hw => ?_⟩
  · have hs' := hg.shown ((shown_congr (hout id)).mp hs)
    simpa only [Requested, Pending, hrequests, hforwards] using hs'
  · have hw' : g.Requested id ∨ g.Live id := by
      simpa only [Requested, Live, hrequests, hforwards] using hw
    rw [shown_congr (hout id), hrequests]
    exact hg.wanted hw'

theorem task_agreed {g h : Ledger} {op : ForwardOp} (hp : g.Placed) (hg : g.Agreed)
    (hk : g.Kept (.task op)) (hstep : g.step (.task op) = some h) : h.Agreed := by
  cases task_moved hstep with
  | replied id spec refused listens htask heq =>
      subst heq
      exact replied_agreed hg htask
  | reported id spec outcome htask heq =>
      subst heq
      rcases Option.or_eq_some_iff.mp htask with hf | ⟨habsent, ho⟩
      · exact forward_reported hp hg hf
      · have hdown : outcome.isUp = false ∨
            ∃ r, g.connection.stopping = some r ∧ r.id = id := by
          cases hup : outcome.isUp with
          | false => exact Or.inl rfl
          | true => exact Or.inr (hk _ outcome habsent ho rfl hup)
        refine gone_reported ⟨id, spec, outcome⟩ hp hg
          (Or.inr (Or.inl (Table.mem_of_lookup ho))) (fun id' hne => lookup_setStage_ne hne) ?_ rfl
          hdown
        rw [Connection.lookup_setStage, if_pos rfl, habsent, Option.map_none]
  | cancelled id spec listens hstopping heq =>
      subst heq
      refine hg.congr rfl rfl fun id' => ?_
      simp [outcome, coming, hstopping, Stopping.status]
  | closed id spec hstopping heq =>
      subst heq
      refine hg.congr rfl rfl fun id' => ?_
      simp [outcome, coming, hstopping, Stopping.status]

theorem earlierReply_agreed {g h : Ledger} {id : ForwardId} {refused : Option String}
    (hg : g.Agreed) (hstep : g.step (.earlierReply id refused) = some h) : h.Agreed := by
  simp only [step] at hstep
  split at hstep
  · obtain rfl := Option.some.inj hstep
    exact hg.congr rfl rfl fun _ => rfl
  · cases hstep

theorem earlierReport_agreed {g h : Ledger} {id : ForwardId} (hp : g.Placed) (hg : g.Agreed)
    (hk : g.Kept (.earlierReport id)) (hstep : g.step (.earlierReport id) = some h) :
    h.Agreed := by
  simp only [step] at hstep
  split at hstep
  · rename_i spec outcome hid
    obtain rfl := Option.some.inj hstep
    have hmem : id ∈ g.earlier := Table.mem_of_lookup hid
    have habsent : g.connection.forwards.lookup id = none :=
      AList.lookup_eq_none.mpr fun hin => (hp.apart hin).2 hmem
    exact gone_reported ⟨id, spec, outcome⟩ hp hg (Or.inr (Or.inr hmem))
      (fun id' _ => rfl) habsent rfl (Or.inl (hk _ outcome hid rfl))
  · cases hstep

/-- Every move that is kept preserves the correspondence. -/
theorem step_agreed {g h : Ledger} {m : Move} (hp : g.Placed) (hg : g.Agreed) (hk : g.Kept m)
    (hstep : g.step m = some h) : h.Agreed := by
  cases m with
  | idle => exact Option.some.inj hstep ▸ hg
  | request id spec accepted => exact request_agreed hp hg hk hstep
  | withdraw id accepted => exact withdraw_agreed hg hk hstep
  | drain n => exact drain_agreed hg hstep
  | handle => exact handle_agreed hp hg hstep
  | drop => exact drop_agreed hp hg hk hstep
  | dropAll => exact dropAll_agreed hg hk hstep
  | task op => exact task_agreed hp hg hk hstep
  | earlierReply id refused => exact earlierReply_agreed hg hstep
  | earlierReport id => exact earlierReport_agreed hp hg hk hstep
  | endConnection => exact endConnection_agreed hg hk hstep

/-! ## Nothing on its way -/

/-- No request and no status is on its way, and no forward of the connection is
still waiting for its outcome or reporting it. -/
structure Quiet (g : Ledger) : Prop where
  requests : g.requests = []
  inFlight : g.inFlight = []
  stopping : g.connection.stopping = none
  settled : ∀ {id f}, g.connection.forwards.lookup id = some f → ∃ outcome, f.stage = .settled outcome

/-- The rows shown as `starting` or `active` are those of the forwards that
are up in the connection. -/
def Truthful (g : Ledger) : Prop :=
  ∀ id, (∃ row, g.rows.lookup id = some row ∧ row.state.isUp = true) ↔
    ∃ f, g.connection.forwards.lookup id = some f ∧ f.stage = .settled .active

theorem Agreed.truthful {g : Ledger} (hg : g.Agreed) (hq : g.Quiet) : g.Truthful := by
  intro id
  have hrow : g.outcome id = g.rows.lookup id := by
    simp [outcome, coming, hq.inFlight, hq.stopping, rowAfter]
  rw [← hrow]
  constructor
  · intro hs
    rcases hg.shown hs with ⟨spec, hreq⟩ | ⟨f, hf, hpend⟩
    · rw [hq.requests] at hreq
      cases hreq
    · obtain ⟨outcome, hstage⟩ := hq.settled hf
      refine ⟨f, hf, ?_⟩
      rw [hstage] at hpend ⊢
      cases outcome <;> first | rfl | cases hpend
  · rintro ⟨f, hf, hstage⟩
    have hlive : g.Live id := ⟨f, hf, by rw [hstage]; rfl⟩
    refine (hg.wanted (Or.inr hlive)).resolve_right fun hr => ?_
    rw [hq.requests] at hr
    cases hr

end Ledger

end PolyTerm

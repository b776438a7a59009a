import PolyTerm.ForwardLedger

/-!
# Where a forward's id can be

Ids are minted fresh, so at any time an id is asked for, or held by one task,
or only talked about (`Placed`). It holds in every run of the ledger.
-/

namespace PolyTerm

namespace Ledger

def Requested (g : Ledger) (id : ForwardId) : Prop := ∃ spec, .add id spec ∈ g.requests

/-- Some task, of this connection or an earlier one, is for `id`. -/
def Held (g : Ledger) (id : ForwardId) : Prop :=
  id ∈ g.connection.forwards ∨ id ∈ g.connection.orphans ∨ id ∈ g.earlier

/-! ## Where an id can be -/

structure Placed (g : Ledger) : Prop where
  rows : ∀ {id}, id ∈ g.rows → id ∈ g.minted
  coming : ∀ {status}, status ∈ g.coming → status.id ∈ g.minted
  requests : ∀ {r}, r ∈ g.requests → r.id ∈ g.minted
  held : ∀ {id}, g.Held id → id ∈ g.minted
  /-- the request for a forward comes before anything else about it -/
  order : g.requests.Pairwise fun r r' => ∀ spec, r' ≠ .add r.id spec
  fresh : ∀ {id}, g.Requested id → ¬g.Held id
  apart : ∀ {id}, id ∈ g.connection.forwards → id ∉ g.connection.orphans ∧ id ∉ g.earlier
  removed : ∀ {r}, g.connection.stopping = some r → r.id ∉ g.connection.forwards
  reports : ∀ {id spec outcome},
    g.connection.forwards.lookup id = some ⟨spec, .reporting outcome⟩ →
      outcome = .active ∨ outcome.isUp = false

theorem placed_start : Placed .start := by
  constructor <;> simp [start, coming, Connection.empty, Requested, Held]

theorem order_concat {rs : List ForwardRequest} {r : ForwardRequest}
    (h : rs.Pairwise fun r r' => ∀ spec, r' ≠ .add r.id spec)
    (hr : ∀ r' ∈ rs, ∀ spec, r ≠ .add r'.id spec) :
    (rs ++ [r]).Pairwise fun r r' => ∀ spec, r' ≠ .add r.id spec := by
  rw [List.pairwise_append]
  refine ⟨h, List.pairwise_singleton _ _, fun r' hr' x hx => ?_⟩
  rw [List.mem_singleton.mp hx]
  exact hr r' hr'

theorem request_placed {g h : Ledger} {id : ForwardId} {spec : ForwardSpec} {accepted : Bool}
    (hg : g.Placed) (hstep : g.step (.request id spec accepted) = some h) : h.Placed := by
  simp only [step] at hstep
  split at hstep
  · cases hstep
  · rename_i hid
    obtain rfl := Option.some.inj hstep
    have hnew : ∀ r ∈ (if accepted then g.requests ++ [.add id spec] else g.requests),
        r ∈ g.requests ∨ r = .add id spec := by
      intro r hr
      split at hr
      · simpa using hr
      · exact Or.inl hr
    refine ⟨fun hrow => ?_, fun hs => ?_, fun {r} hr => ?_, fun hheld => ?_, ?_,
      fun {id'} hreq hheld => ?_, hg.apart, hg.removed, hg.reports⟩
    · rcases (AList.mem_insert _).mp hrow with rfl | hold
      · exact List.mem_cons_self
      · exact List.mem_cons_of_mem _ (hg.rows hold)
    · exact List.mem_cons_of_mem _ (hg.coming hs)
    · rcases hnew r hr with hold | rfl
      · exact List.mem_cons_of_mem _ (hg.requests hold)
      · exact List.mem_cons_self
    · exact List.mem_cons_of_mem _ (hg.held hheld)
    · rw [request]
      split
      · refine order_concat hg.order fun r hr spec' heq => hid ?_
        obtain ⟨rfl, -⟩ := ForwardRequest.add.inj heq
        exact hg.requests hr
      · exact hg.order
    · obtain ⟨spec', hreq⟩ := hreq
      rcases hnew _ hreq with hold | heq
      · exact hg.fresh ⟨spec', hold⟩ hheld
      · obtain ⟨rfl, -⟩ := ForwardRequest.add.inj heq
        exact hid (hg.held hheld)

theorem withdraw_placed {g h : Ledger} {id : ForwardId} {accepted : Bool}
    (hg : g.Placed) (hstep : g.step (.withdraw id accepted) = some h) : h.Placed := by
  simp only [step] at hstep
  split at hstep
  · rename_i hid
    obtain rfl := Option.some.inj hstep
    have hnew : ∀ r ∈ (if accepted then g.requests ++ [.remove id] else g.requests),
        r ∈ g.requests ∨ r = .remove id := by
      intro r hr
      split at hr
      · simpa using hr
      · exact Or.inl hr
    refine ⟨fun hrow => ?_, hg.coming, fun {r} hr => ?_, hg.held, ?_, fun {id'} hreq => ?_,
      hg.apart, hg.removed, hg.reports⟩
    · exact hg.rows (AList.mem_erase.mp hrow).2
    · rcases hnew r hr with hold | rfl
      · exact hg.requests hold
      · exact hg.rows hid
    · rw [withdraw]
      split
      · exact order_concat hg.order fun r hr spec' heq => nomatch heq
      · exact hg.order
    · obtain ⟨spec', hreq⟩ := hreq
      rcases hnew _ hreq with hold | heq
      · exact hg.fresh ⟨spec', hold⟩
      · cases heq
  · cases hstep

theorem mem_foldl_applyStatus {id : ForwardId} {statuses : List ForwardStatus}
    {rows : Table ForwardId ForwardStatus} (h : id ∈ statuses.foldl LivePane.applyStatus rows) :
    id ∈ rows ∨ ∃ status ∈ statuses, status.id = id := by
  by_cases hsilent : ∃ status ∈ statuses, status.id = id
  · exact Or.inr hsilent
  · rw [← AList.lookup_isSome, lookup_foldl_applyStatus, rowAfter_silent, AList.lookup_isSome] at h
    · exact Or.inl h
    · exact fun x hx hid => hsilent ⟨x, hx, hid⟩

theorem drain_placed {g h : Ledger} {n : Nat} (hg : g.Placed)
    (hstep : g.step (.drain n) = some h) : h.Placed := by
  obtain rfl := Option.some.inj hstep
  refine ⟨fun hrow => ?_, fun hs => ?_, hg.requests, hg.held, hg.order, hg.fresh, hg.apart,
    hg.removed, hg.reports⟩
  · rcases mem_foldl_applyStatus hrow with hrow | ⟨status, hs, rfl⟩
    · exact hg.rows hrow
    · exact hg.coming (List.mem_append_left _ (List.mem_of_mem_take hs))
  · rcases List.mem_append.mp hs with hs | hs
    · exact hg.coming (List.mem_append_left _ (List.mem_of_mem_drop hs))
    · exact hg.coming (List.mem_append_right _ hs)

/-- Taking requests off the queue. -/
theorem Placed.dropRequests {g : Ledger} {rest : List ForwardRequest} (hg : g.Placed)
    (hrest : rest.Sublist g.requests) : Placed { g with requests := rest } := by
  refine ⟨hg.rows, hg.coming, fun hr => hg.requests (hrest.subset hr), hg.held,
    hg.order.sublist hrest, fun hreq => ?_, hg.apart, hg.removed, hg.reports⟩
  obtain ⟨spec, hreq⟩ := hreq
  exact hg.fresh ⟨spec, hrest.subset hreq⟩

theorem drop_placed {g h : Ledger} (hg : g.Placed) (hstep : g.step .drop = some h) : h.Placed := by
  simp only [step] at hstep
  split at hstep
  · rename_i r rest hreq
    split at hstep
    · obtain rfl := Option.some.inj hstep
      refine hg.dropRequests ?_
      rw [hreq]
      exact List.sublist_cons_self r rest
    · cases hstep
  · cases hstep

theorem dropAll_placed {g h : Ledger} (hg : g.Placed) (hstep : g.step .dropAll = some h) :
    h.Placed := by
  simp only [step] at hstep
  split at hstep
  · obtain rfl := Option.some.inj hstep
    exact hg.dropRequests (List.nil_sublist _)
  · cases hstep

@[simp] theorem mem_setStage_forwards (c : Connection) (id id' : ForwardId) (stage : ForwardStage) :
    id' ∈ (c.setStage id stage).forwards ↔ id' ∈ c.forwards := Table.mem_modify

@[simp] theorem mem_setStage_orphans (c : Connection) (id id' : ForwardId) (stage : ForwardStage) :
    id' ∈ (c.setStage id stage).orphans ↔ id' ∈ c.orphans := Table.mem_modify

/-- Starting a forward. -/
theorem start_placed {g : Ledger} {id : ForwardId} {spec : ForwardSpec}
    {rest : List ForwardRequest} (hg : g.Placed) (hstopping : g.connection.stopping = none)
    (hrequests : g.requests = .add id spec :: rest) :
    Placed { g with requests := rest, connection := g.connection.start id spec } := by
  have hsub : rest.Sublist g.requests := hrequests ▸ List.sublist_cons_self (.add id spec) rest
  have hrest := hg.dropRequests hsub
  have horder := hg.order
  rw [hrequests, List.pairwise_cons] at horder
  have hr : ForwardRequest.add id spec ∈ g.requests := hrequests ▸ List.mem_cons_self
  have hfresh : ¬g.Held id := hg.fresh ⟨spec, hr⟩
  rw [Connection.start_eq]
  refine ⟨hrest.rows, hrest.coming, hrest.requests, fun {id'} hheld => ?_, hrest.order,
    fun {id'} hreq hheld => ?_, fun {id'} hid => ?_, fun hs => ?_,
    fun {id' spec' outcome} hlookup => ?_⟩
  · rcases hheld with hid | hheld
    · rcases (AList.mem_insert _).mp hid with rfl | hid
      · exact hg.requests hr
      · exact hg.held (Or.inl hid)
    · exact hg.held (Or.inr hheld)
  · rcases hheld with hid | hheld
    · rcases (AList.mem_insert _).mp hid with rfl | hid
      · obtain ⟨spec', hreq⟩ := hreq
        exact horder.1 _ hreq spec' rfl
      · exact hrest.fresh hreq (Or.inl hid)
    · exact hrest.fresh hreq (Or.inr hheld)
  · rcases (AList.mem_insert _).mp hid with rfl | hid
    · exact ⟨fun ho => hfresh (Or.inr (Or.inl ho)), fun he => hfresh (Or.inr (Or.inr he))⟩
    · exact hg.apart hid
  · rw [hstopping] at hs
    cases hs
  · by_cases hid : id' = id
    · rw [hid, AList.lookup_insert] at hlookup
      cases hlookup
    · rw [AList.lookup_insert_ne hid] at hlookup
      exact hg.reports hlookup

/-- Stopping a forward moves its task to the orphans. -/
theorem stop_placed {g : Ledger} {id : ForwardId} {rest : List ForwardRequest} (hg : g.Placed)
    (hrequests : g.requests = .remove id :: rest) :
    Placed { g with requests := rest, connection := g.connection.stop id } := by
  have hsub : rest.Sublist g.requests := hrequests ▸ List.sublist_cons_self (.remove id) rest
  have hrest := hg.dropRequests hsub
  cases hid : g.connection.forwards.lookup id with
  | none =>
      rw [Connection.stop_absent hid]
      exact hrest
  | some f =>
      rw [Connection.stop_eq hid]
      have hmem : id ∈ g.connection.forwards := Table.mem_of_lookup hid
      have hheld' : ∀ {id'}, (id' ∈ g.connection.forwards.erase id ∨
          id' ∈ g.connection.orphans.insert id f ∨ id' ∈ g.earlier) → g.Held id' := by
        rintro id' (hid' | hid' | hid')
        · exact Or.inl (AList.mem_erase.mp hid').2
        · rcases (AList.mem_insert _).mp hid' with rfl | hid'
          · exact Or.inl hmem
          · exact Or.inr (Or.inl hid')
        · exact Or.inr (Or.inr hid')
      refine ⟨hrest.rows, fun {status} hs => ?_, hrest.requests,
        fun hheld => hg.held (hheld' hheld), hrest.order,
        fun hreq hheld => hrest.fresh hreq (hheld' hheld), fun {id'} hid' => ?_,
        fun {r} hs => ?_, fun {id' spec' outcome} hlookup => ?_⟩
      · rcases List.mem_append.mp hs with hs | hs
        · exact hg.coming (List.mem_append_left _ hs)
        · obtain rfl : status = ⟨id, f.spec, .closed⟩ := by simpa [Stopping.status] using hs
          exact hg.held (Or.inl hmem)
      · obtain ⟨hne, hid'⟩ := AList.mem_erase.mp hid'
        refine ⟨fun ho => ?_, (hg.apart hid').2⟩
        rcases (AList.mem_insert _).mp ho with heq | ho
        · exact hne heq
        · exact (hg.apart hid').1 ho
      · obtain rfl := Option.some.inj hs
        exact fun hin => (AList.mem_erase.mp hin).1 rfl
      · have hne : id' ≠ id := by
          rintro rfl
          rw [AList.lookup_erase] at hlookup
          cases hlookup
        rw [AList.lookup_erase_ne hne] at hlookup
        exact hg.reports hlookup

/-- A request of the head of the queue is handled. -/
theorem handle_placed {g h : Ledger} (hg : g.Placed) (hstep : g.step .handle = some h) :
    h.Placed := by
  simp only [step] at hstep
  split at hstep
  case h_2 => cases hstep
  case h_1 r rest hstopping hrequests =>
    obtain rfl := Option.some.inj hstep
    cases r with
    | add id spec => exact start_placed hg hstopping hrequests
    | remove id => exact stop_placed hg hrequests

theorem outcomeOf_cases (spec : ForwardSpec) (refused : Option String) :
    Connection.outcomeOf spec refused = .active ∨
      (Connection.outcomeOf spec refused).isUp = false := by
  unfold Connection.outcomeOf
  split
  · exact Or.inl rfl
  · split <;> exact Or.inr rfl

theorem coming_stopping {g : Ledger} {r : Stopping} (h : g.connection.stopping = some r) :
    g.coming = g.inFlight ++ [r.status] := by
  simp [coming, h]

theorem held_minted_of_task {g : Ledger} (hg : g.Placed) {id : ForwardId} {f : Forward}
    (h : g.connection.task id = some f) : id ∈ g.minted := by
  refine hg.held ?_
  rcases Option.or_eq_some_iff.mp h with h | ⟨-, h⟩
  · exact Or.inl (Table.mem_of_lookup h)
  · exact Or.inr (Or.inl (Table.mem_of_lookup h))

/-- A task's row keeps its place when its stage changes. -/
theorem setStage_reports {c : Connection} {id id' : ForwardId} {stage : ForwardStage}
    {spec : ForwardSpec} {outcome : ForwardState}
    (h : (c.setStage id stage).forwards.lookup id' = some ⟨spec, .reporting outcome⟩) :
    stage = .reporting outcome ∨ c.forwards.lookup id' = some ⟨spec, .reporting outcome⟩ := by
  rw [Connection.lookup_setStage] at h
  split at h
  · obtain ⟨f, -, hf⟩ := Option.map_eq_some_iff.mp h
    exact Or.inl (congrArg Forward.stage hf)
  · exact Or.inr h

theorem task_placed {g h : Ledger} {op : ForwardOp} (hg : g.Placed)
    (hstep : g.step (.task op) = some h) : h.Placed := by
  cases task_moved hstep with
  | replied id spec refused listens htask heq =>
      subst heq
      refine ⟨hg.rows, hg.coming, hg.requests, fun hheld => hg.held ?_, hg.order,
        fun hreq hheld => hg.fresh hreq ?_, fun hid => ?_, fun hs hid => ?_, fun hlookup => ?_⟩
      · simpa [Held] using hheld
      · simpa [Held] using hheld
      · simpa using hg.apart (by simpa using hid)
      · exact hg.removed hs (by simpa using hid)
      · rcases setStage_reports hlookup with hnew | hold
        · exact ForwardStage.reporting.inj hnew ▸ outcomeOf_cases spec refused
        · exact hg.reports hold
  | reported id spec outcome htask heq =>
      subst heq
      refine ⟨hg.rows, fun {status} hs => ?_, hg.requests, fun hheld => hg.held ?_, hg.order,
        fun hreq hheld => hg.fresh hreq ?_, fun hid => ?_, fun hs hid => ?_, fun hlookup => ?_⟩
      · rcases List.mem_append.mp hs with hs | hs
        · rcases List.mem_append.mp hs with hs | hs
          · exact hg.coming (List.mem_append_left _ hs)
          · rw [List.mem_singleton.mp hs]
            exact held_minted_of_task hg htask
        · exact hg.coming (List.mem_append_right _ hs)
      · simpa [Held] using hheld
      · simpa [Held] using hheld
      · simpa using hg.apart (by simpa using hid)
      · exact hg.removed hs (by simpa using hid)
      · rcases setStage_reports hlookup with hnew | hold
        · cases hnew
        · exact hg.reports hold
  | cancelled id spec listens hstopping heq =>
      subst heq
      refine ⟨hg.rows, fun hs => hg.coming ?_, hg.requests, hg.held, hg.order, hg.fresh, hg.apart,
        fun hs => ?_, hg.reports⟩
      · rw [coming_stopping hstopping]
        exact hs
      · obtain rfl := Option.some.inj hs
        have hout := hg.removed hstopping
        exact hout
  | closed id spec hstopping heq =>
      subst heq
      refine ⟨hg.rows, fun hs => hg.coming ?_, hg.requests, hg.held, hg.order, hg.fresh, hg.apart,
        nofun, hg.reports⟩
      rw [coming_stopping hstopping]
      simpa [coming, Stopping.status] using hs

/-- Tasks of earlier connections move on among themselves. -/
theorem Placed.setEarlier {g : Ledger} {id : ForwardId} {f : Forward} (f' : Forward)
    (statuses : List ForwardStatus) (hg : g.Placed) (hid : g.earlier.lookup id = some f)
    (hs : ∀ status ∈ statuses, status.id = id) :
    Placed { g with
      earlier := g.earlier.insert id f'
      inFlight := g.inFlight ++ statuses } := by
  have hmem : id ∈ g.earlier := Table.mem_of_lookup hid
  have hearlier : ∀ {id'}, id' ∈ g.earlier.insert id f' → id' ∈ g.earlier := by
    intro id' hid'
    rcases (AList.mem_insert _).mp hid' with rfl | hid'
    · exact hmem
    · exact hid'
  refine ⟨hg.rows, fun {status} hcoming => ?_, hg.requests, fun hheld => hg.held ?_, hg.order,
    fun hreq hheld => hg.fresh hreq ?_, fun hin => ⟨(hg.apart hin).1, fun he => ?_⟩, hg.removed,
    hg.reports⟩
  · simp only [Ledger.coming, List.mem_append] at hcoming
    rcases hcoming with (hold | hnew) | hclosing
    · exact hg.coming (List.mem_append_left _ hold)
    · rw [hs status hnew]
      exact hg.held (Or.inr (Or.inr hmem))
    · exact hg.coming (List.mem_append_right _ hclosing)
  · exact hheld.imp_right (Or.imp_right hearlier)
  · exact hheld.imp_right (Or.imp_right hearlier)
  · exact (hg.apart hin).2 (hearlier he)

theorem earlierReply_placed {g h : Ledger} {id : ForwardId} {refused : Option String}
    (hg : g.Placed) (hstep : g.step (.earlierReply id refused) = some h) : h.Placed := by
  simp only [step] at hstep
  split at hstep
  · rename_i spec hid
    obtain rfl := Option.some.inj hstep
    have hset := Placed.setEarlier ⟨spec, .reporting (Connection.outcomeOf spec refused)⟩ [] hg hid
      nofun
    simpa using hset
  · cases hstep

theorem earlierReport_placed {g h : Ledger} {id : ForwardId}
    (hg : g.Placed) (hstep : g.step (.earlierReport id) = some h) : h.Placed := by
  simp only [step] at hstep
  split at hstep
  · rename_i spec outcome hid
    obtain rfl := Option.some.inj hstep
    exact Placed.setEarlier _ _ hg hid (by simp)
  · cases hstep

theorem endConnection_placed {g h : Ledger} (hg : g.Placed)
    (hstep : g.step .endConnection = some h) : h.Placed := by
  simp only [step] at hstep
  split at hstep
  · rename_i hstopping
    obtain rfl := Option.some.inj hstep
    have hheld' : ∀ {id}, Held { g with
        connection := .empty, earlier := g.earlier ∪ g.connection.abortAll } id → g.Held id := by
      rintro id (hid | hid | hid)
      · cases hid
      · cases hid
      · simp only [AList.mem_union, Connection.abortAll] at hid
        rcases hid with hid | hid | hid
        · exact Or.inr (Or.inr hid)
        · exact Or.inr (Or.inl hid)
        · exact Or.inl hid
    refine ⟨hg.rows, fun hs => hg.coming ?_, hg.requests, fun hheld => hg.held (hheld' hheld),
      hg.order, fun hreq hheld => hg.fresh hreq (hheld' hheld), nofun, nofun, nofun⟩
    simpa [coming, Connection.empty, hstopping] using hs
  · cases hstep

theorem step_placed {g h : Ledger} {m : Move} (hg : g.Placed) (hstep : g.step m = some h) :
    h.Placed := by
  cases m with
  | idle => exact Option.some.inj hstep ▸ hg
  | request id spec accepted => exact request_placed hg hstep
  | withdraw id accepted => exact withdraw_placed hg hstep
  | drain n => exact drain_placed hg hstep
  | handle => exact handle_placed hg hstep
  | drop => exact drop_placed hg hstep
  | dropAll => exact dropAll_placed hg hstep
  | task op => exact task_placed hg hstep
  | earlierReply id refused => exact earlierReply_placed hg hstep
  | earlierReport id => exact earlierReport_placed hg hstep
  | endConnection => exact endConnection_placed hg hstep

end Ledger

end PolyTerm

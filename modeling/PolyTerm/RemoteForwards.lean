import PolyTerm.Forward

/-!
# Remote forwards on one connection

The target map is keyed by the bind while the forward table is keyed by the
id: two remote forwards with one bind share an entry of the map and a listen
of the server. `NoClash` is the condition under which they cannot hurt each
other, and `Routed` the invariant that links the two tables: the bind of every
remote forward that is waiting or up maps to that forward's own target, and is
listened on once the server has accepted it.
-/

namespace PolyTerm

open Runs

/-- Incoming channels for the bind of `f` reach `f`'s own target. -/
def Delivered (c : Connection) (f : Forward) : Prop :=
  c.serverChannelOpenForwardedTcpip f.spec.bind = some f.spec.target ∧
    f.spec.bind ∈ c.listens

/-- Every remote forward last reported active and not removed is delivered to
its own target. -/
def RemotesDelivered (c : Connection) : Prop :=
  ∀ id f, c.forwards.lookup id = some f → f.spec.kind = .remote →
    f.stage = .settled .active → Delivered c f

/-- A remote forward that is waiting or up. -/
def LiveRemote (c : Connection) (id : ForwardId) (f : Forward) : Prop :=
  c.forwards.lookup id = some f ∧ f.spec.kind = .remote ∧ f.stage.live = true

/-- The condition: a remote forward is added under the bind of one that is
waiting or up only for the same target, and a remote forward is removed only
while no other that is waiting or up has its bind. -/
def NoClash (c : Connection) : ForwardOp → Prop
  | .add _ spec => spec.kind = .remote → ∀ id' f', LiveRemote c id' f' →
      f'.spec.bind = spec.bind → f'.spec.target = spec.target
  | .remove id => ∀ f, c.forwards.lookup id = some f → f.spec.kind = .remote →
      ∀ id' f', id' ≠ id → LiveRemote c id' f' → f'.spec.bind ≠ f.spec.bind
  | _ => True

/-! ## The invariant -/

structure Routed (c : Connection) : Prop where
  target : ∀ {id f}, LiveRemote c id f →
    c.remoteForwards.lookup f.spec.bind = some f.spec.target
  listens : ∀ {id f}, LiveRemote c id f → f.stage ≠ .asking → f.spec.bind ∈ c.listens
  /-- a bind whose cancel is on its way is nobody else's -/
  cancelling : ∀ {r id f}, c.stopping = some r → r.cancelling = true → LiveRemote c id f →
    f.spec.bind ≠ r.spec.bind

theorem Routed.delivered {c : Connection} (h : Routed c) : RemotesDelivered c := by
  intro id f hf hkind hstage
  have hlive : LiveRemote c id f := ⟨hf, hkind, by rw [hstage]; rfl⟩
  exact ⟨h.target hlive, h.listens hlive (by rw [hstage]; exact nofun)⟩

theorem routed_empty : Routed .empty := by
  constructor <;> (intros; simp_all [LiveRemote, Connection.empty])

/-! ## One step -/

theorem start_routed {c : Connection} {id : ForwardId} {spec : ForwardSpec} (h : Routed c)
    (hfree : c.stopping = none) (hclash : NoClash c (.add id spec)) :
    Routed (c.start id spec) := by
  rw [Connection.start_eq]
  -- an entry of the table after the insert: the new one, or an old one
  have hcases : ∀ {id' f}, (c.forwards.insert id ⟨spec, .asking⟩).lookup id' = some f →
      f.spec.kind = .remote → f.stage.live = true → f = ⟨spec, .asking⟩ ∨ LiveRemote c id' f := by
    intro id' f hf hk hl
    by_cases hid : id' = id
    · rw [hid, AList.lookup_insert] at hf
      exact Or.inl (Option.some.inj hf).symm
    · rw [AList.lookup_insert_ne hid] at hf
      exact Or.inr ⟨hf, hk, hl⟩
  refine ⟨fun {id' f} hf => ?_, fun {id' f} hf hstage => ?_, fun {r id' f} hs => ?_⟩
  · obtain ⟨hf, hk, hl⟩ := hf
    rcases hcases hf hk hl with rfl | hold
    · rw [if_pos hk]
      exact AList.lookup_insert _
    · by_cases hkind : spec.kind = .remote
      · rw [if_pos hkind]
        by_cases hbind : f.spec.bind = spec.bind
        · rw [hbind, AList.lookup_insert, hclash hkind id' f hold hbind]
        · rw [AList.lookup_insert_ne hbind]
          exact h.target hold
      · rw [if_neg hkind]
        exact h.target hold
  · obtain ⟨hf, hk, hl⟩ := hf
    rcases hcases hf hk hl with rfl | hold
    · exact absurd rfl hstage
    · exact h.listens hold hstage
  · rw [hfree] at hs
    cases hs

theorem stop_routed {c : Connection} {id : ForwardId} (h : Routed c)
    (hclash : NoClash c (.remove id)) : Routed (c.stop id) := by
  cases hid : c.forwards.lookup id with
  | none => rwa [Connection.stop_absent hid]
  | some f =>
      rw [Connection.stop_eq hid]
      have hcases : ∀ {id' f'}, (c.forwards.erase id).lookup id' = some f' →
          f'.spec.kind = .remote → f'.stage.live = true → id' ≠ id ∧ LiveRemote c id' f' := by
        intro id' f' hf hk hl
        by_cases heq : id' = id
        · rw [heq, AList.lookup_erase] at hf
          cases hf
        · rw [AList.lookup_erase_ne heq] at hf
          exact ⟨heq, hf, hk, hl⟩
      refine ⟨fun {id' f'} hf => ?_, fun {id' f'} hf hstage => ?_,
        fun {r id' f'} hs hcancel hf => ?_⟩
      · obtain ⟨hne, hold⟩ := hcases hf.1 hf.2.1 hf.2.2
        split
        · rename_i hkind
          rw [AList.lookup_erase_ne (hclash f hid hkind id' f' hne hold)]
          exact h.target hold
        · exact h.target hold
      · obtain ⟨-, hold⟩ := hcases hf.1 hf.2.1 hf.2.2
        exact h.listens hold hstage
      · obtain ⟨hne, hold⟩ := hcases hf.1 hf.2.1 hf.2.2
        obtain rfl := Option.some.inj hs
        have hkind : f.spec.kind = .remote := of_decide_eq_true hcancel
        exact hclash f hid hkind id' f' hne hold

/-- A task moves on: it is waiting or up afterwards only if it was before, and
when it is no longer waiting its bind is listened on. -/
theorem setStage_routed {c : Connection} {id : ForwardId} {stage : ForwardStage}
    {listens : List Bind} (h : Routed c) (hsub : ∀ b ∈ c.listens, b ∈ listens)
    (hstage : ∀ g, c.forwards.lookup id = some g → stage.live = true →
      g.stage.live = true ∧ (g.spec.kind = .remote → stage ≠ .asking →
        g.stage ≠ .asking ∨ g.spec.bind ∈ listens)) :
    Routed { c.setStage id stage with listens := listens } := by
  have hcases : ∀ {id' f}, LiveRemote { c.setStage id stage with listens := listens } id' f →
      ∃ g, LiveRemote c id' g ∧ g.spec = f.spec ∧
        (f.stage ≠ .asking → g.stage ≠ .asking ∨ g.spec.bind ∈ listens) := by
    rintro id' f ⟨hl, hk, hlive⟩
    simp only [Connection.lookup_setStage] at hl
    split at hl
    · rename_i hid
      obtain ⟨g, hg, rfl⟩ := Option.map_eq_some_iff.mp hl
      obtain ⟨hlive', hnext⟩ := hstage g (hid ▸ hg) hlive
      exact ⟨g, ⟨hg, hk, hlive'⟩, rfl, hnext hk⟩
    · exact ⟨f, ⟨hl, hk, hlive⟩, rfl, Or.inl⟩
  refine ⟨fun {id' f} hf => ?_, fun {id' f} hf hne => ?_, fun {r id' f} hs hcancel hf => ?_⟩
  · obtain ⟨g, hg, hspec, -⟩ := hcases hf
    rw [← hspec]
    exact h.target hg
  · obtain ⟨g, hg, hspec, hnext⟩ := hcases hf
    rw [← hspec]
    rcases hnext hne with hasked | hlisten
    · exact hsub _ (h.listens hg hasked)
    · exact hlisten
  · obtain ⟨g, hg, hspec, -⟩ := hcases hf
    rw [← hspec]
    exact h.cancelling hs hcancel hg

theorem step_routed {c d : Connection} {op : ForwardOp} (h : Routed c) (hclash : NoClash c op)
    (hstep : c.step op = some d) : Routed d := by
  cases op with
  | add id spec =>
      simp only [Connection.step] at hstep
      split at hstep
      · rename_i hfree
        obtain rfl := Option.some.inj hstep
        rw [Bool.and_eq_true, Option.isNone_iff_eq_none] at hfree
        exact start_routed h hfree.1 hclash
      · cases hstep
  | remove id =>
      simp only [Connection.step] at hstep
      split at hstep
      · obtain rfl := Option.some.inj hstep
        exact stop_routed h hclash
      · cases hstep
  | cancelled =>
      simp only [Connection.step] at hstep
      split at hstep
      · rename_i id spec hs
        obtain rfl := Option.some.inj hstep
        refine ⟨h.target, fun {id' f} hf hne => ?_, fun hs' hcancel => ?_⟩
        · exact List.mem_filter.mpr ⟨h.listens hf hne, by simpa using h.cancelling hs rfl hf⟩
        · obtain rfl := Option.some.inj hs'
          cases hcancel
      · cases hstep
  | reportClosed =>
      simp only [Connection.step] at hstep
      split at hstep
      · obtain rfl := Option.some.inj hstep
        exact ⟨h.target, h.listens, fun hs => by cases hs⟩
      · cases hstep
  | reply id refused =>
      simp only [Connection.step] at hstep
      split at hstep
      · rename_i spec htask
        have hasking : ∀ g, c.forwards.lookup id = some g → g = ⟨spec, .asking⟩ :=
          fun g hg => Connection.task_of_forward hg htask
        split at hstep
        · obtain rfl := Option.some.inj hstep
          refine setStage_routed h (fun b hb => List.mem_cons_of_mem _ hb) fun g hg hlive => ?_
          obtain rfl := hasking g hg
          exact ⟨rfl, fun _ _ => Or.inr List.mem_cons_self⟩
        · rename_i hother
          obtain rfl := Option.some.inj hstep
          refine setStage_routed h (fun b hb => hb) fun g hg hlive => ?_
          obtain rfl := hasking g hg
          refine ⟨rfl, fun hk _ => ?_⟩
          -- a remote request that was not accepted is not live
          cases refused with
          | none => exact absurd ⟨hk, rfl⟩ hother
          | some e => simp [Connection.outcomeOf, show spec.kind = .remote from hk,
              ForwardStage.live] at hlive
      · cases hstep
  | report id =>
      simp only [Connection.step] at hstep
      split at hstep
      · rename_i spec outcome htask
        obtain rfl := Option.some.inj hstep
        refine setStage_routed h (fun b hb => hb) fun g hg hlive => ?_
        obtain rfl := Connection.task_of_forward hg htask
        refine ⟨?_, fun _ _ => Or.inl nofun⟩
        cases outcome with
        | active => rfl
        | starting => simp [ForwardStage.live] at hlive
        | failed e => simp [ForwardStage.live] at hlive
        | closed => simp [ForwardStage.live] at hlive
      · cases hstep

/-! ## Whole runs -/

/-- While no bind is shared, every remote forward that is up keeps its own
target and its listen, whatever is added, refused or removed around it. -/
theorem remotes_delivered {ops : List ForwardOp} {c : Connection}
    (hrun : run Connection.step .empty ops = some c)
    (hclash : Along Connection.step NoClash .empty ops) :
    RemotesDelivered c ∧ Along Connection.step (fun c _ => RemotesDelivered c) .empty ops := by
  have hstep : ∀ c op d, Routed c → NoClash c op → c.step op = some d → Routed d :=
    fun c op d => step_routed
  exact ⟨(run_invariant hstep routed_empty hclash hrun).delivered,
    along_of_invariant hstep (fun c op h _ => h.delivered) routed_empty hclash⟩

def remoteSpec (targetHost : String) : ForwardSpec := ⟨.remote, "0.0.0.0", 8080, targetHost, 80⟩

/-- Two remote forwards on two ports, both up. -/
def twoBinds : List ForwardOp :=
  [.add ⟨0⟩ (remoteSpec "a"), .add ⟨1⟩ { remoteSpec "b" with bindPort := 8081 },
    .reply ⟨0⟩ none, .reply ⟨1⟩ none, .report ⟨1⟩, .report ⟨0⟩]

theorem remotes_delivered_twoBinds :
    ∃ c, run Connection.step .empty twoBinds = some c ∧
      c.forwards.lookup ⟨0⟩ = some ⟨remoteSpec "a", .settled .active⟩ ∧
      c.forwards.lookup ⟨1⟩ = some ⟨{ remoteSpec "b" with bindPort := 8081 }, .settled .active⟩ ∧
      RemotesDelivered c := by
  have hrun : run Connection.step .empty twoBinds = some _ := rfl
  have hfirst : NoClash .empty (.add ⟨0⟩ (remoteSpec "a")) := by
    rintro - id' f' ⟨hf, -, -⟩
    cases hf
  have hsecond : ∀ c, Connection.step .empty (.add ⟨0⟩ (remoteSpec "a")) = some c →
      NoClash c (.add ⟨1⟩ { remoteSpec "b" with bindPort := 8081 }) := by
    rintro c hc - id' f' ⟨hf, -, -⟩ hbind
    -- the one forward there is has the other port
    obtain rfl := Option.some.inj hc
    have hlookup : (Connection.empty.forwards.insert ⟨0⟩ ⟨remoteSpec "a", .asking⟩).lookup id' =
        some f' := hf
    rw [Table.lookup_insert_ite] at hlookup
    split at hlookup
    · obtain rfl := Option.some.inj hlookup
      exact absurd hbind (by decide)
    · cases hlookup
  have halong : Along Connection.step NoClash .empty twoBinds :=
    ⟨hfirst, fun c hc => ⟨hsecond c hc, fun _ _ => ⟨trivial, fun _ _ => ⟨trivial, fun _ _ =>
      ⟨trivial, fun _ _ => ⟨trivial, fun _ _ => trivial⟩⟩⟩⟩⟩⟩
  exact ⟨_, hrun, rfl, rfl, (remotes_delivered hrun halong).1⟩

/-! ## One bind, two forwards -/

/-- A forward comes up; a second one under its bind is refused. -/
def sharedBind : List ForwardOp :=
  [.add ⟨0⟩ (remoteSpec "a"), .reply ⟨0⟩ none, .report ⟨0⟩,
    .add ⟨1⟩ (remoteSpec "b"), .reply ⟨1⟩ (some "in use"), .report ⟨1⟩]

/-- The refused one leaves its target under the bind of the one that is up. -/
theorem remotes_misdelivered_sharedBind :
    ¬∀ (ops : List ForwardOp) (c : Connection),
      run Connection.step .empty ops = some c → RemotesDelivered c := by
  intro h
  have hactive := h sharedBind _ rfl ⟨0⟩ ⟨remoteSpec "a", .settled .active⟩ rfl rfl rfl
  exact absurd hactive.1 (by decide)

end PolyTerm

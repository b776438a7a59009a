import PolyTerm.Sftp

/-!
# Every SFTP request is replied to once

However the pane asks and the server answers, a request is replied to at most
once, and as long as the subsystem could be opened it is never lost: it waits,
or a task works on it, also after the pane has hung up. Its reply takes no step
of another request's task, so a transfer does not hold up a listing.
-/

namespace PolyTerm.Sftp

open Runs

/-- The steps of the client, one constructor for each outcome. -/
inductive Did (s : Sftp) : SftpLabel → Sftp → Prop
  | requested (r requests) (sent : s.requests.submit r = some requests) :
      Did s (.request r) { s with requests := requests }
  | hungUp : Did s .hangUp { s with requestsEnded := true }
  | sawEvent (events) : Did s .takeEvent { s with events := events }
  | droppedEvents : Did s .dropEvents { s with events := s.events.close }
  | opened (channel subsystem client) (opening : s.phase = .opening) :
      Did s (.opened channel subsystem client) { s with phase := .greeting }
  | refused (channel subsystem client e) (opening : s.phase = .opening) :
      Did s (.opened channel subsystem client) { s with phase := .refusing e }
  | saidFailed (e events) (refusing : s.phase = .refusing e) :
      Did s .announce (({ s with events := events } : Sftp).finish false)
  | saidReady (events) (greeting : s.phase = .greeting) :
      Did s .announce { s with events := events, phase := .serving }
  | spawned (requests) (serving : s.phase = .serving)
      (spawn : s.requests.spawn handle = some requests) :
      Did s .spawn { s with requests := requests }
  | finished (serving : s.phase = .serving) (empty : s.requests.queue.queue = []) :
      Did s .finish (s.finish true)
  | answered (id call answer reply) (running : s.requests.running.lookup id = some (.call call))
      (replies : call.reply answer = some reply) :
      Did s (.answered id answer) { s with requests := s.requests.finish id }
  | moved (id source target x l y)
      (running : s.requests.running.lookup id = some (.transfer source target x))
      (went : x.step l = some y) :
      Did s (.transfer id l)
        { s with requests := s.requests.advance id (.transfer source target y) }
  | replied (id source target x result)
      (running : s.requests.running.lookup id = some (.transfer source target x))
      (returned : x.phase = .returned result) :
      Did s (.reply id) { s with requests := s.requests.finish id }

variable {s t : Sftp} {l : SftpLabel} {labels : List SftpLabel} {id : Nat}

theorem send_events {e : SftpEvent} (h : s.send e = some t) :
    ∃ events, t = { s with events := events } := by
  unfold send at h
  split at h
  · exact ⟨_, (Option.some.inj h).symm⟩
  · cases h
  · exact ⟨s.events, (Option.some.inj h).symm⟩

theorem did_of_announce (h : s.announce = some t) : s.Did .announce t := by
  unfold announce at h
  split at h
  · rename_i e hphase
    obtain ⟨r, hsend, rfl⟩ := Option.map_eq_some_iff.mp h
    obtain ⟨events, rfl⟩ := send_events hsend
    exact .saidFailed e events hphase
  · rename_i hphase
    obtain ⟨r, hsend, rfl⟩ := Option.map_eq_some_iff.mp h
    obtain ⟨events, rfl⟩ := send_events hsend
    exact .saidReady events hphase
  · cases h

theorem did_of_step (h : s.step l = some t) : s.Did l t := by
  cases l with
  | request r =>
      obtain ⟨-, heq⟩ := Option.ite_none_left_eq_some.mp h
      obtain ⟨requests, hsent, rfl⟩ := Option.map_eq_some_iff.mp heq
      exact .requested r requests hsent
  | hangUp => exact Option.some.inj h ▸ .hungUp
  | takeEvent =>
      obtain ⟨r, -, rfl⟩ := Option.map_eq_some_iff.mp h
      exact .sawEvent r.2
  | dropEvents => exact Option.some.inj h ▸ .droppedEvents
  | opened channel subsystem client =>
      obtain ⟨hphase, heq⟩ := Option.ite_none_right_eq_some.mp h
      split at heq
      · exact Option.some.inj heq ▸ .opened channel subsystem client hphase
      · exact Option.some.inj heq ▸ .refused channel subsystem client _ hphase
  | announce => exact did_of_announce h
  | spawn =>
      obtain ⟨hphase, heq⟩ := Option.ite_none_right_eq_some.mp h
      obtain ⟨requests, hspawn, rfl⟩ := Option.map_eq_some_iff.mp heq
      exact .spawned requests hphase hspawn
  | finish =>
      obtain ⟨⟨hphase, -, hempty⟩, heq⟩ := Option.ite_none_right_eq_some.mp h
      exact Option.some.inj heq ▸ .finished hphase hempty
  | answered id answer =>
      simp only [step, Sftp.answered] at h
      split at h
      · rename_i call hrunning
        obtain ⟨reply, hreply, rfl⟩ := Option.map_eq_some_iff.mp h
        exact .answered id call answer reply hrunning hreply
      · cases h
  | transfer id l =>
      simp only [step, Sftp.transfer] at h
      split at h
      · rename_i source target x hrunning
        obtain ⟨y, hy, rfl⟩ := Option.map_eq_some_iff.mp h
        exact .moved id source target x l y hrunning hy
      · cases h
  | reply id =>
      simp only [step, Sftp.reply] at h
      split at h
      · rename_i source target x hrunning
        split at h
        · rename_i result hphase
          exact Option.some.inj h ▸ .replied id source target x result hrunning hphase
        · cases h
      · cases h

/-! ## Accounts -/

/-- The requests that were replied to. -/
def repliedTo (labels : List SftpLabel) : List Nat :=
  (outputs step replies start labels).map Prod.fst

/-- A subsystem that could not be opened serves nothing. Otherwise every request is
accounted for, and there are tasks only once it is open. -/
structure Served (s : Sftp) (replied : List Nat) : Prop where
  refused : s.phase = .returned false → replied = []
  accounted : s.phase ≠ .returned false → s.requests.Accounted replied
  idle : s.phase ≠ .serving → s.phase ≠ .returned true →
    s.requests.running = ∅ ∧ replied = []
  drained : s.phase = .returned true →
    s.requests.queue.closed = true ∧ s.requests.queue.queue = []

theorem served_start : start.Served [] :=
  ⟨fun _ => rfl, fun _ => Dispatch.accounted_empty _, fun _ _ => ⟨rfl, rfl⟩, nofun⟩

/-- A step that changes neither the phase nor the requests. -/
theorem Served.same {replied : List Nat} (hs : s.Served replied) (hphase : t.phase = s.phase)
    (hrequests : t.requests = s.requests) : t.Served replied :=
  ⟨by rw [hphase]; exact hs.refused, by rw [hphase, hrequests]; exact hs.accounted,
    by rw [hphase, hrequests]; exact hs.idle, by rw [hphase, hrequests]; exact hs.drained⟩

theorem Did.served (h : s.Did l t) {replied : List Nat} (hs : s.Served replied) :
    t.Served (replied ++ (s.replies l).map Prod.fst) := by
  have hopen : ∀ {id : Nat} {x : SftpTask}, s.requests.running.lookup id = some x →
      id ∈ s.requests.running ∧ (s.phase = .serving ∨ s.phase = .returned true) := by
    intro id x hrunning
    refine ⟨Table.mem_of_lookup hrunning, ?_⟩
    by_contra hclosed
    rw [not_or] at hclosed
    rw [(hs.idle hclosed.1 hclosed.2).1] at hrunning
    cases hrunning
  have hlive : s.phase = .serving ∨ s.phase = .returned true → s.phase ≠ .returned false :=
    fun h hphase => by rw [hphase] at h; exact h.elim nofun nofun
  cases h with
  | requested r requests hsent =>
      have hrunning := Dispatch.submit_running hsent
      rw [show s.replies _ = [] from rfl, List.map_nil, List.append_nil]
      refine ⟨hs.refused, fun h => (hs.accounted h).submit hsent,
        fun h h' => ⟨hrunning.trans (hs.idle h h').1, (hs.idle h h').2⟩, fun h => ?_⟩
      have hopen := Dispatch.submit_open hsent
      rw [(hs.drained h).1] at hopen
      cases hopen
  | hungUp | sawEvent | droppedEvents =>
      rw [show s.replies _ = [] from rfl, List.map_nil, List.append_nil]
      exact hs.same rfl rfl
  | opened _ _ _ hphase | refused _ _ _ _ hphase =>
      rw [show s.replies _ = [] from rfl, List.map_nil, List.append_nil]
      have hidle := hs.idle (by simp [hphase]) (by simp [hphase])
      exact ⟨nofun, fun _ => hs.accounted (by simp [hphase]), fun _ _ => hidle, nofun⟩
  | saidFailed e events hphase =>
      rw [show s.replies _ = [] from rfl, List.map_nil, List.append_nil]
      have hidle := hs.idle (by simp [hphase]) (by simp [hphase])
      exact ⟨fun _ => hidle.2, fun h => absurd rfl h, fun _ _ => hidle, nofun⟩
  | saidReady events hphase =>
      rw [show s.replies _ = [] from rfl, List.map_nil, List.append_nil]
      exact ⟨nofun, fun _ => hs.accounted (by simp [hphase]), fun h => absurd rfl h, nofun⟩
  | spawned requests hphase hspawn =>
      rw [show s.replies _ = [] from rfl, List.map_nil, List.append_nil]
      refine ⟨hs.refused, fun h => (hs.accounted h).spawn hspawn, fun h => absurd hphase h,
        fun h => ?_⟩
      have hreturned : s.phase = .returned true := h
      rw [hphase] at hreturned
      cases hreturned
  | finished hphase hempty =>
      rw [show s.replies _ = [] from rfl, List.map_nil, List.append_nil]
      have haccounted := hs.accounted (by simp [hphase])
      refine ⟨nofun, fun _ => ?_, fun _ h => absurd rfl h, fun _ => ⟨rfl, rfl⟩⟩
      -- nothing waits in the channel that is dropped
      unfold Dispatch.Accounted Dispatch.places at haccounted ⊢
      rw [hempty] at haccounted
      exact haccounted
  | answered id call answer reply hrunning hreply =>
      obtain ⟨hid, hphase⟩ := hopen hrunning
      have hreplies : (s.replies (.answered id answer)).map Prod.fst = [id] := by
        simp [replies, hrunning, hreply]
      rw [hreplies]
      exact ⟨fun h => absurd h (hlive hphase), fun h => (hs.accounted h).finish hid,
        fun h h' => absurd hphase (not_or.mpr ⟨h, h'⟩), hs.drained⟩
  | moved id source target x l y hrunning =>
      obtain ⟨hid, hphase⟩ := hopen hrunning
      rw [show s.replies _ = [] from rfl, List.map_nil, List.append_nil]
      exact ⟨hs.refused, fun h => (hs.accounted h).advance hid,
        fun h h' => absurd hphase (not_or.mpr ⟨h, h'⟩), hs.drained⟩
  | replied id source target x result hrunning hreturned =>
      obtain ⟨hid, hphase⟩ := hopen hrunning
      have hreplies : (s.replies (.reply id)).map Prod.fst = [id] := by
        simp [replies, hrunning, hreturned]
      rw [hreplies]
      exact ⟨fun h => absurd h (hlive hphase), fun h => (hs.accounted h).finish hid,
        fun h h' => absurd hphase (not_or.mpr ⟨h, h'⟩), hs.drained⟩

theorem run_served (hrun : run step start labels = some t) : t.Served (repliedTo labels) := by
  induction labels using List.reverseRecOn generalizing t with
  | nil => exact Option.some.inj hrun ▸ served_start
  | append_singleton labels l ih =>
      obtain ⟨r, hr, hstep⟩ := run_concat.mp hrun
      rw [repliedTo, outputs_concat hr hstep, List.map_append]
      exact (did_of_step hstep).served (ih hr)

/-- Whatever the order of the steps, no request is replied to twice, and unless the
subsystem could not be opened, the requests that were sent are those that wait, those a
task works on, and those that were replied to. One that could not be opened replies to
none. -/
theorem replied_once (hrun : run step start labels = some t) :
    (repliedTo labels).Nodup ∧
      (t.phase ≠ .returned false → ((t.requests.queue.queue.map Prod.fst) ++
        (t.requests.running.keys ++ repliedTo labels)).Perm (List.range t.requests.issued)) ∧
      (t.phase = .returned false → repliedTo labels = []) := by
  have hserved := run_served hrun
  refine ⟨?_, hserved.accounted, hserved.refused⟩
  by_cases hphase : t.phase = .returned false
  · rw [hserved.refused hphase]
    exact List.nodup_nil
  · have hnodup := (hserved.accounted hphase).nodup
    exact (List.nodup_append.mp (List.nodup_append.mp hnodup).2.1).2.1

/-- Two requests; the second is replied to while the first, a transfer, goes on. -/
def twoRequests : List SftpLabel :=
  [.opened (.ok ()) (.ok ()) (.ok ()), .announce, .request (.download "a" "b" 4),
    .request (.list "/home"), .spawn, .transfer 0 (.opened (.ok ())), .spawn,
    .answered 1 (.entries []), .hangUp, .finish, .transfer 0 (.measured (some 0))]

theorem replied_once_twoRequests :
    ∃ t, run step start twoRequests = some t ∧ repliedTo twoRequests = [1] ∧
      ((t.requests.queue.queue.map Prod.fst) ++
        (t.requests.running.keys ++ repliedTo twoRequests)).Perm (List.range 2) := by
  have hend : (run step start twoRequests).map (fun t => (t.phase, t.requests.issued)) =
      some (.returned true, 2) := rfl
  obtain ⟨t, hrun, ht⟩ := Option.map_eq_some_iff.mp hend
  obtain ⟨hphase, hissued⟩ := Prod.mk.injEq .. |>.mp ht
  have hall := (replied_once hrun).2.1 (by rw [hphase]; nofun)
  rw [hissued] at hall
  exact ⟨t, hrun, rfl, hall⟩

/-! ## No request holds up another -/

/-- A request that waits is made a task. -/
theorem exists_spawned {r : SftpRequest} (hphase : s.phase = .serving)
    (hmem : (id, r) ∈ s.requests.queue.queue) :
    ∃ more u, run step s more = some u ∧ (∀ l ∈ more, l = .spawn) ∧ id ∈ u.requests.running := by
  induction hqueue : s.requests.queue.queue generalizing s with
  | nil =>
      rw [hqueue] at hmem
      cases hmem
  | cons first rest ih =>
      obtain ⟨requests, hspawn, hrest, hrunning⟩ : ∃ requests,
          s.requests.spawn handle = some requests ∧ requests.queue.queue = rest ∧
            first.1 ∈ requests.running := by
        cases hrecv : s.requests.queue.recv with
        | none =>
            rw [Fifo.recv_eq_none.mp hrecv] at hqueue
            cases hqueue
        | some next =>
            obtain ⟨hnext, -⟩ := Fifo.recv_some hrecv
            rw [hqueue] at hnext
            obtain ⟨rfl, rfl⟩ := List.cons.inj hnext
            exact ⟨_, by rw [Dispatch.spawn, hrecv]; rfl, rfl, by simp⟩
      have hstep : s.step .spawn = some { s with requests := requests } := by
        simp [step, hphase, hspawn]
      rw [hqueue] at hmem
      rcases List.mem_cons.mp hmem with rfl | hlater
      · exact ⟨[.spawn], _, run_cons_eq_some.mpr ⟨_, hstep, rfl⟩, by simp, hrunning⟩
      · obtain ⟨more, u, hrun, hall, hid⟩ := ih (s := { s with requests := requests }) hphase
          (hrest.symm ▸ hlater) hrest
        exact ⟨.spawn :: more, u, run_cons_eq_some.mpr ⟨_, hstep, hrun⟩,
          fun l hl => (List.mem_cons.mp hl).elim (fun h => h) (hall l), hid⟩

/-- A transfer can always return: its calls have answers. -/
theorem exists_returned (x : Transfer) :
    ∃ answers y result, run Transfer.step x answers = some y ∧ y.phase = .returned result := by
  cases hphase : x.phase with
  | opening => exact ⟨[.opened (.error "")], x.fail "", _, by simp [run, Transfer.step, hphase], rfl⟩
  | measuring =>
      exact ⟨[.measured none, .created (.error "")],
        ({ x with phase := .creating, total := none } : Transfer).fail "", _,
        by simp [run, Transfer.step, hphase], rfl⟩
  | creating => exact ⟨[.created (.error "")], x.fail "", _, by simp [run, Transfer.step, hphase], rfl⟩
  | reading =>
      exact ⟨[.read (.error "")], x.fail "", _, by simp [run, Transfer.step, Transfer.read, hphase], rfl⟩
  | writing chunk rest =>
      exact ⟨[.wrote (.error "")], x.fail "", _,
        by simp [run, Transfer.step, Transfer.wrote, hphase], rfl⟩
  | finishing => exact ⟨[.finished (.error "")], x.fail "", _, by simp [run, Transfer.step, hphase], rfl⟩
  | returned result => exact ⟨[], x, result, rfl, hphase⟩

/-- The answers to one transfer, and nothing else. -/
theorem run_transfer {source target : FilePath} {x y : Transfer} {answers : List TransferLabel}
    (hrunning : s.requests.running.lookup id = some (.transfer source target x))
    (hrun : run Transfer.step x answers = some y) :
    ∃ u, run step s (answers.map (.transfer id)) = some u ∧
      u.requests.running.lookup id = some (.transfer source target y) := by
  induction answers generalizing s x with
  | nil => exact ⟨s, rfl, Option.some.inj hrun ▸ hrunning⟩
  | cons answer answers ih =>
      obtain ⟨r, hr, hrest⟩ := run_cons_eq_some.mp hrun
      obtain ⟨u, hu, hlookup⟩ := ih
        (s := { s with requests := s.requests.advance id (.transfer source target r) })
        (AList.lookup_insert _) hrest
      refine ⟨u, run_cons_eq_some.mpr ⟨_, ?_, hu⟩, hlookup⟩
      simp [step, Sftp.transfer, hrunning, hr]

/-- A task can reply by steps of its own. -/
theorem exists_replied (hid : id ∈ s.requests.running) :
    ∃ more u, run step s more = some u ∧ (∀ l ∈ more, l.task = some id) ∧
      id ∈ (outputs step replies s more).map Prod.fst := by
  obtain ⟨x, hrunning⟩ := Table.mem_iff.mp hid
  cases x with
  | call call =>
      obtain ⟨reply, hreply⟩ : ∃ reply, call.reply (.error "") = some reply := by
        cases call <;> exact ⟨_, rfl⟩
      have hstep : s.step (.answered id (.error "")) =
          some { s with requests := s.requests.finish id } := by
        simp [step, Sftp.answered, hrunning, hreply]
      refine ⟨[.answered id (.error "")], _, run_cons_eq_some.mpr ⟨_, hstep, rfl⟩,
        by simp [SftpLabel.task], ?_⟩
      rw [outputs_cons hstep]
      simp [replies, hrunning, hreply]
  | transfer source target x =>
      obtain ⟨answers, y, result, hanswers, hreturned⟩ := exists_returned x
      obtain ⟨u, hu, hlookup⟩ := run_transfer hrunning hanswers
      have hstep : u.step (.reply id) = some { u with requests := u.requests.finish id } := by
        simp [step, Sftp.reply, hlookup, hreturned]
      refine ⟨answers.map (.transfer id) ++ [.reply id], _, run_concat.mpr ⟨u, hu, hstep⟩, ?_, ?_⟩
      · intro l hl
        rcases List.mem_append.mp hl with hanswer | hlast
        · obtain ⟨answer, -, rfl⟩ := List.mem_map.mp hanswer
          rfl
        · obtain rfl := List.mem_singleton.mp hlast
          rfl
      · rw [outputs_concat hu hstep, List.map_append]
        refine List.mem_append_right _ ?_
        simp [replies, hlookup, hreturned]

/-- Once the subsystem is open, and also after the pane has hung up, every request that was
sent is replied to, or can be by steps of its own task, once the client has taken it
off its channel. -/
theorem request_replied (hrun : run step start labels = some t)
    (hphase : t.phase = .serving ∨ t.phase = .returned true) (hid : id < t.requests.issued) :
    ∃ more u, run step t more = some u ∧ (∀ l ∈ more, l = .spawn ∨ l.task = some id) ∧
      id ∈ repliedTo (labels ++ more) := by
  have hserved := run_served hrun
  have haccounted := hserved.accounted (by rintro h; rw [h] at hphase; exact hphase.elim nofun nofun)
  -- the task, once it runs, replies
  have hreplies : ∀ {before : List SftpLabel} {u : Sftp}, run step t before = some u →
      (∀ l ∈ before, l = .spawn) → id ∈ u.requests.running → ∃ more u, run step t more = some u ∧
        (∀ l ∈ more, l = .spawn ∨ l.task = some id) ∧ id ∈ repliedTo (labels ++ more) := by
    intro before u hbefore hspawns hrunning
    obtain ⟨more, v, hmore, hown, hreplied⟩ := exists_replied hrunning
    have hall : run step start (labels ++ before) = some u := by rw [run_append, hrun]; exact hbefore
    refine ⟨before ++ more, v, by rw [run_append, hbefore]; exact hmore, fun l hl => ?_, ?_⟩
    · exact (List.mem_append.mp hl).imp (hspawns l) (hown l)
    · rw [repliedTo, ← List.append_assoc, outputs_append hall, List.map_append]
      exact List.mem_append_right _ hreplied
  rcases haccounted.cases hid with ⟨r, hwaits⟩ | hrunning | hreplied
  · rcases hphase with hserving | hreturned
    · obtain ⟨before, u, hbefore, hspawns, hrunning⟩ := exists_spawned hserving hwaits
      exact hreplies hbefore hspawns hrunning
    · rw [(hserved.drained hreturned).2] at hwaits
      cases hwaits
  · exact hreplies (run_nil t) (by simp) hrunning
  · exact ⟨[], t, rfl, by simp, by rw [List.append_nil]; exact hreplied⟩

theorem request_replied_twoRequests :
    ∃ t more u, run step start twoRequests = some t ∧ run step t more = some u ∧
      0 ∈ repliedTo (twoRequests ++ more) := by
  have hend : (run step start twoRequests).map (fun t => (t.phase, t.requests.issued)) =
      some (.returned true, 2) := rfl
  obtain ⟨t, hrun, ht⟩ := Option.map_eq_some_iff.mp hend
  obtain ⟨hphase, hissued⟩ := Prod.mk.injEq .. |>.mp ht
  obtain ⟨more, u, hmore, -, hreplied⟩ :=
    request_replied hrun (.inr hphase) (hissued ▸ Nat.zero_lt_two)
  exact ⟨t, more, u, hrun, hmore, hreplied⟩

end PolyTerm.Sftp

import PolyTerm.SocksParsing

/-!
# What a dynamic forward tells its client

The handshake selects a method without a look at those offered, has no reply
for an address type it does not know, and tells of success before the channel
is asked for. So what a client is told is true exactly if none of the three
makes a difference (`replies_truthful_iff`). What is written to a client is given for
each kind of stream by a lemma of its own.
-/

namespace PolyTerm

open SockM

/-- What is written to a client that sends `stream`, and which channels are
asked for. -/
def served (channel : String × UInt16 → Except String Unit) (spec : ForwardSpec) (stream : Bytes) :
    List SockEvent := (serve channel spec (.of stream)).2.log

/-- A reply to a request. -/
def SockEvent.IsReply (code : UInt8) (e : SockEvent) : Prop :=
  ∃ rest, e = .wrote (0x05 :: code :: 0x00 :: rest)

/-- Which address types a request can have. -/
def addressTypes : List UInt8 := [0x01, 0x03, 0x04]

theorem SocksHost.atyp_mem (host : SocksHost) : host.atyp ∈ addressTypes := by
  cases host <;> simp [SocksHost.atyp, addressTypes]

/-- The client sends a greeting with these methods. -/
def Greets (stream methods rest : Bytes) : Prop :=
  methods.length ≤ 255 ∧ stream = greeting methods ++ rest

theorem Greets.unique {stream methods methods' rest rest' : Bytes} (h : Greets stream methods rest)
    (h' : Greets stream methods' rest') : methods = methods' ∧ rest = rest' := by
  have heq : greeting methods ++ rest = greeting methods' ++ rest' := h.2.symm.trans h'.2
  simp only [greeting, List.cons_append] at heq
  obtain ⟨-, hlength⟩ := List.cons.inj heq
  obtain ⟨hlength, happend⟩ := List.cons.inj hlength
  have hlengths : methods.length = methods'.length := by
    rw [← toNat_ofNat_length h.1, ← toNat_ofNat_length h'.1, hlength]
  exact List.append_inj happend hlengths

/-- A greeting and a CONNECT with its target behind it are an accepted stream. -/
theorem Greets.accepts {stream methods more last : Bytes} {reserved atyp : UInt8}
    {host : SocksHost} {port : UInt16}
    (h : Greets stream methods (header 0x05 0x01 reserved atyp ++ more))
    (hatyp : host.atyp = atyp) (hmore : more = host.body ++ portBytes port ++ last) :
    SocksConnect stream methods reserved host port last := by
  subst hatyp hmore
  exact ⟨h.1, by rw [h.2, connectRequest]; simp only [List.append_assoc]⟩

/-! ## What is written -/

variable {channel : String × UInt16 → Except String Unit} {spec : ForwardSpec}
  {stream methods rest : Bytes}

theorem served_eq (hkind : spec.kind = .dynamic) (stream : Bytes) :
    served channel spec stream =
      ((socksHandshake >>= fun target => openChannel channel target) (.of stream)).2.log := by
  simp only [served, serve, hkind]

theorem served_no_greeting (hkind : spec.kind = .dynamic)
    (h : ∀ methods rest, ¬Greets stream methods rest) : served channel spec stream = [] := by
  obtain ⟨e, t, he, hlog⟩ := socksHandshake_no_greeting fun methods rest hlength hstream =>
    h methods rest ⟨hlength, hstream⟩
  rw [served_eq hkind, bind_eq, he]
  exact hlog

/-- An answer that is an error leaves no more than it wrote. -/
theorem served_error (hkind : spec.kind = .dynamic) (h : Greets stream methods rest)
    {e : IoError} {t : Sock} (he : answer ⟨rest, [], [.wrote methodSelection]⟩ = (.error e, t)) :
    served channel spec stream = t.log := by
  rw [served_eq hkind, bind_eq, h.2, socksHandshake_greeting h.1, he]

theorem served_short (hkind : spec.kind = .dynamic) (h : Greets stream methods rest)
    (hshort : rest.length < 4) :
    served channel spec stream = [.wrote methodSelection] := by
  obtain ⟨e, t, he, hlog⟩ := answer_short hshort [.wrote methodSelection]
  exact (served_error hkind h he).trans hlog

theorem served_unsupported (hkind : spec.kind = .dynamic)
    {version command reserved atyp : UInt8}
    (h : Greets stream methods (header version command reserved atyp ++ rest))
    (hconnect : version ≠ 0x05 ∨ command ≠ 0x01) :
    served channel spec stream = [.wrote methodSelection, .wrote commandNotSupported] :=
  served_error hkind h (answer_unsupported hconnect reserved atyp rest _)

theorem served_no_target (hkind : spec.kind = .dynamic) {reserved atyp : UInt8}
    (h : Greets stream methods (header 0x05 0x01 reserved atyp ++ rest))
    (hnone : ∀ host port more, SocksHost.atyp host = atyp →
      rest ≠ host.body ++ portBytes port ++ more) :
    served channel spec stream = [.wrote methodSelection] := by
  obtain ⟨e, t, he, hlog⟩ := answer_no_target hnone
  exact (served_error hkind h he).trans hlog

/-- What becomes of the channel of an accepted request. -/
def channelEvent (channel : String × UInt16 → Except String Unit) (target : String × UInt16) :
    SockEvent :=
  match channel target with
  | .ok _ => .opened target
  | .error _ => .refused target

theorem served_accepts (hkind : spec.kind = .dynamic) {reserved : UInt8} {host : SocksHost}
    {port : UInt16} (h : SocksConnect stream methods reserved host port rest) :
    served channel spec stream = [.wrote methodSelection, .wrote succeededReply,
      channelEvent channel (host.text, port)] := by
  rw [served_eq hkind, bind_eq, h.handshake]
  simp only [openChannel, channelEvent]
  cases channel (host.text, port) <;> rfl

/-! ## Whether it is true -/

theorem not_isReply_selection (code : UInt8) : ¬(SockEvent.wrote methodSelection).IsReply code := by
  rintro ⟨rest, h⟩
  have hlength := congrArg List.length (SockEvent.wrote.inj h)
  simp [methodSelection] at hlength

/-- What is written to the client is true. -/
structure TruthfulReplies (channel : String × UInt16 → Except String Unit) (spec : ForwardSpec)
    (stream : Bytes) : Prop where
  /-- success is replied only if the channel to the target is opened -/
  succeeded : ∀ e ∈ served channel spec stream, e.IsReply 0 →
    ∃ methods reserved host port rest, SocksConnect stream methods reserved host port rest ∧
      .opened (host.text, port) ∈ served channel spec stream
  /-- a command that is not supported has a failure for reply -/
  unsupported : ∀ methods version command reserved atyp rest,
    Greets stream methods (header version command reserved atyp ++ rest) →
      version ≠ 0x05 ∨ command ≠ 0x01 →
        ∃ e ∈ served channel spec stream, ∃ code, code ≠ 0 ∧ e.IsReply code
  /-- so has an unknown address type -/
  unknown : ∀ methods reserved atyp rest,
    Greets stream methods (header 0x05 0x01 reserved atyp ++ rest) → atyp ∉ addressTypes →
      ∃ e ∈ served channel spec stream, ∃ code, code ≠ 0 ∧ e.IsReply code
  /-- and a channel that is not opened -/
  unopened : ∀ methods reserved host port rest msg,
    SocksConnect stream methods reserved host port rest → channel (host.text, port) = .error msg →
      ∃ e ∈ served channel spec stream, ∃ code, code ≠ 0 ∧ e.IsReply code
  /-- no authentication is selected only if it is offered -/
  method : .wrote methodSelection ∈ served channel spec stream →
    ∃ methods rest, Greets stream methods rest ∧ 0x00 ∈ methods

/-- A client that offers no authentication and asks for no address of an
unknown type, and for no channel that is refused. -/
structure Servable (channel : String × UInt16 → Except String Unit) (stream : Bytes) : Prop where
  offers : ∀ methods rest, Greets stream methods rest → 0x00 ∈ methods
  known : ∀ methods reserved atyp rest,
    Greets stream methods (header 0x05 0x01 reserved atyp ++ rest) → atyp ∈ addressTypes
  opens : ∀ methods reserved host port rest,
    SocksConnect stream methods reserved host port rest → channel (host.text, port) = .ok ()

theorem no_target_of_unknown {atyp : UInt8} (h : atyp ∉ addressTypes) (rest : Bytes)
    (host : SocksHost) (port : UInt16) (more : Bytes) (hatyp : host.atyp = atyp) :
    rest ≠ host.body ++ portBytes port ++ more := fun _ => h (hatyp ▸ host.atyp_mem)

/-- Behind a greeting: nothing that can be answered, a command that is not
supported, or a request that is accepted. -/
theorem served_cases (hkind : spec.kind = .dynamic) (h : Greets stream methods rest) :
    served channel spec stream = [.wrote methodSelection] ∨
      served channel spec stream = [.wrote methodSelection, .wrote commandNotSupported] ∨
      ∃ reserved host port last, SocksConnect stream methods reserved host port last := by
  by_cases hshort : rest.length < 4
  · exact Or.inl (served_short hkind h hshort)
  · obtain ⟨version, command, reserved, atyp, more, rfl⟩ := exists_header hshort
    by_cases hconnect : version ≠ 0x05 ∨ command ≠ 0x01
    · exact Or.inr (Or.inl (served_unsupported hkind h hconnect))
    · obtain ⟨rfl, rfl⟩ : version = 0x05 ∧ command = 0x01 := by simpa using hconnect
      by_cases htarget : ∃ host port last, SocksHost.atyp host = atyp ∧
          more = host.body ++ portBytes port ++ last
      · obtain ⟨host, port, last, hatyp, hmore⟩ := htarget
        exact Or.inr (Or.inr ⟨reserved, host, port, last, h.accepts hatyp hmore⟩)
      · exact Or.inl (served_no_target hkind h fun host port last hatyp hmore =>
          htarget ⟨host, port, last, hatyp, hmore⟩)

/-- What is written to a client whose stream is not accepted. -/
theorem served_of_not_accepts (hkind : spec.kind = .dynamic)
    (hnot : ∀ methods reserved host port rest,
      ¬SocksConnect stream methods reserved host port rest) :
    served channel spec stream ⊆ [.wrote methodSelection, .wrote commandNotSupported] := by
  by_cases hgreets : ∃ methods rest, Greets stream methods rest
  · obtain ⟨methods, rest, h⟩ := hgreets
    rcases served_cases hkind h with heq | heq | ⟨reserved, host, port, last, haccepts⟩
    · rw [heq]
      simp
    · rw [heq]
      exact List.Subset.refl _
    · exact absurd haccepts (hnot methods reserved host port last)
  · rw [served_no_greeting hkind fun methods rest h => hgreets ⟨methods, rest, h⟩]
    exact List.nil_subset _

/-- A greeting is answered by the selection, whatever it offers. -/
theorem selection_mem_served (hkind : spec.kind = .dynamic) (h : Greets stream methods rest) :
    .wrote methodSelection ∈ served channel spec stream := by
  rcases served_cases hkind h with heq | heq | ⟨reserved, host, port, last, haccepts⟩
  · rw [heq]
    exact List.mem_cons_self
  · rw [heq]
    exact List.mem_cons_self
  · rw [served_accepts hkind haccepts]
    exact List.mem_cons_self

theorem not_isReply_of_subset {log : List SockEvent} {e : SockEvent}
    (h : log ⊆ [.wrote methodSelection, .wrote commandNotSupported]) (he : e ∈ log) :
    ¬e.IsReply 0 := by
  rcases List.mem_cons.mp (h he) with rfl | he
  · exact not_isReply_selection 0
  · rintro ⟨rest, hrest⟩
    rw [List.mem_singleton.mp he] at hrest
    simp [commandNotSupported] at hrest

/-- After an accepted request nothing but success is replied. -/
theorem code_eq_zero_of_accepts (hkind : spec.kind = .dynamic) {reserved : UInt8}
    {host : SocksHost} {port : UInt16} (h : SocksConnect stream methods reserved host port rest)
    {e : SockEvent} (he : e ∈ served channel spec stream) {code : UInt8} (hcode : e.IsReply code) :
    code = 0 := by
  rw [served_accepts hkind h, List.mem_cons, List.mem_cons, List.mem_singleton] at he
  rcases he with rfl | rfl | rfl
  · exact absurd hcode (not_isReply_selection code)
  · obtain ⟨rest, hrest⟩ := hcode
    simp only [succeededReply, SockEvent.wrote.injEq, List.cons.injEq] at hrest
    exact hrest.2.1.symm
  · obtain ⟨rest, hrest⟩ := hcode
    rw [channelEvent] at hrest
    split at hrest <;> cases hrest

/-! ## When it is true -/

theorem TruthfulReplies.servable (hkind : spec.kind = .dynamic)
    (h : TruthfulReplies channel spec stream) :
    Servable channel stream := by
  constructor
  · intro methods rest hgreets
    obtain ⟨methods', rest', hgreets', hoffered⟩ := h.method (selection_mem_served hkind hgreets)
    rwa [(hgreets.unique hgreets').1]
  · intro methods reserved atyp rest hgreets
    by_contra hunknown
    obtain ⟨e, he, code, -, hreply⟩ := h.unknown methods reserved atyp rest hgreets hunknown
    rw [served_no_target hkind hgreets (no_target_of_unknown hunknown rest),
      List.mem_singleton] at he
    exact not_isReply_selection code (he ▸ hreply)
  · intro methods reserved host port rest haccepts
    cases hchannel : channel (host.text, port) with
    | ok _ => rfl
    | error msg =>
        obtain ⟨e, he, code, hcode, hreply⟩ :=
          h.unopened methods reserved host port rest msg haccepts hchannel
        exact absurd (code_eq_zero_of_accepts hkind haccepts he hreply) hcode

theorem Servable.truthful (hkind : spec.kind = .dynamic) (h : Servable channel stream) :
    TruthfulReplies channel spec stream := by
  constructor
  · intro e he hreply
    by_cases haccepts : ∃ methods reserved host port rest,
        SocksConnect stream methods reserved host port rest
    · obtain ⟨methods, reserved, host, port, rest, haccepts⟩ := haccepts
      refine ⟨methods, reserved, host, port, rest, haccepts, ?_⟩
      rw [served_accepts hkind haccepts, channelEvent,
        h.opens methods reserved host port rest haccepts]
      simp
    · have hsubset : served channel spec stream ⊆ _ := served_of_not_accepts hkind
        fun methods reserved host port rest hacc =>
          haccepts ⟨methods, reserved, host, port, rest, hacc⟩
      exact absurd hreply (not_isReply_of_subset hsubset he)
  · intro methods version command reserved atyp rest hgreets hconnect
    refine ⟨.wrote commandNotSupported, ?_, 0x07, by decide, _, rfl⟩
    rw [served_unsupported hkind hgreets hconnect]
    simp
  · intro methods reserved atyp rest hgreets hunknown
    exact absurd (h.known methods reserved atyp rest hgreets) hunknown
  · intro methods reserved host port rest msg haccepts hrefused
    rw [h.opens methods reserved host port rest haccepts] at hrefused
    cases hrefused
  · intro hselected
    by_cases hgreets : ∃ methods rest, Greets stream methods rest
    · obtain ⟨methods, rest, hgreets⟩ := hgreets
      exact ⟨methods, rest, hgreets, h.offers methods rest hgreets⟩
    · rw [served_no_greeting hkind fun methods rest hg => hgreets ⟨methods, rest, hg⟩] at hselected
      cases hselected

/-- For every stream and every outcome of the channel: what a dynamic forward
tells its client is true exactly if the client offers to go without
authentication, its CONNECT has a known address type, and the channel to its
target opens. -/
theorem replies_truthful_iff (channel : String × UInt16 → Except String Unit) (spec : ForwardSpec)
    (hkind : spec.kind = .dynamic) (stream : Bytes) :
    TruthfulReplies channel spec stream ↔ Servable channel stream :=
  ⟨TruthfulReplies.servable hkind, Servable.truthful hkind⟩

/-! ## A request for 10.0.0.9, port 22 -/

/-- The forward, its client, and the request. -/
def socksForward : ForwardSpec := ⟨.dynamic, "127.0.0.1", 1080, "", 0⟩

def socksRequest : Bytes := [5, 1, 0] ++ [5, 1, 0, 1, 10, 0, 0, 9, 0, 22]

theorem socksRequest_greets : Greets socksRequest [0] [5, 1, 0, 1, 10, 0, 0, 9, 0, 22] :=
  ⟨by decide, by decide⟩

theorem socksRequest_accepts : SocksConnect socksRequest [0] 0 (.ipv4 ⟨10, 0, 0, 9⟩) 22 [] :=
  ⟨by decide, by decide⟩

/-- Where the channel opens. -/
theorem replies_truthful_opened : TruthfulReplies (fun _ => .ok ()) socksForward socksRequest := by
  refine (replies_truthful_iff _ socksForward rfl socksRequest).mpr ⟨?_, ?_, fun _ _ _ _ _ _ => rfl⟩
  · intro methods rest h
    rw [(h.unique socksRequest_greets).1]
    exact List.mem_cons_self
  · intro methods reserved atyp rest h
    have hrest := (h.unique socksRequest_greets).2
    simp only [header, List.cons_append, List.cons.injEq] at hrest
    rw [hrest.2.2.2.1]
    decide

/-- Where it is refused the client has been told of success. -/
theorem refused_not_truthful : ¬∀ (channel : String × UInt16 → Except String Unit)
    (spec : ForwardSpec), spec.kind = .dynamic → ∀ stream, TruthfulReplies channel spec stream := by
  intro h
  have hserved : served (fun _ => .error "administratively prohibited") socksForward socksRequest =
      [.wrote methodSelection, .wrote succeededReply, .refused ("10.0.0.9", 22)] :=
    served_accepts rfl socksRequest_accepts
  obtain ⟨methods, reserved, host, port, rest, -, hopened⟩ :=
    (h (fun _ => .error "administratively prohibited") socksForward rfl socksRequest).succeeded
      (.wrote succeededReply) (by rw [hserved]; simp) ⟨_, rfl⟩
  rw [hserved] at hopened
  simp at hopened

end PolyTerm

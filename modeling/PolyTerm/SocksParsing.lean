import PolyTerm.Socks

/-!
# What the SOCKS handshake accepts

The handshake accepts a stream exactly when it starts with a greeting and a
CONNECT request to a target, and then it has read these and nothing behind them
(`socksHandshake_exact`). Each part of it has two lemmas: what it makes of a
stream that starts with its encoding, and that any other stream is an error
that writes nothing.
-/

namespace PolyTerm

open SockM

/-! ## Requests -/

/-- The host a request can name. -/
inductive SocksHost where
  | ipv4 (ip : Ipv4Addr)
  | domain (name : Bytes) (fits : name.length ≤ 255)
  | ipv6 (ip : Ipv6Addr)

namespace SocksHost

def atyp : SocksHost → UInt8
  | .ipv4 _ => 0x01
  | .domain _ _ => 0x03
  | .ipv6 _ => 0x04

/-- The host behind its address type. -/
def body : SocksHost → Bytes
  | .ipv4 ip => ip.octets
  | .domain name _ => UInt8.ofNat name.length :: name
  | .ipv6 ip => ip.octets

def text : SocksHost → String
  | .ipv4 ip => ip.toString
  | .domain name _ => String.ofList (LossyUtf8.decode name)
  | .ipv6 ip => ip.toString

end SocksHost

def portBytes (port : UInt16) : Bytes :=
  [UInt8.ofNat (port.toNat / 256), UInt8.ofNat (port.toNat % 256)]

def greeting (methods : Bytes) : Bytes := 0x05 :: UInt8.ofNat methods.length :: methods

/-- What stands in front of a target. -/
def header (version command reserved atyp : UInt8) : Bytes := [version, command, reserved, atyp]

def connectRequest (reserved : UInt8) (host : SocksHost) (port : UInt16) : Bytes :=
  header 0x05 0x01 reserved host.atyp ++ (host.body ++ portBytes port)

/-! ## Reading -/

theorem bind_eq {α β : Type} (x : SockM α) (f : α → SockM β) (s : Sock) :
    (x >>= f) s = match x s with
      | (.ok a, s) => f a s
      | (.error e, s) => (.error e, s) := rfl

theorem toNat_ofNat_length {name : Bytes} (h : name.length ≤ 255) :
    (UInt8.ofNat name.length).toNat = name.length :=
  UInt8.toNat_ofNat_of_lt' (Nat.lt_succ_of_le h)

theorem readExact_append {bytes : Bytes} {n : Nat} (h : bytes.length = n) (rest : Bytes)
    (taking : List (Option IoError)) (log : List SockEvent) :
    readExact n ⟨bytes ++ rest, taking, log⟩ = (.ok bytes, ⟨rest, taking, log⟩) := by
  subst h
  simp [readExact]

/-- A stream has so many bytes, or reading them is an error. -/
theorem readExact_cases (n : Nat) (s : Sock) :
    (∃ bytes rest, bytes.length = n ∧ s.unread = bytes ++ rest) ∨
      readExact n s = (.error .unexpectedEof, { s with unread := [] }) := by
  by_cases h : s.unread.length < n
  · exact Or.inr (if_pos h)
  · exact Or.inl ⟨s.unread.take n, s.unread.drop n, by simp; omega,
      (List.take_append_drop _ _).symm⟩

theorem readU16_portBytes (port : UInt16) (rest : Bytes) (taking : List (Option IoError))
    (log : List SockEvent) :
    readU16 ⟨portBytes port ++ rest, taking, log⟩ = (.ok port, ⟨rest, taking, log⟩) := by
  have hport := port.toNat_lt
  have hvalue : UInt16.ofNat (256 * (UInt8.ofNat (port.toNat / 256)).toNat +
      (UInt8.ofNat (port.toNat % 256)).toNat) = port := by
    have hhi : (UInt8.ofNat (port.toNat / 256)).toNat = port.toNat / 256 :=
      UInt8.toNat_ofNat_of_lt' (by have hsize : UInt8.size = 256 := rfl; omega)
    have hlo : (UInt8.ofNat (port.toNat % 256)).toNat = port.toNat % 256 :=
      UInt8.toNat_ofNat_of_lt' (by have hsize : UInt8.size = 256 := rfl; omega)
    rw [hhi, hlo, Nat.div_add_mod, UInt16.ofNat_toNat]
  rw [readU16, bind_eq, readExact_append (n := 2) rfl]
  exact congrArg (fun p => (Except.ok p, _)) hvalue

/-- Two bytes are a port. -/
theorem exists_port {bytes : Bytes} (h : bytes.length = 2) : ∃ port, bytes = portBytes port := by
  obtain ⟨hi, lo, rfl⟩ := List.length_eq_two.mp h
  have hhi := hi.toNat_lt
  have hlo := lo.toNat_lt
  have hport : (UInt16.ofNat (256 * hi.toNat + lo.toNat)).toNat = 256 * hi.toNat + lo.toNat :=
    UInt16.toNat_ofNat_of_lt' (by have hsize : UInt16.size = 65536 := rfl; omega)
  refine ⟨UInt16.ofNat (256 * hi.toNat + lo.toNat), ?_⟩
  rw [portBytes, hport, Nat.mul_add_mod, Nat.mod_eq_of_lt hlo, Nat.mul_add_div (by decide),
    Nat.div_eq_of_lt hlo, Nat.add_zero, UInt8.ofNat_toNat, UInt8.ofNat_toNat]

theorem readHost_body (host : SocksHost) (rest : Bytes) (taking : List (Option IoError))
    (log : List SockEvent) :
    readHost host.atyp ⟨host.body ++ rest, taking, log⟩ =
      (.ok host.text, ⟨rest, taking, log⟩) := by
  cases host with
  | ipv4 ip =>
      rw [SocksHost.atyp, readHost, if_pos rfl, SocksHost.body, bind_eq,
        readExact_append (n := 4) rfl]
      rfl
  | domain name fits =>
      rw [SocksHost.atyp, readHost, if_neg (by decide), if_pos rfl, SocksHost.body, bind_eq,
        List.cons_append]
      simp only [readU8]
      rw [bind_eq, toNat_ofNat_length fits, readExact_append rfl]
      rfl
  | ipv6 ip =>
      rw [SocksHost.atyp, readHost, if_neg (by decide), if_neg (by decide), if_pos rfl,
        SocksHost.body, bind_eq, readExact_append ip.size]
      simp only [ip.size, dite_true]
      rfl

/-- A known address type, with the host behind it, or an error. -/
theorem readHost_cases (atyp : UInt8) (s : Sock) :
    (∃ host rest, SocksHost.atyp host = atyp ∧ s.unread = host.body ++ rest) ∨
      ∃ e unread, readHost atyp s = (.error e, { s with unread := unread }) := by
  rw [readHost]
  split
  · rename_i h
    rcases readExact_cases 4 s with ⟨bytes, rest, hlength, hunread⟩ | heof
    · obtain ⟨a, b, c, d, rfl⟩ : ∃ a b c d, bytes = [a, b, c, d] := by
        match bytes, hlength with
        | [a, b, c, d], _ => exact ⟨a, b, c, d, rfl⟩
      exact Or.inl ⟨.ipv4 ⟨a, b, c, d⟩, rest, h.symm, hunread⟩
    · exact Or.inr ⟨.unexpectedEof, [], by rw [bind_eq, heof]⟩
  · split
    · rename_i h
      cases hunread : s.unread with
      | nil =>
          refine Or.inr ⟨.unexpectedEof, [], ?_⟩
          obtain ⟨unread, taking, log⟩ := s
          obtain rfl : unread = [] := hunread
          rfl
      | cons len more =>
          rcases readExact_cases len.toNat { s with unread := more } with
            ⟨name, rest, hlength, hmore⟩ | heof
          · have hlen := len.toNat_lt
            refine Or.inl ⟨.domain name (by omega), rest, h.symm, ?_⟩
            rw [SocksHost.body, hlength, UInt8.ofNat_toNat, List.cons_append, ← hmore]
          · refine Or.inr ⟨.unexpectedEof, [], ?_⟩
            rw [bind_eq]
            simp only [readU8, hunread]
            rw [bind_eq, heof]
    · split
      · rename_i h
        rcases readExact_cases 16 s with ⟨bytes, rest, hlength, hunread⟩ | heof
        · exact Or.inl ⟨.ipv6 ⟨bytes, hlength⟩, rest, h.symm, hunread⟩
        · exact Or.inr ⟨.unexpectedEof, [], by rw [bind_eq, heof]⟩
      · exact Or.inr ⟨_, s.unread, rfl⟩

theorem readTarget_body (host : SocksHost) (port : UInt16) (rest : Bytes)
    (taking : List (Option IoError)) (log : List SockEvent) :
    readTarget host.atyp ⟨host.body ++ portBytes port ++ rest, taking, log⟩ =
      (.ok (host.text, port), ⟨rest, taking, log⟩) := by
  rw [List.append_assoc, readTarget, bind_eq, readHost_body]
  simp only
  rw [bind_eq, readU16_portBytes]
  rfl

theorem readTarget_cases (atyp : UInt8) (s : Sock) :
    (∃ host port rest, SocksHost.atyp host = atyp ∧
        s.unread = host.body ++ portBytes port ++ rest) ∨
      ∃ e unread, readTarget atyp s = (.error e, { s with unread := unread }) := by
  rw [readTarget]
  rcases readHost_cases atyp s with ⟨host, more, rfl, hunread⟩ | ⟨e, unread, he⟩
  · rcases readExact_cases 2 { s with unread := more } with ⟨bytes, rest, hlength, hmore⟩ | heof
    · obtain ⟨port, rfl⟩ := exists_port hlength
      refine Or.inl ⟨host, port, rest, rfl, ?_⟩
      rw [hunread, List.append_assoc]
      exact congrArg _ hmore
    · refine Or.inr ⟨.unexpectedEof, [], ?_⟩
      obtain ⟨unread, taking, log⟩ := s
      obtain rfl : unread = host.body ++ more := hunread
      rw [bind_eq, readHost_body]
      simp only
      rw [bind_eq, readU16, bind_eq, heof]
  · exact Or.inr ⟨e, unread, by rw [bind_eq, he]⟩

/-! ## The handshake in two parts -/

/-- The greeting, and the choice of a method. -/
def greet : SockM Unit := do
  let version ← readU8
  if version ≠ 0x05 then fail (.invalidData "not a SOCKS5 client")
  else
    let nmethods ← readU8
    let _methods ← readExact nmethods.toNat
    writeAll methodSelection

/-- The request, and the reply to it. -/
def answer : SockM (String × UInt16) := do
  let version ← readU8
  let command ← readU8
  let _reserved ← readU8
  let atyp ← readU8
  if version ≠ 0x05 ∨ command ≠ 0x01 then
    attempt (writeAll commandNotSupported)
    fail (.invalidData "unsupported SOCKS command")
  else
    let target ← readTarget atyp
    writeAll succeededReply
    pure target

theorem bind_assoc_apply {α β γ : Type} (x : SockM α) (f : α → SockM β) (g : β → SockM γ)
    (s : Sock) : ((x >>= f) >>= g) s = (x >>= fun a => f a >>= g) s := by
  simp only [bind_eq]
  rcases x s with ⟨_ | a, t⟩ <;> rfl

theorem socksHandshake_eq (s : Sock) : socksHandshake s = (greet >>= fun _ => answer) s := by
  rw [socksHandshake, greet, bind_assoc_apply, bind_eq, bind_eq]
  rcases readU8 s with ⟨e | version, t⟩
  · rfl
  · simp only
    split
    · rfl
    · rw [bind_assoc_apply, bind_eq, bind_eq]
      rcases readU8 t with ⟨e | nmethods, u⟩
      · rfl
      · simp only
        rw [bind_assoc_apply]
        rfl

theorem greet_greeting {methods : Bytes} (h : methods.length ≤ 255) (rest : Bytes)
    (log : List SockEvent) :
    greet ⟨greeting methods ++ rest, [], log⟩ =
      (.ok (), ⟨rest, [], log ++ [.wrote methodSelection]⟩) := by
  simp only [greet, greeting, List.cons_append, bind_eq, readU8, ne_eq, not_true_eq_false, if_false,
    toNat_ofNat_length h, readExact_append rfl, writeAll]

/-- A stream starts with a greeting, or greeting it is an error that writes
nothing. -/
theorem greet_cases (s : Sock) :
    (∃ methods rest, methods.length ≤ 255 ∧ s.unread = greeting methods ++ rest) ∨
      ∃ e t, greet s = (.error e, t) ∧ t.log = s.log := by
  obtain ⟨unread, taking, log⟩ := s
  match unread with
  | [] => exact Or.inr ⟨_, _, rfl, rfl⟩
  | version :: more =>
      by_cases hversion : version = 0x05
      · subst hversion
        match more with
        | [] => exact Or.inr ⟨_, _, rfl, rfl⟩
        | nmethods :: more =>
            rcases readExact_cases nmethods.toNat ⟨more, taking, log⟩ with
              ⟨methods, rest, hlength, hmore⟩ | heof
            · have hlen := nmethods.toNat_lt
              refine Or.inl ⟨methods, rest, by omega, ?_⟩
              rw [greeting, hlength, UInt8.ofNat_toNat]
              exact congrArg (fun l => 0x05 :: nmethods :: l) hmore
            · refine Or.inr ⟨.unexpectedEof, ⟨[], taking, log⟩, ?_, rfl⟩
              simp only [greet, bind_eq, readU8, ne_eq, not_true_eq_false, if_false, heof]
      · refine Or.inr ⟨.invalidData "not a SOCKS5 client", ⟨more, taking, log⟩, ?_, rfl⟩
        simp only [greet, bind_eq, readU8, ne_eq, hversion, not_false_eq_true, if_true, fail]

/-- A request other than CONNECT. -/
theorem answer_unsupported {version command : UInt8} (h : version ≠ 0x05 ∨ command ≠ 0x01)
    (reserved atyp : UInt8) (rest : Bytes) (log : List SockEvent) :
    answer ⟨header version command reserved atyp ++ rest, [], log⟩ =
      (.error (.invalidData "unsupported SOCKS command"),
        ⟨rest, [], log ++ [.wrote commandNotSupported]⟩) := by
  simp only [answer, header, List.cons_append, List.nil_append, bind_eq, readU8, h, if_true,
    attempt, writeAll, fail]

theorem answer_connect (reserved atyp : UInt8) (rest : Bytes) (log : List SockEvent) :
    answer ⟨header 0x05 0x01 reserved atyp ++ rest, [], log⟩ =
      (readTarget atyp >>= fun target => writeAll succeededReply >>= fun _ => pure target)
        ⟨rest, [], log⟩ := rfl

theorem answer_connectRequest (reserved : UInt8) (host : SocksHost) (port : UInt16) (rest : Bytes)
    (log : List SockEvent) :
    answer ⟨connectRequest reserved host port ++ rest, [], log⟩ =
      (.ok (host.text, port), ⟨rest, [], log ++ [.wrote succeededReply]⟩) := by
  rw [connectRequest, List.append_assoc, answer_connect, bind_eq, readTarget_body]
  rfl

/-- A CONNECT whose target is not there, or is of an unknown type. -/
theorem answer_no_target {reserved atyp : UInt8} {rest : Bytes} {log : List SockEvent}
    (h : ∀ host port more, SocksHost.atyp host = atyp →
      rest ≠ host.body ++ portBytes port ++ more) :
    ∃ e t, answer ⟨header 0x05 0x01 reserved atyp ++ rest, [], log⟩ = (.error e, t) ∧
      t.log = log := by
  rcases readTarget_cases atyp ⟨rest, [], log⟩ with ⟨host, port, more, hatyp, hrest⟩ |
    ⟨e, unread, he⟩
  · exact absurd hrest (h host port more hatyp)
  · exact ⟨e, ⟨unread, [], log⟩, by rw [answer_connect, bind_eq, he], rfl⟩

/-- A request too short for a header. -/
theorem answer_short {rest : Bytes} (h : rest.length < 4) (log : List SockEvent) :
    ∃ e t, answer ⟨rest, [], log⟩ = (.error e, t) ∧ t.log = log := by
  match rest, h with
  | [], _ | [_], _ | [_, _], _ | [_, _, _], _ => exact ⟨_, _, rfl, rfl⟩

theorem exists_header {rest : Bytes} (h : ¬rest.length < 4) :
    ∃ version command reserved atyp more, rest = header version command reserved atyp ++ more := by
  match rest, h with
  | [], h | [_], h | [_, _], h | [_, _, _], h => exact absurd (by simp) h
  | version :: command :: reserved :: atyp :: more, _ =>
      exact ⟨version, command, reserved, atyp, more, rfl⟩

/-! ## The streams it accepts -/

theorem socksHandshake_greeting {methods : Bytes} (h : methods.length ≤ 255) (rest : Bytes) :
    socksHandshake (.of (greeting methods ++ rest)) =
      answer ⟨rest, [], [.wrote methodSelection]⟩ := by
  rw [socksHandshake_eq, bind_eq, Sock.of, greet_greeting h]
  rfl

theorem socksHandshake_no_greeting {stream : Bytes}
    (h : ∀ methods rest, methods.length ≤ 255 → stream ≠ greeting methods ++ rest) :
    ∃ e t, socksHandshake (.of stream) = (.error e, t) ∧ t.log = [] := by
  rcases greet_cases (.of stream) with ⟨methods, rest, hlength, hstream⟩ | ⟨e, t, he, hlog⟩
  · exact absurd hstream (h methods rest hlength)
  · exact ⟨e, t, by rw [socksHandshake_eq, bind_eq, he], hlog⟩

/-- The stream starts with a greeting and a CONNECT. -/
structure SocksConnect (stream : Bytes) (methods : Bytes) (reserved : UInt8) (host : SocksHost)
    (port : UInt16) (rest : Bytes) : Prop where
  fits : methods.length ≤ 255
  eq : stream = greeting methods ++ (connectRequest reserved host port ++ rest)

theorem SocksConnect.handshake {stream methods rest : Bytes} {reserved : UInt8} {host : SocksHost}
    {port : UInt16} (h : SocksConnect stream methods reserved host port rest) :
    socksHandshake (.of stream) =
      (.ok (host.text, port), ⟨rest, [], [.wrote methodSelection, .wrote succeededReply]⟩) := by
  rw [h.eq, socksHandshake_greeting h.fits, answer_connectRequest]
  rfl

/-- An accepted stream, or an error. -/
theorem accepts_or_error (stream : Bytes) :
    (∃ methods reserved host port rest, SocksConnect stream methods reserved host port rest) ∨
      ∃ e t, socksHandshake (.of stream) = (.error e, t) := by
  by_cases hgreets : ∃ methods rest, methods.length ≤ 255 ∧ stream = greeting methods ++ rest
  · obtain ⟨methods, rest, hlength, rfl⟩ := hgreets
    rw [socksHandshake_greeting hlength]
    by_cases hshort : rest.length < 4
    · obtain ⟨e, t, he, -⟩ := answer_short hshort [.wrote methodSelection]
      exact Or.inr ⟨e, t, he⟩
    · obtain ⟨version, command, reserved, atyp, more, rfl⟩ := exists_header hshort
      by_cases hconnect : version ≠ 0x05 ∨ command ≠ 0x01
      · exact Or.inr ⟨_, _, answer_unsupported hconnect reserved atyp more _⟩
      · obtain ⟨rfl, rfl⟩ : version = 0x05 ∧ command = 0x01 := by simpa using hconnect
        rcases readTarget_cases atyp ⟨more, [], [.wrote methodSelection]⟩ with
          ⟨host, port, rest, rfl, hmore⟩ | ⟨e, unread, he⟩
        · obtain rfl : more = host.body ++ portBytes port ++ rest := hmore
          exact Or.inl ⟨methods, reserved, host, port, rest, hlength, by
            rw [connectRequest, List.append_assoc, List.append_assoc, List.append_assoc]⟩
        · exact Or.inr ⟨e, ⟨unread, [], _⟩, by rw [answer_connect, bind_eq, he]⟩
  · obtain ⟨e, t, he, -⟩ := socksHandshake_no_greeting fun methods rest hlength hstream =>
      hgreets ⟨methods, rest, hlength, hstream⟩
    exact Or.inr ⟨e, t, he⟩

theorem handshake_eq_ok_iff {stream rest : Bytes} {target : String × UInt16} :
    ((socksHandshake (.of stream)).1 = .ok target ∧ (socksHandshake (.of stream)).2.unread = rest) ↔
      ∃ methods reserved host port, SocksConnect stream methods reserved host port rest ∧
        target = (host.text, port) := by
  constructor
  · rintro ⟨hok, hrest⟩
    rcases accepts_or_error stream with ⟨methods, reserved, host, port, rest', h⟩ | ⟨e, t, he⟩
    · rw [h.handshake] at hok hrest
      obtain rfl := Except.ok.inj hok
      obtain rfl : rest' = rest := hrest
      exact ⟨methods, reserved, host, port, h, rfl⟩
    · rw [he] at hok
      cases hok
  · rintro ⟨methods, reserved, host, port, h, rfl⟩
    rw [h.handshake]
    exact ⟨rfl, rfl⟩

/-- Bytes behind an accepted stream do not change what is read of it. -/
theorem SocksConnect.append {stream methods rest : Bytes} {reserved : UInt8} {host : SocksHost}
    {port : UInt16} (h : SocksConnect stream methods reserved host port rest) (more : Bytes) :
    SocksConnect (stream ++ more) methods reserved host port (rest ++ more) :=
  ⟨h.fits, by rw [h.eq, List.append_assoc, List.append_assoc]⟩

/-- A stream cut short within the request is an error. -/
theorem handshake_cut {stream methods cut more : Bytes} {reserved : UInt8} {host : SocksHost}
    {port : UInt16} (h : SocksConnect stream methods reserved host port [])
    (hcut : stream = cut ++ more)
    (hmore : more ≠ []) : ∃ e, (socksHandshake (.of cut)).1 = .error e := by
  rcases accepts_or_error cut with ⟨methods', reserved', host', port', rest, h'⟩ | ⟨e, t, he⟩
  · -- then the whole stream would be accepted with `more` unread
    have hlonger := (h'.append more).handshake
    rw [← hcut, h.handshake] at hlonger
    have hunread := congrArg (fun r => r.2.unread) hlonger
    exact absurd (List.append_eq_nil_iff.mp hunread.symm).2 hmore
  · exact ⟨e, by rw [he]⟩

/-- The handshake reads a target, and leaves `rest` unread, exactly if the
stream is a greeting and a CONNECT to that target in front of `rest`; a domain
is the name it encodes. Every other stream is an error, and so is every stream
cut short. -/
theorem socksHandshake_exact :
    (∀ stream rest target,
      ((socksHandshake (.of stream)).1 = .ok target ∧
          (socksHandshake (.of stream)).2.unread = rest) ↔
        ∃ methods reserved host port, SocksConnect stream methods reserved host port rest ∧
          target = (host.text, port)) ∧
      (∀ stream, (∃ e, (socksHandshake (.of stream)).1 = .error e) ↔
        ¬∃ methods reserved host port rest, SocksConnect stream methods reserved host port rest) ∧
      (∀ methods reserved host port cut more,
        SocksConnect (cut ++ more) methods reserved host port [] → more ≠ [] →
          ∃ e, (socksHandshake (.of cut)).1 = .error e) ∧
      ∀ (name : String) (fits : (LossyUtf8.encode name.toList).length ≤ 255),
        SocksHost.text (.domain (LossyUtf8.encode name.toList) fits) = name := by
  refine ⟨fun _ _ _ => handshake_eq_ok_iff, fun stream => ⟨?_, fun hnot => ?_⟩,
    fun _ _ _ _ _ _ h hmore => handshake_cut h rfl hmore, fun name _ => ?_⟩
  · rintro ⟨e, he⟩ ⟨methods, reserved, host, port, rest, h⟩
    rw [h.handshake] at he
    cases he
  · rcases accepts_or_error stream with h | ⟨e, t, he⟩
    · exact absurd h hnot
    · exact ⟨e, by rw [he]⟩
  · rw [SocksHost.text, LossyUtf8.decode_encode, String.ofList_toList]

/-- A request for an IPv4 address, with two bytes behind it. -/
theorem socksHandshake_exact_ipv4 :
    (socksHandshake (.of ([5, 1, 0] ++ [5, 1, 0, 1, 10, 0, 0, 9, 0, 22] ++ [0x53, 0x53]))).1 =
      .ok ("10.0.0.9", 22) := by
  have h : SocksConnect ([5, 1, 0] ++ [5, 1, 0, 1, 10, 0, 0, 9, 0, 22] ++ [0x53, 0x53]) [0] 0
      (.ipv4 ⟨10, 0, 0, 9⟩) 22 [0x53, 0x53] := ⟨by decide, by decide⟩
  exact ((socksHandshake_exact.1 _ _ _).mpr ⟨_, _, _, _, h, by decide⟩).1

end PolyTerm

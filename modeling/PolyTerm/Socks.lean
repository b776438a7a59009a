import PolyTerm.Forward
import PolyTerm.LossyUtf8

/-!
# SOCKS

The handshake of a dynamic forward: a client's greeting, its request and the
target in it, read from one accepted connection, and the replies written to it.
`serve` then opens the channel to the target. A connection has a log of what
was written and which channels were asked for, which is not in the source.
-/

namespace PolyTerm

/-! ## Addresses -/

structure Ipv4Addr where
  a : UInt8
  b : UInt8
  c : UInt8
  d : UInt8
deriving DecidableEq, Repr

structure Ipv6Addr where
  octets : Bytes
  size : octets.length = 16
deriving DecidableEq

namespace Ipv4Addr

def octets (ip : Ipv4Addr) : Bytes := [ip.a, ip.b, ip.c, ip.d]

def toString (ip : Ipv4Addr) : String :=
  ".".intercalate (ip.octets.map fun octet => octet.toNat.repr)

end Ipv4Addr

namespace Ipv6Addr

/-- The 16-bit groups of the octets. -/
def pairs : Bytes → List Nat
  | hi :: lo :: rest => (256 * hi.toNat + lo.toNat) :: pairs rest
  | _ => []

def segments (ip : Ipv6Addr) : List Nat := pairs ip.octets

/-- An IPv4 address in IPv6 clothes. -/
def toIpv4Mapped (ip : Ipv6Addr) : Option Ipv4Addr :=
  match ip.octets with
  | [0, 0, 0, 0, 0, 0, 0, 0, 0, 0, 0xff, 0xff, a, b, c, d] => some ⟨a, b, c, d⟩
  | _ => none

/-- A run of zero groups. -/
structure Span where
  start : Nat
  len : Nat
deriving DecidableEq, Repr

/-- The longest run of zeros, the first of equals: `longest` so far, `current`
the one that ends before group `i`. -/
def longestZeros (longest current : Span) (i : Nat) : List Nat → Span
  | [] => longest
  | segment :: rest =>
      if segment = 0 then
        let current : Span := ⟨if current.len = 0 then i else current.start, current.len + 1⟩
        longestZeros (if longest.len < current.len then current else longest) current (i + 1) rest
      else longestZeros longest ⟨0, 0⟩ (i + 1) rest

def hex (n : Nat) : String := String.ofList (Nat.toDigits 16 n)

def fmtSubslice (chunk : List Nat) : String := ":".intercalate (chunk.map hex)

/-- Lower-case hexadecimal groups, the longest run of two or more zeros left
out. -/
def toString (ip : Ipv6Addr) : String :=
  match ip.toIpv4Mapped with
  | some ipv4 => "::ffff:" ++ ipv4.toString
  | none =>
      let zeroes := longestZeros ⟨0, 0⟩ ⟨0, 0⟩ 0 ip.segments
      if 1 < zeroes.len then
        fmtSubslice (ip.segments.take zeroes.start) ++ "::" ++
          fmtSubslice (ip.segments.drop (zeroes.start + zeroes.len))
      else fmtSubslice ip.segments

example : toString ⟨[0x20, 1, 0x0d, 0xb8, 0, 0, 0, 0, 0, 0, 0, 0, 0, 0, 0, 1], rfl⟩ =
    "2001:db8::1" := by decide

example : toString ⟨[0, 1, 0, 0, 0, 0, 0, 1, 0, 0, 0, 0, 0, 0, 0, 0], rfl⟩ = "1:0:0:1::" := by
  decide

end Ipv6Addr

/-! ## An accepted connection -/

inductive IoError where
  | unexpectedEof
  | invalidData (msg : String)
  | other (msg : String)
deriving DecidableEq, Repr

inductive SockEvent where
  | wrote (bytes : Bytes)
  /-- the channel to the target was opened -/
  | opened (target : String × UInt16)
  | refused (target : String × UInt16)
deriving DecidableEq, Repr

/-- What the client sends, to its end, and whether it takes what is written:
`taking` has an outcome for each write to come, past its end all succeed. -/
structure Sock where
  unread : Bytes
  taking : List (Option IoError)
  log : List SockEvent
deriving DecidableEq, Repr

/-- A client that sends these bytes and takes every reply. -/
def Sock.of (stream : Bytes) : Sock := ⟨stream, [], []⟩

/-- Work on a connection. -/
def SockM (α : Type) := Sock → Except IoError α × Sock

instance : Monad SockM where
  pure a := fun s => (.ok a, s)
  bind x f := fun s =>
    match x s with
    | (.ok a, s) => f a s
    | (.error e, s) => (.error e, s)

namespace SockM

def fail {α : Type} (e : IoError) : SockM α := fun s => (.error e, s)

/-- Whether it succeeds is ignored. -/
def attempt (x : SockM Unit) : SockM Unit := fun s => (.ok (), (x s).2)

def readU8 : SockM UInt8 := fun s =>
  match s.unread with
  | [] => (.error .unexpectedEof, s)
  | b :: rest => (.ok b, { s with unread := rest })

def readExact (n : Nat) : SockM Bytes := fun s =>
  if s.unread.length < n then (.error .unexpectedEof, { s with unread := [] })
  else (.ok (s.unread.take n), { s with unread := s.unread.drop n })

/-- In network order. -/
def readU16 : SockM UInt16 := do
  let bytes ← readExact 2
  match bytes with
  | [hi, lo] => pure (UInt16.ofNat (256 * hi.toNat + lo.toNat))
  | _ => fail .unexpectedEof

def writeAll (bytes : Bytes) : SockM Unit := fun s =>
  match s.taking with
  | some e :: taking => (.error e, { s with taking := taking })
  | none :: taking => (.ok (), { s with taking := taking, log := s.log ++ [.wrote bytes] })
  | [] => (.ok (), { s with log := s.log ++ [.wrote bytes] })

end SockM

/-! ## The handshake -/

open SockM

/-- Choose "no authentication required". -/
def methodSelection : Bytes := [0x05, 0x00]

def commandNotSupported : Bytes := [0x05, 0x07, 0x00, 0x01, 0, 0, 0, 0, 0, 0]

/-- Success, with a dummy bound address. -/
def succeededReply : Bytes := [0x05, 0x00, 0x00, 0x01, 0, 0, 0, 0, 0, 0]

/-- The host of a request, by its address type. -/
def readHost (atyp : UInt8) : SockM String := do
  if atyp = 0x01 then
    let b ← readExact 4
    match b with
    | [b0, b1, b2, b3] => pure (Ipv4Addr.toString ⟨b0, b1, b2, b3⟩)
    | _ => fail .unexpectedEof
  else if atyp = 0x03 then
    let len ← readU8
    let b ← readExact len.toNat
    pure (String.ofList (LossyUtf8.decode b))
  else if atyp = 0x04 then
    let b ← readExact 16
    if h : b.length = 16 then pure (Ipv6Addr.toString ⟨b, h⟩) else fail .unexpectedEof
  else fail (.invalidData "unknown SOCKS address type")

def readTarget (atyp : UInt8) : SockM (String × UInt16) := do
  let host ← readHost atyp
  let port ← readU16
  pure (host, port)

def socksHandshake : SockM (String × UInt16) := do
  let version ← readU8
  if version ≠ 0x05 then fail (.invalidData "not a SOCKS5 client")
  else
    let nmethods ← readU8
    let _methods ← readExact nmethods.toNat
    writeAll methodSelection
    let version ← readU8
    let command ← readU8
    let _reserved ← readU8
    let atyp ← readU8
    if version ≠ 0x05 ∨ command ≠ 0x01 then
      attempt (writeAll commandNotSupported)
      fail (.invalidData "unsupported SOCKS command")
    else
      let target ← readTarget atyp
      writeAll succeededReply
      pure target

/-- Ask for the channel; `channel` is what becomes of the request. -/
def openChannel (channel : String × UInt16 → Except String Unit) (target : String × UInt16) :
    SockM Unit := fun s =>
  match channel target with
  | .ok _ => (.ok (), { s with log := s.log ++ [.opened target] })
  | .error e => (.error (.other e), { s with log := s.log ++ [.refused target] })

/-- One accepted connection, up to the channel's opening. -/
def serve (channel : String × UInt16 → Except String Unit) (spec : ForwardSpec) : SockM Unit :=
  match spec.kind with
  | .local => openChannel channel spec.target
  | .dynamic => do
      let target ← socksHandshake
      openChannel channel target
  | .remote => pure ()

end PolyTerm

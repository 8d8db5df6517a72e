import AbstractHttp.EventStream.Parser
import AbstractHttp.Http.Types

/-!
# URLs as the raw and the libuv transport split them

Both cut at the first colon and the first slash behind the scheme; they differ in
what they do without a scheme.
-/
namespace AbstractHttp.Transport
open Http EventStream

def slash : UInt8 := 0x2F

def crlf : List UInt8 := [cr, lf]

/-- `strchr`: the offset of the first `c`. -/
def strchr (s : List UInt8) (c : UInt8) : Option ℕ := s.idxOf? c

def schemeHttp : List UInt8 := asciiBytes "http://".toList
def schemeHttps : List UInt8 := asciiBytes "https://".toList

/-- What the transports allocate before they have a connection. -/
inductive RequestBlock where
  | host
  | path
  | request
  deriving DecidableEq, Repr

/-- Which requests for memory are granted, by block and size. -/
abbrev RequestAlloc := RequestBlock → ℕ → Bool

/-- Memory that never runs out. -/
def grantRequest : RequestAlloc := fun _ _ => true

structure UrlParts where
  host : List UInt8
  port : ℤ
  path : List UInt8
  deriving DecidableEq, Repr

/-- The text behind the scheme, cut at the first colon and the first slash; a colon behind the
slash belongs to the path. -/
def splitUrl (p : List UInt8) (defaultPort : ℤ) : UrlParts :=
  let pathStart := strchr p slash
  let portStart := (strchr p colon).filter fun i => pathStart.all fun j => decide (i ≤ j)
  let hostLen := (portStart.or pathStart).getD p.length
  { host := p.take hostLen
    port := (portStart.map fun i => atoi (p.drop (i + 1))).getD defaultPort
    path := (pathStart.map p.drop).getD [slash] }

/-- The two blocks that hold host and path. -/
def copyParts (alloc : RequestAlloc) (parts : UrlParts) : Except ErrorCode UrlParts :=
  if alloc .host (parts.host.length + 1) = false then .error .nomem
  else if alloc .path (parts.path.length + 1) = false then .error .nomem
  else .ok parts

/-- The scheme, if any, with its port, and the text behind it. -/
def cutScheme (url : List UInt8) : Option (List UInt8 × ℤ) :=
  if schemeHttp <+: url then some (url.drop 7, 80)
  else if schemeHttps <+: url then some (url.drop 8, 443)
  else none

/-- `parse_url` of the raw transport, which refuses other schemes. -/
def rawParseUrl (alloc : RequestAlloc) : Option CString → Except ErrorCode UrlParts
  | none => .error .inval
  | some url =>
    match cutScheme url.bytes with
    | some (p, port) => copyParts alloc (splitUrl p port)
    | none => .error .inval

/-- `parse_url` of the libuv transport, for which a scheme is optional. -/
def libuvParseUrl (alloc : RequestAlloc) : Option CString → Except ErrorCode UrlParts
  | none => .error .inval
  | some url =>
    match cutScheme url.bytes with
    | some (p, port) => copyParts alloc (splitUrl p port)
    | none => copyParts alloc (splitUrl url.bytes 80)

end AbstractHttp.Transport

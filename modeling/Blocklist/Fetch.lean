import Blocklist.Error
import Blocklist.Gzip.Member
import Blocklist.Text.Utf8

/-!
Fetching a list. A failed request is repeated as long as attempts are left, after a delay that doubles with
every attempt; a body that arrives ends the fetch, even if it cannot be decoded. A body that begins like a
gzip file is unpacked first, and broken UTF-8 is repaired.
-/

namespace Blocklist

/-- A span of time: whole seconds of 64 bits and nanoseconds below a second. -/
structure Duration where
  seconds : Nat
  nanos : Nat
  seconds_range : seconds < 0x10000000000000000
  nanos_range : nanos < 1000000000
  deriving DecidableEq, Repr

namespace Duration

def ofNanos? (total : Nat) : Option Duration :=
  if h : total / 1000000000 < 0x10000000000000000 then
    some ⟨total / 1000000000, total % 1000000000, h, Nat.mod_lt _ (by decide)⟩
  else none

def totalNanos (d : Duration) : Nat := d.seconds * 1000000000 + d.nanos

/-- The span taken `factor` times: nanoseconds carry into seconds. -/
def times? (d : Duration) (factor : Nat) : Option Duration :=
  let nanos := d.nanos * factor
  let seconds := d.seconds * factor + nanos / 1000000000
  if h : seconds < 0x10000000000000000 then
    some ⟨seconds, nanos % 1000000000, h, Nat.mod_lt _ (by decide)⟩
  else none

end Duration

structure RetryPolicy where
  maxAttempts : Nat
  baseDelay : Duration
  deriving DecidableEq, Repr

namespace RetryPolicy

/-- Three attempts, a second apart at first. -/
def standard : RetryPolicy := ⟨3, ⟨1, 0, by decide, by decide⟩⟩

/-- The factor after an attempt: a power of two, cut off at the largest number of 32 bits. -/
def factor (attempt : Nat) : Nat := if attempt < 32 then Nat.pow 2 attempt else 0xFFFFFFFF

/-- The delay after an attempt; attempts count from zero. -/
def delayAfter (policy : RetryPolicy) (attempt : Nat) : Option Duration :=
  policy.baseDelay.times? (factor attempt)

/-- The number of attempts made at most: there is always one. -/
def attempts (policy : RetryPolicy) : Nat := max 1 policy.maxAttempts

end RetryPolicy

def isGzip : List UInt8 → Bool
  | a :: b :: _ => a == 0x1f && b == 0x8b
  | _ => false

/-- The text of a body; `none` if it looks packed and cannot be unpacked. Of a packed body only the first
member counts. -/
def decodeBody (bytes : List UInt8) : Option (List Char) :=
  if isGzip bytes then (Gzip.member? bytes).map fun m => Text.repair m.1
  else some (Text.repair bytes)

/-- The way to the network, as far as a fetch can tell: what a request answers, and how a pause passes.
Both may change the state `ω` of the world outside. -/
structure Client (ω : Type) where
  get : String → ω → Except FetchFailure (List UInt8) × ω
  pause : Duration → ω → ω

namespace Client

/-- Up to `left + 1` attempts, of which `made` were made before. -/
def attempt (client : Client ω) (policy : RetryPolicy) (url : String) :
    (left made : Nat) → ω → Except Error (List Char) × ω
  | 0, made, world =>
    match client.get url world with
    | (.ok body, world) => (received made body, world)
    | (.error failure, world) => (.error (.fetch url (made + 1) (.request failure)), world)
  | left + 1, made, world =>
    match client.get url world with
    | (.ok body, world) => (received made body, world)
    | (.error _, world) =>
      match policy.delayAfter made with
      | none => (.error .delayOverflow, world)
      | some delay => attempt client policy url left (made + 1) (client.pause delay world)
where
  received (made : Nat) (body : List UInt8) : Except Error (List Char) :=
    match decodeBody body with
    | some text => .ok text
    | none => .error (.fetch url (made + 1) .undecodable)

def fetch (client : Client ω) (policy : RetryPolicy) (url : String) (world : ω) :
    Except Error (List Char) × ω :=
  client.attempt policy url (policy.attempts - 1) 0 world

end Client

end Blocklist

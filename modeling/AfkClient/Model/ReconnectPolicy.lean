import AfkClient.Library.Text
import Mathlib.Algebra.Ring.Int.Defs
import Mathlib.Data.Int.Notation

/-! How long a client waits before it reconnects, by the reason of the disconnect. -/

namespace AfkClient

open Re Text

structure ReconnectPolicy where
  failures : ℕ := 0
  loginRejections : ℕ := 0
  deriving DecidableEq, Repr

namespace ReconnectPolicy

def loginRejected : Re :=
  oneOf [ilit "logging in too fast",
    seq (ilit "too many ") (oneOf (["login", "connection", "requests"].map ilit)),
    seqs [boundary, lit "429", boundary],
    seqs [ilit "login", many dot, ilit "rate", opt dotUnit, ilit "limit"],
    seqs [ilit "zu ", oneOf (["schnell", "viele"].map ilit), many dot, ilit "anmeld"],
    ilit "du bist bereits auf dem server",
    seq (ilit "already ") (oneOf (["connected", "logged in"].map ilit)),
    ilit "connection already exists"]

def suspiciousTraffic : Re :=
  oneOf (["suspicious packets", "too many packets in a bundle"].map ilit)

def serviceUnavailable : Re :=
  oneOf (["deadline_exceeded", "econnrefused", "unavailable", "fetch failed", "no world entry",
    "connection start queue stalled"].map ilit)

def reset (_ : ReconnectPolicy) : ReconnectPolicy := {}

/-- The waiting time for `reason` in milliseconds and the policy that remembers it. -/
def delay (p : ReconnectPolicy) (reason : String) (stableForMs : ℤ) : ℤ × ReconnectPolicy :=
  let p := if 120_000 ≤ stableForMs then p.reset else p
  let p := { p with failures := p.failures + 1 }
  let text := reason.toList
  if loginRejected.test text then
    let p := { p with loginRejections := p.loginRejections + 1 }
    (min 300_000 (60_000 * 2 ^ min 3 (p.loginRejections - 1)), p)
  else if suspiciousTraffic.test text then (60_000, p)
  else if serviceUnavailable.test text then (min 120_000 (15_000 * 2 ^ min 3 (p.failures - 2)), p)
  else (15_000, p)

end ReconnectPolicy

end AfkClient

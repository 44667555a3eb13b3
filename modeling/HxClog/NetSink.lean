import HxClog.Lib.Transition
import HxClog.Sinks

/-!
# The network sink

A line is sent over a connection that is opened when it is needed. After a failure the
sink waits before it tries again, and the lines in between are dropped. Every socket that
is made gets a number, so that connections can be told apart.
-/

namespace HxClog

open C

inductive NetProto where
  | tcp
  | udp
  deriving DecidableEq

/-- What `connect`, `select` and `getsockopt` say. -/
inductive ConnectOutcome where
  | connected
  | inProgress (writable : Bool) (soError : Bool)
  | failed

/-- An address of the host: whether there is a socket for it, and how connecting goes. -/
structure AddrOutcome where
  hasSocket : Bool
  connect : ConnectOutcome

/-- What the calls of `send` return, from the first of a line on: `none` stands for 0 and less. -/
structure Sends where
  took : (nth : Nat) → (requested : Nat) → Option Nat
  some_le : ∀ nth requested n, took nth requested = some n → 0 < n ∧ n ≤ requested

/-- The sockets: which of them are open, and what went over each. -/
structure Wires where
  made : Nat
  isOpen : Nat → Bool
  carried : Nat → Bytes

/-- A call of `net_write`: the line, the clock, and what the calls of the system give. -/
structure NetCall where
  line : Bytes
  -- `time(NULL)` in front of an attempt, when `net_open` comes back, and after a failed send
  now : Int
  opened : Int
  sent : Int
  addrs : Option (List AddrOutcome)
  sends : Sends
  datagram : Bool

/-- `net_impl`, with the sockets and the times of the reports to the error handler. -/
structure NetSink where
  proto : NetProto
  fd : Option Nat
  connected : Bool
  lastAttemptSec : Int
  wires : Wires
  reports : List Int

/-- An `unsigned int` that is converted to `int`. -/
def i32 (n : Nat) : Int := if n < 2 ^ 31 then n else n - 2 ^ 32

def netRetrySecs : Int := 2

namespace Wires

/-- `socket` -/
def make (w : Wires) : Wires := { w with made := w.made + 1, isOpen := Function.update w.isOpen w.made true }

/-- `hx_closesock` -/
def close (w : Wires) (fd : Nat) : Wires := { w with isOpen := Function.update w.isOpen fd false }

def carry (w : Wires) (fd : Nat) (b : Bytes) : Wires :=
  { w with carried := Function.update w.carried fd (w.carried fd ++ b) }

end Wires

/-- `net_connect_tcp` -/
def netConnectTcp : ConnectOutcome → Bool
  | .connected => true
  | .inProgress writable soError => writable && !soError
  | .failed => false

namespace NetSink

/-- `hx_sink_network_create` -/
def created (proto : NetProto) : NetSink := ⟨proto, none, false, 0, ⟨0, fun _ => false, fun _ => []⟩, []⟩

/-- The loop of `net_open` over the addresses. -/
def openLoop (proto : NetProto) : Wires → List AddrOutcome → Wires × Option Nat
  | w, [] => (w, none)
  | w, a :: addrs =>
    if ¬a.hasSocket then openLoop proto w addrs
    else if proto = .udp ∨ netConnectTcp a.connect then (w.make, some w.made)
    else openLoop proto (w.make.close w.made) addrs

/-- `net_open` -/
def netOpen (n : NetSink) (addrs : Option (List AddrOutcome)) : NetSink × Bool :=
  match addrs with
  | none => (n, false)
  | some addrs =>
    match openLoop n.proto n.wires addrs with
    | (w, some fd) => ({ n with wires := w, fd := some fd, connected := true }, true)
    | (w, none) => ({ n with wires := w }, false)

/-- `net_disconnect` -/
def netDisconnect (n : NetSink) : NetSink :=
  match n.fd with
  | some fd => { n with wires := n.wires.close fd, fd := none, connected := false }
  | none => { n with connected := false }

/-- `hx_core_report_error` -/
def report (n : NetSink) (time : Int) : NetSink := { n with reports := n.reports ++ [time] }

/-- The start of `net_write`: whether there is a connection now. -/
def netReady (n : NetSink) (k : NetCall) : NetSink × Bool :=
  if n.connected then (n, true)
  else if k.now - n.lastAttemptSec < netRetrySecs then (n, false)
  else
    match { n with lastAttemptSec := k.now }.netOpen k.addrs with
    | (n, true) => (n, true)
    | (n, false) => (n.report k.opened, false)

/-- The loop of `net_write`: what is left of the line is sent until nothing is left, or a send fails. Every send takes
a byte at least, so there are no more of them than the line has bytes. -/
def sendLoop (fd : Nat) (line : Bytes) (sends : Sends) : Nat → Nat → Nat → Wires → Option (Wires × Bool)
  | 0, _, off, w => if off < line.length then none else some (w, true)
  | fuel + 1, nth, off, w =>
    if off < line.length then
      match sends.took nth (toUlong (i32 (line.length - off))) with
      | none => some (w, false)
      | some s => sendLoop fd line sends fuel (nth + 1) (u32 (off + s)) (w.carry fd ((line.drop off).take s))
    else some (w, true)

/-- `net_write` -/
def netWrite (n : NetSink) (k : NetCall) : Option (NetSink × Rc) :=
  match n.netReady k with
  | (n, false) => some (n, .platform)
  | (n, true) =>
    match n.proto with
    | .udp =>
      if k.datagram then some (n, .ok)
      else some ({ n.netDisconnect with lastAttemptSec := k.sent }, .platform)
    | .tcp =>
      -- without a socket every send fails
      match n.fd with
      | none => some (if k.line = [] then (n, .ok) else ({ n.netDisconnect with lastAttemptSec := k.sent }.report k.sent, .platform))
      | some fd =>
        (sendLoop fd k.line k.sends k.line.length 0 0 n.wires).map fun (w, whole) =>
          if whole then ({ n with wires := w }, .ok)
          else ({ { n with wires := w }.netDisconnect with lastAttemptSec := k.sent }.report k.sent, .platform)

def step (n : NetSink) (k : NetCall) : Option NetSink := (n.netWrite k).map Prod.fst

end NetSink

end HxClog

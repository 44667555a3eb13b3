import HxClog.FileSink
import HxClog.Lib.Transition

/-!
# The crash handler and the actions of signals

On POSIX the crash handler takes the place of the actions of five signals and remembers
them. A signal that reaches it is reported; then the remembered action or the default one
is put back, and the signal is raised again. The application sets actions of its own.
-/

namespace HxClog

/-- `k_signals` -/
inductive CrashSignal where
  | segv
  | abrt
  | fpe
  | ill
  | bus
  deriving DecidableEq

def kSignals : List CrashSignal := [.segv, .abrt, .fpe, .ill, .bus]

/-- The actions of an application: the default one, which ends the process, none, or a handler. -/
inductive OwnAction where
  | dfl
  | ign
  | handler (id : Nat)
  deriving DecidableEq

/-- `struct sigaction`. `posix_handler` can be asked to run on the alternate stack. -/
inductive SignalAction where
  | own (a : OwnAction)
  | crash (onStack : Bool)
  deriving DecidableEq

/-- What is registered with `sigaltstack`. -/
inductive SignalStack where
  | own (id : Nat)
  | crash
  deriving DecidableEq

/-- What happens on a signal. -/
inductive SignalEffect where
  | report (sig : CrashSignal)
  | acts (sig : CrashSignal) (a : OwnAction)
  deriving DecidableEq

/-- A process: what the kernel has of its signals, what has happened, and the variables of the crash handler. -/
structure Signals where
  disposition : CrashSignal → SignalAction
  altstack : SignalStack
  pending : CrashSignal → Bool
  effects : List SignalEffect
  dead : Bool
  prevActions : CrashSignal → SignalAction
  prevAltstack : SignalStack
  altstackInstalled : Bool
  crashInstalled : Bool
  chainPreviousHandler : Bool
  reports : List (Status × String)

inductive SignalEvent where
  /-- `hx_clog_install_crash_handler`, with what its calls give. -/
  | install (chain mkdirOk altstackOk : Bool) (ok : CrashSignal → Bool)
  /-- `hx_clog_uninstall_crash_handler`, with the calls of `sigaction` that succeed. -/
  | uninstall (restored : CrashSignal → Bool)
  | arrives (sig : CrashSignal)
  /-- A pending signal is delivered. When that is to the crash handler, its call of `sigaction` or `signal` may succeed. -/
  | takes (sig : CrashSignal) (restored : Bool)
  /-- The application calls `sigaction`. -/
  | sets (sig : CrashSignal) (a : OwnAction)

namespace Signals

def report (s : Signals) (code : Status) (message : String) : Signals := { s with reports := s.reports ++ [(code, message)] }

/-- The loop over the signals: the old action of each is remembered, or the default one where `sigaction` fails. -/
def sigactions (s : Signals) (ok : CrashSignal → Bool) : Signals :=
  { s with
    disposition := fun sig => if ok sig then .crash s.altstackInstalled else s.disposition sig
    prevActions := fun sig => if ok sig then s.disposition sig else .own .dfl }

/-- `hx_clog_install_crash_handler` -/
def hxClogInstallCrashHandler (chain mkdirOk altstackOk : Bool) (ok : CrashSignal → Bool) (s : Signals) : Status × Signals :=
  if s.crashInstalled then (.ok, s)
  else
    let s := { s with chainPreviousHandler := chain }
    let s :=
      if mkdirOk then s
      else s.report .openFileFailed
        "crash handler: could not create the crash directory; reports may fail to write"
    let s :=
      if altstackOk then { s with prevAltstack := s.altstack, altstack := .crash, altstackInstalled := true }
      else s.report .platform
        "crash handler: sigaltstack failed; installing without an alternate signal stack"
    let s := s.sigactions ok
    let installed := kSignals.countP ok
    if installed = 0 then
      let s := s.report .platform "crash handler: no signal handlers could be installed"
      (.platform, if s.altstackInstalled then { s with altstack := s.prevAltstack, altstackInstalled := false } else s)
    else
      let s :=
        if installed < kSignals.length then s.report .platform "crash handler: some signal handlers could not be installed"
        else s
      (.ok, { s with crashInstalled := true })

/-- `hx_clog_uninstall_crash_handler` -/
def hxClogUninstallCrashHandler (restored : CrashSignal → Bool) (s : Signals) : Signals :=
  if ¬s.crashInstalled then s
  else
    let s := { s with disposition := fun sig => if restored sig then s.prevActions sig else s.disposition sig }
    let s := if s.altstackInstalled then { s with altstack := s.prevAltstack, altstackInstalled := false } else s
    { s with crashInstalled := false }

/-- `posix_handler`: the report, and what it does to the signal. -/
def posixHandler (sig : CrashSignal) (restored : Bool) (s : Signals) : Signals :=
  let back := if s.chainPreviousHandler then s.prevActions sig else .own .dfl
  { s with
    effects := s.effects ++ [.report sig]
    disposition := if restored then Function.update s.disposition sig back else s.disposition
    pending := Function.update s.pending sig true }

/-- A signal is delivered. -/
def deliver (sig : CrashSignal) (restored : Bool) (s : Signals) : Signals :=
  let s := { s with pending := Function.update s.pending sig false }
  match s.disposition sig with
  | .crash _ => s.posixHandler sig restored
  | .own a => { s with effects := s.effects ++ [.acts sig a], dead := a = .dfl }

def step (s : Signals) (e : SignalEvent) : Option Signals :=
  if s.dead then none
  else
    match e with
    | .install chain mkdirOk altstackOk ok => some (s.hxClogInstallCrashHandler chain mkdirOk altstackOk ok).2
    | .uninstall restored => some (s.hxClogUninstallCrashHandler restored)
    | .arrives sig => some { s with pending := Function.update s.pending sig true }
    | .takes sig restored => if s.pending sig then some (s.deliver sig restored) else none
    | .sets sig a => some { s with disposition := Function.update s.disposition sig (.own a) }

/-- A process before the first call, with the actions of the application. -/
def start (actions : CrashSignal → OwnAction) (stack : Nat) : Signals where
  disposition sig := .own (actions sig)
  altstack := .own stack
  pending _ := false
  effects := []
  dead := false
  prevActions _ := .own .dfl
  prevAltstack := .own 0
  altstackInstalled := false
  crashInstalled := false
  chainPreviousHandler := false
  reports := []

end Signals

end HxClog

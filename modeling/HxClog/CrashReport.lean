import HxClog.CrashRing
import HxClog.Lib.Form
import HxClog.Lib.Framed
import HxClog.Names
import HxClog.Signals

/-!
# The report of a crash

On POSIX the handler of a signal writes its report with calls that are safe there: fixed
texts, numbers whose digits it makes itself, and the lines of the ring. The report is a form,
so that whoever has the file can tell what happened.
-/

namespace HxClog

open C Scan Decimal Form

/-! ## Writing -/

/-- `s_write_hex` -/
def sWriteHex (v : UInt64) : Bytes :=
  lit "0x" ++ (List.range 16).map fun i => (lit "0123456789abcdef").getD ((v >>> UInt64.ofNat ((15 - i) * 4)) &&& 0xF).toNat 0

/-- `s_write_uint` -/
def sWriteUint (v : UInt64) : Bytes := if v = 0 then lit "0" else (digitsLE 24 v.toNat).reverse

/-- What `dladdr` fills in. -/
structure DlInfo where
  fname : Option CStr
  fbase : UInt64
  sname : Option CStr
  saddr : UInt64

structure StackFrame where
  address : UInt64
  info : Option DlInfo

inductive Register where
  | rip | rsp | rbp | rax | rbx | rcx | rdx | rsi | rdi
  deriving DecidableEq

def registers : List Register := [.rip, .rsp, .rbp, .rax, .rbx, .rcx, .rdx, .rsi, .rdi]

def Register.label : Register → Bytes
  | .rip => lit "RIP"
  | .rsp => lit "RSP"
  | .rbp => lit "RBP"
  | .rax => lit "RAX"
  | .rbx => lit "RBX"
  | .rcx => lit "RCX"
  | .rdx => lit "RDX"
  | .rsi => lit "RSI"
  | .rdi => lit "RDI"

/-- `g_cc`, as far as the handler reads it. -/
structure CrashConfig where
  dumpFaultLocation : Bool
  dumpStacktrace : Bool
  dumpRegisters : Bool
  symbolizeStacktrace : Bool
  stacktraceMaxDepth : Int

/-- What the handler finds: the local time, the ids, the address of the fault, the callers, the registers, and what a callback of
the application writes. -/
structure CrashScene where
  tm : Tm
  msec : UInt32
  pid : UInt64
  tid : UInt64
  siAddr : Option UInt64
  callers : List StackFrame
  ucontext : Option (Register → UInt64)
  userContext : Option Bytes

def signalName : CrashSignal → Bytes
  | .segv => lit "SIGSEGV"
  | .abrt => lit "SIGABRT"
  | .fpe => lit "SIGFPE"
  | .ill => lit "SIGILL"
  | .bus => lit "SIGBUS"

def headerTime (tm : Tm) (msec : UInt32) : Bytes :=
  dateText tm ++ chr ' ' :: (padInt 2 tm.hour ++ chr ':' :: (padInt 2 tm.min ++ chr ':' :: (padInt 2 tm.sec ++
    chr '.' :: padded 3 msec.toNat)))

def writeCommonHeader (sc : CrashScene) (excType : Bytes) : Bytes :=
  let tbuf := cut 48 (headerTime sc.tm sc.msec)
  lit "========== hx_clog crash report ==========\n" ++
    (lit "time: " ++ tbuf ++ lit "\n") ++
    (lit "pid: " ++ sWriteUint sc.pid ++ lit "\n") ++
    (lit "thread: " ++ sWriteUint sc.tid ++ lit "\n") ++
    (lit "\nexception:\n  type: " ++ excType ++ lit "\n")

def reportFooter : Bytes := lit "==========================================\n"

def writeFooterAndLogs (logs : List Bytes) (userContext : Option Bytes) : Bytes :=
  lit "\nlast_logs:\n" ++ logs.flatten ++ userContext.elim [] (lit "\nuser_context:\n" ++ ·) ++ reportFooter

/-- What stands behind the address of a frame. -/
def frameNotes (frame : StackFrame) : Bytes :=
  match frame.info with
  | none => []
  | some info =>
    match info.fname with
    | none => []
    | some fname =>
      lit " " ++ fname.bytes ++ (if info.fbase = 0 then [] else lit "+" ++ sWriteHex (frame.address - info.fbase)) ++
        info.sname.elim [] fun sname =>
          lit " " ++ sname.bytes ++ if info.saddr = 0 then [] else lit "+" ++ sWriteHex (frame.address - info.saddr)

def writeFramePosix (symbolize : Bool) (frame : StackFrame) (depth : Nat) : Bytes :=
  lit "  #" ++ (if depth < 10 then lit "0" else []) ++ sWriteUint (UInt64.ofNat depth) ++ lit " " ++
    sWriteHex frame.address ++ (if symbolize then frameNotes frame else []) ++ lit "\n"

def writeRegistersPosix (ucontext : Option (Register → UInt64)) : Bytes :=
  lit "\nregisters:\n" ++
    match ucontext with
    | none => lit "  unavailable\n"
    | some g => registers.flatMap fun r => lit "  " ++ r.label ++ lit ": " ++ sWriteHex (g r) ++ lit "\n"

/-- The frames that `hx_capture_backtrace` is asked for. -/
def capturedFrames (cc : CrashConfig) (sc : CrashScene) : List StackFrame :=
  let maxd := if 0 < cc.stacktraceMaxDepth then cc.stacktraceMaxDepth else 64
  sc.callers.take (if maxd < 256 then maxd else 256).toNat

/-- The report of `posix_handler`, with the number of the signal. -/
def posixReport (number : CrashSignal → UInt64) (cc : CrashConfig) (ring : CrashRing) (sc : CrashScene) (sig : CrashSignal) :
    Option Bytes :=
  ring.hxRingDumpFd.map fun logs =>
    writeCommonHeader sc (signalName sig) ++
      (lit "  signal: " ++ sWriteUint (number sig) ++ lit "\n") ++
      (if cc.dumpFaultLocation then sc.siAddr.elim [] fun a => lit "  fault_address: " ++ sWriteHex a ++ lit "\n" else []) ++
      (if cc.dumpStacktrace then
        lit "\nstacktrace:\n" ++ ((capturedFrames cc sc).zipIdx.flatMap fun f => writeFramePosix cc.symbolizeStacktrace f.1 f.2)
      else []) ++
      (if cc.dumpRegisters then writeRegistersPosix sc.ucontext else []) ++
      writeFooterAndLogs logs sc.userContext

/-! ## The form of a report -/

structure FrameEntry where
  depth : Nat
  address : Nat
  notes : Bytes

structure CrashReport where
  date : Int × Int × Int
  time : Int × Int × Int × Nat
  pid : Nat
  thread : Nat
  type : Bytes
  signal : Nat
  faultAddress : Option Nat
  stacktrace : Option (List FrameEntry)
  registers : Option (Option (List (Bytes × Nat)))
  /-- The logs, and what follows them. -/
  lastLogs : Bytes

namespace CrashReport

def hexForm : Form UInt8 Nat := tagged (lit "0x") (hex 16)

def dateForm : Form UInt8 (Int × Int × Int) :=
  (integer 4).seq (tagged (lit "-") ((integer 2).seq (tagged (lit "-") (integer 2))))

def timeForm : Form UInt8 (Int × Int × Int × Nat) :=
  (integer 2).seq (tagged (lit ":") ((integer 2).seq (tagged (lit ":") ((integer 2).seq (tagged (lit ".") (natural 3))))))

def faultForm : Form UInt8 Nat := tagged (lit "  fault_address: ") (hexForm.closed (lit "\n"))

def frameForm : Form UInt8 FrameEntry :=
  (tagged (lit "  #") ((natural 2).seq (tagged (lit " ") (hexForm.seq (upTo (chr '\n')))))).via
    (fun (depth, address, notes) => ⟨depth, address, notes⟩) (fun e => (e.depth, e.address, e.notes)) fun _ => rfl

theorem frameForm_next (s : Bytes) : frameForm.Next s := trivial

def stackForm : Form UInt8 (List FrameEntry) := tagged (lit "\nstacktrace:\n") (frameForm.many frameForm_next)

def registerForm : Form UInt8 (Bytes × Nat) :=
  tagged (lit "  ") ((upTo (chr ':')).seq (tagged (lit " ") (hexForm.closed (lit "\n"))))

theorem registerForm_next (s : Bytes) : registerForm.Next s := trivial

def registersForm : Form UInt8 (Option (List (Bytes × Nat))) :=
  tagged (lit "\nregisters:\n") (orText (lit "  unavailable\n") (registerForm.many registerForm_next))

/-- From the registers on. -/
def registersPart : Form UInt8 (Option (Option (List (Bytes × Nat))) × Bytes) :=
  (opt registersForm).seq (tagged (lit "\nlast_logs:\n") all)

/-- From the frames on. -/
def stackPart : Form UInt8 (Option (List FrameEntry) × Option (Option (List (Bytes × Nat))) × Bytes) :=
  (opt stackForm).seq registersPart

/-- From the signal on. -/
def signalPart : Form UInt8 (Nat × Option Nat × Option (List FrameEntry) × Option (Option (List (Bytes × Nat))) × Bytes) :=
  ((natural 0).closed (lit "\n")).seq ((opt faultForm).seq stackPart)

def form : Form UInt8 CrashReport :=
  (tagged (lit "========== hx_clog crash report ==========\ntime: ") (dateForm.seq (tagged (lit " ") (timeForm.seq
    (tagged (lit "\npid: ") ((natural 0).seq (tagged (lit "\nthread: ") ((natural 0).seq
      (tagged (lit "\n\nexception:\n  type: ") ((upTo (chr '\n')).seq (tagged (lit "  signal: ") signalPart))))))))))).via
    (fun (date, time, pid, thread, type, signal, faultAddress, stacktrace, registers, lastLogs) =>
      ⟨date, time, pid, thread, type, signal, faultAddress, stacktrace, registers, lastLogs⟩)
    (fun r => (r.date, r.time, r.pid, r.thread, r.type, r.signal, r.faultAddress, r.stacktrace, r.registers, r.lastLogs))
    fun _ => rfl


/-! ## Numbers -/

theorem padded_zero (v : Nat) : padded 0 v = Decimal.text v := by
  unfold padded padTo
  rw [Nat.zero_sub]
  rfl

theorem sWriteUint_eq (v : UInt64) : sWriteUint v = (natural 0).print v.toNat := by
  show _ = padded 0 v.toNat
  rw [padded_zero]
  unfold sWriteUint
  by_cases h : v = 0
  · rw [if_pos h, h]
    rfl
  · have hne : v.toNat ≠ 0 := fun h0 => h (UInt64.toNat_inj.mp h0)
    have hlt : v.toNat < 10 ^ 24 := Nat.lt_trans v.toNat_lt (by norm_num)
    rw [if_neg h, text_eq hlt hne]

theorem hexDigit_eq : ∀ d < 16, (lit "0123456789abcdef").getD d 0 = Form.hexDigit d := by decide

theorem sWriteHex_eq (v : UInt64) : sWriteHex v = hexForm.print v.toNat := by
  show _ = lit "0x" ++ hexText 16 v.toNat
  rw [hexText_eq]
  unfold sWriteHex
  congr 1
  refine List.map_congr_left fun i hi => ?_
  have hlt := List.mem_range.mp hi
  have hsize : UInt64.size = 2 ^ 64 := rfl
  have hshift : (UInt64.ofNat ((15 - i) * 4)).toNat % 64 = 4 * (15 - i) := by
    rw [UInt64.toNat_ofNat_of_lt' (by omega)]
    omega
  have hvalue : ((v >>> UInt64.ofNat ((15 - i) * 4)) &&& 0xF).toNat = v.toNat / 16 ^ (16 - 1 - i) % 16 := by
    rw [UInt64.toNat_and, UInt64.toNat_shiftRight, hshift, Nat.shiftRight_eq_div_pow, Nat.pow_mul]
    exact Nat.and_two_pow_sub_one_eq_mod _ 4
  rw [hvalue]
  exact hexDigit_eq _ (Nat.mod_lt _ (by decide))

/-- The number of a frame. -/
theorem depth_eq {depth : Nat} (h : depth < 256) :
    (if depth < 10 then lit "0" else []) ++ sWriteUint (UInt64.ofNat depth) = (natural 2).print depth := by
  have hsize : UInt64.size = 2 ^ 64 := rfl
  have htoNat : (UInt64.ofNat depth).toNat = depth := UInt64.toNat_ofNat_of_lt' (by omega)
  rw [sWriteUint_eq, htoNat]
  show _ ++ padded 0 depth = padded 2 depth
  rw [padded_zero]
  unfold padded padTo
  by_cases h10 : depth < 10
  · have htext : Decimal.text depth = [digit depth] := by
      unfold Decimal.text
      split
      · rename_i h0
        rw [h0]
      · rename_i h0
        rw [Nat.digits_of_lt 10 depth h0 h10]
        rfl
    rw [if_pos h10, htext]
    rfl
  · have hlen : 2 ≤ (Decimal.text depth).length := by
      unfold Decimal.text
      rw [if_neg (by omega), List.length_reverse, List.length_map]
      exact (Nat.lt_digits_length_iff (by decide) depth).mpr (by omega)
    rw [if_neg h10, Nat.sub_eq_zero_of_le hlen]
    rfl

end CrashReport

end HxClog

import HxClog.Lib.C
import HxClog.Lib.Decimal
import HxClog.Engine

/-!
# The formatters

The bounded appender, the pattern engine and the JSON formatter. Both
formatters follow the contract of `snprintf`: they write at most `outSize` bytes,
terminator included, and return the length the full text has.
-/

namespace HxClog

open C Decimal

/-- `struct tm` as `hx_localtime` fills it; `tm_year + 1900` is an `int`. -/
structure Tm where
  year : Int
  mon : Int
  mday : Int
  hour : Int
  min : Int
  sec : Int
  yday : Int
  year_range : -2 ^ 31 ≤ year ∧ year + 1900 < 2 ^ 31
  mon_range : 0 ≤ mon ∧ mon ≤ 11
  mday_range : 1 ≤ mday ∧ mday ≤ 31
  hour_range : 0 ≤ hour ∧ hour ≤ 23
  min_range : 0 ≤ min ∧ min ≤ 59
  sec_range : 0 ≤ sec ∧ sec ≤ 60
  yday_range : 0 ≤ yday ∧ yday ≤ 365
  deriving DecidableEq, Repr

/-- `hx_clog_record_t`. -/
structure Record where
  level : Level
  loggerName : Option CStr
  file : Option CStr
  line : Int
  func : Option CStr
  pid : UInt64
  tid : UInt64
  timestampSec : Int
  timestampMsec : UInt32
  message : Option Bytes
  messageLen : UInt32
  context : Option CStr
  readable : ∀ m ∈ message, messageLen.toNat ≤ m.length

/-- The bytes of a string that may be missing. -/
def orEmpty (s : Option CStr) : Bytes := (s.map CStr.bytes).getD []

/-- The bytes a length and a pointer that may be null describe. -/
def Record.body (rec : Record) : Bytes := (rec.message.map fun m => m.take rec.messageLen.toNat).getD []

def hxLevelShortName (level : Level) : Bytes :=
  if level < 0 ∨ levelOff < level then lit "?????"
  else match level with
    | 0 => lit "TRACE"
    | 1 => lit "DEBUG"
    | 2 => lit "INFO "
    | 3 => lit "WARN "
    | 4 => lit "ERROR"
    | 5 => lit "FATAL"
    | _ => lit "OFF  "

def basenameOf (path : Option CStr) : Bytes :=
  (orEmpty path).foldl (fun base c => if c = chr '/' ∨ c = chr '\\' then [] else base ++ [c]) []

/-! ## The appender -/

/-- `appender_t`. `buf` is the memory behind `out`, which may be larger than `cap`. -/
structure Appender where
  buf : Bytes
  cap : Nat
  pos : Nat
  needed : Nat

def apBump (a : Appender) : Appender := if a.needed ≠ uintMax then { a with needed := a.needed + 1 } else a

def apChar (a : Appender) (c : UInt8) : Appender :=
  let a := apBump a
  if u32 (a.pos + 1) < a.cap then { a with buf := a.buf.set a.pos c, pos := a.pos + 1 } else a

/-- `ap_str`, and `ap_strn` for the bytes it is given. -/
def apStr (a : Appender) : Bytes → Appender
  | [] => a
  | c :: s => apStr (apChar a c) s

def apUint (a : Appender) (v : Nat) : Appender :=
  if v = 0 then apChar a (chr '0') else apStr a (digitsLE 24 v).reverse

def apUll (a : Appender) (v : Nat) : Appender :=
  if v = 0 then apChar a (chr '0') else apStr a (digitsLE 32 v).reverse

def apUintPad (a : Appender) (v width : Nat) : Appender :=
  let tmp := if v = 0 then [chr '0'] else digitsLE 16 v
  apStr (apStr a (List.replicate (width - tmp.length) (chr '0'))) tmp.reverse

/-- The terminator at the end of both formatters. -/
def apFinish (a : Appender) : Nat × Bytes := (a.needed, a.buf.set a.pos 0)

/-! ## The pattern engine -/

def defaultPattern : Bytes := lit "%Y-%m-%d %H:%M:%S.%e [%l] [tid:%t] %s:%# %!() - %v%n"

/-- The switch on the character behind a percent sign. -/
def formatField (rec : Record) (tm : Tm) (a : Appender) (z : UInt8) : Appender :=
  match Char.ofNat z.toNat with
  | 'Y' => apUintPad a (toUlong (tm.year + 1900)) 4
  | 'm' => apUintPad a (toUlong (tm.mon + 1)) 2
  | 'd' => apUintPad a (toUlong tm.mday) 2
  | 'H' => apUintPad a (toUlong tm.hour) 2
  | 'M' => apUintPad a (toUlong tm.min) 2
  | 'S' => apUintPad a (toUlong tm.sec) 2
  | 'e' => apUintPad a rec.timestampMsec.toNat 3
  | 'l' => apStr a (hxLevelShortName rec.level)
  | 'c' => apStr a (orEmpty rec.loggerName)
  | 't' => apUint a rec.tid.toNat
  | 'p' => apUint a rec.pid.toNat
  | 's' => apStr a (basenameOf rec.file)
  | 'F' => apStr a (orEmpty rec.file)
  | '#' => apUint a (toUlong rec.line)
  | '!' => apStr a (orEmpty rec.func)
  | 'v' => apStr a rec.body
  | 'x' => apStr a (orEmpty rec.context)
  | 'n' => apChar a (chr '\n')
  | '%' => apChar a (chr '%')
  -- an unknown specifier is copied as it stands
  | _ => apChar (apChar a (chr '%')) z

def formatLoop (rec : Record) (tm : Tm) (a : Appender) : Bytes → Appender
  | [] => a
  | c :: p =>
    if c ≠ chr '%' then formatLoop rec tm (apChar a c) p
    else match p with
      -- trailing percent at the end of the pattern
      | [] => apChar a (chr '%')
      | z :: p => formatLoop rec tm (formatField rec tm a z) p

/-- `hx_format_record`; `out` is the memory behind the pointer. -/
def hxFormatRecord (localtime : Int → Tm) (pattern : Option CStr) (rec : Record) (out : Bytes) (outSize : Nat) :
    Nat × Bytes :=
  if outSize = 0 then (0, out)
  else apFinish (formatLoop rec (localtime rec.timestampSec) ⟨out, outSize, 0, 0⟩
    ((pattern.map CStr.bytes).getD defaultPattern))

/-! ## The JSON formatter -/

def hxClogLevelName (level : Level) : Bytes :=
  match level with
  | 0 => lit "TRACE"
  | 1 => lit "DEBUG"
  | 2 => lit "INFO"
  | 3 => lit "WARN"
  | 4 => lit "ERROR"
  | 5 => lit "FATAL"
  | 6 => lit "OFF"
  | _ => lit "UNKNOWN"

def hexDigit (n : Nat) : UInt8 := (lit "0123456789abcdef").getD n 0

/-- One turn of the loop of `ap_json_escaped`. -/
def apJsonChar (a : Appender) (c : UInt8) : Appender :=
  match Char.ofNat c.toNat with
  | '\x22' => apStr a (lit "\\\"")
  | '\\' => apStr a (lit "\\\\")
  | '\x08' => apStr a (lit "\\b")
  | '\x0c' => apStr a (lit "\\f")
  | '\n' => apStr a (lit "\\n")
  | '\r' => apStr a (lit "\\r")
  | '\t' => apStr a (lit "\\t")
  | _ =>
    if c < 32 then apChar (apChar (apStr a (lit "\\u00")) (hexDigit (c >>> 4 &&& 15).toNat)) (hexDigit (c &&& 15).toNat)
    else apChar a c

def apJsonEscaped (a : Appender) : Bytes → Appender
  | [] => a
  | c :: s => apJsonEscaped (apJsonChar a c) s

/-- `ap_json_cstr`; the length is an `unsigned int`. -/
def apJsonCstr (a : Appender) (s : Bytes) : Appender := apJsonEscaped a (s.take (u32 s.length))

/-- `unsigned long long` arithmetic. -/
def epochMs (rec : Record) : Nat := (toUlong rec.timestampSec * 1000 + rec.timestampMsec.toNat) % 2 ^ 64

/-- `hx_format_json_record`. -/
def hxFormatJsonRecord (localtime : Int → Tm) (rec : Record) (out : Bytes) (outSize : Nat) : Nat × Bytes :=
  if outSize = 0 then (0, out)
  else
    let tm := localtime rec.timestampSec
    let a : Appender := ⟨out, outSize, 0, 0⟩
    let a := apChar a (chr '\x7b')
    let a := apStr a (lit "\"ts\":\"")
    let a := apUintPad a (toUlong (tm.year + 1900)) 4
    let a := apChar a (chr '-')
    let a := apUintPad a (toUlong (tm.mon + 1)) 2
    let a := apChar a (chr '-')
    let a := apUintPad a (toUlong tm.mday) 2
    let a := apChar a (chr 'T')
    let a := apUintPad a (toUlong tm.hour) 2
    let a := apChar a (chr ':')
    let a := apUintPad a (toUlong tm.min) 2
    let a := apChar a (chr ':')
    let a := apUintPad a (toUlong tm.sec) 2
    let a := apChar a (chr '.')
    let a := apUintPad a rec.timestampMsec.toNat 3
    let a := apStr a (lit "\",\"epoch_ms\":")
    let a := apUll a (epochMs rec)
    let a := apStr a (lit ",\"level\":\"")
    let a := apJsonCstr a (hxClogLevelName rec.level)
    let a := apStr a (lit "\",\"logger\":\"")
    let a := apJsonCstr a (orEmpty rec.loggerName)
    let a := apStr a (lit "\",\"pid\":")
    let a := apUint a rec.pid.toNat
    let a := apStr a (lit ",\"tid\":")
    let a := apUint a rec.tid.toNat
    let a := apStr a (lit ",\"file\":\"")
    let a := apJsonCstr a (orEmpty rec.file)
    let a := apStr a (lit "\",\"line\":")
    let a := apUint a (toUlong rec.line)
    let a := apStr a (lit ",\"func\":\"")
    let a := apJsonCstr a (orEmpty rec.func)
    let a := apStr a (lit "\",\"message\":\"")
    let a := apJsonEscaped a rec.body
    let a := apStr a (lit "\",\"context\":\"")
    let a := apJsonCstr a (orEmpty rec.context)
    let a := apStr a (lit "\"\x7d\n")
    apFinish a

end HxClog

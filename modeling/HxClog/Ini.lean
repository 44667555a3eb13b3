import HxClog.FileSink
import HxClog.Sinks
import HxClog.Lib.Lines

/-!
# The INI file

`hx_clog_init_from_file` reads the file piece by piece and applies each `key = value`
to the configuration it then hands to `hx_clog_init`. `Setting` names what the keys
are about, and `meaning` says what the lines of a file mean.
-/

namespace HxClog

open C Scan

/-! ## Names without case -/

def lowerCase (c : UInt8) : UInt8 := if chr 'A' ≤ c ∧ c ≤ chr 'Z' then c - chr 'A' + chr 'a' else c

def ieq : Bytes → Bytes → Bool
  | a :: s, b :: t => lowerCase a = lowerCase b && ieq s t
  | [], [] => true
  | _, _ => false

def hxClogLevelFromName (name : Bytes) : Level :=
  if ieq name (lit "trace") then 0
  else if ieq name (lit "debug") then 1
  else if ieq name (lit "info") then 2
  else if ieq name (lit "warn") || ieq name (lit "warning") then 3
  else if ieq name (lit "error") then 4
  else if ieq name (lit "fatal") then 5
  else if ieq name (lit "off") then 6
  else 2

/-! ## Values -/

def isBlank (c : UInt8) : Bool := c = chr ' ' || c = chr '\t' || c = chr '\r' || c = chr '\n'

def iniTrim (s : Bytes) : Bytes := (s.dropWhile isBlank).rdropWhile isBlank

def iniBool (v : Bytes) : Bool := ieq v (lit "1") || ieq v (lit "true") || ieq v (lit "yes") || ieq v (lit "on")

/-- The digits in front, as an `unsigned long long`, and the text behind them. -/
def iniDigits (n : UInt64) : Bytes → UInt64 × Bytes
  | [] => (n, [])
  | c :: v => if isDigit c then iniDigits (n * 10 + (c - chr '0').toUInt64) v else (n, c :: v)

def iniSize (v : Bytes) : UInt64 :=
  let (n, rest) := iniDigits 0 v
  match rest with
  | [] => n
  | c :: _ =>
    if c = chr 'k' || c = chr 'K' then n * 1024
    else if c = chr 'm' || c = chr 'M' then n * (1024 * 1024)
    else if c = chr 'g' || c = chr 'G' then n * (1024 * 1024 * 1024)
    else n

/-- `(unsigned int)atoi(v)` -/
def iniUint (v : Bytes) : UInt32 := UInt32.ofInt (atoi v)

/-- `strncpy` into a buffer of this size. -/
def iniString (cap : Nat) (v : Bytes) : Option CStr := some (CStr.cut cap (.ofBytes v))

def iniRotatePolicy (v : Bytes) : RotatePolicy :=
  if ieq v (lit "size") then .bySize
  else if ieq v (lit "time") then .byTime
  else if ieq v (lit "size_and_time") || ieq v (lit "both") then .bySizeAndTime
  else .none

def iniOverflowPolicy (v : Bytes) : OverflowPolicy :=
  if ieq v (lit "drop_new") then .dropNew
  else if ieq v (lit "drop_old") then .dropOld
  else .block

/-! ## The configuration -/

/-- `hx_clog_config_t`. -/
structure ClogConfig extends Config where
  logDir : Option CStr
  enableColor : Bool
  enableCrashHandler : Bool
  rotatePolicy : RotatePolicy
  maxFileSize : UInt64
  maxBackupFiles : Int
  maxBackupDays : Int
  rotateDaily : Bool
  rotateIntervalSeconds : UInt32
  rotateOnStartup : Bool
  asyncQueueSize : UInt32
  asyncBatchSize : UInt32
  flushIntervalMs : UInt32
  overflowPolicy : OverflowPolicy
  systemLoggerName : Option CStr
  rotateAlign : Bool
  maxCompressedFiles : Int
  dateSubdir : Bool

def defaultLogDir : CStr := ⟨lit "./logs", by decide⟩

/-- `hx_clog_config_default` -/
def clogConfigDefault : ClogConfig where
  toConfig := hxClogConfigDefault
  logDir := some defaultLogDir
  enableColor := true
  enableCrashHandler := false
  rotatePolicy := .bySizeAndTime
  maxFileSize := 10 * 1024 * 1024
  maxBackupFiles := -1
  maxBackupDays := 0
  rotateDaily := true
  rotateIntervalSeconds := 0
  rotateOnStartup := false
  asyncQueueSize := 8192
  asyncBatchSize := 64
  flushIntervalMs := 1000
  overflowPolicy := .block
  systemLoggerName := some defaultLoggerName
  rotateAlign := false
  maxCompressedFiles := -1
  dateSubdir := false

def iniApplyKv (cfg : ClogConfig) (k v : Bytes) : ClogConfig :=
  if ieq k (lit "level") then { cfg with level := hxClogLevelFromName v }
  else if ieq k (lit "dir") || ieq k (lit "log_dir") then { cfg with logDir := iniString pathMax v }
  else if ieq k (lit "file") || ieq k (lit "file_name") then { cfg with fileName := iniString 256 v }
  else if ieq k (lit "logger") || ieq k (lit "logger_name") then { cfg with loggerName := iniString 128 v }
  else if ieq k (lit "pattern") then { cfg with pattern := iniString 512 v }
  else if ieq k (lit "mode") then { cfg with mode := if ieq v (lit "async") then .async else .sync }
  else if ieq k (lit "console") || ieq k (lit "enable_console") then { cfg with enableConsole := iniBool v }
  else if ieq k (lit "file_output") || ieq k (lit "enable_file") then { cfg with enableFile := iniBool v }
  else if ieq k (lit "color") || ieq k (lit "enable_color") then { cfg with enableColor := iniBool v }
  else if ieq k (lit "format") || ieq k (lit "format_mode") then
    { cfg with formatMode := some (if ieq v (lit "json") then .json else .pattern) }
  else if ieq k (lit "max_file_size") then { cfg with maxFileSize := iniSize v }
  else if ieq k (lit "max_backup_files") then { cfg with maxBackupFiles := atoi v }
  else if ieq k (lit "max_backup_days") then { cfg with maxBackupDays := atoi v }
  else if ieq k (lit "max_compressed_files") then { cfg with maxCompressedFiles := atoi v }
  else if ieq k (lit "rotate_daily") then { cfg with rotateDaily := iniBool v }
  else if ieq k (lit "rotate_interval_seconds") then { cfg with rotateIntervalSeconds := iniUint v }
  else if ieq k (lit "rotate_on_startup") then { cfg with rotateOnStartup := iniBool v }
  else if ieq k (lit "rotate_align") then { cfg with rotateAlign := iniBool v }
  else if ieq k (lit "date_subdir") then { cfg with dateSubdir := iniBool v }
  else if ieq k (lit "async_queue_size") then { cfg with asyncQueueSize := iniUint v }
  else if ieq k (lit "async_batch_size") then { cfg with asyncBatchSize := iniUint v }
  else if ieq k (lit "flush_interval_ms") then { cfg with flushIntervalMs := iniUint v }
  else if ieq k (lit "crash") || ieq k (lit "enable_crash_handler") then { cfg with enableCrashHandler := iniBool v }
  else if ieq k (lit "rotate_policy") then { cfg with rotatePolicy := iniRotatePolicy v }
  else if ieq k (lit "overflow") || ieq k (lit "overflow_policy") then
    { cfg with overflowPolicy := iniOverflowPolicy v }
  else cfg

/-! ## Reading the file -/

structure IniState where
  cfg : ClogConfig
  inSection : Bool

/-- The name of a section: what stands between the brackets. -/
def sectionAccepted (name : Bytes) : Bool := ieq name (lit "hx_clog") || ieq name (lit "hxclog") || name = []

/-- The body of the loop, on what `fgets` has put into `line`. -/
def iniLine (st : IniState) (line : Bytes) : IniState :=
  let s := iniTrim line
  if s = [] ∨ s.head? = some (chr '#') ∨ s.head? = some (chr ';') then st
  else if s.head? = some (chr '[') then { st with inSection := sectionAccepted (s.tail.takeWhile (· ≠ chr ']')) }
  else if ¬st.inSection then st
  else if chr '=' ∉ s then st
  else
    let key := iniTrim (s.takeWhile (· ≠ chr '='))
    let value := iniTrim (s.dropWhile (· ≠ chr '=')).tail
    { st with cfg := iniApplyKv st.cfg key value }

def newline : UInt8 := chr '\n'

def iniLineMax : Nat := 1200

/-- The strings of the defaults are copied into the buffers. -/
def iniSeed : ClogConfig :=
  let cfg := clogConfigDefault
  { cfg with
    logDir := iniString pathMax ((cfg.logDir.getD defaultLogDir).bytes)
    fileName := iniString 256 ((cfg.fileName.getD defaultFileName).bytes)
    loggerName := iniString 128 ((cfg.loggerName.getD defaultLoggerName).bytes)
    pattern := cfg.pattern.bind fun p => iniString 512 p.bytes }

/-- The loop over a file without NUL characters. -/
def iniRead (content : CStr) : ClogConfig :=
  ((Lines.pieces newline (iniLineMax - 1) content.bytes.length content.bytes).foldl iniLine ⟨iniSeed, true⟩).cfg

/-- What `hx_clog_init` is called with. `files` are the files that can be opened. -/
def hxClogInitFromFile (files : CStr → Option CStr) (path : Option CStr) : Except Rc ClogConfig :=
  match path with
  | none => .error .invalidArgument
  | some path =>
    if path.bytes = [] then .error .invalidArgument else
    match files path with
    | none => .error .openFileFailed
    | some content => .ok (iniRead content)

/-! ## What the lines mean -/

inductive Setting where
  | level | logDir | fileName | loggerName | pattern | mode | enableConsole | enableFile | enableColor | formatMode
  | maxFileSize | maxBackupFiles | maxBackupDays | maxCompressedFiles | rotateDaily | rotateIntervalSeconds
  | rotateOnStartup | rotateAlign | dateSubdir | asyncQueueSize | asyncBatchSize | flushIntervalMs
  | enableCrashHandler | rotatePolicy | overflowPolicy
  deriving DecidableEq

namespace Setting

def all : List Setting :=
  [level, logDir, fileName, loggerName, pattern, mode, enableConsole, enableFile, enableColor, formatMode,
    maxFileSize, maxBackupFiles, maxBackupDays, maxCompressedFiles, rotateDaily, rotateIntervalSeconds,
    rotateOnStartup, rotateAlign, dateSubdir, asyncQueueSize, asyncBatchSize, flushIntervalMs,
    enableCrashHandler, rotatePolicy, overflowPolicy]

/-- The keys that name the setting. -/
def keys : Setting → List String
  | level => ["level"]
  | logDir => ["dir", "log_dir"]
  | fileName => ["file", "file_name"]
  | loggerName => ["logger", "logger_name"]
  | pattern => ["pattern"]
  | mode => ["mode"]
  | enableConsole => ["console", "enable_console"]
  | enableFile => ["file_output", "enable_file"]
  | enableColor => ["color", "enable_color"]
  | formatMode => ["format", "format_mode"]
  | maxFileSize => ["max_file_size"]
  | maxBackupFiles => ["max_backup_files"]
  | maxBackupDays => ["max_backup_days"]
  | maxCompressedFiles => ["max_compressed_files"]
  | rotateDaily => ["rotate_daily"]
  | rotateIntervalSeconds => ["rotate_interval_seconds"]
  | rotateOnStartup => ["rotate_on_startup"]
  | rotateAlign => ["rotate_align"]
  | dateSubdir => ["date_subdir"]
  | asyncQueueSize => ["async_queue_size"]
  | asyncBatchSize => ["async_batch_size"]
  | flushIntervalMs => ["flush_interval_ms"]
  | enableCrashHandler => ["crash", "enable_crash_handler"]
  | rotatePolicy => ["rotate_policy"]
  | overflowPolicy => ["overflow", "overflow_policy"]

abbrev Value : Setting → Type
  | level => Level
  | mode => Mode
  | formatMode => Option FormatMode
  | rotatePolicy => RotatePolicy
  | overflowPolicy => OverflowPolicy
  | logDir | fileName | loggerName | pattern => Option CStr
  | maxFileSize => UInt64
  | maxBackupFiles | maxBackupDays | maxCompressedFiles => Int
  | rotateIntervalSeconds | asyncQueueSize | asyncBatchSize | flushIntervalMs => UInt32
  | enableConsole | enableFile | enableColor | rotateDaily | rotateOnStartup | rotateAlign | dateSubdir
  | enableCrashHandler => Bool

/-- The value a text stands for; a string is cut to its buffer. -/
def read (v : Bytes) : (f : Setting) → f.Value
  | level => hxClogLevelFromName v
  | mode => if ieq v (lit "async") then .async else .sync
  | formatMode => some (if ieq v (lit "json") then .json else .pattern)
  | rotatePolicy => iniRotatePolicy v
  | overflowPolicy => iniOverflowPolicy v
  | logDir => iniString pathMax v
  | fileName => iniString 256 v
  | loggerName => iniString 128 v
  | pattern => iniString 512 v
  | maxFileSize => iniSize v
  | maxBackupFiles | maxBackupDays | maxCompressedFiles => atoi v
  | rotateIntervalSeconds | asyncQueueSize | asyncBatchSize | flushIntervalMs => iniUint v
  | enableConsole | enableFile | enableColor | rotateDaily | rotateOnStartup | rotateAlign | dateSubdir
  | enableCrashHandler => iniBool v

/-- The setting a key names. -/
def named (k : Bytes) : Option Setting := all.find? fun f => f.keys.any fun key => ieq k (lit key)

end Setting

abbrev Settings := (f : Setting) → f.Value

def ClogConfig.settings (cfg : ClogConfig) : Settings
  | .level => cfg.level
  | .mode => cfg.mode
  | .formatMode => cfg.formatMode
  | .rotatePolicy => cfg.rotatePolicy
  | .overflowPolicy => cfg.overflowPolicy
  | .logDir => cfg.logDir
  | .fileName => cfg.fileName
  | .loggerName => cfg.loggerName
  | .pattern => cfg.pattern
  | .maxFileSize => cfg.maxFileSize
  | .maxBackupFiles => cfg.maxBackupFiles
  | .maxBackupDays => cfg.maxBackupDays
  | .maxCompressedFiles => cfg.maxCompressedFiles
  | .rotateIntervalSeconds => cfg.rotateIntervalSeconds
  | .asyncQueueSize => cfg.asyncQueueSize
  | .asyncBatchSize => cfg.asyncBatchSize
  | .flushIntervalMs => cfg.flushIntervalMs
  | .enableConsole => cfg.enableConsole
  | .enableFile => cfg.enableFile
  | .enableColor => cfg.enableColor
  | .rotateDaily => cfg.rotateDaily
  | .rotateOnStartup => cfg.rotateOnStartup
  | .rotateAlign => cfg.rotateAlign
  | .dateSubdir => cfg.dateSubdir
  | .enableCrashHandler => cfg.enableCrashHandler

/-- The fields that no key names. -/
def ClogConfig.unnamed (cfg : ClogConfig) : (Bool × Bool × Bool × Bool) × Option Formatter × Option CStr :=
  ((cfg.enableSyslog, cfg.enableEventLog, cfg.enableAndroidLog, cfg.enableAppleLog), cfg.formatter, cfg.systemLoggerName)

/-- The configuration with these settings, and the rest as in `cfg`. -/
def ClogConfig.withSettings (cfg : ClogConfig) (m : Settings) : ClogConfig where
  loggerName := m .loggerName
  fileName := m .fileName
  level := m .level
  mode := m .mode
  enableConsole := m .enableConsole
  enableFile := m .enableFile
  enableSyslog := cfg.enableSyslog
  enableEventLog := cfg.enableEventLog
  enableAndroidLog := cfg.enableAndroidLog
  enableAppleLog := cfg.enableAppleLog
  pattern := m .pattern
  formatMode := m .formatMode
  formatter := cfg.formatter
  logDir := m .logDir
  enableColor := m .enableColor
  enableCrashHandler := m .enableCrashHandler
  rotatePolicy := m .rotatePolicy
  maxFileSize := m .maxFileSize
  maxBackupFiles := m .maxBackupFiles
  maxBackupDays := m .maxBackupDays
  rotateDaily := m .rotateDaily
  rotateIntervalSeconds := m .rotateIntervalSeconds
  rotateOnStartup := m .rotateOnStartup
  asyncQueueSize := m .asyncQueueSize
  asyncBatchSize := m .asyncBatchSize
  flushIntervalMs := m .flushIntervalMs
  overflowPolicy := m .overflowPolicy
  systemLoggerName := cfg.systemLoggerName
  rotateAlign := m .rotateAlign
  maxCompressedFiles := m .maxCompressedFiles
  dateSubdir := m .dateSubdir

inductive IniLine where
  | skip
  | section (name : Bytes)
  | assign (key value : Bytes)

/-- What kind of line it is. -/
def IniLine.parse (line : Bytes) : IniLine :=
  match iniTrim line with
  | [] => .skip
  | c :: s =>
    if c = chr '#' ∨ c = chr ';' then .skip
    else if c = chr '[' then .section (s.takeWhile (· ≠ chr ']'))
    else if chr '=' ∈ c :: s then
      .assign (iniTrim ((c :: s).takeWhile (· ≠ chr '='))) (iniTrim ((c :: s).dropWhile (· ≠ chr '=')).tail)
    else .skip

structure Reading where
  settings : Settings
  accepts : Bool

def Settings.assign (m : Settings) (key value : Bytes) : Settings :=
  match Setting.named key with
  | some f => Function.update m f (f.read value)
  | none => m

def Reading.line (r : Reading) (line : Bytes) : Reading :=
  match IniLine.parse line with
  | .skip => r
  | .section name => { r with accepts := sectionAccepted name }
  | .assign key value => if r.accepts then { r with settings := r.settings.assign key value } else r

/-- The configuration that a file stands for. -/
def meaning (content : CStr) : ClogConfig :=
  clogConfigDefault.withSettings
    ((content.bytes.splitOn newline).foldl Reading.line ⟨clogConfigDefault.settings, true⟩).settings

end HxClog

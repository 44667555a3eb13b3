import HxClog.Registry

/-!
# Reading the configuration back

`active_config` is the copy that `hx_clog_get_config` returns. It is written by
`hx_clog_init` and `hx_clog_reconfigure`; the setters write the fields in force.
-/

namespace HxClog

open C

/-- What the write path uses. -/
structure InForce where
  level : Level
  mode : Mode
  pattern : CStr
  formatMode : FormatMode
  formatter : Option Formatter

def Core.inForce (c : Core) : InForce := ⟨c.level, c.mode, c.pattern, c.formatMode, c.formatter⟩

/-- The same fields of a configuration. -/
def Config.inForce (cfg : Config) : InForce :=
  ⟨cfg.level, cfg.mode, cfg.pattern.getD .empty, cfg.formatMode.getD .pattern, cfg.formatter⟩

/-- Defaults in place of the strings that are missing. -/
def Config.filled (cfg : Config) : Config :=
  { cfg with fileName := some cfg.file
             loggerName := some (cfg.loggerName.getD defaultLoggerName)
             pattern := some (cfg.pattern.getD configPattern) }

/-- `store_active_config_locked`, with the strings cut to the buffers of the copy. -/
def storeActiveConfigLocked (c : Core) (cfg : Config) : Config :=
  { cfg with mode := c.mode
             level := c.level
             loggerName := some ((cfg.loggerName.getD .empty).cut 128)
             fileName := some ((cfg.fileName.getD .empty).cut 256)
             pattern := some ((cfg.pattern.getD .empty).cut 512) }

structure Configured where
  core : Core
  activeConfig : Config

namespace Configured

def hxClogInit (s : Configured) (inConfig : Option Config) (o : Outside) : Configured :=
  let r := s.core.hxClogInitLocked inConfig o
  let cfg := applyEnvOverrides o.env (inConfig.getD hxClogConfigDefault).filled
  ⟨r.1, if r.2 = .ok then storeActiveConfigLocked r.1 cfg else s.activeConfig⟩

/-- A format mode that is neither of the two is taken for the pattern. -/
def hxClogReconfigure (s : Configured) (inConfig : Option Config) (o : Outside) : Configured :=
  let r := s.core.hxClogReconfigureLocked inConfig o
  let cfg := (inConfig.getD hxClogConfigDefault).filled
  let cfg := { cfg with formatMode := some (cfg.formatMode.getD .pattern) }
  ⟨r.1, if r.2 = .ok then storeActiveConfigLocked r.1 cfg else s.activeConfig⟩

def hxClogSetLevel (s : Configured) (level : Level) : Configured :=
  { s with core := { s.core with level := level, loggerLevel := level } }

/-- `hx_clog_logger_set_level` on the default logger. -/
def hxClogLoggerSetLevel (s : Configured) (level : Level) : Configured :=
  if ¬levelValid level then s else { s with core := { s.core with loggerLevel := level, level := level } }

def hxClogGetConfig (s : Configured) : Except Rc Config :=
  if ¬s.core.initialized then .error .notInitialized else .ok s.activeConfig

end Configured

inductive SettingCall where
  | core (call : Call)
  | setLevel (level : Level)
  | loggerSetLevel (level : Level)

def SettingCall.run (s : Configured) : SettingCall → Configured
  | .core (.init cfg o) => s.hxClogInit cfg o
  | .core (.reconfigure cfg o) => s.hxClogReconfigure cfg o
  | .core call => { s with core := call.run s.core }
  | .setLevel level => s.hxClogSetLevel level
  | .loggerSetLevel level => s.hxClogLoggerSetLevel level

def runSettings (s : Configured) (calls : List SettingCall) : Configured := calls.foldl SettingCall.run s

/-- The copy of a process that was just started: all zero. -/
def zeroConfig : Config where
  loggerName := none
  fileName := none
  level := 0
  mode := .sync
  enableConsole := false
  enableFile := false
  enableSyslog := false
  enableEventLog := false
  enableAndroidLog := false
  enableAppleLog := false
  pattern := none
  formatMode := some .pattern
  formatter := none

def configuredAtStart : Configured := ⟨coreOnceInit, zeroConfig⟩

end HxClog

import SlopeField.Text.Basic

/-!
# Journal

Operations tell what they did in records of four levels. A verbosity says
which of them are shown.
-/

namespace SlopeField

inductive Level where
  | debug | info | warn | error
  deriving BEq, DecidableEq, Repr

def Level.name : Level → String
  | debug => "DEBUG"
  | info => "INFO"
  | warn => "WARN"
  | error => "ERROR"

inductive Topic where
  | expressions | integrals | families | curves
  deriving BEq, DecidableEq, Repr

def Topic.path : Topic → String
  | expressions => "RustedODE::symbolic::parse_expr"
  | integrals => "RustedODE::symbolic::symbolic_integration"
  | families => "RustedODE::ode_solver::classifier"
  | curves => "RustedODE::numerical::RK4_trajectory"

inductive Record where
  | debug (topic : Topic) (message : String)
  | info (message : String)
  | warn (message : String)
  deriving BEq, DecidableEq, Repr

namespace Record

def level : Record → Level
  | debug .. => .debug
  | info _ => .info
  | warn _ => .warn

def message : Record → String
  | debug _ m | info m | warn m => m

def text (r : Record) : String := r.level.name ++ " " ++ r.message

/-- The record as a line of output. Only the lowest level gives its thread and
topic. -/
def line (r : Record) : String :=
  let source := match r with
    | debug topic _ => "(1) " ++ topic.path ++ ": "
    | _ => ""
  "[" ++ r.level.name ++ "] " ++ source ++ r.message

end Record

/-- The least severe level that is shown, if any is. -/
inductive Verbosity where
  | off | error | warn | info | debug
  deriving BEq, DecidableEq, Repr

structure LevelError where
  name : String
  deriving BEq, DecidableEq, Repr

def LevelError.message (e : LevelError) : String :=
  "loglevel must be debug, info, warn, error or off, got '" ++ e.name ++ "'"

namespace Verbosity

def name : Verbosity → String
  | off => "OFF"
  | error => "ERROR"
  | warn => "WARN"
  | info => "INFO"
  | debug => "DEBUG"

def admits : Verbosity → Level → Bool
  | off, _ => false
  | error, l => l == .error
  | warn, l => l == .error || l == .warn
  | info, l => l != .debug
  | debug, _ => true

/-- The verbosity of a given name in any letter case, `info` where no name is
given. -/
def ofName : Option String → Except LevelError Verbosity
  | none => .ok info
  | some given =>
    let name := Text.lowercase given
    if name = "debug" then .ok debug
    else if name = "info" then .ok info
    else if name = "warn" then .ok warn
    else if name = "error" then .ok error
    else if name = "off" ∨ name = "none" then .ok off
    else .error ⟨name⟩

def shown (v : Verbosity) (records : List Record) : List Record :=
  records.filter fun r => v.admits r.level

end Verbosity

end SlopeField

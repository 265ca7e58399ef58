/-!
What the program tells while it works.
-/
namespace StaticSite

namespace Log

inductive Level where
  | debug
  | info
  | warn
  deriving DecidableEq, Repr

def Level.name : Level → String
  | debug => "DEBUG"
  | info => "INFO"
  | warn => "WARN"

structure Record where
  level : Level
  message : String
  deriving DecidableEq, Repr

end Log

-- The records so far, in order.
abbrev Log := List Log.Record

end StaticSite

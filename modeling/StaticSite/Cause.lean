import StaticSite.FileSystem.Error
import StaticSite.Yaml.Error
/-!
What a failure says of itself: its own message, and below it the causes, down to the operation or
the text that failed.
-/
namespace StaticSite

-- One layer of a failure.
inductive Cause where
  | message (text : String)
  | io (error : IoError)
  | yaml (error : Yaml.Error)
  deriving DecidableEq, Repr

def Cause.text : Cause → String
  | message text => text
  | io e => e.message
  | yaml e => e.message

-- The failures of one operation. `causes` does not repeat the `headline`: together they have one
-- element for each layer, outermost first.
class Failure (ε : Type) where
  headline : ε → Cause
  causes : ε → List Cause

namespace Failure

variable [Failure ε]

-- All layers of a failure.
def layers (e : ε) : List Cause :=
  headline e :: causes e

-- The texts of all layers in one line.
def line (e : ε) : String :=
  ": ".intercalate ((layers e).map Cause.text)

end Failure

-- A name or path as it stands in a message.
def quoted (text : String) : String :=
  "\x60" ++ text ++ "\x60"

end StaticSite

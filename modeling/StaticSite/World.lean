import StaticSite.FileSystem
import StaticSite.Log
/-!
What commands work on, and actions that may change it. What an action has done before it fails
stays done.
-/
namespace StaticSite

structure World where
  files : FileSystem
  -- The working directory, from which relative paths are seen.
  directory : Location
  log : Log

-- An action that may fail with an `ε`.
abbrev Action (ε : Type) := ExceptT ε (StateM World)

namespace Action

variable {ε : Type}

def record (level : Log.Level) (message : String) : Action ε Unit :=
  modify fun w => { w with log := w.log ++ [⟨level, message⟩] }

-- Runs an action whose failures are told in another way.
def orElseThrow {α δ : Type} (action : Action δ α) (tell : δ → ε) : Action ε α :=
  ExceptT.adapt tell action

end Action

end StaticSite

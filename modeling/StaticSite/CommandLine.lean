import StaticSite.Build
import StaticSite.CommandLine.Command
import StaticSite.Skeleton
/-!
Running commands.
-/
namespace StaticSite.CommandLine

inductive Error where
  | build (source output : Path) (error : Build.Error)
  | clean (output : Path) (error : Build.Error)
  | new (path : Path) (error : Skeleton.Error)
  deriving DecidableEq, Repr

-- A command says what it was about to do, in front of what went wrong.
instance : Failure Error where
  headline
    | .build source output _ =>
      .message ("Building " ++ quoted source.text ++ " into " ++ quoted output.text)
    | .clean output _ => .message ("Cleaning " ++ quoted output.text)
    | .new path _ => .message ("Creating site " ++ quoted path.text)
  causes
    | .build _ _ e => Failure.layers e
    | .clean _ e => Failure.layers e
    | .new _ e => Failure.layers e

def Command.run : Command → Action Error Unit
  | .build source output => do
    let _ ← (Build.site source output).orElseThrow (.build source output)
  | .clean output => (Build.clean output).orElseThrow (.clean output)
  | .new path => (Skeleton.create path).orElseThrow (.new path)

end StaticSite.CommandLine

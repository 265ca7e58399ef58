import StaticSite.Cause
import StaticSite.Config.Site
import StaticSite.Disk
/-!
Loading the configuration of a site from its source directory.
-/
namespace StaticSite.SiteConfig

inductive LoadError where
  | io (path : Path) (error : IoError)
  | yaml (path : Path) (error : Yaml.Error)
  deriving DecidableEq, Repr

namespace LoadError

def path : LoadError → Path
  | io path _ | yaml path _ => path

instance : Failure LoadError where
  headline
    | .io path _ => .message ("reading site configuration " ++ quoted path.text)
    | .yaml path _ => .message ("decoding site configuration " ++ quoted path.text)
  causes
    | .io _ e => [.io e]
    | .yaml _ e => [.yaml e]

end LoadError

-- Loads a configuration file.
def load (p : Path) : Action LoadError SiteConfig := do
  let text ← (Disk.readText p).orElseThrow (.io p)
  match ofText text with
  | .ok c => return c
  | .error e => throw (.yaml p e)

-- Loads the configuration of the site in a source directory. Without a configuration file, it is
-- the default one.
def loadFrom (source : Path) : Action LoadError SiteConfig := do
  let p := source / fileName
  if Disk.isFile p (← get) then load p
  else
    Action.record .warn ("No " ++ quoted fileName.text ++ " found in " ++
      quoted source.text ++ "; using the default site configuration")
    return {}

end StaticSite.SiteConfig

import StaticSite.Config.Site
import StaticSite.Extension
/-!
What is fixed during a build: the directories it reads and writes, and the configuration of the
site.
-/
namespace StaticSite

structure Session where
  source : Path
  output : Path
  layouts : Path
  site : SiteConfig

namespace Session

-- A session whose layouts are where the configuration says, as seen from the source.
def ofConfig (source output : Path) (site : SiteConfig) : Session where
  source := source
  output := output
  layouts := source / site.layouts
  site := site

variable (s : Session)

-- Whether an entry of the source is no part of the site: it serves the build, or is its output.
def isExcluded (p : Path) : Bool :=
  p.same s.layouts || p.same s.output || p.same (s.source / SiteConfig.fileName)

-- Where the entry at `relative` below the source goes.
def outputPath (relative : Path) : Path :=
  let target := s.output / relative
  if Extension.isContent relative then target.withExtension Extension.page else target

end Session

end StaticSite

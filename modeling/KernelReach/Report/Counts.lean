import KernelReach.Files.ClassPath
import KernelReach.Json.Document
import KernelReach.Reach.Result

/-!
# Counts

What an analysis and the class path under it have counted, as documents.
-/

namespace KernelReach

def ClassPathStats.toJson (s : ClassPathStats) : Json := .object [
  ("reads", .int s.reads), ("cache_hits", .int s.cacheHits), ("parses", .int s.parses),
  ("misses", .int s.misses)]

def ResolverStats.toJson (s : ResolverStats) : Json := .object [
  ("lookups", .int s.lookups), ("cache_hits", .int s.cacheHits), ("upgrades", .int s.upgrades),
  ("misses", .int s.misses)]

def AnalysisStats.toJson (s : AnalysisStats) : Json := .object [
  ("resolver", s.resolver.toJson), ("application", .int s.application),
  ("ignored", .int s.ignored), ("entry_points", .int s.entryPoints), ("visited", .int s.visited),
  ("scanned", .int s.scanned), ("edges", .int s.edges), ("unavailable", .int s.unavailable),
  ("bodies_classes", .int s.bodiesClasses)]

end KernelReach

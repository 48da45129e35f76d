namespace CodeAtlas

structure BlockLimits where
  moduleChars : Nat := 50000
  /-- Lines in which the brace that closes a block must stand. -/
  braceLines : Nat := 50
  /-- Lines after a signature in which the brace that opens its block must stand. -/
  braceWindow : Nat := 3
deriving DecidableEq

structure DiagramLimits where
  maxClasses : Nat := 15
  maxMethods : Nat := 4
  maxEntryPoints : Nat := 3
  maxDepth : Nat := 5
  maxBranches : Nat := 3
  minCalls : Nat := 2
  maxLabels : Nat := 3
  entryWords : List String :=
    ["main", "app", "handler", "route", "api", "endpoint", "index", "server"]
deriving DecidableEq

structure Config where
  maxFileBytes : Nat := 1048576
  maxLineBytes : Nat := 20000
  workers : Option Nat := none
  blocks : BlockLimits := {}
  diagrams : DiagramLimits := {}
deriving DecidableEq

def Config.fileName : String :=
  "vespucci.toml"

def Config.chosenWorkers (config : Config) : Option Nat :=
  config.workers.filter (0 < ·)

end CodeAtlas

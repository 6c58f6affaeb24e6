import KestrelCompiler.CommandLine.Dispatch

/-!
The places that a run may look at, found from its arguments alone, so that a disk can be filled
with them before the run.
-/

namespace KestrelCompiler.CommandLine

/-- What may name a file in an argument: all of it, or the value that an option is written with. -/
def fileTexts (arg : String) : List String :=
  [arg, String.ofList (arg.toList.drop 2),
    String.ofList ((arg.toList.dropWhile (· ≠ '=')).drop 1)]

/-- The places that a walk along parts of a path comes through, its end included. -/
def waypoints : Place → List String → List Place
  | place, [] => [place]
  | place, part :: rest =>
    place :: waypoints (if part = ".." then place.dropLast else place ++ [part]) rest

/-- The places around one place: those it lies in, and the configuration files in them. -/
def surroundings (place : Place) : List Place :=
  Config.levels place ++ (Config.levels place).map Config.fileAt

/-- The places that matter to a file argument; a module is written beside its source file. -/
def reachOf (d : Disk) (text : String) : List Place :=
  let path := Path.ofString text
  [path, path.withSuffix ".ll"].flatMap fun path =>
    (waypoints (d.origin path) path.parts).flatMap surroundings

def reach (d : Disk) (args : List String) : List Place :=
  ((args.flatMap fileTexts).flatMap (reachOf d)).eraseDups

end KestrelCompiler.CommandLine

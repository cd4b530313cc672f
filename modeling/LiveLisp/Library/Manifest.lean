import LiveLisp.Library.Basic
/-!
# Dependency manifests

The manifest tells the loader at run time where every namespace lives, one call per unit. Paths
are seen from the directory of the base script.
-/

namespace LiveLisp.Library

/-- The file name of the manifest. -/
def manifestFile : String := "cljs_deps.js"

/-- A path below the library root as seen from the directory `goog`. -/
def pathFromBase (relPath : String) : String :=
  let cs := relPath.toList
  if "goog/".toList.isPrefixOf cs then String.ofList (cs.drop 5) else "../" ++ relPath

/-- Names in single quotes as a script array. -/
def nameArray (names : List String) : String :=
  "[" ++ ", ".intercalate (names.map fun n => "'" ++ n ++ "'") ++ "]"

/-- The call that registers one unit. -/
def dependencyLine (r : Record) : String :=
  "goog.addDependency(\"" ++ pathFromBase r.relPath ++ "\", " ++ nameArray r.provides ++ ", " ++
    nameArray r.requires ++ ");"

/-- The manifest of units, one line each. -/
def manifest (records : List Record) : String :=
  String.join (records.map fun r => dependencyLine r ++ "\n")

end LiveLisp.Library

/-!
# Platforms

An app is compiled for the web or for the cross-platform target.
-/

namespace ViewTree

/-- What a document is compiled for. -/
inductive Platform where
  | web
  | crossPlatform
deriving DecidableEq, Repr, Inhabited

namespace Platform

/-- The name of a platform in documents and outputs. -/
def name : Platform → String
  | web => "web"
  | crossPlatform => "cross-platform"

/-- Every name a platform goes by, in alphabetical order but for `web`. -/
def names : List (String × Platform) :=
  [("web", web), ("cross", crossPlatform), ("cross-platform", crossPlatform),
   ("native", crossPlatform)]

/-- The platform of a name. -/
def ofName? (s : String) : Option Platform := names.lookup s

/-- What is said about a text that names no platform. -/
def unknownMessage (s : String) : String :=
  "unknown platform '" ++ s ++ "', expected 'web' or 'cross-platform'"

end Platform

end ViewTree

import LiveLisp.Bounds
import LiveLisp.SourceMap.Codec
/-!
# Inline source maps

A script sent for evaluation carries its own source map in a comment at its end.
-/

namespace LiveLisp.SourceMap

open Script (Mapping)

/-- The source map that goes with one evaluated form. -/
def inlineMap (fileName sourceName : String) (mappings : List Mapping) : Map :=
  { Map.ofMappings sourceName mappings with file := some fileName }

/-- The JSON text of an inline map: `formLine` is the line the form began on, and the source is
its text. -/
def inlineJson (fileName sourceName sourceText : String) (mappings : List Mapping)
    (formLine : Nat) : String :=
  (inlineMap fileName sourceName mappings).toJson (some ((formLine + 3) % bound32))
    (some [some sourceText])

/-- The comment with the name of the script and its source map. -/
def inlineComment (fileName sourceName sourceText : String) (mappings : List Mapping)
    (formLine : Nat) : String :=
  "\n//# sourceURL=" ++ fileName ++ "\n//# sourceMappingURL=data:application/json;base64," ++
    Text.Base64.encode (inlineJson fileName sourceName sourceText mappings formLine)

end LiveLisp.SourceMap

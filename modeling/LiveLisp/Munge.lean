import LiveLisp.Text.Split
/-!
# Identifiers for names

Names may hold characters that a script identifier may not. Munging spells them out between
underscores, turns hyphens into underscores and marks reserved words with a dollar sign.
Demunging reads the spelling back, taking any other underscore for a hyphen.
-/

namespace LiveLisp.Munge

/-- The spelled-out characters. -/
def spellings : List (Char × List Char) :=
  [(':', "_COLON_"), ('+', "_PLUS_"), ('>', "_GT_"), ('<', "_LT_"), ('=', "_EQ_"),
    ('~', "_TILDE_"), ('!', "_BANG_"), ('@', "_CIRCA_"), ('#', "_SHARP_"),
    ('\x27', "_SINGLEQUOTE_"), ('"', "_DOUBLEQUOTE_"), ('%', "_PERCENT_"), ('^', "_CARET_"),
    ('&', "_AMPERSAND_"), ('*', "_STAR_"), ('|', "_BAR_"), ('\x7b', "_LBRACE_"),
    ('\x7d', "_RBRACE_"), ('[', "_LBRACK_"), (']', "_RBRACK_"), ('/', "_SLASH_"),
    ('\\', "_BSLASH_"), ('?', "_QMARK_")].map fun (c, s) => (c, s.toList)

/-- Words that no script identifier may be. -/
def reserved : List (List Char) :=
  ["arguments", "break", "case", "catch", "class", "const", "continue", "debugger", "default",
    "delete", "do", "else", "enum", "eval", "export", "extends", "false", "finally", "for",
    "function", "if", "implements", "import", "in", "instanceof", "interface", "let", "new",
    "null", "package", "private", "protected", "public", "return", "static", "super", "switch",
    "this", "throw", "true", "try", "typeof", "var", "void", "while", "with", "yield"].map
    String.toList

/-- What stands for a character in an identifier. -/
def mungeChar (c : Char) : List Char :=
  if c = '-' then ['_']
  else
    match spellings.find? (fun s => s.1 == c) with
    | some (_, spelling) => spelling
    | none => [c]

/-- The identifier for one name. -/
def mungeChars (name : List Char) : List Char :=
  let out := name.flatMap mungeChar
  if reserved.contains out then out ++ ['$'] else out

/-- The identifier for one name. -/
def munge (name : String) : String := String.ofList (mungeChars name.toList)

/-- The path for a dotted name, segment by segment. -/
def mungePath (name : String) : String :=
  String.ofList (['.'].intercalate ((name.toList.splitOn '.').map mungeChars))

/-- The path of a definition in a namespace. -/
def definitionPath (ns name : String) : String := mungePath ns ++ "." ++ munge name

/-- Reads spellings back after passing over `skip` characters. -/
def demungeFrom (skip : Nat) : List Char → List Char
  | [] => []
  | c :: rest =>
    match skip with
    | k + 1 => demungeFrom k rest
    | 0 =>
      if c = '_' then
        match spellings.find? (fun s => s.2.isPrefixOf (c :: rest)) with
        | some (ch, spelling) => ch :: demungeFrom (spelling.length - 1) rest
        | none => '-' :: demungeFrom 0 rest
      else c :: demungeFrom 0 rest

/-- The name an identifier stands for. -/
def demunge (name : String) : String :=
  let cs := name.toList
  let stem := if cs.getLast? = some '$' && reserved.contains cs.dropLast then cs.dropLast else cs
  String.ofList (demungeFrom 0 stem)

end LiveLisp.Munge

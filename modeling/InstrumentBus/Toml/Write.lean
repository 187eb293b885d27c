import InstrumentBus.Toml.Quoting

/-!
Writing TOML documents as their readers like them: one entry on a line, and long arrays over several.
-/

namespace InstrumentBus.Toml

/-- An array of texts. One text stays on the line; of several, each has its own. -/
def writeTexts : List String → String
  | [] => "[]"
  | [s] => "[" ++ writeText s ++ "]"
  | ss => "[\n" ++ String.join (ss.map fun s => "    " ++ writeText s ++ ",\n") ++ "]"

def writeEntry (key value : String) : String := key ++ " = " ++ value ++ "\n"

def writeTable (name : String) (entries : List (String × String)) : String :=
  "[" ++ name ++ "]\n" ++ String.join (entries.map fun e => writeEntry e.1 e.2)

def writeElement (name : String) (entries : List (String × String)) : String :=
  writeTable ("[" ++ name ++ "]") entries

def writeTables (tables : List String) : String := "\n".intercalate tables

end InstrumentBus.Toml

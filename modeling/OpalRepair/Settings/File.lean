import OpalRepair.Settings.Json
import OpalRepair.Settings.Yaml
import OpalRepair.Text.Lowercase

/-!
# Settings files

The extension of a file's name tells its format.
-/

namespace OpalRepair.Settings

/-- What follows the last dot of a file name. A dot at the start of a name hides the file and is
not counted. -/
def extension (name : List Char) : List Char :=
  let reversed := name.reverse
  let last := reversed.takeWhile (· != '.')
  if (reversed.drop last.length).length ≤ 1 then [] else last.reverse

/-- The settings in a file, of which `content` holds the bytes unless it is missing. -/
def ofFile (name : String) (content : Option ByteArray) : Except Error Settings :=
  match content with
  | none => .error (.file .missing)
  | some bytes =>
    match String.fromUTF8? bytes with
    | none => .error (.file .notUtf8)
    | some source =>
      let extension := String.ofList (Text.lower (extension name.toList))
      if extension = "json" then ofJson source
      else if extension = "yaml" ∨ extension = "yml" then ofYaml source
      else .error (.settings (.unknownFormat extension name))

end OpalRepair.Settings

import ApiBaseline.Json.Datum
import ApiBaseline.Json.Reader
import ApiBaseline.Schema.Reader
import ApiBaseline.Yaml.Datum

/-!
# Reading texts

A text of either format is turned into a datum and then read. A text that
breaks the rules of its format is malformed, unless there is another fault in
front of that place: the first fault counts.
-/

namespace ApiBaseline

/-- A format of texts. -/
inductive TextFormat where
  | json
  | yaml
  deriving DecidableEq, Repr

/-- The datum of a text, of which an outline is read. -/
def TextFormat.datum (format : TextFormat) (outline : Outline) (s : String) :
    Begun Datum :=
  match format with
  | json => (Json.parse s).map Json.datum
  | yaml => (Yaml.parse s).map (Yaml.Document.datum · outline)

namespace Schema

def readText {α : Type} (format : TextFormat) (reader : Reader α) (s : String) :
    Except Fault α :=
  let begun := format.datum reader.outline s
  match reader begun.value with
  | .ok a => if begun.isWhole then .ok a else .error .malformed
  | .error fault => .error fault

end Schema

end ApiBaseline

import ApiBaseline.Schema.Reader
import ApiBaseline.Settings

/-!
# Settings as data

A settings file may leave out any field, or be empty.
-/

namespace ApiBaseline.Schema

def readSettings : Reader Settings :=
  Reader.record <|
    Settings.mk <$> .flag "public_only"
      <*> .list "exclude_namespaces" Reader.text
      <*> .list "exclude_types" Reader.text
      <*> .flag "include_compiler_generated"

end ApiBaseline.Schema

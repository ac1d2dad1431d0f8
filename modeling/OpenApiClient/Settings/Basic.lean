/-!
# Settings

What a run is told about the library it generates.
-/

namespace OpenApiClient

/-- The settings of a run. -/
structure Settings where
  baseNamespace : String := "Api"
  output : String := "./out"
  clientName : Option String := none
  generateTests : Bool := false
  strictOperationIds : Bool := false
  templatesDirectory : Option String := none
  deriving DecidableEq, Repr

end OpenApiClient

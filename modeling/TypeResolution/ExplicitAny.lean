import TypeResolution.Diagnostic
import TypeResolution.Options
import TypeResolution.Ty.Query

namespace TypeResolution

/-- Reports an `Any` that is written out where it must not be. Stubs may do as they like. -/
def checkExplicitAny (t : Option Ty) (options : Options) (inStub : Bool) (pos : Position) : List Diagnostic :=
  if options.disallowAnyExplicit && !inStub && t.any Ty.hasExplicitAny then [⟨pos, .explicitAny⟩] else []

end TypeResolution

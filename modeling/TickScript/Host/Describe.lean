import TickScript.Host
import TickScript.Text.Quoted

/-!
# Showing host functions

A tool that lists what a host provides shows its functions in this form.
-/

namespace TickScript

/-- A function of the host with its name and its signature. -/
def HostFunction.describe {ω : Type} (f : HostFunction ω) : String :=
  let parameters := ", ".intercalate (f.signature.parameters.map Ty.tag)
  "HostFunction \x7b name: " ++ Quoted.quote f.name ++ ", param_types: [" ++ parameters ++
    "], return_type: " ++ f.signature.returnType.tag ++ ", .. \x7d"

end TickScript

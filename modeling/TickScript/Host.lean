import TickScript.Store.Coerce
import TickScript.Store.Content
import TickScript.Token.Scan

/-!
# Hosts

A host provides variables and functions to the scripts it runs. A host function is a
function of the arguments, of the store, and of a state of the host's own, whose type `ω`
the host chooses; it may answer a value and print lines.
-/

namespace TickScript

/-- A variable of the host and the value it starts with. -/
structure HostVariable where
  name : String
  type : Ty
  initial : Value

/-- What a host function gives back. -/
structure HostReply (ω : Type) where
  value : Option Value
  store : Store
  world : ω
  lines : List String := []

/-- A function of the host. -/
structure HostFunction (ω : Type) where
  name : String
  signature : Signature
  respond : List Value → Store → ω → HostReply ω

/-- What a host provides, in the order of registration. -/
structure Host (ω : Type) where
  externals : List HostVariable
  functions : List (HostFunction ω)

/-- Why something cannot be registered, described or written. -/
inductive HostProblem where
  | badType (name : String) (type : Ty)
  | registeredTwice (name : String)
  | badInitial (name : String) (why : Mismatch)
  | unsupportedValue (name : String) (value : String)
  | unknownVariable (name : String)
deriving DecidableEq

def HostProblem.message : HostProblem → String
  | .badType name type => s!"external variable '{name}' can't have type {type.display}"
  | .registeredTwice name => s!"'{name}' is registered twice"
  | .badInitial name why => s!"external variable '{name}': {why.message}"
  | .unsupportedValue name value => s!"variable '{name}': unsupported value {value}"
  | .unknownVariable name => s!"unknown external variable '{name}'"

/-- How a problem with a host is reported. -/
def HostProblem.text (p : HostProblem) : String :=
  s!"invalid host configuration: {p.message}"

namespace Host

variable {ω : Type}

def empty : Host ω := ⟨[], []⟩

/-- Is a variable or a function registered under this name? -/
def registers (h : Host ω) (name : String) : Bool :=
  h.externals.any (·.name == name) || h.functions.any (·.name == name)

def external? (h : Host ω) (name : String) : Option HostVariable :=
  h.externals.find? (·.name == name)

def function? (h : Host ω) (name : String) : Option (HostFunction ω) :=
  h.functions.find? (·.name == name)

/-- Registers a variable. Its initial value is made to fit its type. -/
def addVariable (h : Host ω) (name : String) (type : Ty) (initial : Value) :
    EStateM HostProblem Store (Host ω) := fun s =>
  if type = .void ∨ type = .any ∨ type = .unknown then .error (.badType name type) s
  else if h.registers name then .error (.registeredTwice name) s
  else
    match Store.coerce type initial s with
    | .ok v s => .ok { h with externals := h.externals ++ [⟨name, type, v⟩] } s
    | .error m s => .error (.badInitial name m) s

/-- Registers a function. -/
def addFunction (h : Host ω) (f : HostFunction ω) : Except HostProblem (Host ω) :=
  if h.registers f.name then .error (.registeredTwice f.name)
  else .ok { h with functions := h.functions ++ [f] }

/-- The types of the host's names; that of a function is its return type. -/
def nameTypes (h : Host ω) : NameTypes :=
  Table.ofList (h.externals.map (fun v => (v.name, v.type)) ++
    h.functions.map (fun f => (f.name, f.signature.returnType)))

/-- The types of all names that a program starts with. -/
def seedTypes (h : Host ω) : NameTypes :=
  Builtin.all.foldl (fun types b => types.insert b.name b.signature.returnType) h.nameTypes

/-- The names that a program cannot declare again. -/
def reservedNames (h : Host ω) : List String :=
  Builtin.all.map Builtin.name ++ h.externals.map HostVariable.name ++
    h.functions.map HostFunction.name

end Host

end TickScript

import TickScript.Document.Read
import TickScript.Host
import TickScript.Number.Checked

/-!
# Descriptions of hosts

A host can be described by a document that lists its variables, each with a name, the tag of
a type, and perhaps an initial value:

    { "variables": [ { "name": "speed", "type": "FLOAT", "value": 2.5 },
                     { "name": "path", "type": "INT_ARRAY", "value": [1, 2] } ] }

Instead of an object, the values of its fields may stand in an array, in this order and
without those at the end that may be missing. Fields of other names are passed over, but no
field is given twice.
-/

namespace TickScript

/-- A variable as described. Without a value it starts with the zero of its type. -/
structure VariableDescription where
  name : String
  type : Ty
  value : Option Document

namespace VariableDescription

open Raw (meaning textValue maxDepth)

/-- A text. -/
def readName : Raw → Option String
  | .string text => textValue text
  | _ => none

/-- The tag of a type, alone or as the only key of an object, with nothing under it. -/
def readType : Raw → Option Ty
  | .string text => (textValue text).bind Ty.ofTag?
  | .object [(key, .null)] => (textValue key).bind Ty.ofTag?
  | _ => none

/-- A value, which may be missing. It stands three levels deep. -/
def readValue : Raw → Option (Option Document)
  | .null => some none
  | r => (meaning (maxDepth - 3) r).map some

/-- The value of a field among entries whose keys have been read, if it is there at all. A
field that is there twice is refused. -/
def field (name : String) (entries : List (String × Raw)) : Option (Option Raw) :=
  match entries.filter (·.1 = name) with
  | [] => some none
  | [entry] => some (some entry.2)
  | _ => none

/-- Reads the keys of an object. -/
def readKeys : List (List RawChar × Raw) → Option (List (String × Raw))
  | [] => some []
  | (key, r) :: rest => do
    let name ← textValue key
    return (name, r) :: (← readKeys rest)

/-- The description with these fields. -/
def ofFields (name type : Raw) (value : Option Raw) : Option VariableDescription := do
  let name ← readName name
  let type ← readType type
  let value ← readValue (value.getD .null)
  return { name, type, value }

def ofRaw? : Raw → Option VariableDescription
  | .array [name, type] => ofFields name type none
  | .array [name, type, value] => ofFields name type (some value)
  | .object entries => do
    let entries ← readKeys entries
    let name ← field "name" entries
    let type ← field "type" entries
    let value ← field "value" entries
    ofFields (← name) (← type) value
  | _ => none

end VariableDescription

/-- The variables of a host as described. -/
structure HostDescription where
  externals : List VariableDescription

namespace HostDescription

/-- The described variables. -/
def readVariables : Raw → Option HostDescription
  | .array items => (items.mapM VariableDescription.ofRaw?).map HostDescription.mk
  | _ => none

def ofRaw? : Raw → Option HostDescription
  | .array [] => some ⟨[]⟩
  | .array [listed] => readVariables listed
  | .object entries => do
    let entries ← VariableDescription.readKeys entries
    match ← VariableDescription.field "variables" entries with
    | none => return ⟨[]⟩
    | some listed => readVariables listed
  | _ => none

/-- Reads a description. -/
def ofText? (source : String) : Option HostDescription :=
  (Raw.ofText? source).bind ofRaw?

mutual

/-- The content that a document describes, or the first part of it that is no value. -/
def contentOf : Document → Except Document Content
  | .bool b => .ok (.bool b)
  | .int n => .ok (if Number.fits n then .int (Int64.ofInt n) else .float (Float.ofInt n))
  | .float x => .ok (.float x)
  | .array items => (contentsOf items).map .array
  | .null => .error .null
  | .string s => .error (.string s)
  | .object entries => .error (.object entries)

def contentsOf : List Document → Except Document (List Content)
  | [] => .ok []
  | d :: ds => do
    let c ← contentOf d
    return c :: (← contentsOf ds)

end

/-- The described initial value, in a store. -/
def initial (v : VariableDescription) : EStateM HostProblem Store Value := fun s =>
  match v.value with
  | none =>
    let (zero, s) := s.zero v.type
    .ok zero s
  | some d =>
    match contentOf d with
    | .ok c =>
      let (value, s) := s.build c
      .ok value s
    | .error part => .error (.unsupportedValue v.name part.compact) s

/-- Registers the described variables in order, up to the first that cannot be. What was
registered before it stays. -/
def apply {ω : Type} : List VariableDescription → Host ω → Store →
    Option HostProblem × Host ω × Store
  | [], h, s => (none, h, s)
  | v :: vs, h, s =>
    match initial v s with
    | .error p s => (some p, h, s)
    | .ok value s =>
      match h.addVariable v.name v.type value s with
      | .error p s => (some p, h, s)
      | .ok h s => apply vs h s

end HostDescription

end TickScript

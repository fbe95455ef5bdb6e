import TickScript.Number.Text

/-!
# Documents

Hosts describe themselves in JSON documents, and tools ask for dumps in the same form. This
module holds the tree of a document and how it is written: compactly on one line with the
keys of objects in order, or spread over indented lines as the tree gives them.
-/

namespace TickScript

inductive Document where
  | null
  | bool (b : Bool)
  | int (n : Int)
  | float (x : Float)
  | string (s : String)
  | array (items : List Document)
  | object (entries : List (String × Document))

namespace Document

/-- A character below sixteen as a hexadecimal digit. -/
def hexDigit (n : Nat) : Char :=
  if n < 10 then Char.ofNat ('0'.toNat + n) else Char.ofNat ('a'.toNat + (n - 10))

/-- A character inside quotes. -/
def escape (c : Char) : List Char :=
  match c with
  | '"' => ['\\', '"']
  | '\\' => ['\\', '\\']
  | '\n' => ['\\', 'n']
  | '\r' => ['\\', 'r']
  | '\t' => ['\\', 't']
  | '\x08' => ['\\', 'b']
  | '\x0c' => ['\\', 'f']
  | c =>
    if c.toNat < 0x20 then
      ['\\', 'u', '0', '0', hexDigit (c.toNat / 16), hexDigit (c.toNat % 16)]
    else [c]

/-- A text in quotes. -/
def quote (s : String) : String :=
  "\"" ++ String.ofList (s.toList.flatMap escape) ++ "\""

/-- Puts an entry into a list ordered by keys. -/
def insertSorted {α : Type} (key : String) (value : α) : List (String × α) → List (String × α)
  | [] => [(key, value)]
  | entry :: rest =>
    if key < entry.1 then (key, value) :: entry :: rest
    else if entry.1 = key then (key, value) :: rest
    else entry :: insertSorted key value rest

/-- Orders entries by their keys. Of entries with one key the last is kept. -/
def sortEntries {α : Type} (entries : List (String × α)) : List (String × α) :=
  entries.foldl (fun sorted entry => insertSorted entry.1 entry.2 sorted) []

mutual

/-- A document on one line, with the keys of objects in order. -/
def compact : Document → String
  | .null => "null"
  | .bool b => if b then "true" else "false"
  | .int n => toString n
  | .float x => Number.documentText x
  | .string s => quote s
  | .array items => "[" ++ ",".intercalate (compactAll items) ++ "]"
  | .object entries =>
    let fields := (sortEntries (compactEntries entries)).map fun (key, text) =>
      quote key ++ ":" ++ text
    "\x7b" ++ ",".intercalate fields ++ "\x7d"

def compactAll : List Document → List String
  | [] => []
  | d :: ds => compact d :: compactAll ds

def compactEntries : List (String × Document) → List (String × String)
  | [] => []
  | (key, d) :: rest => (key, compact d) :: compactEntries rest

end

/-- Lines between two brackets, or just the brackets if there are none. -/
def enclose (indent : String) (start finish : String) (lines : List String) : String :=
  if lines.isEmpty then start ++ finish
  else
    start ++ "\n" ++ ",\n".intercalate (lines.map ((indent ++ "  ") ++ ·)) ++ "\n" ++ indent ++
      finish

mutual

/-- A document over several lines. Every level is indented by two more blanks. -/
def pretty (indent : String) : Document → String
  | .null => "null"
  | .bool b => if b then "true" else "false"
  | .int n => toString n
  | .float x => Number.documentText x
  | .string s => quote s
  | .array items => enclose indent "[" "]" (prettyAll (indent ++ "  ") items)
  | .object entries => enclose indent "\x7b" "\x7d" (prettyEntries (indent ++ "  ") entries)

def prettyAll (indent : String) : List Document → List String
  | [] => []
  | d :: ds => pretty indent d :: prettyAll indent ds

def prettyEntries (indent : String) : List (String × Document) → List String
  | [] => []
  | (key, d) :: rest => (quote key ++ ": " ++ pretty indent d) :: prettyEntries indent rest

end

end Document

end TickScript

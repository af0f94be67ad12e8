import SqlStore.Json.Reading

/-!
# Configuration

A database has a schema for unqualified names and an isolation level for transactions that name
none. A configuration is read from a JSON object with these two entries, or from an array of
them in order; what is missing keeps its default.
-/

namespace SqlStore

/-- The isolation that a transaction asks for. Every level is accepted and handled alike. -/
inductive Isolation where
  | readUncommitted
  | readCommitted
  | repeatableRead
  | serializable
deriving Repr, DecidableEq

namespace Isolation

/-- The SQL spelling. -/
def text : Isolation → String
  | readUncommitted => "READ UNCOMMITTED"
  | readCommitted => "READ COMMITTED"
  | repeatableRead => "REPEATABLE READ"
  | serializable => "SERIALIZABLE"

/-- The level of a configuration's word. -/
def ofWord? : String → Option Isolation
  | "read_uncommitted" => some readUncommitted
  | "read_committed" => some readCommitted
  | "repeatable_read" => some repeatableRead
  | "serializable" => some serializable
  | _ => none

end Isolation

/-- The settings of a database. -/
structure Config where
  defaultSchema : String
  defaultIsolation : Isolation
deriving Repr, DecidableEq

namespace Config

/-- The settings of a database that is given none. -/
def standard : Config := ⟨"public", .readCommitted⟩

/-- Sets the default schema from a document. -/
def setSchema (c : Config) : Json → Option Config
  | .string s => some { c with defaultSchema := s }
  | _ => none

/-- Sets the default isolation from a document: a word, or an object with the word as its only
key and null as its value. -/
def setIsolation (c : Config) : Json → Option Config
  | .string s => (Isolation.ofWord? s).map fun i => { c with defaultIsolation := i }
  | .object [(s, .null)] => (Isolation.ofWord? s).map fun i => { c with defaultIsolation := i }
  | _ => none

/-- The keys of the outermost object of a text, repeated ones included, in the order of the text.
`depth` counts the brackets that are open. -/
def outerKeys : Nat → Nat → List Char → List String
  | 0, _, _ => []
  | _ + 1, _, [] => []
  | fuel + 1, depth, c :: cs =>
    if c == '"' then
      match Json.readString (cs.length + 1) [] cs with
      | .error _ => []
      | .ok (s, rest) =>
        let isKey := depth == 1 && (Json.skipBlanks rest).head? == some ':'
        let keys := outerKeys fuel depth rest
        if isKey then s :: keys else keys
    else if c == '[' || c.toNat == 123 then outerKeys fuel (depth + 1) cs
    else if c == ']' || c.toNat == 125 then outerKeys fuel (depth - 1) cs
    else outerKeys fuel depth cs

/-- Whether a key that matters occurs twice. -/
def repeatsKey (text : String) : Bool :=
  let keys := outerKeys (text.length + 1) 0 text.toList
  keys.count "default_schema" > 1 || keys.count "default_isolation" > 1

/-- Reads the settings from the text of a document. -/
def parse? (text : String) : Option Config :=
  match Json.parse text with
  | .ok (.object entries) => do
    if repeatsKey text then none
    else
      let c ← match entries.lookup "default_schema" with
        | some j => setSchema standard j
        | none => some standard
      match entries.lookup "default_isolation" with
      | some j => c.setIsolation j
      | none => some c
  | .ok (.array []) => some standard
  | .ok (.array [schema]) => setSchema standard schema
  | .ok (.array [schema, isolation]) => do (← setSchema standard schema).setIsolation isolation
  | _ => none

end Config

end SqlStore

import SqlStore.Text.Scan

/-!
# Data types

The types of columns and values, their written names, and how a name with arguments is resolved.
A bound on the length of a text belongs to the column and not to the type, and a serial type is an
integer type with a sequence.
-/

namespace SqlStore

/-- A type of values. -/
inductive DataType where
  | smallInt
  | integer
  | bigInt
  | numeric (precision scale : Option Nat)
  | real
  | double
  | varchar
  | char
  | text
  | boolean
  | date
  | time
  | timestamp
  | timestampTz
  | interval
  | uuid
  | jsonb
  | bytea
deriving Repr, DecidableEq

/-- What a written type means: the type, a bound on the length, and whether a sequence fills the
column. -/
structure TypeName where
  datatype : DataType
  length : Option Nat
  serial : Bool
deriving Repr, DecidableEq

namespace DataType

/-- The name under which a type is written. -/
def name : DataType → String
  | smallInt => "smallint"
  | integer => "integer"
  | bigInt => "bigint"
  | numeric (some p) (some s) => "numeric(" ++ Text.showInt p ++ "," ++ Text.showInt s ++ ")"
  | numeric _ _ => "numeric"
  | real => "real"
  | double => "double precision"
  | varchar => "character varying"
  | char => "character"
  | text => "text"
  | boolean => "boolean"
  | date => "date"
  | time => "time"
  | timestamp => "timestamp"
  | timestampTz => "timestamptz"
  | interval => "interval"
  | uuid => "uuid"
  | jsonb => "jsonb"
  | bytea => "bytea"

end DataType

namespace TypeName

/-- A type without a bound and without a sequence. -/
def plain (datatype : DataType) : TypeName := ⟨datatype, none, false⟩

/-- A type that may not have arguments. -/
def bare (name : TypeName) (args : List Nat) : Option TypeName :=
  if args.isEmpty then some name else none

/-- Resolves a name in lower case with its arguments. -/
def resolve (name : String) (args : List Nat) : Option TypeName :=
  match name with
  | "smallint" | "int2" => bare (plain .smallInt) args
  | "integer" | "int" | "int4" => bare (plain .integer) args
  | "bigint" | "int8" => bare (plain .bigInt) args
  | "smallserial" | "serial2" => bare ⟨.smallInt, none, true⟩ args
  | "serial" | "serial4" => bare ⟨.integer, none, true⟩ args
  | "bigserial" | "serial8" => bare ⟨.bigInt, none, true⟩ args
  | "decimal" | "numeric" =>
    some (plain (match args with
      | [] => .numeric none none
      | [p] => .numeric (some p) (some 0)
      | p :: s :: _ => .numeric (some p) (some s)))
  | "real" | "float4" => bare (plain .real) args
  | "float" =>
    some (plain (match args with
      | p :: _ => if p ≤ 24 then .real else .double
      | [] => .double))
  | "double precision" | "double" | "float8" => bare (plain .double) args
  | "varchar" | "character varying" => some ⟨.varchar, args.head?, false⟩
  | "char" | "character" | "bpchar" => some ⟨.char, some (args.head?.getD 1), false⟩
  | "text" | "string" => bare (plain .text) args
  | "boolean" | "bool" => bare (plain .boolean) args
  | "date" => bare (plain .date) args
  | "time" | "time without time zone" => bare (plain .time) args
  | "timestamp" | "timestamp without time zone" => bare (plain .timestamp) args
  | "timestamptz" | "timestamp with time zone" => bare (plain .timestampTz) args
  | "interval" => bare (plain .interval) args
  | "uuid" => bare (plain .uuid) args
  | "jsonb" | "json" => bare (plain .jsonb) args
  | "bytea" => bare (plain .bytea) args
  | _ => none

end TypeName

end SqlStore

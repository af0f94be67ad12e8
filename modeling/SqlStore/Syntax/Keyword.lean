import SqlStore.Text.Casing

/-!
# Keywords

The words with a meaning of their own. A word is a keyword in any case, by full upper-casing. The
keywords that are not reserved also serve as plain names.
-/

namespace SqlStore

/-- A word of the language. -/
inductive Keyword where
  | all
  | and
  | as
  | asc
  | begin_
  | between
  | by_
  | case_
  | cast
  | commit
  | create
  | cross
  | default_
  | delete
  | desc
  | distinct
  | drop
  | else_
  | end_
  | exists_
  | false_
  | first
  | from_
  | full
  | group
  | having
  | if_
  | ilike
  | in_
  | inner
  | insert
  | into
  | is
  | isolation
  | join
  | key
  | last
  | left
  | level
  | like
  | limit
  | natural
  | not
  | null
  | nulls
  | offset
  | on
  | or
  | order
  | outer
  | primary
  | right
  | rollback
  | schema
  | select
  | set_
  | start
  | table
  | then_
  | transaction
  | true_
  | unique
  | update
  | using_
  | values
  | when
  | where_
deriving Repr, DecidableEq

namespace Keyword

/-- Every keyword with its spelling. -/
def spellings : List (String × Keyword) := [
  ("ALL", all), ("AND", and), ("AS", as), ("ASC", asc), ("BEGIN", begin_), ("BETWEEN", between),
  ("BY", by_), ("CASE", case_), ("CAST", cast), ("COMMIT", commit), ("CREATE", create),
  ("CROSS", cross), ("DEFAULT", default_), ("DELETE", delete), ("DESC", desc),
  ("DISTINCT", distinct), ("DROP", drop), ("ELSE", else_), ("END", end_), ("EXISTS", exists_),
  ("FALSE", false_), ("FIRST", first), ("FROM", from_), ("FULL", full), ("GROUP", group),
  ("HAVING", having), ("IF", if_), ("ILIKE", ilike), ("IN", in_), ("INNER", inner),
  ("INSERT", insert), ("INTO", into), ("IS", is), ("ISOLATION", isolation), ("JOIN", join),
  ("KEY", key), ("LAST", last), ("LEFT", left), ("LEVEL", level), ("LIKE", like),
  ("LIMIT", limit), ("NATURAL", natural), ("NOT", not), ("NULL", null), ("NULLS", nulls),
  ("OFFSET", offset), ("ON", on), ("OR", or), ("ORDER", order), ("OUTER", outer),
  ("PRIMARY", primary), ("RIGHT", right), ("ROLLBACK", rollback), ("SCHEMA", schema),
  ("SELECT", select), ("SET", set_), ("START", start), ("TABLE", table), ("THEN", then_),
  ("TRANSACTION", transaction), ("TRUE", true_), ("UNIQUE", unique), ("UPDATE", update),
  ("USING", using_), ("VALUES", values), ("WHEN", when), ("WHERE", where_)]

/-- The spelling in capitals. -/
def text : Keyword → String
  | all => "ALL"
  | and => "AND"
  | as => "AS"
  | asc => "ASC"
  | begin_ => "BEGIN"
  | between => "BETWEEN"
  | by_ => "BY"
  | case_ => "CASE"
  | cast => "CAST"
  | commit => "COMMIT"
  | create => "CREATE"
  | cross => "CROSS"
  | default_ => "DEFAULT"
  | delete => "DELETE"
  | desc => "DESC"
  | distinct => "DISTINCT"
  | drop => "DROP"
  | else_ => "ELSE"
  | end_ => "END"
  | exists_ => "EXISTS"
  | false_ => "FALSE"
  | first => "FIRST"
  | from_ => "FROM"
  | full => "FULL"
  | group => "GROUP"
  | having => "HAVING"
  | if_ => "IF"
  | ilike => "ILIKE"
  | in_ => "IN"
  | inner => "INNER"
  | insert => "INSERT"
  | into => "INTO"
  | is => "IS"
  | isolation => "ISOLATION"
  | join => "JOIN"
  | key => "KEY"
  | last => "LAST"
  | left => "LEFT"
  | level => "LEVEL"
  | like => "LIKE"
  | limit => "LIMIT"
  | natural => "NATURAL"
  | not => "NOT"
  | null => "NULL"
  | nulls => "NULLS"
  | offset => "OFFSET"
  | on => "ON"
  | or => "OR"
  | order => "ORDER"
  | outer => "OUTER"
  | primary => "PRIMARY"
  | right => "RIGHT"
  | rollback => "ROLLBACK"
  | schema => "SCHEMA"
  | select => "SELECT"
  | set_ => "SET"
  | start => "START"
  | table => "TABLE"
  | then_ => "THEN"
  | transaction => "TRANSACTION"
  | true_ => "TRUE"
  | unique => "UNIQUE"
  | update => "UPDATE"
  | using_ => "USING"
  | values => "VALUES"
  | when => "WHEN"
  | where_ => "WHERE"

/-- The keyword that a word spells in any case. -/
def ofWord? (word : String) : Option Keyword := spellings.lookup (Text.upper word)

/-- Whether the word may not be a name. -/
def isReserved : Keyword → Bool
  | begin_ | commit | first | isolation | key | last | level | nulls | rollback | schema | start
  | transaction => false
  | _ => true

/-- The keyword as a name. -/
def asName (k : Keyword) : String := Text.lower k.text

theorem lookup_spelling (k : Keyword) : spellings.lookup k.text = some k := by
  cases k <;> rfl

end Keyword

end SqlStore

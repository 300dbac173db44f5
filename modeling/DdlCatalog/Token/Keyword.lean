/-! # Keywords
The words by which statements of the SQL data definition language are recognised. A keyword is
still accepted as a name. -/

namespace DdlCatalog.Token

/-- A word of the language, under its usual spelling. -/
inductive Keyword where
  | ACTION | ALWAYS | ARRAY | AS | ASC | ATOMIC | ATTRIBUTE | BEGIN | BY | CALLED | CASCADE
  | CHECK | CLASS | COLLATE | COMMIT | CONCURRENTLY | CONSTRAINT | COST | CREATE | DATA | DEFAULT
  | DEFERRABLE | DEFERRED | DEFINER | DELETE | DESC | DISTINCT | DROP | ENUM | EXCLUDE | EXISTS
  | FALSE | FIRST | FOREIGN | FULL | FUNCTION | GENERATED | IDENTITY | IF | IMMEDIATE | IMMUTABLE
  | IN | INCLUDE | INDEX | INITIALLY | INOUT | INPUT | INVOKER | KEY | LANGUAGE | LAST
  | LEAKPROOF | MATCH | MATERIALIZED | NO | NOT | NULL | NULLS | ON | ONLY | OR | OUT | PARALLEL
  | PARTIAL | PRAGMA | PRECISION | PREPARE | PRESERVE | PRIMARY | PROCEDURE | RECURSIVE
  | REFERENCES | REPLACE | RESTRICT | RETURN | RETURNS | ROWS | SCHEMA | SECURITY | SET | SETOF
  | SIMPLE | STABLE | STORED | STRICT | TABLE | TEMP | TEMPORARY | TIME | TIMESTAMP | TRUE | TYPE
  | UNIQUE | UNLOGGED | UPDATE | USING | VARIADIC | VARYING | VIEW | VIRTUAL | VOLATILE | WHERE
  | WITH | WITHOUT | ZONE
deriving DecidableEq, Repr

namespace Keyword

/-- The lower-case spelling, which is also the name a keyword stands for. -/
def spelling : Keyword → String
  | ACTION => "action"
  | ALWAYS => "always"
  | ARRAY => "array"
  | AS => "as"
  | ASC => "asc"
  | ATOMIC => "atomic"
  | ATTRIBUTE => "attribute"
  | BEGIN => "begin"
  | BY => "by"
  | CALLED => "called"
  | CASCADE => "cascade"
  | CHECK => "check"
  | CLASS => "class"
  | COLLATE => "collate"
  | COMMIT => "commit"
  | CONCURRENTLY => "concurrently"
  | CONSTRAINT => "constraint"
  | COST => "cost"
  | CREATE => "create"
  | DATA => "data"
  | DEFAULT => "default"
  | DEFERRABLE => "deferrable"
  | DEFERRED => "deferred"
  | DEFINER => "definer"
  | DELETE => "delete"
  | DESC => "desc"
  | DISTINCT => "distinct"
  | DROP => "drop"
  | ENUM => "enum"
  | EXCLUDE => "exclude"
  | EXISTS => "exists"
  | FALSE => "false"
  | FIRST => "first"
  | FOREIGN => "foreign"
  | FULL => "full"
  | FUNCTION => "function"
  | GENERATED => "generated"
  | IDENTITY => "identity"
  | IF => "if"
  | IMMEDIATE => "immediate"
  | IMMUTABLE => "immutable"
  | IN => "in"
  | INCLUDE => "include"
  | INDEX => "index"
  | INITIALLY => "initially"
  | INOUT => "inout"
  | INPUT => "input"
  | INVOKER => "invoker"
  | KEY => "key"
  | LANGUAGE => "language"
  | LAST => "last"
  | LEAKPROOF => "leakproof"
  | MATCH => "match"
  | MATERIALIZED => "materialized"
  | NO => "no"
  | NOT => "not"
  | NULL => "null"
  | NULLS => "nulls"
  | ON => "on"
  | ONLY => "only"
  | OR => "or"
  | OUT => "out"
  | PARALLEL => "parallel"
  | PARTIAL => "partial"
  | PRAGMA => "pragma"
  | PRECISION => "precision"
  | PREPARE => "prepare"
  | PRESERVE => "preserve"
  | PRIMARY => "primary"
  | PROCEDURE => "procedure"
  | RECURSIVE => "recursive"
  | REFERENCES => "references"
  | REPLACE => "replace"
  | RESTRICT => "restrict"
  | RETURN => "return"
  | RETURNS => "returns"
  | ROWS => "rows"
  | SCHEMA => "schema"
  | SECURITY => "security"
  | SET => "set"
  | SETOF => "setof"
  | SIMPLE => "simple"
  | STABLE => "stable"
  | STORED => "stored"
  | STRICT => "strict"
  | TABLE => "table"
  | TEMP => "temp"
  | TEMPORARY => "temporary"
  | TIME => "time"
  | TIMESTAMP => "timestamp"
  | TRUE => "true"
  | TYPE => "type"
  | UNIQUE => "unique"
  | UNLOGGED => "unlogged"
  | UPDATE => "update"
  | USING => "using"
  | VARIADIC => "variadic"
  | VARYING => "varying"
  | VIEW => "view"
  | VIRTUAL => "virtual"
  | VOLATILE => "volatile"
  | WHERE => "where"
  | WITH => "with"
  | WITHOUT => "without"
  | ZONE => "zone"

def all : List Keyword :=
  [.ACTION, .ALWAYS, .ARRAY, .AS, .ASC, .ATOMIC, .ATTRIBUTE, .BEGIN, .BY, .CALLED, .CASCADE,
   .CHECK, .CLASS, .COLLATE, .COMMIT, .CONCURRENTLY, .CONSTRAINT, .COST, .CREATE, .DATA,
   .DEFAULT, .DEFERRABLE, .DEFERRED, .DEFINER, .DELETE, .DESC, .DISTINCT, .DROP, .ENUM, .EXCLUDE,
   .EXISTS, .FALSE, .FIRST, .FOREIGN, .FULL, .FUNCTION, .GENERATED, .IDENTITY, .IF, .IMMEDIATE,
   .IMMUTABLE, .IN, .INCLUDE, .INDEX, .INITIALLY, .INOUT, .INPUT, .INVOKER, .KEY, .LANGUAGE,
   .LAST, .LEAKPROOF, .MATCH, .MATERIALIZED, .NO, .NOT, .NULL, .NULLS, .ON, .ONLY, .OR, .OUT,
   .PARALLEL, .PARTIAL, .PRAGMA, .PRECISION, .PREPARE, .PRESERVE, .PRIMARY, .PROCEDURE,
   .RECURSIVE, .REFERENCES, .REPLACE, .RESTRICT, .RETURN, .RETURNS, .ROWS, .SCHEMA, .SECURITY,
   .SET, .SETOF, .SIMPLE, .STABLE, .STORED, .STRICT, .TABLE, .TEMP, .TEMPORARY, .TIME,
   .TIMESTAMP, .TRUE, .TYPE, .UNIQUE, .UNLOGGED, .UPDATE, .USING, .VARIADIC, .VARYING, .VIEW,
   .VIRTUAL, .VOLATILE, .WHERE, .WITH, .WITHOUT, .ZONE]

def ofWord? (word : String) : Option Keyword := all.find? (·.spelling = word)

def display (k : Keyword) : String := k.spelling.toUpper

instance : ToString Keyword := ⟨display⟩

theorem spelling_of_ofWord? {word : String} {k : Keyword} (h : ofWord? word = some k) :
    k.spelling = word := by
  simpa using List.find?_some h

end Keyword

end DdlCatalog.Token

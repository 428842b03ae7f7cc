import QueryGate.Text.Case

/-!
# Vocabulary

The words that have a meaning of their own in SQL: keywords, names of functions and names of
types. None of them is taken for the name of a table or a column unless it is quoted.
-/

namespace QueryGate

/-- Words of SQL's grammar. -/
def sqlKeywords : List Text :=
  Text.ofStrings
    ["select", "from", "where", "group", "by", "order", "having", "limit", "offset", "as", "and",
      "or", "not", "in", "is", "null", "like", "ilike", "between", "case", "when", "then", "else",
      "end", "join", "inner", "left", "right", "full", "outer", "cross", "natural", "lateral", "on",
      "using", "distinct", "all", "union", "intersect", "except", "with", "recursive", "asc",
      "desc", "nulls", "first", "last", "true", "false", "exists", "any", "some", "over",
      "partition", "window", "rows", "range", "preceding", "following", "unbounded", "current",
      "row", "filter", "within", "insert", "into", "values", "update", "set", "delete", "returning",
      "create", "alter", "drop", "truncate", "table", "view", "index", "at", "zone", "fetch",
      "next", "only", "similar", "escape", "collate", "default"]

def sqlFunctions : List Text :=
  Text.ofStrings
    ["count", "sum", "avg", "min", "max", "stddev", "stddev_pop", "stddev_samp", "variance",
      "var_pop", "var_samp", "coalesce", "nullif", "cast", "extract", "date_trunc", "date_part",
      "to_char", "to_date", "to_timestamp", "round", "floor", "ceil", "ceiling", "abs", "length",
      "lower", "upper", "trim", "ltrim", "rtrim", "substring", "substr", "concat", "replace", "now",
      "current_date", "current_time", "current_timestamp", "row_number", "rank", "dense_rank",
      "percent_rank", "cume_dist", "lag", "lead", "ntile", "first_value", "last_value",
      "string_agg", "array_agg", "json_agg", "greatest", "least", "position", "split_part",
      "percentile_cont", "percentile_disc", "mode", "age", "year", "month", "week", "day", "hour",
      "minute", "second", "quarter", "dow", "doy", "epoch"]

def sqlTypeNames : List Text :=
  Text.ofStrings
    ["integer", "int", "int2", "int4", "int8", "bigint", "smallint", "numeric", "decimal", "real",
      "double", "precision", "float", "float4", "float8", "text", "varchar", "char", "character",
      "varying", "boolean", "bool", "date", "timestamp", "timestamptz", "time", "interval", "json",
      "jsonb", "uuid", "money"]

/-- Every word that cannot be an unquoted column. -/
def reservedWords : List Text := sqlKeywords ++ sqlFunctions ++ sqlTypeNames

/-- Functions that turn many rows into one value, in alphabetical order. -/
def aggregateFunctions : List Text :=
  Text.ofStrings ["avg", "count", "max", "min", "stddev", "sum", "variance"]

/-- Functions whose arguments may hold a `FROM` that names no table. -/
def fromArgumentFunctions : List Text :=
  Text.ofStrings ["extract", "substring", "trim", "overlay", "position"]

/-- Whether a name is a keyword, regardless of case. -/
def isKeyword (name : Text) : Bool := sqlKeywords.contains (lower name)

/-- Whether a name is a reserved word, regardless of case. -/
def isReserved (name : Text) : Bool := reservedWords.contains (lower name)

end QueryGate

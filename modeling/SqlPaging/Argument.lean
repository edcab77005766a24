import SqlPaging.Integer

/-!
# SqlPaging — argument faults

What can be wrong with the arguments of an operation, apart from the statement,
its parameters and its cursor.
-/

namespace SqlPaging

open Integer (text)

/-- An argument that an operation refuses. -/
inductive ArgumentFault where
  | unknownDialect (name : String)
  | unknownDirection (name : String)
  | emptyExpression
  | semicolonInExpression (expression : String)
  | duplicateExpression (expression : String)
  | unnamedCursor
  | windowOutOfRange (page size eachSide : Int64)
  | pageSize (size : Int64)
  | negativeTotal (total : Int64)
  | noExtent
  | unbound (name : String)
deriving DecidableEq, Repr

/-- The message about an argument. -/
def ArgumentFault.message : ArgumentFault → String
  | .unknownDialect name => "unknown dialect '" ++ name ++ "'"
  | .unknownDirection name => "unknown sort direction '" ++ name ++ "'"
  | .emptyExpression => "empty ORDER BY expression"
  | .semicolonInExpression e => "ORDER BY expression '" ++ e ++ "' contains ';'"
  | .duplicateExpression e => "duplicate ORDER BY expression '" ++ e ++ "'"
  | .unnamedCursor => "cannot save a cursor whose pager has no cursor name"
  | .windowOutOfRange page size eachSide =>
    "page " ++ text page ++ " of size " ++ text size ++ " with each_side " ++ text eachSide ++
      " is out of range"
  | .pageSize size => "page_size must be >= 1, got " ++ text size
  | .negativeTotal total => "total must be >= 0, got " ++ text total
  | .noExtent => "either total or next_page_count is required"
  | .unbound name => "no value bound for ':" ++ name ++ "'"

end SqlPaging

import Northstar.Lib.Except

/-!
# QueryPlan.Normalizer — queries with their literals taken out

The syntax trees are those of the parser, as far as they are looked at.  What is only printed, and holds no
literal, is its text; what is printed and may hold literals is a fragment.
-/

namespace Northstar.QueryPlan.Normalizer

/-- `Value`.  The kinds of string that have no arm of their own are told apart by their name. -/
inductive Value where
  | number (text : String) (long : Bool)
  | singleQuotedString (text : String)
  | doubleQuotedString (text : String)
  | boolean (b : Bool)
  | null
  | otherString (kind text : String)
  deriving Repr, DecidableEq

/-- What is printed of a tree: fixed text, and between it the literals that the tree holds. -/
inductive Piece where
  | text (s : String)
  | value (v : Value)
  deriving Repr, DecidableEq

abbrev Fragment := List Piece

mutual

inductive Expr where
  | value (v : Value)
  | typedString (dataType : String) (v : Value)
  | unaryOp (op : String) (expr : Expr)
  | binaryOp (left : Expr) (op : String) (right : Expr)
  | between (expr : Expr) (negated : Bool) (low high : Expr)
  | function (name : String) (args : FunctionArguments)
  | subquery (body : SetExpr)
  /-- The parser reads a result behind every condition. -/
  | case (operand : Option Expr) (branches : List (Expr × Expr)) (elseResult : Option Expr)
  | cast (expr : Expr) (dataType : String)
  | isNull (expr : Expr)
  | isNotNull (expr : Expr)
  | inList (expr : Expr) (list : List Expr) (negated : Bool)
  | identifier (id : String)
  | compoundIdentifier (ids : List String)
  | wildcard
  /-- Every other constructor: nested expressions, LIKE, IN with a subquery, intervals and so on. -/
  | other (w : Fragment)

inductive FunctionArguments where
  | list (args : List FunctionArg)
  | subquery
  | none

inductive FunctionArg where
  | unnamed (arg : FunctionArgExpr)
  | named (name : String) (arg : FunctionArgExpr)

inductive FunctionArgExpr where
  | expr (expr : Expr)
  | other (w : Fragment)

inductive SelectItem where
  | unnamedExpr (expr : Expr)
  | exprWithAlias (expr : Expr) (name : String)
  | qualifiedWildcard (name : String)
  | wildcard

inductive GroupByExpr where
  | all
  | expressions (exprs : List Expr)

inductive SetExpr where
  | select (distinct : Bool) (projection : List SelectItem) (relations : List Fragment) (selection : Option Expr)
      (groupBy : GroupByExpr) (having : Option Expr)
  | setOperation (op : String) (left right : SetExpr)
  /-- Every other constructor: parenthesized queries, VALUES and so on. -/
  | other (w : Fragment)

end

/-- Of a query only the body is looked at. -/
inductive Statement where
  | query (body : SetExpr)
  | insert
  | update
  | delete
  | other (w : Fragment)

/-- How the parser's library prints a literal: with `Debug`, and with `Display` in the text of a table. -/
structure Printing where
  debug : Value → String
  display : Value → String

def Fragment.print (show' : Value → String) : Fragment → String
  | [] => ""
  | .text s :: rest => s ++ Fragment.print show' rest
  | .value v :: rest => show' v ++ Fragment.print show' rest

def joinRest (sep : String) : List String → String
  | [] => ""
  | s :: rest => sep ++ s ++ joinRest sep rest

/-- `Vec::join`. -/
def join (sep : String) : List String → String
  | [] => ""
  | s :: rest => s ++ joinRest sep rest

variable (p : Printing)

mutual

def normalizeExpr : Expr → String
  -- the last arm of the source prints what the arms above it do not name
  | .value (.otherString kind text) => "Value(" ++ p.debug (.otherString kind text) ++ ")"
  | .value _ => "$LIT"
  | .typedString _ _ => "$LIT"
  | .unaryOp op expr => op ++ normalizeExpr expr
  | .binaryOp left op right => normalizeExpr left ++ " " ++ op ++ " " ++ normalizeExpr right
  | .between expr negated low high =>
    normalizeExpr expr ++ (if negated then " NOT " else " ") ++ "BETWEEN " ++ normalizeExpr low ++ " AND " ++
      normalizeExpr high
  | .function name args => name ++ "(" ++ normalizeArguments args ++ ")"
  | .subquery body => "(" ++ normalizeSetExpr body ++ ")"
  | .case operand branches elseResult =>
    "CASE" ++ normalizeOption " " operand ++ normalizeBranches branches ++ normalizeOption " ELSE " elseResult ++ " END"
  | .cast expr dataType => "CAST(" ++ normalizeExpr expr ++ " AS " ++ dataType ++ ")"
  | .isNull expr => normalizeExpr expr ++ " IS NULL"
  | .isNotNull expr => normalizeExpr expr ++ " IS NOT NULL"
  | .inList expr list negated =>
    -- an empty list has no parentheses
    let listStr := if list.isEmpty then "" else "(" ++ join ", " (normalizeExprs list) ++ ")"
    normalizeExpr expr ++ (if negated then " NOT " else " ") ++ "IN " ++ listStr
  | .identifier id => id
  | .compoundIdentifier ids => join "." ids
  | .wildcard => "*"
  | .other w => w.print p.debug

/-- An expression that may be missing, behind the text that introduces it. -/
def normalizeOption (intro : String) : Option Expr → String
  | some expr => intro ++ normalizeExpr expr
  | none => ""

def normalizeBranches : List (Expr × Expr) → String
  | [] => ""
  | (cond, res) :: rest =>
    " WHEN " ++ normalizeExpr cond ++ " THEN " ++ normalizeExpr res ++ normalizeBranches rest

def normalizeExprs : List Expr → List String
  | [] => []
  | expr :: rest => normalizeExpr expr :: normalizeExprs rest

def normalizeArguments : FunctionArguments → String
  | .list args => join ", " (normalizeArgs args)
  -- the query is not looked at
  | .subquery => "($LIT)"
  | .none => ""

def normalizeArgs : List FunctionArg → List String
  | [] => []
  | arg :: rest => normalizeFuncArg arg :: normalizeArgs rest

def normalizeFuncArg : FunctionArg → String
  | .unnamed arg => normalizeFuncArgExpr arg
  | .named name arg => name ++ " => " ++ normalizeFuncArgExpr arg

def normalizeFuncArgExpr : FunctionArgExpr → String
  | .expr expr => normalizeExpr expr
  | .other w => w.print p.debug

def normalizeSelectItem : SelectItem → String
  | .unnamedExpr expr => normalizeExpr expr
  | .exprWithAlias expr name => normalizeExpr expr ++ " AS " ++ name
  | .qualifiedWildcard name => name ++ ".*"
  | .wildcard => "*"

def normalizeSelectItems : List SelectItem → List String
  | [] => []
  | item :: rest => normalizeSelectItem item :: normalizeSelectItems rest

def normalizeGroupBy : GroupByExpr → String
  | .expressions exprs => if exprs.isEmpty then "" else " GROUP BY " ++ join ", " (normalizeExprs exprs)
  | .all => ""

/-- `normalize_query_expr`.  The text of HAVING is made, and not printed. -/
def normalizeSetExpr : SetExpr → String
  | .select distinct projection relations selection groupBy _ =>
    let distinct := if distinct then "DISTINCT " else ""
    let projections := join ", " (normalizeSelectItems projection)
    let «from» := if relations.isEmpty then "" else " FROM " ++ join ", " (relations.map fun f => f.print p.display)
    "SELECT " ++ distinct ++ projections ++ «from» ++ normalizeOption " WHERE " selection ++ normalizeGroupBy groupBy
  | .setOperation op left right =>
    "(" ++ normalizeSetExpr left ++ ") " ++ op ++ " (" ++ normalizeSetExpr right ++ ")"
  | .other w => w.print p.debug

end

def normalizeStatement : Statement → String
  | .query body => normalizeSetExpr p body
  | .insert => "INSERT INTO ... VALUES (...)"
  | .update => "UPDATE ... SET ..."
  | .delete => "DELETE FROM ..."
  | .other w => w.print p.debug

/-- What an accepted query becomes. -/
def normalizeStatements (statements : List Statement) : String := join "; " (statements.map (normalizeStatement p))

inductive HotPathError where
  | queryNormalizationError (message : String)
  deriving Repr, DecidableEq

/-- The parser gives the trees of a text, or says what is wrong with it. -/
def normalizeQuery (parse : String → Except String (List Statement)) (query : String) : Except HotPathError String :=
  match parse query with
  | .error e => .error (.queryNormalizationError ("Failed to parse query: " ++ e))
  | .ok statements => if statements.isEmpty then .ok "" else .ok (normalizeStatements p statements)

end Northstar.QueryPlan.Normalizer

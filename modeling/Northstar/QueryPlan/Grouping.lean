import Northstar.QueryPlan.Normalizer
import Mathlib.Data.List.Basic

/-!
# QueryPlan.Grouping — which queries are grouped by their shape

A literal that an arm of the normalizer meets becomes a placeholder.  A literal in a fragment is printed as it
is, and one such literal is enough for queries of one shape to have different texts.
-/

namespace Northstar.QueryPlan.Normalizer

namespace Value

def short : Value → Value
  | .number _ _ => .number "1" false
  | .singleQuotedString _ => .singleQuotedString ""
  | .doubleQuotedString _ => .doubleQuotedString ""
  | .boolean _ => .boolean true
  | .null => .null
  | .otherString kind _ => .otherString kind ""

/-- A longer one. -/
def long : Value → Value
  | .number _ _ => .number "10" false
  | .singleQuotedString _ => .singleQuotedString "a"
  | .doubleQuotedString _ => .doubleQuotedString "a"
  | .boolean _ => .boolean false
  | .null => .null
  | .otherString kind _ => .otherString kind "a"

theorem short_short (v : Value) : v.short.short = v.short := by cases v <;> rfl

theorem short_long (v : Value) : v.long.short = v.short := by cases v <;> rfl

theorem short_eq_null_iff {v : Value} : v.short = .null ↔ v = .null := by
  cases v with
  | null => exact ⟨fun _ => rfl, fun _ => rfl⟩
  | _ =>
    constructor
    · intro h
      cases h
    · intro h
      cases h

end Value

def Piece.mapValue (f : Value → Value) : Piece → Piece
  | .text s => .text s
  | .value v => .value (f v)

def Fragment.mapValues (f : Value → Value) (w : Fragment) : Fragment := w.map (Piece.mapValue f)

section

variable (f : Value → Value)

mutual

/-- Every literal, at any depth, changed by `f`. -/
def mapExpr : Expr → Expr
  | .value v => .value (f v)
  | .typedString dataType v => .typedString dataType (f v)
  | .unaryOp op expr => .unaryOp op (mapExpr expr)
  | .binaryOp left op right => .binaryOp (mapExpr left) op (mapExpr right)
  | .between expr negated low high => .between (mapExpr expr) negated (mapExpr low) (mapExpr high)
  | .function name args => .function name (mapArguments args)
  | .subquery body => .subquery (mapSetExpr body)
  | .case operand branches elseResult => .case (mapOption operand) (mapBranches branches) (mapOption elseResult)
  | .cast expr dataType => .cast (mapExpr expr) dataType
  | .isNull expr => .isNull (mapExpr expr)
  | .isNotNull expr => .isNotNull (mapExpr expr)
  | .inList expr list negated => .inList (mapExpr expr) (mapExprs list) negated
  | .identifier id => .identifier id
  | .compoundIdentifier ids => .compoundIdentifier ids
  | .wildcard => .wildcard
  | .other w => .other (w.mapValues f)

def mapOption : Option Expr → Option Expr
  | some expr => some (mapExpr expr)
  | none => none

def mapBranches : List (Expr × Expr) → List (Expr × Expr)
  | [] => []
  | (cond, res) :: rest => (mapExpr cond, mapExpr res) :: mapBranches rest

def mapExprs : List Expr → List Expr
  | [] => []
  | expr :: rest => mapExpr expr :: mapExprs rest

def mapArguments : FunctionArguments → FunctionArguments
  | .list args => .list (mapArgs args)
  | .subquery => .subquery
  | .none => .none

def mapArgs : List FunctionArg → List FunctionArg
  | [] => []
  | arg :: rest => mapFuncArg arg :: mapArgs rest

def mapFuncArg : FunctionArg → FunctionArg
  | .unnamed arg => .unnamed (mapFuncArgExpr arg)
  | .named name arg => .named name (mapFuncArgExpr arg)

def mapFuncArgExpr : FunctionArgExpr → FunctionArgExpr
  | .expr expr => .expr (mapExpr expr)
  | .other w => .other (w.mapValues f)

def mapSelectItem : SelectItem → SelectItem
  | .unnamedExpr expr => .unnamedExpr (mapExpr expr)
  | .exprWithAlias expr name => .exprWithAlias (mapExpr expr) name
  | .qualifiedWildcard name => .qualifiedWildcard name
  | .wildcard => .wildcard

def mapSelectItems : List SelectItem → List SelectItem
  | [] => []
  | item :: rest => mapSelectItem item :: mapSelectItems rest

def mapGroupBy : GroupByExpr → GroupByExpr
  | .all => .all
  | .expressions exprs => .expressions (mapExprs exprs)

def mapSetExpr : SetExpr → SetExpr
  | .select distinct projection relations selection groupBy having =>
    .select distinct (mapSelectItems projection) (relations.map (Fragment.mapValues f)) (mapOption selection)
      (mapGroupBy groupBy) (mapOption having)
  | .setOperation op left right => .setOperation op (mapSetExpr left) (mapSetExpr right)
  | .other w => .other (w.mapValues f)

end

def mapStatement : Statement → Statement
  | .query body => .query (mapSetExpr f body)
  | .insert => .insert
  | .update => .update
  | .delete => .delete
  | .other w => .other (w.mapValues f)

end

/-- The trees are the same but for what their literals are: numbers stay numbers, strings strings. -/
def SameShape (statements statements' : List Statement) : Prop :=
  statements.map (mapStatement Value.short) = statements'.map (mapStatement Value.short)

def Fragment.values (w : Fragment) : List Value := w.flatMap fun
  | .text _ => []
  | .value v => [v]

mutual

def printedExpr : Expr → List Value
  | .value (.otherString kind text) => [.otherString kind text]
  | .value _ => []
  -- a typed string is a placeholder, whatever it holds
  | .typedString _ _ => []
  | .unaryOp _ expr => printedExpr expr
  | .binaryOp left _ right => printedExpr left ++ printedExpr right
  | .between expr _ low high => printedExpr expr ++ printedExpr low ++ printedExpr high
  | .function _ args => printedArguments args
  | .subquery body => printedSetExpr body
  | .case operand branches elseResult => printedOption operand ++ printedBranches branches ++ printedOption elseResult
  | .cast expr _ => printedExpr expr
  | .isNull expr => printedExpr expr
  | .isNotNull expr => printedExpr expr
  | .inList expr list _ => printedExpr expr ++ printedExprs list
  | .identifier _ => []
  | .compoundIdentifier _ => []
  | .wildcard => []
  | .other w => w.values

def printedOption : Option Expr → List Value
  | some expr => printedExpr expr
  | none => []

def printedBranches : List (Expr × Expr) → List Value
  | [] => []
  | (cond, res) :: rest => printedExpr cond ++ printedExpr res ++ printedBranches rest

def printedExprs : List Expr → List Value
  | [] => []
  | expr :: rest => printedExpr expr ++ printedExprs rest

def printedArguments : FunctionArguments → List Value
  | .list args => printedArgs args
  -- the arguments are a placeholder
  | .subquery => []
  | .none => []

def printedArgs : List FunctionArg → List Value
  | [] => []
  | arg :: rest => printedFuncArg arg ++ printedArgs rest

def printedFuncArg : FunctionArg → List Value
  | .unnamed arg => printedFuncArgExpr arg
  | .named _ arg => printedFuncArgExpr arg

def printedFuncArgExpr : FunctionArgExpr → List Value
  | .expr expr => printedExpr expr
  | .other w => w.values

def printedSelectItem : SelectItem → List Value
  | .unnamedExpr expr => printedExpr expr
  | .exprWithAlias expr _ => printedExpr expr
  | .qualifiedWildcard _ => []
  | .wildcard => []

def printedSelectItems : List SelectItem → List Value
  | [] => []
  | item :: rest => printedSelectItem item ++ printedSelectItems rest

def printedGroupBy : GroupByExpr → List Value
  | .all => []
  | .expressions exprs => printedExprs exprs

def printedSetExpr : SetExpr → List Value
  -- HAVING is not printed
  | .select _ projection relations selection groupBy _ =>
    printedSelectItems projection ++ relations.flatMap Fragment.values ++ printedOption selection ++
      printedGroupBy groupBy
  | .setOperation _ left right => printedSetExpr left ++ printedSetExpr right
  | .other w => w.values

end

def printedStatement : Statement → List Value
  | .query body => printedSetExpr body
  | .insert => []
  | .update => []
  | .delete => []
  | .other w => w.values

theorem Fragment.values_mapValues (f : Value → Value) (w : Fragment) :
    (w.mapValues f).values = w.values.map f := by
  induction w with
  | nil => rfl
  | cons piece w ih =>
    -- texts have no literal, before and after
    show Fragment.values (Piece.mapValue f piece :: Fragment.mapValues f w) = _
    unfold values at ih ⊢
    rw [List.flatMap_cons, List.flatMap_cons, List.map_append, ih]
    cases piece <;> rfl

mutual

theorem printedExpr_map : (e : Expr) → printedExpr (mapExpr Value.short e) = (printedExpr e).map Value.short
  | .value v => by cases v <;> rfl
  | .typedString _ _ => rfl
  | .unaryOp _ expr => printedExpr_map expr
  | .binaryOp left _ right => by
    simp only [mapExpr, printedExpr, List.map_append, printedExpr_map left, printedExpr_map right]
  | .between expr _ low high => by
    simp only [mapExpr, printedExpr, List.map_append, printedExpr_map expr, printedExpr_map low, printedExpr_map high]
  | .function _ args => printedArguments_map args
  | .subquery body => printedSetExpr_map body
  | .case operand branches elseResult => by
    simp only [mapExpr, printedExpr, List.map_append, printedOption_map operand, printedBranches_map branches,
      printedOption_map elseResult]
  | .cast expr _ => printedExpr_map expr
  | .isNull expr => printedExpr_map expr
  | .isNotNull expr => printedExpr_map expr
  | .inList expr list _ => by
    simp only [mapExpr, printedExpr, List.map_append, printedExpr_map expr, printedExprs_map list]
  | .identifier _ => rfl
  | .compoundIdentifier _ => rfl
  | .wildcard => rfl
  | .other w => w.values_mapValues Value.short

theorem printedOption_map : (o : Option Expr) → printedOption (mapOption Value.short o) = (printedOption o).map Value.short
  | some expr => printedExpr_map expr
  | none => rfl

theorem printedBranches_map : (bs : List (Expr × Expr)) →
    printedBranches (mapBranches Value.short bs) = (printedBranches bs).map Value.short
  | [] => rfl
  | (cond, res) :: rest => by
    simp only [mapBranches, printedBranches, List.map_append, printedExpr_map cond, printedExpr_map res,
      printedBranches_map rest]

theorem printedExprs_map : (es : List Expr) → printedExprs (mapExprs Value.short es) = (printedExprs es).map Value.short
  | [] => rfl
  | expr :: rest => by
    simp only [mapExprs, printedExprs, List.map_append, printedExpr_map expr, printedExprs_map rest]

theorem printedArguments_map : (a : FunctionArguments) →
    printedArguments (mapArguments Value.short a) = (printedArguments a).map Value.short
  | .list args => printedArgs_map args
  | .subquery => rfl
  | .none => rfl

theorem printedArgs_map : (as : List FunctionArg) →
    printedArgs (mapArgs Value.short as) = (printedArgs as).map Value.short
  | [] => rfl
  | arg :: rest => by
    simp only [mapArgs, printedArgs, List.map_append, printedFuncArg_map arg, printedArgs_map rest]

theorem printedFuncArg_map : (a : FunctionArg) →
    printedFuncArg (mapFuncArg Value.short a) = (printedFuncArg a).map Value.short
  | .unnamed arg => printedFuncArgExpr_map arg
  | .named _ arg => printedFuncArgExpr_map arg

theorem printedFuncArgExpr_map : (a : FunctionArgExpr) →
    printedFuncArgExpr (mapFuncArgExpr Value.short a) = (printedFuncArgExpr a).map Value.short
  | .expr expr => printedExpr_map expr
  | .other w => w.values_mapValues Value.short

theorem printedSelectItem_map : (i : SelectItem) →
    printedSelectItem (mapSelectItem Value.short i) = (printedSelectItem i).map Value.short
  | .unnamedExpr expr => printedExpr_map expr
  | .exprWithAlias expr _ => printedExpr_map expr
  | .qualifiedWildcard _ => rfl
  | .wildcard => rfl

theorem printedSelectItems_map : (is : List SelectItem) →
    printedSelectItems (mapSelectItems Value.short is) = (printedSelectItems is).map Value.short
  | [] => rfl
  | item :: rest => by
    simp only [mapSelectItems, printedSelectItems, List.map_append, printedSelectItem_map item,
      printedSelectItems_map rest]

theorem printedGroupBy_map : (g : GroupByExpr) →
    printedGroupBy (mapGroupBy Value.short g) = (printedGroupBy g).map Value.short
  | .all => rfl
  | .expressions exprs => printedExprs_map exprs

theorem printedSetExpr_map : (s : SetExpr) →
    printedSetExpr (mapSetExpr Value.short s) = (printedSetExpr s).map Value.short
  | .select _ projection relations selection groupBy _ => by
    have hrelations : (relations.map (Fragment.mapValues Value.short)).flatMap Fragment.values =
        (relations.flatMap Fragment.values).map Value.short := by
      rw [List.flatMap_map, List.map_flatMap]
      exact List.flatMap_congr fun w _ => w.values_mapValues Value.short
    simp only [mapSetExpr, printedSetExpr, List.map_append, printedSelectItems_map projection, hrelations,
      printedOption_map selection, printedGroupBy_map groupBy]
  | .setOperation _ left right => by
    simp only [mapSetExpr, printedSetExpr, List.map_append, printedSetExpr_map left, printedSetExpr_map right]
  | .other w => w.values_mapValues Value.short

end

theorem printedStatement_map (s : Statement) :
    printedStatement (mapStatement Value.short s) = (printedStatement s).map Value.short := by
  cases s with
  | query body => exact printedSetExpr_map body
  | insert => rfl
  | update => rfl
  | delete => rfl
  | other w => exact w.values_mapValues Value.short

/-- A longer literal makes a longer text. -/
def Lengthens (show' : Value → String) : Prop :=
  ∀ v : Value, v ≠ .null → (show' v.short).length < (show' v.long).length

/-- Of a text that holds these literals: it is its own short form where they are all NULL, and otherwise its
short form is shorter than its long one. -/
structure Follows (text short long : String) (vs : List Value) : Prop where
  same : (∀ v ∈ vs, v = .null) → short = text
  longer : short.length + vs.countP (· ≠ .null) ≤ long.length

namespace Follows

variable {t a b t' a' b' : String} {vs ws : List Value}

theorem const (s : String) : Follows s s s [] := ⟨fun _ => rfl, Nat.le_refl _⟩

theorem append (h : Follows t a b vs) (h' : Follows t' a' b' ws) : Follows (t ++ t') (a ++ a') (b ++ b') (vs ++ ws) where
  same hnull := by
    rw [List.forall_mem_append] at hnull
    rw [h.same hnull.1, h'.same hnull.2]
  longer := by
    have hvs := h.longer
    have hws := h'.longer
    rw [String.length_append, String.length_append, List.countP_append]
    omega

theorem before (h : Follows t a b vs) (s : String) : Follows (s ++ t) (s ++ a) (s ++ b) vs := (const s).append h

theorem after (h : Follows t a b vs) (s : String) : Follows (t ++ s) (a ++ s) (b ++ s) vs := by
  have happend := h.append (const s)
  rwa [List.append_nil] at happend

end Follows

/-- A list of texts, one after another. -/
inductive FollowsAll : List String → List String → List String → List Value → Prop
  | nil : FollowsAll [] [] [] []
  | cons {t a b : String} {ts as bs : List String} {vs ws : List Value} :
    Follows t a b vs → FollowsAll ts as bs ws → FollowsAll (t :: ts) (a :: as) (b :: bs) (vs ++ ws)

namespace FollowsAll

variable {ts as bs : List String} {vs : List Value}

theorem joinRest (h : FollowsAll ts as bs vs) (sep : String) :
    Follows (joinRest sep ts) (joinRest sep as) (joinRest sep bs) vs := by
  induction h with
  | nil => exact .const ""
  | cons hfirst _ ih => exact (hfirst.before sep).append ih

theorem join (h : FollowsAll ts as bs vs) (sep : String) : Follows (join sep ts) (join sep as) (join sep bs) vs := by
  cases h with
  | nil => exact .const ""
  | cons hfirst hrest => exact hfirst.append (hrest.joinRest sep)

end FollowsAll

variable {show' : Value → String}

theorem follows_value (hshow : Lengthens show') (v : Value) :
    Follows (show' v) (show' v.short) (show' v.long) [v] where
  same hnull := by
    rw [hnull v (List.mem_singleton.mpr rfl)]
    rfl
  longer := by
    by_cases hv : v = .null
    · rw [hv]
      exact Nat.le_refl _
    · rw [List.countP_singleton, if_pos (decide_eq_true hv)]
      exact hshow v hv

theorem follows_print (hshow : Lengthens show') (w : Fragment) :
    Follows (w.print show') ((w.mapValues .short).print show') ((w.mapValues .long).print show') w.values := by
  induction w with
  | nil => exact .const ""
  | cons piece w ih =>
    cases piece with
    | text s => exact ih.before s
    | value v => exact (follows_value hshow v).append ih

theorem followsAll_print (hshow : Lengthens show') (ws : List Fragment) :
    FollowsAll (ws.map (Fragment.print show')) ((ws.map (Fragment.mapValues .short)).map (Fragment.print show'))
      ((ws.map (Fragment.mapValues .long)).map (Fragment.print show')) (ws.flatMap Fragment.values) := by
  induction ws with
  | nil => exact .nil
  | cons w ws ih => exact .cons (follows_print hshow w) ih

structure Printing.Faithful (printing : Printing) : Prop where
  debug : Lengthens printing.debug
  display : Lengthens printing.display

section

variable {p : Printing}

mutual

theorem follows_expr (hp : p.Faithful) : (e : Expr) →
    Follows (normalizeExpr p e) (normalizeExpr p (mapExpr .short e)) (normalizeExpr p (mapExpr .long e)) (printedExpr e)
  | .value v => by
    cases v with
    | otherString kind text => exact ((follows_value hp.debug (.otherString kind text)).before "Value(").after ")"
    | _ => exact .const "$LIT"
  | .typedString _ _ => .const "$LIT"
  | .unaryOp op expr => (follows_expr hp expr).before op
  | .binaryOp left op right =>
    ((((follows_expr hp left).after " ").after op).after " ").append (follows_expr hp right)
  | .between expr negated low high =>
    ((((((follows_expr hp expr).after (if negated then " NOT " else " ")).after "BETWEEN ").append
      (follows_expr hp low)).after " AND ").append (follows_expr hp high))
  | .function name args => (((follows_arguments hp args).before (name ++ "(")).after ")")
  | .subquery body => ((follows_setExpr hp body).before "(").after ")"
  | .case operand branches elseResult =>
    ((((follows_option hp " " operand).before "CASE").append (follows_branches hp branches)).append
      (follows_option hp " ELSE " elseResult)).after " END"
  | .cast expr dataType => ((((follows_expr hp expr).before "CAST(").after " AS ").after dataType).after ")"
  | .isNull expr => (follows_expr hp expr).after " IS NULL"
  | .isNotNull expr => (follows_expr hp expr).after " IS NOT NULL"
  | .inList expr [] negated => by
    -- nothing is printed for the empty list
    have h := (((follows_expr hp expr).after (if negated then " NOT " else " ")).after "IN ").append (.const "")
    exact h
  | .inList expr (first :: rest) negated =>
    (((follows_expr hp expr).after (if negated then " NOT " else " ")).after "IN ").append
      ((((follows_exprs hp (first :: rest)).join ", ").before "(").after ")")
  | .identifier id => .const id
  | .compoundIdentifier ids => .const (join "." ids)
  | .wildcard => .const "*"
  | .other w => follows_print hp.debug w

theorem follows_option (hp : p.Faithful) (intro : String) : (o : Option Expr) →
    Follows (normalizeOption p intro o) (normalizeOption p intro (mapOption .short o))
      (normalizeOption p intro (mapOption .long o)) (printedOption o)
  | some expr => (follows_expr hp expr).before intro
  | none => .const ""

theorem follows_branches (hp : p.Faithful) : (bs : List (Expr × Expr)) →
    Follows (normalizeBranches p bs) (normalizeBranches p (mapBranches .short bs))
      (normalizeBranches p (mapBranches .long bs)) (printedBranches bs)
  | [] => .const ""
  | (cond, res) :: rest =>
    ((((follows_expr hp cond).before " WHEN ").after " THEN ").append (follows_expr hp res)).append (follows_branches hp rest)

theorem follows_exprs (hp : p.Faithful) : (es : List Expr) →
    FollowsAll (normalizeExprs p es) (normalizeExprs p (mapExprs .short es)) (normalizeExprs p (mapExprs .long es))
      (printedExprs es)
  | [] => .nil
  | expr :: rest => .cons (follows_expr hp expr) (follows_exprs hp rest)

theorem follows_arguments (hp : p.Faithful) : (a : FunctionArguments) →
    Follows (normalizeArguments p a) (normalizeArguments p (mapArguments .short a))
      (normalizeArguments p (mapArguments .long a)) (printedArguments a)
  | .list args => (follows_args hp args).join ", "
  | .subquery => .const "($LIT)"
  | .none => .const ""

theorem follows_args (hp : p.Faithful) : (as : List FunctionArg) →
    FollowsAll (normalizeArgs p as) (normalizeArgs p (mapArgs .short as)) (normalizeArgs p (mapArgs .long as))
      (printedArgs as)
  | [] => .nil
  | arg :: rest => .cons (follows_funcArg hp arg) (follows_args hp rest)

theorem follows_funcArg (hp : p.Faithful) : (a : FunctionArg) →
    Follows (normalizeFuncArg p a) (normalizeFuncArg p (mapFuncArg .short a)) (normalizeFuncArg p (mapFuncArg .long a))
      (printedFuncArg a)
  | .unnamed arg => follows_funcArgExpr hp arg
  | .named name arg => (follows_funcArgExpr hp arg).before (name ++ " => ")

theorem follows_funcArgExpr (hp : p.Faithful) : (a : FunctionArgExpr) →
    Follows (normalizeFuncArgExpr p a) (normalizeFuncArgExpr p (mapFuncArgExpr .short a))
      (normalizeFuncArgExpr p (mapFuncArgExpr .long a)) (printedFuncArgExpr a)
  | .expr expr => follows_expr hp expr
  | .other w => follows_print hp.debug w

theorem follows_selectItem (hp : p.Faithful) : (i : SelectItem) →
    Follows (normalizeSelectItem p i) (normalizeSelectItem p (mapSelectItem .short i))
      (normalizeSelectItem p (mapSelectItem .long i)) (printedSelectItem i)
  | .unnamedExpr expr => follows_expr hp expr
  | .exprWithAlias expr name => ((follows_expr hp expr).after " AS ").after name
  | .qualifiedWildcard name => .const (name ++ ".*")
  | .wildcard => .const "*"

theorem follows_selectItems (hp : p.Faithful) : (is : List SelectItem) →
    FollowsAll (normalizeSelectItems p is) (normalizeSelectItems p (mapSelectItems .short is))
      (normalizeSelectItems p (mapSelectItems .long is)) (printedSelectItems is)
  | [] => .nil
  | item :: rest => .cons (follows_selectItem hp item) (follows_selectItems hp rest)

theorem follows_groupBy (hp : p.Faithful) : (g : GroupByExpr) →
    Follows (normalizeGroupBy p g) (normalizeGroupBy p (mapGroupBy .short g)) (normalizeGroupBy p (mapGroupBy .long g))
      (printedGroupBy g)
  | .all => .const ""
  | .expressions [] => .const ""
  | .expressions (first :: rest) => ((follows_exprs hp (first :: rest)).join ", ").before " GROUP BY "

theorem follows_setExpr (hp : p.Faithful) : (s : SetExpr) →
    Follows (normalizeSetExpr p s) (normalizeSetExpr p (mapSetExpr .short s)) (normalizeSetExpr p (mapSetExpr .long s))
      (printedSetExpr s)
  | .select distinct projection relations selection groupBy _ => by
    have hrelations : Follows
        (if relations.isEmpty then "" else " FROM " ++ join ", " (relations.map (Fragment.print p.display)))
        (if (relations.map (Fragment.mapValues .short)).isEmpty then ""
          else " FROM " ++ join ", " ((relations.map (Fragment.mapValues .short)).map (Fragment.print p.display)))
        (if (relations.map (Fragment.mapValues .long)).isEmpty then ""
          else " FROM " ++ join ", " ((relations.map (Fragment.mapValues .long)).map (Fragment.print p.display)))
        (relations.flatMap Fragment.values) := by
      cases relations with
      | nil => exact .const ""
      | cons first rest => exact ((followsAll_print hp.display (first :: rest)).join ", ").before " FROM "
    exact (((((follows_selectItems hp projection).join ", ").before ("SELECT " ++ if distinct then "DISTINCT " else "")).append
      hrelations).append (follows_option hp " WHERE " selection)).append (follows_groupBy hp groupBy)
  | .setOperation op left right =>
    ((((((follows_setExpr hp left).before "(").after ") ").after op).after " (").append (follows_setExpr hp right)).after ")"
  | .other w => follows_print hp.debug w

end

end

variable {p : Printing}

theorem follows_statement (hp : p.Faithful) (s : Statement) :
    Follows (normalizeStatement p s) (normalizeStatement p (mapStatement .short s))
      (normalizeStatement p (mapStatement .long s)) (printedStatement s) := by
  cases s with
  | query body => exact follows_setExpr hp body
  | insert => exact .const "INSERT INTO ... VALUES (...)"
  | update => exact .const "UPDATE ... SET ..."
  | delete => exact .const "DELETE FROM ..."
  | other w => exact follows_print hp.debug w

theorem follows_statements (hp : p.Faithful) (statements : List Statement) :
    Follows (normalizeStatements p statements) (normalizeStatements p (statements.map (mapStatement .short)))
      (normalizeStatements p (statements.map (mapStatement .long))) (statements.flatMap printedStatement) := by
  apply FollowsAll.join
  induction statements with
  | nil => exact .nil
  | cons s statements ih => exact .cons (follows_statement hp s) ih

section

variable {f g h : Value → Value}

theorem Fragment.mapValues_mapValues (hfg : ∀ v, f (g v) = h v) (w : Fragment) : (w.mapValues g).mapValues f = w.mapValues h := by
  unfold mapValues
  rw [List.map_map]
  apply List.map_congr_left
  intro piece _
  cases piece with
  | text s => rfl
  | value v => exact congrArg Piece.value (hfg v)

mutual

theorem mapExpr_mapExpr (hfg : ∀ v, f (g v) = h v) : (e : Expr) →
    mapExpr f (mapExpr g e) = mapExpr h e
  | .value v => by simp only [mapExpr, hfg]
  | .typedString dataType v => by simp only [mapExpr, hfg]
  | .unaryOp op expr => by simp only [mapExpr, mapExpr_mapExpr hfg expr]
  | .binaryOp left op right => by simp only [mapExpr, mapExpr_mapExpr hfg left, mapExpr_mapExpr hfg right]
  | .between expr negated low high => by
    simp only [mapExpr, mapExpr_mapExpr hfg expr, mapExpr_mapExpr hfg low, mapExpr_mapExpr hfg high]
  | .function name args => by simp only [mapExpr, mapArguments_mapArguments hfg args]
  | .subquery body => by simp only [mapExpr, mapSetExpr_mapSetExpr hfg body]
  | .case operand branches elseResult => by
    simp only [mapExpr, mapOption_mapOption hfg operand, mapBranches_mapBranches hfg branches,
      mapOption_mapOption hfg elseResult]
  | .cast expr dataType => by simp only [mapExpr, mapExpr_mapExpr hfg expr]
  | .isNull expr => by simp only [mapExpr, mapExpr_mapExpr hfg expr]
  | .isNotNull expr => by simp only [mapExpr, mapExpr_mapExpr hfg expr]
  | .inList expr list negated => by simp only [mapExpr, mapExpr_mapExpr hfg expr, mapExprs_mapExprs hfg list]
  | .identifier _ => rfl
  | .compoundIdentifier _ => rfl
  | .wildcard => rfl
  | .other w => congrArg Expr.other (w.mapValues_mapValues hfg)

theorem mapOption_mapOption (hfg : ∀ v, f (g v) = h v) : (o : Option Expr) →
    mapOption f (mapOption g o) = mapOption h o
  | some expr => by simp only [mapOption, mapExpr_mapExpr hfg expr]
  | none => rfl

theorem mapBranches_mapBranches (hfg : ∀ v, f (g v) = h v) : (bs : List (Expr × Expr)) →
    mapBranches f (mapBranches g bs) = mapBranches h bs
  | [] => rfl
  | (cond, res) :: rest => by
    simp only [mapBranches, mapExpr_mapExpr hfg cond, mapExpr_mapExpr hfg res, mapBranches_mapBranches hfg rest]

theorem mapExprs_mapExprs (hfg : ∀ v, f (g v) = h v) : (es : List Expr) →
    mapExprs f (mapExprs g es) = mapExprs h es
  | [] => rfl
  | expr :: rest => by simp only [mapExprs, mapExpr_mapExpr hfg expr, mapExprs_mapExprs hfg rest]

theorem mapArguments_mapArguments (hfg : ∀ v, f (g v) = h v) : (a : FunctionArguments) →
    mapArguments f (mapArguments g a) = mapArguments h a
  | .list args => by simp only [mapArguments, mapArgs_mapArgs hfg args]
  | .subquery => rfl
  | .none => rfl

theorem mapArgs_mapArgs (hfg : ∀ v, f (g v) = h v) : (as : List FunctionArg) →
    mapArgs f (mapArgs g as) = mapArgs h as
  | [] => rfl
  | arg :: rest => by simp only [mapArgs, mapFuncArg_mapFuncArg hfg arg, mapArgs_mapArgs hfg rest]

theorem mapFuncArg_mapFuncArg (hfg : ∀ v, f (g v) = h v) : (a : FunctionArg) →
    mapFuncArg f (mapFuncArg g a) = mapFuncArg h a
  | .unnamed arg => by simp only [mapFuncArg, mapFuncArgExpr_mapFuncArgExpr hfg arg]
  | .named name arg => by simp only [mapFuncArg, mapFuncArgExpr_mapFuncArgExpr hfg arg]

theorem mapFuncArgExpr_mapFuncArgExpr (hfg : ∀ v, f (g v) = h v) : (a : FunctionArgExpr) →
    mapFuncArgExpr f (mapFuncArgExpr g a) = mapFuncArgExpr h a
  | .expr expr => by simp only [mapFuncArgExpr, mapExpr_mapExpr hfg expr]
  | .other w => congrArg FunctionArgExpr.other (w.mapValues_mapValues hfg)

theorem mapSelectItem_mapSelectItem (hfg : ∀ v, f (g v) = h v) : (i : SelectItem) →
    mapSelectItem f (mapSelectItem g i) = mapSelectItem h i
  | .unnamedExpr expr => by simp only [mapSelectItem, mapExpr_mapExpr hfg expr]
  | .exprWithAlias expr name => by simp only [mapSelectItem, mapExpr_mapExpr hfg expr]
  | .qualifiedWildcard _ => rfl
  | .wildcard => rfl

theorem mapSelectItems_mapSelectItems (hfg : ∀ v, f (g v) = h v) : (is : List SelectItem) →
    mapSelectItems f (mapSelectItems g is) = mapSelectItems h is
  | [] => rfl
  | item :: rest => by
    simp only [mapSelectItems, mapSelectItem_mapSelectItem hfg item, mapSelectItems_mapSelectItems hfg rest]

theorem mapGroupBy_mapGroupBy (hfg : ∀ v, f (g v) = h v) : (e : GroupByExpr) →
    mapGroupBy f (mapGroupBy g e) = mapGroupBy h e
  | .all => rfl
  | .expressions exprs => by simp only [mapGroupBy, mapExprs_mapExprs hfg exprs]

theorem mapSetExpr_mapSetExpr (hfg : ∀ v, f (g v) = h v) : (s : SetExpr) →
    mapSetExpr f (mapSetExpr g s) = mapSetExpr h s
  | .select distinct projection relations selection groupBy having => by
    have hrelations : (relations.map (Fragment.mapValues g)).map (Fragment.mapValues f) =
        relations.map (Fragment.mapValues h) := by
      rw [List.map_map]
      exact List.map_congr_left fun w _ => w.mapValues_mapValues hfg
    simp only [mapSetExpr, mapSelectItems_mapSelectItems hfg projection, hrelations,
      mapOption_mapOption hfg selection, mapGroupBy_mapGroupBy hfg groupBy, mapOption_mapOption hfg having]
  | .setOperation op left right => by
    simp only [mapSetExpr, mapSetExpr_mapSetExpr hfg left, mapSetExpr_mapSetExpr hfg right]
  | .other w => congrArg SetExpr.other (w.mapValues_mapValues hfg)

end

theorem mapStatement_mapStatement (hfg : ∀ v, f (g v) = h v) (s : Statement) :
    mapStatement f (mapStatement g s) = mapStatement h s := by
  cases s with
  | query body => exact congrArg Statement.query (mapSetExpr_mapSetExpr hfg body)
  | insert => rfl
  | update => rfl
  | delete => rfl
  | other w => exact congrArg Statement.other (w.mapValues_mapValues hfg)

end

theorem sameShape_map {g : Value → Value} (hg : ∀ v, (g v).short = v.short) (statements : List Statement) :
    SameShape statements (statements.map (mapStatement g)) := by
  unfold SameShape
  rw [List.map_map]
  exact List.map_congr_left fun s _ => (mapStatement_mapStatement hg s).symm

theorem printedStatements_map (statements : List Statement) :
    (statements.map (mapStatement .short)).flatMap printedStatement =
      (statements.flatMap printedStatement).map .short := by
  rw [List.flatMap_map, List.map_flatMap]
  exact List.flatMap_congr fun s _ => printedStatement_map s

theorem SameShape.null_iff {statements statements' : List Statement} (h : SameShape statements statements') :
    (∀ v ∈ statements.flatMap printedStatement, v = .null) ↔
      ∀ v ∈ statements'.flatMap printedStatement, v = .null := by
  have hnull : ∀ statements : List Statement, (∀ v ∈ statements.flatMap printedStatement, v = .null) ↔
      ∀ v ∈ (statements.map (mapStatement .short)).flatMap printedStatement, v = .null := by
    intro statements
    rw [printedStatements_map, List.forall_mem_map]
    exact forall₂_congr fun v _ => Value.short_eq_null_iff.symm
  rw [hnull statements, hnull statements', h]

theorem same_text_iff (hp : p.Faithful) (statements : List Statement) :
    (∀ statements', SameShape statements statements' →
        normalizeStatements p statements' = normalizeStatements p statements) ↔
      ∀ v ∈ statements.flatMap printedStatement, v = .null := by
  constructor
  · intro hgrouped
    have hshort := hgrouped _ (sameShape_map Value.short_short statements)
    have hlong := hgrouped _ (sameShape_map Value.short_long statements)
    -- the short and the long form would have one length
    have hlonger := (follows_statements hp statements).longer
    rw [hshort, hlong] at hlonger
    have hcount : (statements.flatMap printedStatement).countP (· ≠ .null) = 0 := by omega
    intro v hv
    by_contra hne
    exact List.countP_eq_zero.mp hcount v hv (decide_eq_true hne)
  · intro hnull statements' hshape
    -- both texts are the text of the common short form
    have htext := (follows_statements hp statements).same hnull
    have htext' := (follows_statements hp statements').same (hshape.null_iff.mp hnull)
    rw [← htext, ← htext', hshape]

/-- Whatever texts the parser reads these trees, and trees of their shape, from: the queries have one text. -/
def Grouped (p : Printing) (statements : List Statement) : Prop :=
  ∀ (parse : String → Except String (List Statement)) (query query' : String) (statements' : List Statement),
    parse query = .ok statements → parse query' = .ok statements' → SameShape statements statements' →
      normalizeQuery p parse query' = normalizeQuery p parse query

theorem normalizeQuery_of_parse {parse : String → Except String (List Statement)} {query : String}
    {statements : List Statement} (h : parse query = .ok statements) :
    normalizeQuery p parse query = .ok (normalizeStatements p statements) := by
  unfold normalizeQuery
  rw [h]
  cases statements with
  | nil => rfl
  | cons s statements => rfl

theorem grouped_iff {p : Printing} (hp : p.Faithful) (statements : List Statement) :
    Grouped p statements ↔ ∀ v ∈ statements.flatMap printedStatement, v = .null := by
  rw [← same_text_iff hp]
  constructor
  · intro hgrouped statements' hshape
    -- a parser that reads the two from two texts
    let parse : String → Except String (List Statement) :=
      fun query => if query = "" then .ok statements else .ok statements'
    have hparse : parse "" = .ok statements := rfl
    have hparse' : parse "a" = .ok statements' := rfl
    have hsame := hgrouped parse "" "a" statements' hparse hparse' hshape
    rw [normalizeQuery_of_parse hparse, normalizeQuery_of_parse hparse'] at hsame
    exact Except.ok.inj hsame
  · intro hsame parse query query' statements' hparse hparse' hshape
    rw [normalizeQuery_of_parse hparse, normalizeQuery_of_parse hparse', hsame statements' hshape]

def quoted (s : String) : String := "\"" ++ s ++ "\""

/-- As the library prints literals with nothing in them to escape. -/
def plainPrinting : Printing where
  debug
    | .number text long => "Number(" ++ quoted text ++ ", " ++ toString long ++ ")"
    | .singleQuotedString text => "SingleQuotedString(" ++ quoted text ++ ")"
    | .doubleQuotedString text => "DoubleQuotedString(" ++ quoted text ++ ")"
    | .boolean b => "Boolean(" ++ toString b ++ ")"
    | .null => "Null"
    | .otherString kind text => kind ++ "(" ++ quoted text ++ ")"
  display
    | .number text long => text ++ if long then "L" else ""
    | .singleQuotedString text => "'" ++ text ++ "'"
    | .doubleQuotedString text => quoted text
    | .boolean b => toString b
    | .null => "NULL"
    | .otherString _ text => "'" ++ text ++ "'"

theorem faithful_plainPrinting : plainPrinting.Faithful := by
  have hquoted : (quoted "").length < (quoted "a").length := by decide
  constructor
  · intro v hv
    cases v with
    | null => exact absurd rfl hv
    | number text long =>
      show (plainPrinting.debug (.number "1" false)).length < (plainPrinting.debug (.number "10" false)).length
      decide
    | singleQuotedString text =>
      show (plainPrinting.debug (.singleQuotedString "")).length < (plainPrinting.debug (.singleQuotedString "a")).length
      decide
    | doubleQuotedString text =>
      show (plainPrinting.debug (.doubleQuotedString "")).length < (plainPrinting.debug (.doubleQuotedString "a")).length
      decide
    | boolean b =>
      show (plainPrinting.debug (.boolean true)).length < (plainPrinting.debug (.boolean false)).length
      decide
    | otherString kind text =>
      show (kind ++ "(" ++ quoted "" ++ ")").length < (kind ++ "(" ++ quoted "a" ++ ")").length
      simp only [String.length_append]
      omega
  · intro v hv
    cases v with
    | null => exact absurd rfl hv
    | number text long => exact (by decide : "1".length < "10".length)
    | singleQuotedString text => exact (by decide : "''".length < "'a'".length)
    | doubleQuotedString text => exact hquoted
    | boolean b => exact (by decide : "true".length < "false".length)
    | otherString kind text => exact (by decide : "''".length < "'a'".length)

/-- `SELECT * FROM users WHERE ...`. -/
def usersWhere (selection : Expr) : Statement :=
  .query (.select false [.wildcard] [[.text "users"]] (some selection) (.expressions []) none)

/-- `age > ...`. -/
def olderThan (age : String) : Statement := usersWhere (.binaryOp (.identifier "age") ">" (.value (.number age false)))

theorem olderThan_grouped :
    normalizeStatements plainPrinting [olderThan "30"] = normalizeStatements plainPrinting [olderThan "25"] := by
  have hnull : ∀ v ∈ [olderThan "25"].flatMap printedStatement, v = .null := by
    intro v hv
    cases hv
  let parse : String → Except String (List Statement) :=
    fun query => if query = "" then .ok [olderThan "25"] else .ok [olderThan "30"]
  have hsame := (grouped_iff faithful_plainPrinting [olderThan "25"]).mpr hnull parse "" "a" [olderThan "30"] rfl rfl rfl
  exact Except.ok.inj hsame

/-- `(age > ...)`, as `Debug` prints it. -/
def nestedOlderThan (age : String) : Statement :=
  usersWhere (.other [
    .text "Nested(BinaryOp \x7b left: Identifier(Ident \x7b value: \"age\", quote_style: None \x7d), op: Gt, right: Value(",
    .value (.number age false), .text ") \x7d)"])

/-- In parentheses the numbers stay. -/
theorem nestedOlderThan_apart : SameShape [nestedOlderThan "25"] [nestedOlderThan "30"] ∧
    normalizeStatements plainPrinting [nestedOlderThan "25"] ≠ normalizeStatements plainPrinting [nestedOlderThan "30"] :=
  ⟨rfl, by decide⟩

end Northstar.QueryPlan.Normalizer

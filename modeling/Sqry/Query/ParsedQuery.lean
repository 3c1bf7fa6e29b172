import Sqry.Lib.SortedGroups
import Sqry.Query.Ast

/-!
Scoping a query to repositories. The patterns of the `repo:` predicates select the
repositories that are searched, and the query that is run there has these predicates taken
out.
-/

namespace Sqry

/-- The `globset` crate: a set of patterns, when it compiles, matches what one of its
patterns matches. -/
structure Globset where
  isMatch : String → String → Bool
  build : List String → Option (String → Bool)
  build_eq : ∀ {patterns matcher}, build patterns = some matcher →
    ∀ name, matcher name = patterns.any fun p => isMatch p name

structure RepoFilter where
  matcher : Option (String → Bool)
  patterns : List String

namespace RepoFilter

def new (globs : Globset) (patterns : List String) : Option RepoFilter :=
  if patterns.isEmpty then some ⟨none, patterns⟩
  else
    match globs.build patterns with
    | none => none
    | some matcher => some ⟨some matcher, patterns⟩

def isUniversal (filter : RepoFilter) : Bool := filter.matcher.isNone

def isMatch (filter : RepoFilter) (repoName : String) : Bool :=
  match filter.matcher with
  | some matcher => matcher repoName
  | none => true

theorem isMatch_of_new {globs : Globset} {patterns : List String} {filter : RepoFilter}
    (h : new globs patterns = some filter) (name : String) :
    filter.isMatch name = (patterns.isEmpty || patterns.any fun p => globs.isMatch p name) := by
  rw [new] at h
  cases patterns with
  | nil =>
    cases h
    rfl
  | cons p ps =>
    cases hbuild : globs.build (p :: ps) with
    | none => simp [hbuild] at h
    | some matcher =>
      simp only [hbuild, List.isEmpty_cons, Bool.false_eq_true, if_false,
        Option.some.injEq] at h
      rw [← h, List.isEmpty_cons, Bool.false_or]
      exact globs.build_eq hbuild name

end RepoFilter

section Extract

mutual

/-- The patterns found so far and a flag are threaded through the expression; the flag
tells of a repo predicate in a negated context. -/
def collectRepoPatterns : Expr → List String → Bool → Bool × List String
  | .and operands, patterns, isNegated => collectRepoOperands operands patterns isNegated
  | .or operands, patterns, isNegated => collectRepoOperands operands patterns isNegated
  | .not operand, patterns, isNegated => collectRepoPatterns operand patterns (!isNegated)
  | .condition field operator value _, patterns, isNegated =>
    if field = "repo" then
      if isNegated then (true, patterns)
      else
        match operator, value with
        | .equal, .string pattern => (false, patterns ++ [pattern])
        | _, _ => (false, patterns)
    else (false, patterns)
  | .join left _ right _, patterns, isNegated =>
    let (foundLeft, patterns) := collectRepoPatterns left patterns isNegated
    let (foundRight, patterns) := collectRepoPatterns right patterns isNegated
    (foundLeft || foundRight, patterns)

def collectRepoOperands : List Expr → List String → Bool → Bool × List String
  | [], patterns, _ => (false, patterns)
  | operand :: operands, patterns, isNegated =>
    let (found, patterns) := collectRepoPatterns operand patterns isNegated
    let (foundLater, patterns) := collectRepoOperands operands patterns isNegated
    (found || foundLater, patterns)

end

def extractRepoFilter (globs : Globset) (ast : Query) : Option RepoFilter :=
  let (hasNegatedRepo, patterns) := collectRepoPatterns ast.root [] false
  if hasNegatedRepo then RepoFilter.new globs [] else RepoFilter.new globs patterns

end Extract

section Strip

mutual

def stripRepoFromExpr : Expr → Option Expr
  | .and operands =>
    match stripRepoOperands operands with
    | [] => none
    | [e] => some e
    | filtered => some (.and filtered)
  | .or operands =>
    match stripRepoOperands operands with
    | [] => none
    | [e] => some e
    | filtered => some (.or filtered)
  | .not operand => (stripRepoFromExpr operand).map .not
  | .condition field operator value span =>
    if field = "repo" then none else some (.condition field operator value span)
  | .join left edge right span =>
    match stripRepoFromExpr left with
    | none => none
    | some left =>
      match stripRepoFromExpr right with
      | none => none
      | some right => some (.join left edge right span)

/-- `filter_map` over the operands. -/
def stripRepoOperands : List Expr → List Expr
  | [] => []
  | operand :: operands =>
    match stripRepoFromExpr operand with
    | none => stripRepoOperands operands
    | some e => e :: stripRepoOperands operands

end

def stripRepoPredicates (ast : Query) : Option Query :=
  (stripRepoFromExpr ast.root).map fun root => ⟨root, ast.span⟩

theorem stripRepoOperands_eq (es : List Expr) :
    stripRepoOperands es = es.filterMap stripRepoFromExpr := by
  induction es with
  | nil => rfl
  | cons e es ih =>
    rw [stripRepoOperands, List.filterMap_cons, ih]
    cases stripRepoFromExpr e <;> rfl

end Strip

section Meaning

variable {Node : Type}

structure RepoGraph (Node : Type) where
  name : String
  /-- The conditions other than `repo:pattern`. -/
  holds : String → Operator → Value → Node → Prop
  joined : JoinEdgeKind → Node → Node → Prop

def RepoGraph.Meets (repo : RepoGraph Node) (globs : Globset) (field : String)
    (operator : Operator) (value : Value) (n : Node) : Prop :=
  match field, operator, value with
  | "repo", .equal, .string pattern => globs.isMatch pattern repo.name = true
  | _, _, _ => repo.holds field operator value n

mutual

/-- A node satisfies a join when it is an end of an edge between nodes that satisfy the two
sides. -/
def Expr.Sat (globs : Globset) (repo : RepoGraph Node) : Expr → Node → Prop
  | .and operands, n => Expr.SatAll globs repo operands n
  | .or operands, n => Expr.SatAny globs repo operands n
  | .not operand, n => ¬ operand.Sat globs repo n
  | .condition field operator value _, n => repo.Meets globs field operator value n
  | .join left edge right _, n =>
    (left.Sat globs repo n ∧ ∃ m, repo.joined edge n m ∧ right.Sat globs repo m) ∨
      (right.Sat globs repo n ∧ ∃ m, repo.joined edge m n ∧ left.Sat globs repo m)

def Expr.SatAll (globs : Globset) (repo : RepoGraph Node) : List Expr → Node → Prop
  | [], _ => True
  | e :: es, n => e.Sat globs repo n ∧ Expr.SatAll globs repo es n

def Expr.SatAny (globs : Globset) (repo : RepoGraph Node) : List Expr → Node → Prop
  | [], _ => False
  | e :: es, n => e.Sat globs repo n ∨ Expr.SatAny globs repo es n

end

variable {globs : Globset} {repo : RepoGraph Node}

theorem Expr.satAll_iff {es : List Expr} {n : Node} :
    Expr.SatAll globs repo es n ↔ ∀ e ∈ es, e.Sat globs repo n := by
  induction es with
  | nil => simp [Expr.SatAll]
  | cons e es ih => simp [Expr.SatAll, ih]

theorem Expr.satAny_iff {es : List Expr} {n : Node} :
    Expr.SatAny globs repo es n ↔ ∃ e ∈ es, e.Sat globs repo n := by
  induction es with
  | nil => simp [Expr.SatAny]
  | cons e es ih => simp [Expr.SatAny, ih]

def Expr.KeptBy (globs : Globset) (repo : RepoGraph Node) (stripped : Option Expr)
    (n : Node) : Prop :=
  match stripped with
  | none => True
  | some e => e.Sat globs repo n

/-- The filter admits every repository, and the stripped query every node, that the query
has a result in. -/
def Query.LosesNothing (ast : Query) : Prop :=
  ∀ (globs : Globset) (Node : Type) (repo : RepoGraph Node) (n : Node) (filter : RepoFilter),
    extractRepoFilter globs ast = some filter → ast.root.Sat globs repo n →
      filter.isMatch repo.name = true ∧
        Expr.KeptBy globs repo ((stripRepoPredicates ast).map Query.root) n

end Meaning

end Sqry

/-!
The canonical form of a query: its repository filter, and the text of the query without its
repo predicates, from which the key of the result cache is computed.
-/

namespace Sqry

section Serialize

def Operator.text : Operator → String
  | .equal => ":"
  | .regex => "~="
  | .greater => ">"
  | .greaterEq => ">="
  | .less => "<"
  | .lessEq => "<="

def JoinEdgeKind.text : JoinEdgeKind → String
  | .calls => "CALLS"
  | .imports => "IMPORTS"
  | .inherits => "INHERITS"
  | .implements => "IMPLEMENTS"

def RegexFlags.text (flags : RegexFlags) : String :=
  (if flags.caseInsensitive then "i" else "") ++ (if flags.multiline then "m" else "") ++
    (if flags.dotAll then "s" else "")

def joinParts (separator : String) : List String → String
  | [] => ""
  | [part] => part
  | part :: next :: parts => part ++ separator ++ joinParts separator (next :: parts)

mutual

def serializeExpr : Expr → String
  | .and operands => joinParts " AND " (serializeAll operands)
  | .or operands => "(" ++ joinParts " OR " (serializeAll operands) ++ ")"
  | .not operand => "NOT " ++ serializeExpr operand
  | .condition field operator value _ => field ++ operator.text ++ serializeValue value
  | .join left edge right _ =>
    "(" ++ serializeExpr left ++ ") " ++ edge.text ++ " (" ++ serializeExpr right ++ ")"

def serializeAll : List Expr → List String
  | [] => []
  | e :: es => serializeExpr e :: serializeAll es

def serializeValue : Value → String
  | .string s => s
  | .number n => toString n
  | .boolean b => toString b
  | .regex r => "/" ++ r.pattern ++ "/" ++ r.flags.text
  | .variable name => "$" ++ name
  | .subquery e => "(" ++ serializeExpr e ++ ")"

end

def serializeQuery (ast : Query) : String := serializeExpr ast.root

end Serialize

structure ParsedQuery where
  ast : Query
  repoFilter : RepoFilter
  normalized : String

namespace ParsedQuery

def fromAst (globs : Globset) (ast : Query) : Option ParsedQuery :=
  match extractRepoFilter globs ast with
  | none => none
  | some repoFilter =>
    let normalized :=
      match stripRepoPredicates ast with
      | some normAst => serializeQuery normAst
      | none => ""
    some ⟨ast, repoFilter, normalized⟩

end ParsedQuery

structure CacheKey where
  queryHash : Nat
  pluginHash : Nat
  fileSetHash : Nat
  rootPathHash : Nat
  repoFilterHash : Nat
  deriving DecidableEq

namespace CacheKey

def utf8 (s : String) : List UInt8 := s.toByteArray.data.toList

/-- The bytes that `hash_string` writes to its hasher. -/
def queryStream (queryStr : String) : List UInt8 := utf8 queryStr

/-- The bytes that `hash_repo_patterns` writes to its hasher; no hasher is made when there
are no patterns. -/
def repoStream (patterns : List String) : Option (List UInt8) :=
  if patterns.isEmpty then none
  else some ((SortedGroups.sortBy compare patterns).flatMap utf8)

def fromString (finish : List UInt8 → Nat) (queryStr : String)
    (pluginHash fileSetHash rootPathHash : Nat) (repoFilterPatterns : List String) : CacheKey where
  queryHash := finish (queryStream queryStr)
  pluginHash := pluginHash
  fileSetHash := fileSetHash
  rootPathHash := rootPathHash
  repoFilterHash :=
    match repoStream repoFilterPatterns with
    | none => 0
    | some bytes => finish bytes

end CacheKey

end Sqry

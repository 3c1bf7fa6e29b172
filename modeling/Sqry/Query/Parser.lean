import Sqry.Lib.Cursor
import Sqry.Query.Ast

/-!
The parser of queries: a recursive descent over the vector of tokens. It moves a position along
the vector, and `advance` gives the token before the position. Steps are counted by a fuel.
-/

namespace Sqry

def QuerySpan.merge (a b : QuerySpan) : QuerySpan where
  start := min a.start b.start
  stop := max a.stop b.stop
  line := min a.line b.line
  column := a.column

def RegexFlags.default : RegexFlags := ⟨false, false, false⟩

def isRelationField (field : String) : Bool :=
  field == "callers" || field == "callees" || field == "imports" || field == "exports" ||
    field == "impl" || field == "implements" || field == "references"

namespace QueryParser
open Cursor (Reading)

inductive TokenType where
  | and | or | not
  | colon | regexOp | greater | less | greaterEq | lessEq | pipe
  | lParen | rParen
  | identifier (name : String)
  | stringLiteral (value : String)
  | regexLiteral (pattern : String) (flags : RegexFlags)
  | numberLiteral (n : Int)
  | booleanLiteral (b : Bool)
  | word (w : String)
  | variable (name : String)
  | eof
  deriving DecidableEq, Repr

structure Token where
  tokenType : TokenType
  span : QuerySpan
  deriving DecidableEq, Repr

inductive ParseError where
  | emptyQuery
  | expectedIdentifier (token : Token)
  | expectedOperator (token : Token)
  | expectedValue (token : Token)
  | unmatchedParen (openSpan : QuerySpan) (eof : Bool)
  | unexpectedToken (token : Token) (expected : String)
  deriving DecidableEq, Repr

abbrev Parsed (α : Type) := Reading ParseError α

section Words

def eqIgnoreAsciiCase (a b : String) : Bool :=
  a.toList.map Char.toLower == b.toList.map Char.toLower

/-- `to_uppercase`; `upper` is the upper case of a character outside ASCII. -/
def toUppercase (upper : Char → List Char) (w : String) : String :=
  String.ofList (w.toList.flatMap fun c => if c.toNat < 128 then [c.toUpper] else upper c)

/-- The join keyword that `parse_join` reads in a token. -/
def joinEdge (upper : Char → List Char) : TokenType → Option JoinEdgeKind
  | .word w =>
    if toUppercase upper w = "CALLS" then some .calls
    else if toUppercase upper w = "IMPORTS" then some .imports
    else if toUppercase upper w = "INHERITS" then some .inherits
    else if toUppercase upper w = "IMPLEMENTS" then some .implements
    else none
  | _ => none

def isJoinKeyword : TokenType → Bool
  | .word w =>
    eqIgnoreAsciiCase w "CALLS" || eqIgnoreAsciiCase w "IMPORTS" ||
      eqIgnoreAsciiCase w "INHERITS" || eqIgnoreAsciiCase w "IMPLEMENTS"
  | _ => false

end Words

section Tokens
variable (tokens : List Token)

def peek (position : Nat) : Parsed Token :=
  match tokens[position]? with
  | some token => .ok token position
  | none => .outside

def isAtEnd (position : Nat) : Parsed Bool :=
  (peek tokens position).andThen fun token position => .ok (token.tokenType == .eof) position

/-- `self.tokens[self.position - 1]` -/
def previous : Nat → Parsed Token
  | 0 => .outside
  | before + 1 =>
    match tokens[before]? with
    | some token => .ok token (before + 1)
    | none => .outside

def advance (position : Nat) : Parsed Token :=
  (isAtEnd tokens position).andThen fun atEnd position =>
    previous tokens (if atEnd then position else position + 1)

def check (tokenType : TokenType) (position : Nat) : Parsed Bool :=
  (isAtEnd tokens position).andThen fun atEnd position =>
    if atEnd then .ok false position
    else
      (peek tokens position).andThen fun token position =>
        .ok (token.tokenType.ctorIdx == tokenType.ctorIdx) position

def matchToken (tokenType : TokenType) (position : Nat) : Parsed Bool :=
  (check tokens tokenType position).andThen fun found position =>
    if found then (advance tokens position).andThen fun _ position => .ok true position
    else .ok false position

end Tokens

section Expressions

def andOf : List Expr → Expr
  | [operand] => operand
  | operands => .and operands

def orOf : List Expr → Expr
  | [operand] => operand
  | operands => .or operands

def mergeSpans : Option QuerySpan → Option QuerySpan → Option QuerySpan
  | some first, some last => some (first.merge last)
  | _, _ => none

mutual

def exprSpan : Expr → Option QuerySpan
  | .condition _ _ _ span => some span
  | .join _ _ _ span => some span
  | .and operands => mergeSpans (firstSpan operands) (lastSpan operands)
  | .or operands => mergeSpans (firstSpan operands) (lastSpan operands)
  | .not inner => exprSpan inner

def firstSpan : List Expr → Option QuerySpan
  | [] => none
  | operand :: _ => exprSpan operand

def lastSpan : List Expr → Option QuerySpan
  | [] => none
  | [operand] => exprSpan operand
  | _ :: operand :: operands => lastSpan (operand :: operands)

end

def joinSpan (left : Expr) (joinToken : Token) : QuerySpan :=
  match exprSpan left with
  | some leftSpan => leftSpan.merge joinToken.span
  | none => joinToken.span

end Expressions

section Conditions

def bareName (token : Token) : Option Expr :=
  match token.tokenType with
  | .word w => some (.condition "name" .regex (.regex ⟨w, .default⟩) token.span)
  | .stringLiteral value => some (.condition "name" .equal (.string value) token.span)
  | .regexLiteral pattern flags =>
    some (.condition "name" .regex (.regex ⟨pattern, flags⟩) token.span)
  | .variable name => some (.condition "name" .equal (.variable name) token.span)
  | _ => none

def operatorOf : TokenType → Option Operator
  | .colon => some .equal
  | .regexOp => some .regex
  | .greater => some .greater
  | .less => some .less
  | .greaterEq => some .greaterEq
  | .lessEq => some .lessEq
  | _ => none

def valueOf : TokenType → Option Value
  | .stringLiteral s => some (.string s)
  | .word s => some (.string s)
  | .regexLiteral pattern flags => some (.regex ⟨pattern, flags⟩)
  | .numberLiteral n => some (.number n)
  | .booleanLiteral b => some (.boolean b)
  | .variable name => some (.variable name)
  | _ => none

/-- A string after `~=` is a pattern, and a pattern after `:` is matched. -/
def withValue : Operator → Value → Operator × Value
  | .regex, .string pattern => (.regex, .regex ⟨pattern, .default⟩)
  | .equal, .regex r => (.regex, .regex r)
  | operator, value => (operator, value)

def valueCondition (fieldToken : Token) (field : String) (operator : Operator)
    (valueToken : Token) (value : Value) : Expr :=
  .condition field (withValue operator value).1 (withValue operator value).2
    (fieldToken.span.merge valueToken.span)

end Conditions

section Steps
variable (tokens : List Token)

def conditionHead (position : Nat) : Parsed (Token × String × Operator) :=
  (advance tokens position).andThen fun fieldToken position =>
    match fieldToken.tokenType with
    | .identifier field =>
      (advance tokens position).andThen fun operatorToken position =>
        match operatorOf operatorToken.tokenType with
        | some operator => .ok (fieldToken, field, operator) position
        | none => .error (.expectedOperator operatorToken)
    | _ => .error (.expectedIdentifier fieldToken)

def subqueryAhead (field : String) (operator : Operator) (position : Nat) :
    Parsed (Option Token) :=
  if isRelationField field && operator == .equal then
    (peek tokens position).andThen fun token position =>
      .ok (if token.tokenType == .lParen then some token else none) position
  else .ok none position

def conditionValue (fieldToken : Token) (field : String) (operator : Operator) (position : Nat) :
    Parsed Expr :=
  (advance tokens position).andThen fun valueToken position =>
    match valueOf valueToken.tokenType with
    | some value => .ok (valueCondition fieldToken field operator valueToken value) position
    | none => .error (.expectedValue valueToken)

/-- The closing parenthesis of the one at `openSpan`. -/
def closeParen (openSpan : QuerySpan) (position : Nat) : Parsed Token :=
  (matchToken tokens .rParen position).andThen fun found position =>
    if found then previous tokens position
    else
      (isAtEnd tokens position).andThen fun eof _ => .error (.unmatchedParen openSpan eof)

def implicitAnd (position : Nat) : Parsed Bool :=
  (isAtEnd tokens position).andThen fun atEnd position =>
    if atEnd then .ok false position
    else
      (peek tokens position).andThen fun token position =>
        .ok (!(token.tokenType == .or || token.tokenType == .rParen || token.tokenType == .pipe)
          && !isJoinKeyword token.tokenType) position

end Steps

mutual

def parseOr (tokens : List Token) : Nat → Nat → Parsed Expr
  | 0, _ => .noFuel
  | fuel + 1, position =>
    (parseAnd tokens fuel position).andThen fun operand position =>
      orLoop tokens fuel [operand] position

def orLoop (tokens : List Token) : Nat → List Expr → Nat → Parsed Expr
  | 0, _, _ => .noFuel
  | fuel + 1, operands, position =>
    (matchToken tokens .or position).andThen fun found position =>
      if found then
        (parseAnd tokens fuel position).andThen fun operand position =>
          orLoop tokens fuel (operands ++ [operand]) position
      else .ok (orOf operands) position

def parseAnd (tokens : List Token) : Nat → Nat → Parsed Expr
  | 0, _ => .noFuel
  | fuel + 1, position =>
    (parseNot tokens fuel position).andThen fun operand position =>
      andLoop tokens fuel [operand] position

def andLoop (tokens : List Token) : Nat → List Expr → Nat → Parsed Expr
  | 0, _, _ => .noFuel
  | fuel + 1, operands, position =>
    (matchToken tokens .and position).andThen fun found position =>
      if found then
        (parseNot tokens fuel position).andThen fun operand position =>
          andLoop tokens fuel (operands ++ [operand]) position
      else
        (implicitAnd tokens position).andThen fun follows position =>
          if follows then
            (parseNot tokens fuel position).andThen fun operand position =>
              andLoop tokens fuel (operands ++ [operand]) position
          else .ok (andOf operands) position

def parseNot (tokens : List Token) : Nat → Nat → Parsed Expr
  | 0, _ => .noFuel
  | fuel + 1, position =>
    (matchToken tokens .not position).andThen fun found position =>
      if found then
        (parseNot tokens fuel position).andThen fun operand position =>
          .ok (.not operand) position
      else parsePrimary tokens fuel position

def parsePrimary (tokens : List Token) : Nat → Nat → Parsed Expr
  | 0, _ => .noFuel
  | fuel + 1, position =>
    (matchToken tokens .lParen position).andThen fun found position =>
      if found then
        (previous tokens position).andThen fun lparen position =>
          (parseOr tokens fuel position).andThen fun expr position =>
            (closeParen tokens lparen.span position).andThen fun _ position =>
              .ok expr position
      else
        (peek tokens position).andThen fun token position =>
          match bareName token with
          | some expr => (advance tokens position).andThen fun _ position => .ok expr position
          | none => parseCondition tokens fuel position

def parseCondition (tokens : List Token) : Nat → Nat → Parsed Expr
  | 0, _ => .noFuel
  | fuel + 1, position =>
    (conditionHead tokens position).andThen fun head position =>
      (subqueryAhead tokens head.2.1 head.2.2 position).andThen fun ahead position =>
        match ahead with
        | some lparen =>
          (advance tokens position).andThen fun _ position =>
            (parseOr tokens fuel position).andThen fun inner position =>
              (closeParen tokens lparen.span position).andThen fun rparen position =>
                .ok (.condition head.2.1 head.2.2 (.subquery inner)
                  (head.1.span.merge rparen.span)) position
        | none => conditionValue tokens head.1 head.2.1 head.2.2 position

end

def parseJoin (upper : Char → List Char) (tokens : List Token) (fuel position : Nat) :
    Parsed Expr :=
  (parseOr tokens fuel position).andThen fun left position =>
    (peek tokens position).andThen fun token position =>
      match joinEdge upper token.tokenType with
      | some edge =>
        (advance tokens position).andThen fun joinToken position =>
          (parseOr tokens fuel position).andThen fun right position =>
            .ok (.join left edge right (joinSpan left joinToken)) position
      | none => .ok left position

def parse (upper : Char → List Char) (tokens : List Token) (fuel : Nat) : Parsed Query :=
  (isAtEnd tokens 0).andThen fun empty position =>
    if empty then .error .emptyQuery
    else
      (peek tokens position).andThen fun start position =>
        (parseJoin upper tokens fuel position).andThen fun root position =>
          (isAtEnd tokens position).andThen fun atEnd position =>
            (peek tokens position).andThen fun token position =>
              if !atEnd && !(token.tokenType == .pipe) then
                .error (.unexpectedToken token "end of query")
              else
                (previous tokens position).andThen fun stop position =>
                  .ok ⟨root, start.span.merge stop.span⟩ position

section Reads
variable {tokens : List Token} {p : Nat} {t : Token}

theorem peek_eq (h : tokens[p]? = some t) : peek tokens p = .ok t p := by
  rw [peek, h]

theorem isAtEnd_eq (h : tokens[p]? = some t) :
    isAtEnd tokens p = .ok (t.tokenType == .eof) p := by
  rw [isAtEnd, peek_eq h, Reading.andThen_ok]

theorem previous_eq (h : tokens[p]? = some t) : previous tokens (p + 1) = .ok t (p + 1) := by
  rw [previous, h]

theorem advance_eq (h : tokens[p]? = some t) (hne : t.tokenType ≠ .eof) :
    advance tokens p = .ok t (p + 1) := by
  rw [advance, isAtEnd_eq h, Reading.andThen_ok, beq_eq_false_iff_ne.mpr hne,
    if_neg Bool.false_ne_true, previous_eq h]

theorem advance_end {before : Token} (h : tokens[p + 1]? = some t) (heof : t.tokenType = .eof)
    (hbefore : tokens[p]? = some before) : advance tokens (p + 1) = .ok before (p + 1) := by
  rw [advance, isAtEnd_eq h, Reading.andThen_ok, heof, beq_self_eq_true, if_pos rfl,
    previous_eq hbefore]

theorem matchToken_hit {k : TokenType} (h : tokens[p]? = some t) (hk : t.tokenType = k)
    (hne : k ≠ .eof) : matchToken tokens k p = .ok true (p + 1) := by
  rw [matchToken, check, isAtEnd_eq h, Reading.andThen_ok, hk, beq_eq_false_iff_ne.mpr hne,
    if_neg Bool.false_ne_true, peek_eq h, Reading.andThen_ok, hk, beq_self_eq_true,
    Reading.andThen_ok, if_pos rfl, advance_eq h (hk ▸ hne), Reading.andThen_ok]

theorem matchToken_miss {k : TokenType} (h : tokens[p]? = some t)
    (hk : t.tokenType.ctorIdx ≠ k.ctorIdx) : matchToken tokens k p = .ok false p := by
  rw [matchToken, check, isAtEnd_eq h, Reading.andThen_ok]
  cases t.tokenType == .eof with
  | true => rfl
  | false =>
    rw [if_neg Bool.false_ne_true, peek_eq h, Reading.andThen_ok, beq_eq_false_iff_ne.mpr hk,
      Reading.andThen_ok, if_neg Bool.false_ne_true]

def marks : List TokenType := [.and, .or, .not, .lParen, .rParen]

theorem eq_of_ctorIdx {k t : TokenType} (hk : k ∈ marks) (h : t.ctorIdx = k.ctorIdx) : t = k := by
  simp only [marks, List.mem_cons, List.not_mem_nil, or_false] at hk
  rcases hk with rfl | rfl | rfl | rfl | rfl <;>
    cases t <;> first | rfl | simp [TokenType.ctorIdx] at h

theorem matchToken_eq {k : TokenType} (hk : k ∈ marks) (h : tokens[p]? = some t) :
    matchToken tokens k p =
      if t.tokenType = k then .ok true (p + 1) else .ok false p := by
  by_cases heq : t.tokenType = k
  · have hne : k ≠ .eof := fun h => absurd (h ▸ hk) (by decide)
    rw [if_pos heq, matchToken_hit h heq hne]
  · rw [if_neg heq, matchToken_miss h fun hidx => heq (eq_of_ctorIdx hk hidx)]

def andStops (t : TokenType) : Bool :=
  t == .eof || t == .or || t == .rParen || t == .pipe || isJoinKeyword t

theorem implicitAnd_eq (h : tokens[p]? = some t) :
    implicitAnd tokens p = .ok (!andStops t.tokenType) p := by
  rw [implicitAnd, isAtEnd_eq h, Reading.andThen_ok, andStops]
  cases t.tokenType == .eof with
  | true => rfl
  | false =>
    rw [if_neg Bool.false_ne_true, peek_eq h, Reading.andThen_ok, Bool.false_or,
      ← Bool.not_or]

end Reads

end QueryParser
end Sqry

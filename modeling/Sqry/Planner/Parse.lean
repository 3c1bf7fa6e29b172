import Sqry.Planner.Steps

/-!
The text syntax of queries: a parser over the characters that are left, with the byte
offset reached. A step is read independently of the steps before it, and then applied to
the builder.
-/

namespace Sqry

/-- An error carries the offset at which it was noticed and what was wanted there. -/
inductive ParseError where
  | unexpectedEnd (offset : Nat) (expected : String)
  | unexpectedChar (ch : Char) (offset : Nat) (expected : String)
  | unknownIdent (kind value : String) (offset : Nat)
  | invalidInteger (value : String) (offset : Nat)
  | build (e : BuildError)
  deriving DecidableEq, Repr

structure Parser where
  pos : Nat
  rest : List Char
  deriving DecidableEq, Repr

section Words

def isAsciiWhitespace (c : Char) : Bool :=
  c = ' ' || c = '\t' || c = '\n' || c = '\x0c' || c = '\r'

def isInlineWhitespace (c : Char) : Bool := c = ' ' || c = '\t'

def isIdentStart (c : Char) : Bool := c.isAlpha || c = '_'

def isIdentContinue (c : Char) : Bool := c.isAlphanum || c = '_'

def isWordChar (c : Char) : Bool := !(isAsciiWhitespace c || c = '(' || c = ')')

def quoteMark : Char := '\x22'

def backslash : Char := '\x5c'

def parseDirection (text : String) : Option PlanDirection :=
  match text with
  | "forward" | "outgoing" | "out" => some .forward
  | "reverse" | "incoming" | "in" => some .reverse
  | "both" => some .both
  | _ => none

def parseWrapKind (text : String) : Option WrapKind :=
  match text with
  | "errorf_verb" => some .errorfVerb
  | "unwrap_method" => some .unwrapMethod
  | "unwrap_multi_method" => some .unwrapMultiMethod
  | "errors_is" => some .errorsIs
  | "errors_as" => some .errorsAs
  | "errors_as_type" => some .errorsAsType
  | "errors_join" => some .errorsJoin
  | _ => none

def parseScopeKind (text : String) : Option ScopeKind :=
  match text with
  | "module" => some .module
  | "function" => some .function
  | "class" => some .class
  | "namespace" => some .namespaceScope
  | "trait" => some .trait
  | "impl" => some .impl
  | _ => none

def parseEdgeKind (text : String) : Option EdgeKind :=
  match text with
  | "calls" => some (.calls 0 false .direct)
  | "references" => some .references
  | "imports" => some (.imports none false)
  | "exports" => some (.exports .direct none)
  | "implements" => some .implements
  | "inherits" => some .inherits
  | "defines" => some .defines
  | "contains" => some .contains
  | _ => none

def parseResolvedVia (text : String) : Option ResolvedVia :=
  match text with
  | "direct" => some .direct
  | "type_match" => some .typeMatch
  | "binding_plane" => some .bindingPlane
  | "virtual_dispatch" => some .virtualDispatch
  | "interface_dispatch" => some .interfaceDispatch
  | "duck_typed" => some .duckTyped
  | "structural" => some .structural
  | "promiscuous_elided" => some .promiscuousElided
  | _ => none

def parseNodeKind (text : String) : Option NodeKind :=
  match text with
  | "function" => some .function
  | "method" => some .method
  | "class" => some .class
  | "interface" => some .interface
  | "trait" => some .trait
  | "module" => some .module
  | "variable" => some .variable
  | "constant" => some .constant
  | "type" => some .type
  | "struct" => some .struct
  | "enum" => some .enum
  | "enum_variant" => some .enumVariant
  | "macro" => some .macroItem
  | "parameter" => some .parameter
  | "property" => some .property
  | "call_site" => some .callSite
  | "import" => some .import
  | "export" => some .export
  | "style_rule" => some .styleRule
  | "style_at_rule" => some .styleAtRule
  | "style_variable" => some .styleVariable
  | "lifetime" => some .lifetime
  | "component" => some .component
  | "service" => some .service
  | "resource" => some .resource
  | "endpoint" => some .endpoint
  | "test" => some .test
  | "type_parameter" => some .typeParameter
  | "annotation" => some NodeKind.annotation
  | "annotation_value" => some .annotationValue
  | "lambda_target" => some .lambdaTarget
  | "java_module" => some .javaModule
  | "enum_constant" => some .enumConstant
  | "channel" => some .channel
  | "other" => some .other
  | _ => none

def normaliseFlag (text : String) : String :=
  match text with
  | "x86_64" => "amd64"
  | "aarch64" => "arm64"
  | "x86" => "386"
  | "mips64el" => "mips64le"
  | "mipsel" => "mipsle"
  | "powerpc64" => "ppc64"
  | "powerpc64le" => "ppc64le"
  | "wasm32" => "wasm"
  | "wasm64" => "wasm"
  | other => other

end Words

namespace Parser

def advance (p : Parser) (n : Nat) : Parser :=
  ⟨p.pos + ((p.rest.take n).map Char.utf8Size).sum, p.rest.drop n⟩

def skipWhile (p : Parser) (f : Char → Bool) : Parser := p.advance (p.rest.takeWhile f).length

def skipWs (p : Parser) : Parser := p.skipWhile isAsciiWhitespace

def skipInlineWs (p : Parser) : Parser := p.skipWhile isInlineWhitespace

def peekIs (p : Parser) (c : Char) : Bool := p.rest.head? = some c

def peekCharOrNul (p : Parser) : Char := p.rest.head?.getD '\x00'

def eatTilde (p : Parser) : Option Parser :=
  match p.rest with
  | '~' :: '=' :: _ => some (p.advance 2)
  | _ => none

def expectByte (p : Parser) (c : Char) (expected : String) : Except ParseError Parser :=
  let p := p.skipInlineWs
  match p.rest with
  | [] => .error (.unexpectedEnd p.pos expected)
  | d :: _ => if d = c then .ok (p.advance 1) else .error (.unexpectedChar d p.pos expected)

def expectEof (p : Parser) : Except ParseError Unit :=
  let p := p.skipWs
  match p.rest with
  | [] => .ok ()
  | d :: _ => .error (.unexpectedChar d p.pos "end of query")

def identChars : List Char → List Char
  | [] => []
  | c :: rest => if isIdentStart c then c :: rest.takeWhile isIdentContinue else []

def takeIdent (p : Parser) : Except ParseError (String × Parser) :=
  let ident := identChars p.rest
  if ident.isEmpty then .error (.unexpectedChar p.peekCharOrNul p.pos "identifier")
  else .ok (String.ofList (ident.map Char.toLower), p.advance ident.length)

def takeDigits (p : Parser) : Except ParseError (List Char × Parser) :=
  let digits := p.rest.takeWhile Char.isDigit
  if digits.isEmpty then .error (.unexpectedChar p.peekCharOrNul p.pos "integer")
  else .ok (digits, p.advance digits.length)

def takeValueWord (p : Parser) : String × Parser :=
  let word := p.rest.takeWhile isWordChar
  (String.ofList word, p.advance word.length)

def unescape (c : Char) : Char := if c = 'n' then '\n' else if c = 't' then '\t' else c

def consResult {α : Type} (c : α) (r : Except ParseError (List α × Parser)) : Except ParseError (List α × Parser) :=
  match r with
  | .ok (cs, p) => .ok (c :: cs, p)
  | .error e => .error e

/-- The text up to the closing quote. Only the first byte of an escaped character is read, so
that what follows it is not UTF-8 when the character is not ASCII. -/
def quotedFrom (pos : Nat) : List Char → Except ParseError (List Char × Parser)
  | [] => .error (.unexpectedEnd pos "'\x22' to close quoted string")
  | c :: rest =>
    if c = quoteMark then .ok ([], ⟨pos + 1, rest⟩)
    else if c = backslash then
      match rest with
      | [] => .error (.unexpectedEnd (pos + 1) "escape character after '\x5c'")
      | d :: rest =>
        if d.utf8Size = 1 then consResult (unescape d) (quotedFrom (pos + 2) rest)
        else
          .error (.unexpectedChar '\ufffd' (pos + 2) "valid UTF-8 inside quoted string")
    else consResult c (quotedFrom (pos + c.utf8Size) rest)

def takeQuotedString (p : Parser) : Except ParseError (String × Parser) := do
  let p ← p.expectByte quoteMark "'\x22' to open quoted string"
  let (chars, p) ← quotedFrom p.pos p.rest
  .ok (String.ofList chars, p)

def parseBareOrQuoted (p : Parser) : Except ParseError (String × Parser) :=
  let p := p.skipInlineWs
  if p.peekIs quoteMark then p.takeQuotedString
  else
    let (word, q) := p.takeValueWord
    if word.isEmpty then
      .error (.unexpectedChar q.peekCharOrNul p.pos "value (quoted string or bare word)")
    else .ok (word, q)

def stringPatternOf (raw : String) : StringPattern :=
  if raw.toList.any fun c => c = '*' || c = '?' || c = '[' then ⟨raw, .glob, false⟩
  else .ofExact raw

def parseStringPattern (p : Parser) : Except ParseError (StringPattern × Parser) := do
  let (raw, p) ← p.parseBareOrQuoted
  .ok (stringPatternOf raw, p)

/-- The text up to the closing slash; a backslash protects the character behind it, and both
stay. -/
def regexFrom (pos : Nat) : List Char → Except ParseError (List Char × Parser)
  | [] => .error (.unexpectedEnd pos "'/' to close regex literal")
  | c :: rest =>
    if c = '/' then .ok ([], ⟨pos + 1, rest⟩)
    else if c = backslash then
      match rest with
      | [] => consResult c (regexFrom (pos + 1) [])
      | d :: rest =>
        consResult c (consResult d (regexFrom (pos + 1 + d.utf8Size) rest))
    else consResult c (regexFrom (pos + c.utf8Size) rest)

def isRegexFlag (c : Char) : Bool := c = 'i' || c = 'm' || c = 's'

def parseRegexLiteral (p : Parser) : Except ParseError (RegexPattern × Parser) := do
  let p ← p.expectByte '/' "'/' to open regex literal"
  let (body, p) ← regexFrom p.pos p.rest
  let flags := p.rest.takeWhile isRegexFlag
  .ok (⟨String.ofList body, ⟨flags.contains 'i', flags.contains 'm', flags.contains 's'⟩⟩,
    p.advance flags.length)

/-- A value: a subquery, a regex or a pattern. `chain` reads the steps of a subquery. -/
def parseValue (chain : Parser → Except ParseError (List QueryStep × Parser)) (p : Parser) : Except ParseError (PredicateValue × Parser) :=
  let p := p.skipInlineWs
  if p.peekIs '(' then do
    let (steps, p) ← chain (p.advance 1)
    let p ← p.expectByte ')' "')' to close subquery"
    let plan ← (QueryBuilder.ofSteps steps).build.mapError ParseError.build
    .ok (.subquery plan.root, p)
  else if p.peekIs '/' then do
    let (regex, p) ← p.parseRegexLiteral
    .ok (.regex regex, p)
  else do
    let (pattern, p) ← p.parseStringPattern
    .ok (.pattern pattern, p)

def identAs {α : Type} (p : Parser) (parse : String → Option α) (kind : String) (offset : Nat) :
    Except ParseError (α × Parser) := do
  let (ident, p) ← p.takeIdent
  match parse ident with
  | some a => .ok (a, p)
  | none => .error (.unknownIdent kind ident offset)

def digitsValue (digits : List Char) : Nat :=
  digits.foldl (fun n c => 10 * n + (c.toNat - '0'.toNat)) 0

def parseTraverseArgs (p : Parser) : Except ParseError (QueryStep × Parser) := do
  let (direction, p) ← p.identAs parseDirection "traversal direction" p.pos
  let p ← p.expectByte '(' "'(' after traversal direction"
  let p := p.skipInlineWs
  let (edgeKind, p) ← p.identAs parseEdgeKind "edge kind" p.pos
  let p := p.skipInlineWs
  let p ← p.expectByte ',' "',' between edge kind and depth"
  let p := p.skipInlineWs
  let (digits, q) ← p.takeDigits
  if u32Max < digitsValue digits then .error (.invalidInteger (String.ofList digits) p.pos)
  else
    let q := q.skipInlineWs
    let q ← q.expectByte ')' "')' to close traversal arguments"
    .ok (.traverse direction edgeKind (digitsValue digits), q)

def parseBool (text : String) : Option Bool :=
  match text with
  | "true" => some true
  | "false" => some false
  | _ => none

def parseOptionalBoolValue (p : Parser) (keyword : String) : Except ParseError (Bool × Parser) :=
  if p.peekIs ':' then
    let p := p.advance 1
    p.identAs parseBool (keyword ++ " value (expected 'true' or 'false')") p.pos
  else .ok (true, p)

def parseFlagStep (p : Parser) (keyword : String) (predicate : Bool → LeafPredicate) :
    Except ParseError (QueryStep × Parser) := do
  let (want, p) ← p.parseOptionalBoolValue keyword
  .ok (.leaf (predicate want), p)

def parseHasTarget (text : String) : Option LeafPredicate :=
  match text with
  | "caller" => some .hasCaller
  | "callee" => some .hasCallee
  | _ => none

def parseCfgStep (p : Parser) : Except ParseError (QueryStep × Parser) := do
  let p ← p.expectByte ':' "':' after 'cfg'"
  let p := p.skipInlineWs
  let (value, q) ← p.parseBareOrQuoted
  .ok (.leaf (.cfgCondition
    (if p.peekIs quoteMark then .literal value else .semantic (.flag (normaliseFlag value)))), q)

def parseWrapsStep (p : Parser) (start : Nat) : Except ParseError (QueryStep × Parser) :=
  let p := p.skipInlineWs
  if p.peekIs ':' then do
    let (kind, p) ← (p.advance 1).identAs parseWrapKind "wrap kind" start
    .ok (.leaf (.wraps (.kind kind)), p)
  else .ok (.leaf (.wraps .any), p)

def parseRelationStep (chain : Parser → Except ParseError (List QueryStep × Parser)) (p : Parser)
    (kind : RelationKind) : Except ParseError (QueryStep × Parser) := do
  let p ← p.expectByte ':' "':' after relation predicate"
  let (value, p) ← parseValue chain p
  .ok (.relation kind value, p)

def parseReferencesStep (chain : Parser → Except ParseError (List QueryStep × Parser)) (p : Parser) :
    Except ParseError (QueryStep × Parser) :=
  let p := p.skipWs
  match p.eatTilde with
  | some p => do
    let (regex, p) ← p.skipWs.parseRegexLiteral
    .ok (.relation .references (.regex regex), p)
  | none => do
    let p ← p.expectByte ':' "':' or '~=' after 'references'"
    let (value, p) ← parseValue chain p
    .ok (.relation .references value, p)

def parseShapeStep (p : Parser) : Except ParseError (QueryStep × Parser) := do
  let p := p.skipWs
  let p ← match p.eatTilde with
    | some p => .ok p
    | none => do
      let p ← p.expectByte '~' "'~=' after 'shape'"
      p.expectByte '=' "'=' to complete '~=' after 'shape'"
  let (symbol, p) ← p.skipWs.parseBareOrQuoted
  .ok (.leaf (.shapeSimilar symbol), p)

def parseIdentStep {α : Type} (p : Parser) (start : Nat) (colon : String)
    (parse : String → Option α) (kind : String) (step : α → QueryStep) : Except ParseError (QueryStep × Parser) := do
  let p ← p.expectByte ':' colon
  let (a, p) ← p.identAs parse kind start
  .ok (step a, p)

def parseTextStep (p : Parser) (colon : String) (step : String → QueryStep) :
    Except ParseError (QueryStep × Parser) := do
  let p ← p.expectByte ':' colon
  let (text, p) ← p.parseBareOrQuoted
  .ok (step text, p)

def resolvedViaKind : String :=
  "resolved_via value (expected 'direct', 'type_match', 'binding_plane', 'virtual_dispatch', " ++
    "'interface_dispatch', 'duck_typed', 'structural', or 'promiscuous_elided')"

/-- What `parse_step` does behind the keyword that starts at `start`. -/
def parseStepBody (chain : Parser → Except ParseError (List QueryStep × Parser)) (start : Nat) (head : String)
    (p : Parser) : Except ParseError (QueryStep × Parser) :=
  match head with
  | "kind" => p.parseIdentStep start "':' after 'kind'" parseNodeKind "node kind" .kind
  | "visibility" =>
    p.parseIdentStep start "':' after 'visibility'" Visibility.parse "visibility" .visibility
  | "name" => do
    let p ← p.expectByte ':' "':' after 'name'"
    let (pattern, p) ← p.parseStringPattern
    .ok (.name pattern, p)
  | "returns" => p.parseTextStep "':' after 'returns'" fun text => .leaf (.returns text)
  | "in" => p.parseTextStep "':' after 'in'" fun text => .leaf (.inFile ⟨text⟩)
  | "scope" =>
    p.parseIdentStep start "':' after 'scope'" parseScopeKind "scope kind"
      fun kind => .leaf (.inScope kind)
  | "has" =>
    p.parseIdentStep start "':' after 'has'" parseHasTarget
      "has-target (expected 'caller' or 'callee')" .leaf
  | "unused" => .ok (.leaf .isUnused, p)
  | "items" => p.parseFlagStep "items" .isDefinition
  | "is_definition" => p.parseFlagStep "is_definition" .isDefinition
  | "is_unsafe" => p.parseFlagStep "is_unsafe" .isUnsafe
  | "cfg" => p.parseCfgStep
  | "wraps" => p.parseWrapsStep start
  | "address_taken" => p.parseFlagStep "address_taken" .isAddressTaken
  | "resolved_via" => do
    let p ← p.expectByte ':' "':' after 'resolved_via'"
    let (via, p) ← p.identAs parseResolvedVia resolvedViaKind p.pos
    .ok (.resolvedVia via, p)
  | "callsite_promiscuous" => p.parseFlagStep "callsite_promiscuous" .hasCallsitePromiscuous
  | "traverse" => do
    let p ← p.expectByte ':' "':' after 'traverse'"
    p.parseTraverseArgs
  | "callers" => parseRelationStep chain p .callers
  | "callees" => parseRelationStep chain p .callees
  | "imports" => parseRelationStep chain p .imports
  | "exports" => parseRelationStep chain p .exports
  | "implements" | "impl" => parseRelationStep chain p .implements
  | "references" => parseReferencesStep chain p
  | "shape" => p.parseShapeStep
  | _ => .error (.unknownIdent "step keyword" head start)

def parseStep (chain : Parser → Except ParseError (List QueryStep × Parser)) (p : Parser) : Except ParseError (QueryStep × Parser) := do
  let (head, q) ← p.takeIdent
  parseStepBody chain p.pos head q

/-- The steps up to the end or a closing parenthesis. A step takes at least one character, so
that fuel beyond their number is never used up. -/
def parseChain : Nat → Parser → Except ParseError (List QueryStep × Parser)
  | 0, p => .error (.unexpectedEnd p.pos "step")
  | fuel + 1, p =>
    let p := p.skipWs
    if p.rest.isEmpty || p.peekIs ')' then .ok ([], p)
    else do
      let (step, p) ← parseStep (parseChain fuel) p
      let (steps, p) ← parseChain fuel p
      .ok (step :: steps, p)

end Parser

def parseSteps (source : String) : Except ParseError (List QueryStep) := do
  let (steps, p) ← Parser.parseChain (source.toList.length + 1) ⟨0, source.toList⟩
  p.expectEof
  .ok steps

def parseQuery (source : String) : Except ParseError QueryPlan := do
  let steps ← parseSteps source
  (QueryBuilder.ofSteps steps).build.mapError ParseError.build

end Sqry

import Authorship.Analysis.Basic
import Authorship.Lexicon.Naming

/-
Structure without a grammar: depth is read off the indentation, control flow off its keywords,
functions off their headers and braces.
-/
namespace Authorship.Analysis

open Pattern Scalar

variable {α : Type} [Scalar α]

def indentWidth : Nat := 4

def keywordParenthesis (word : String) : Pattern :=
  sequence [boundary, literal word, blanks, char '(']

def longNumber : Pattern :=
  sequence [boundary, satisfying Text.isDecimalDigit, span1 Text.isDecimalDigit, boundary]

def stringPiece : Pattern :=
  oneOf [sequence [char '\\', satisfying (· != '\n')],
    satisfying fun c => c != '"' && c != '\\']

def stringLiteral : Pattern := sequence [char '"', many stringPiece, char '"']

def macroDefinition : Pattern :=
  sequence [blanks, char '#', blanks, literal "define", blanks1, word]

structure Spacing where
  before : List Char
  after : List Char
deriving Repr

/-- The blanks on either side of an operator, in a match that is made of these four parts. -/
def spacingWithin (left operator right : Pattern) (place : Cursor) : Option Spacing :=
  let splits := (left place).flatMap fun a => (blanks a).flatMap fun b =>
    (operator b).flatMap fun c => ((blanks c).filter fun d => !(right d).isEmpty).map fun d =>
      (⟨a.textTo b, c.textTo d⟩ : Spacing)
  splits.head?

def binarySigns : Pattern :=
  oneOf [literals (spellings ["==", "!=", "<=", ">=", "&&", "||"]),
    satisfying ['-', '+', '*', '/', '%', '<', '>', '='].contains]

def leftOperand : Pattern := sequence [boundary, word]

def binaryOperation : Pattern := sequence [leftOperand, blanks, binarySigns, blanks, word]

def operationSpacings (line : List Char) : List Spacing :=
  (allMatches binaryOperation line).filterMap fun found =>
    spacingWithin leftOperand binarySigns word found.start

def dominance (a b : Nat) : α :=
  if a + b = 0 then zero else count (max a b) / count (a + b)

/-- Whether a block's brace stands at the beginning of the line or ends it. The brace of an
initializer is neither. -/
def bracePlacement? (line : List Char) : Option Bool :=
  let t := Text.trimStart line
  if t.head? = some '{' then some true
  else if t.contains '{' && !Text.contains ['=', ' ', '{'] t && !Text.contains ['=', '{'] t then
    some false
  else none

def bracePlacements (lines : List (List Char)) : Nat × Nat :=
  let placements := lines.filterMap bracePlacement?
  (placements.count true, placements.count false)

structure Metrics (α : Type) where
  loc : Nat := 0
  totalNodes : Nat := 0
  maxDepth : Nat := 0
  avgDepth : α
  branchingFactor : α
  ifStatements : Nat := 0
  forLoops : Nat := 0
  whileLoops : Nat := 0
  switchStatements : Nat := 0
  nestedControlDepth : Nat := 0
  functionCount : Nat := 0
  avgFunctionLength : α
  maxFunctionLength : Nat := 0
  recursiveFunctions : Nat := 0
  variableCount : Nat := 0
  uniqueVariableNames : Nat := 0
  avgVariableNameLength : α
  camelCaseVars : Nat := 0
  snakeCaseVars : Nat := 0
  singleCharVars : Nat := 0
  hungarianNotation : Nat := 0
  magicNumbers : Nat := 0
  stringLiterals : Nat := 0
  includeCount : Nat := 0
  macroCount : Nat := 0
  indentationConsistency : α
  braceStyleConsistency : α
  operatorSpacingConsistency : α

def Metrics.none : Metrics α where
  avgDepth := zero
  branchingFactor := zero
  avgFunctionLength := zero
  avgVariableNameLength := zero
  indentationConsistency := zero
  braceStyleConsistency := zero
  operatorSpacingConsistency := zero

def countKeyword (word : String) (lines : List (List Char)) : Nat :=
  sumOf (lines.map (countMatches (keywordParenthesis word)))

def countChar (c : Char) (lines : List (List Char)) : Nat := sumOf (lines.map (·.count c))

/-- The lines whose literals count, in both views: inclusions and macro definitions have none. -/
def literalLines (s : Source.Prepared) : List (List Char × List Char) :=
  (s.codeLines.zip s.maskedLines).filter fun (code, _) =>
    !Lexicon.isInclude code && !opens macroDefinition code

def isSpaced (s : Spacing) : Bool := !s.before.isEmpty && !s.after.isEmpty

def operatorSpacingConsistency (lines : List (List Char)) : α :=
  let spacings := (lines.filter (!Lexicon.isPreprocessor ·)).flatMap operationSpacings
  if spacings.isEmpty then zero
  else count (spacings.countP isSpaced) / count spacings.length

def maxOf (ns : List Nat) : Nat := ns.foldl max 0

def structureMetrics (s : Source.Prepared) : Metrics α :=
  if s.isEmpty then .none
  else
    let lines := s.maskedLines
    let depths := s.codeLines.map (Lexicon.indentColumns · / indentWidth)
    let ifs := countKeyword "if" lines
    let fors := countKeyword "for" lines
    let whiles := countKeyword "while" lines
    let switches := countKeyword "switch" lines
    let lengths := s.functions.map (·.length)
    let declared := Lexicon.declarations s.masked
    let names := declared.map (·.name)
    let literals := literalLines s
    let braces := countChar '{' lines
    let leads := s.codeLines.filterMap List.head?
    let (ownLine, sameLine) := bracePlacements lines
    { loc := s.loc
      totalNodes := countChar ';' lines + braces + ifs + fors + whiles + switches
        + s.functions.length
      maxDepth := maxOf depths
      avgDepth := perCount (sumOf depths) depths.length
      branchingFactor := perCount braces s.loc
      ifStatements := ifs
      forLoops := fors
      whileLoops := whiles
      switchStatements := switches
      nestedControlDepth := maxOf (Lexicon.nestingDepths lines)
      functionCount := s.functions.length
      avgFunctionLength := perCount (sumOf lengths) lengths.length
      maxFunctionLength := maxOf lengths
      recursiveFunctions := s.functions.countP (·.isRecursive s.masked)
      variableCount := declared.length
      uniqueVariableNames := names.eraseDups.length
      avgVariableNameLength := perCount (sumOf (names.map List.length)) names.length
      camelCaseVars := names.countP Lexicon.isCamelCase
      snakeCaseVars := names.countP Lexicon.isSnakeCase
      singleCharVars := declared.countP fun d => d.name.length = 1 && !d.inForHeader
      hungarianNotation := names.countP Lexicon.isHungarian
      magicNumbers := sumOf (literals.map fun (_, masked) => countMatches longNumber masked)
      stringLiterals := sumOf (literals.map fun (code, _) => countMatches stringLiteral code)
      includeCount := s.codeLines.countP Lexicon.isInclude
      macroCount := s.codeLines.countP fun line =>
        !Lexicon.isInclude line && opens macroDefinition line
      indentationConsistency := dominance (leads.count ' ') (leads.count '\t')
      braceStyleConsistency := dominance ownLine sameLine
      operatorSpacingConsistency := operatorSpacingConsistency lines }

def Metrics.measurements (m : Metrics α) : Measurements α :=
  [("total_nodes", count m.totalNodes),
    ("max_depth", count m.maxDepth),
    ("avg_depth", m.avgDepth),
    ("branching_factor", m.branchingFactor),
    ("if_statements", count m.ifStatements),
    ("for_loops", count m.forLoops),
    ("while_loops", count m.whileLoops),
    ("switch_statements", count m.switchStatements),
    ("nested_control_depth", count m.nestedControlDepth),
    ("function_count", count m.functionCount),
    ("avg_function_length", m.avgFunctionLength),
    ("max_function_length", count m.maxFunctionLength),
    ("recursive_functions", count m.recursiveFunctions),
    ("variable_count", count m.variableCount),
    ("unique_variable_names", count m.uniqueVariableNames),
    ("avg_variable_name_length", m.avgVariableNameLength),
    ("camel_case_vars", count m.camelCaseVars),
    ("snake_case_vars", count m.snakeCaseVars),
    ("single_char_vars", count m.singleCharVars),
    ("hungarian_notation", count m.hungarianNotation),
    ("magic_numbers", count m.magicNumbers),
    ("string_literals", count m.stringLiterals),
    ("include_count", count m.includeCount),
    ("macro_count", count m.macroCount),
    ("indentation_consistency", m.indentationConsistency),
    ("brace_style_consistency", m.braceStyleConsistency),
    ("operator_spacing_consistency", m.operatorSpacingConsistency),
    ("nodes_per_loc", perCount m.totalNodes m.loc),
    ("if_statements_per_loc", perCount m.ifStatements m.loc),
    ("for_loops_per_loc", perCount m.forLoops m.loc),
    ("while_loops_per_loc", perCount m.whileLoops m.loc),
    ("switch_statements_per_loc", perCount m.switchStatements m.loc),
    ("functions_per_loc", perCount m.functionCount m.loc),
    ("variables_per_loc", perCount m.variableCount m.loc),
    ("magic_numbers_per_loc", perCount m.magicNumbers m.loc),
    ("string_literals_per_loc", perCount m.stringLiterals m.loc),
    ("includes_per_loc", perCount m.includeCount m.loc),
    ("macros_per_loc", perCount m.macroCount m.loc),
    ("camel_case_ratio", perCount m.camelCaseVars m.variableCount),
    ("snake_case_ratio", perCount m.snakeCaseVars m.variableCount),
    ("single_char_vars_ratio", perCount m.singleCharVars m.variableCount),
    ("hungarian_ratio", perCount m.hungarianNotation m.variableCount),
    ("variable_uniqueness_ratio", perCount m.uniqueVariableNames m.variableCount),
    ("recursive_function_ratio", perCount m.recursiveFunctions m.functionCount)]

def structureMeasurements (s : Source.Prepared) : Measurements α :=
  (structureMetrics s : Metrics α).measurements

end Authorship.Analysis

import Authorship.Feature.Bound

/- Every feature there is, with its range and what it measures. -/
namespace Authorship.Feature

structure Spec where
  name : String
  limit : Limit
  description : String
deriving DecidableEq, Repr

open Limit

def schema : List Spec := [
  ⟨"basic.loc", .count, "Non-blank, non-comment-only lines"⟩,
  ⟨"basic.total_lines", .count, "Physical lines"⟩,
  ⟨"basic.comment_lines", .count, "Lines carrying a comment"⟩,
  ⟨"basic.blank_lines", .count, "Whitespace-only lines"⟩,
  ⟨"basic.comment_ratio", .share, "Comment lines per physical line"⟩,
  ⟨"basic.blank_ratio", .share, "Blank lines per physical line"⟩,
  ⟨"basic.token_count", .count, "Lexical tokens"⟩,
  ⟨"basic.tokens_per_loc", .count, "Tokens per line of code"⟩,
  ⟨"basic.cyclomatic_complexity", .count, "Average cyclomatic complexity per function"⟩,
  ⟨"ast.total_nodes", .count, "Estimated statement and block nodes"⟩,
  ⟨"ast.max_depth", .count, "Deepest indentation level"⟩,
  ⟨"ast.avg_depth", .count, "Average indentation level"⟩,
  ⟨"ast.branching_factor", .count, "Opening braces per line"⟩,
  ⟨"ast.if_statements", .count, "if statements"⟩,
  ⟨"ast.for_loops", .count, "for loops"⟩,
  ⟨"ast.while_loops", .count, "while loops"⟩,
  ⟨"ast.switch_statements", .count, "switch statements"⟩,
  ⟨"ast.nested_control_depth", .count, "Deepest control-flow nesting"⟩,
  ⟨"ast.function_count", .count, "Function definitions"⟩,
  ⟨"ast.avg_function_length", .count, "Average function length in lines"⟩,
  ⟨"ast.max_function_length", .count, "Longest function in lines"⟩,
  ⟨"ast.recursive_functions", .count, "Functions that call themselves"⟩,
  ⟨"ast.variable_count", .count, "Declared variables"⟩,
  ⟨"ast.unique_variable_names", .count, "Distinct declared variable names"⟩,
  ⟨"ast.avg_variable_name_length", .count, "Average declared variable name length"⟩,
  ⟨"ast.camel_case_vars", .count, "camelCase variables"⟩,
  ⟨"ast.snake_case_vars", .count, "snake_case variables"⟩,
  ⟨"ast.single_char_vars", .count, "Single-character variables outside loop headers"⟩,
  ⟨"ast.hungarian_notation", .count, "Hungarian-style variables"⟩,
  ⟨"ast.magic_numbers", .count, "Numeric literals with two or more digits"⟩,
  ⟨"ast.string_literals", .count, "String literals"⟩,
  ⟨"ast.include_count", .count, "#include directives"⟩,
  ⟨"ast.macro_count", .count, "#define directives"⟩,
  ⟨"ast.indentation_consistency", .share, "Dominance of one indentation character"⟩,
  ⟨"ast.brace_style_consistency", .share, "Dominance of one brace placement"⟩,
  ⟨"ast.operator_spacing_consistency", .share, "Binary operators spaced on both sides"⟩,
  ⟨"ast.nodes_per_loc", .count, "Nodes per line of code"⟩,
  ⟨"ast.if_statements_per_loc", .count, "if statements per line of code"⟩,
  ⟨"ast.for_loops_per_loc", .count, "for loops per line of code"⟩,
  ⟨"ast.while_loops_per_loc", .count, "while loops per line of code"⟩,
  ⟨"ast.switch_statements_per_loc", .count, "switch statements per line of code"⟩,
  ⟨"ast.functions_per_loc", .count, "Functions per line of code"⟩,
  ⟨"ast.variables_per_loc", .count, "Declared variables per line of code"⟩,
  ⟨"ast.magic_numbers_per_loc", .count, "Magic numbers per line of code"⟩,
  ⟨"ast.string_literals_per_loc", .count, "String literals per line of code"⟩,
  ⟨"ast.includes_per_loc", .count, "#include directives per line of code"⟩,
  ⟨"ast.macros_per_loc", .count, "#define directives per line of code"⟩,
  ⟨"ast.camel_case_ratio", .share, "camelCase share of declared variables"⟩,
  ⟨"ast.snake_case_ratio", .share, "snake_case share of declared variables"⟩,
  ⟨"ast.single_char_vars_ratio", .share, "Single-character share of declared variables"⟩,
  ⟨"ast.hungarian_ratio", .share, "Hungarian-style share of declared variables"⟩,
  ⟨"ast.variable_uniqueness_ratio", .share, "Distinct names per declared variable"⟩,
  ⟨"ast.recursive_function_ratio", .share, "Recursive share of functions"⟩,
  ⟨"redundancy.duplicate_lines", .count, "Extra occurrences of repeated lines"⟩,
  ⟨"redundancy.duplicate_line_ratio", .share, "Repeated lines per line of code"⟩,
  ⟨"redundancy.repeated_patterns", .count, "Repeated three-line windows"⟩,
  ⟨"redundancy.repeated_patterns_per_loc", .count, "Repeated windows per line of code"⟩,
  ⟨"redundancy.copy_paste_score", .share, "Coverage of the longest copied block"⟩,
  ⟨"redundancy.similar_function_ratio", .share, "Functions with a structurally identical twin"⟩,
  ⟨"naming.descriptive_var_ratio", .share, "Descriptive share of declared variables"⟩,
  ⟨"naming.generic_var_ratio", .share, "Generic share of declared variables"⟩,
  ⟨"naming.verb_function_ratio", .share, "Verb-prefixed function names"⟩,
  ⟨"naming.descriptive_function_ratio", .share, "Long function names"⟩,
  ⟨"naming.meaningful_names_score", .share, "Word-like share of identifiers"⟩,
  ⟨"naming.naming_consistency_score", .share, "Dominance of camelCase or snake_case"⟩,
  ⟨"naming.abbreviation_ratio", .share, "Vowel-less short variable names"⟩,
  ⟨"complexity.halstead_complexity", .count, "Halstead length times log2 vocabulary"⟩,
  ⟨"complexity.halstead_per_loc", .count, "Halstead complexity per line of code"⟩,
  ⟨"complexity.cognitive_complexity", .count, "Nesting-weighted control flow"⟩,
  ⟨"complexity.cognitive_per_loc", .count, "Cognitive complexity per line of code"⟩,
  ⟨"complexity.maintainability_index", .upTo 171, "Maintainability index"⟩,
  ⟨"complexity.code_to_comment_ratio", .upTo noCommentValue, "Code lines per comment line"⟩,
  ⟨"ai_pattern.template_usage_score", .count, "Template idioms per line of code"⟩,
  ⟨"ai_pattern.boilerplate_ratio", .share, "Purely structural lines"⟩,
  ⟨"ai_pattern.error_handling_score", .count, "Error-handling idioms per line of code"⟩,
  ⟨"ai_pattern.defensive_programming_score", .count, "Validation idioms per line of code"⟩,
  ⟨"ai_pattern.over_engineering_score", .share, "Functions per line in short files"⟩,
  ⟨"ai_pattern.formal_comment_ratio", .share, "Sentence-style line comments"⟩,
  ⟨"human_style.spacing_issues_ratio", .upTo 100, "Spacing issues per non-blank line"⟩,
  ⟨"human_style.indentation_issues_ratio", .upTo 100, "Indentation issues per indented line"⟩,
  ⟨"human_style.naming_inconsistency_ratio", .upTo 100, "Naming issues per unique identifier"⟩,
  ⟨"human_style.formatting_issues_ratio", .upTo 100, "Formatting issues per non-blank line"⟩,
  ⟨"human_style.trailing_whitespace_ratio", .share, "Lines ending in whitespace"⟩,
  ⟨"human_style.mixed_indentation_ratio", .share, "Indented lines mixing tabs and spaces"⟩,
  ⟨"human_style.long_line_ratio", .share, "Lines over 120 characters"⟩,
  ⟨"human_style.overall_human_score", .share, "Weighted human irregularity"⟩]

def namespaces : List String :=
  ["basic", "ast", "redundancy", "naming", "complexity", "ai_pattern", "human_style"]

def lookup? (name : String) : Option Spec := schema.find? (·.name = name)

def isKnown (name : String) : Bool := (lookup? name).isSome

def aliases : List (String × String) := [
  ("loc", "basic.loc"),
  ("comment_ratio", "basic.comment_ratio"),
  ("blank_ratio", "basic.blank_ratio"),
  ("cyclomatic_complexity", "basic.cyclomatic_complexity"),
  ("spacing_spacing_issues_ratio", "human_style.spacing_issues_ratio"),
  ("indentation_indentation_issues_ratio", "human_style.indentation_issues_ratio"),
  ("naming_inconsistency_naming_inconsistency_ratio", "human_style.naming_inconsistency_ratio"),
  ("formatting_formatting_issues_ratio", "human_style.formatting_issues_ratio"),
  ("human_style_overall_score", "human_style.overall_human_score"),
  ("naming_abbreviation_usage", "naming.abbreviation_ratio"),
  ("ast_macro_usage", "ast.macro_count")]

def stripPrefix? (start text : String) : Option String :=
  if start.toList.isPrefixOf text.toList then
    some (String.ofList (text.toList.drop start.toList.length))
  else none

def joinName (group name : String) : String := group ++ "." ++ name

/-- The feature that a name in a statistics file means: the feature's own name, an alias of it, or
its name with an underscore for the dot. -/
def canonicalName? (raw : String) : Option String :=
  if isKnown raw then some raw
  else
    match aliases.lookup raw with
    | some name => (lookup? name).map (·.name)
    | none => namespaces.findSome? fun group => do
      let name ← stripPrefix? (group ++ "_") raw
      let spec ← lookup? (joinName group name)
      return spec.name

/-- What stands before the first dot, or the whole name if there is none. -/
def namespaceOf (name : String) : String := String.ofList (name.toList.takeWhile (· != '.'))

end Authorship.Feature

import ScriptReview.Tree.Node

namespace ScriptReview

namespace Kind

/-- `function` is what older grammars call a function expression. -/
def functions : List String :=
  ["function_declaration", "function_expression", "function", "generator_function_declaration",
    "generator_function", "arrow_function", "method_definition"]

def nesting : List String :=
  ["if_statement", "for_statement", "for_in_statement", "while_statement", "do_statement",
    "switch_statement", "try_statement", "catch_clause"]

def loops : List String :=
  ["for_statement", "for_in_statement"]

/-- Nodes that add one path whatever they hold; a default case adds none. -/
def branches : List String :=
  ["if_statement", "for_statement", "for_in_statement", "while_statement", "do_statement",
    "switch_case", "ternary_expression", "catch_clause"]

def conditions : List String :=
  ["if_statement", "while_statement", "do_statement", "ternary_expression"]

def block : String := "statement_block"

def identifier : String := "identifier"

def string : String := "string"

def template : String := "template_string"

def substitution : String := "template_substitution"

def comment : String := "comment"

def call : String := "call_expression"

def member : String := "member_expression"

def subscript : String := "subscript_expression"

def binary : String := "binary_expression"

def declarator : String := "variable_declarator"

end Kind

def logicalOperators : List String := ["&&", "||", "??"]

def equalityOperators : List String := ["==", "===", "!=", "!=="]

namespace Node

def isFunction (n : Node) : Bool :=
  n.hasKind Kind.functions

def isIdentifier (n : Node) : Bool :=
  n.kind == Kind.identifier

def isLogical (n : Node) : Bool :=
  n.kind == Kind.binary && logicalOperators.contains n.operator

def isSum (n : Node) : Bool :=
  n.kind == Kind.binary && n.operator == "+"

end Node

end ScriptReview

import Authorship.Text.Lines

/- The word lists that the measurements go by. -/
namespace Authorship.Lexicon

/-- Keywords and built-in type names; never counted as identifiers. -/
def keywords : List String := [
  "alignas", "alignof", "and", "asm", "auto", "bool", "break", "case", "catch", "char", "class",
  "const", "constexpr", "const_cast", "continue", "decltype", "default", "define", "delete", "do",
  "double", "dynamic_cast", "else", "endif", "enum", "explicit", "export", "extern", "false",
  "float", "for", "friend", "goto", "if", "ifdef", "ifndef", "include", "inline", "int", "long",
  "mutable", "namespace", "new", "noexcept", "not", "nullptr", "operator", "or", "override",
  "pragma", "private", "protected", "public", "register", "reinterpret_cast", "restrict",
  "return", "short", "signed", "sizeof", "static", "static_assert", "static_cast", "struct",
  "switch", "template", "this", "throw", "true", "try", "typedef", "typeid", "typename", "union",
  "unsigned", "using", "virtual", "void", "volatile", "while", "size_t", "string", "std", "NULL"]

/-- Names of the standard libraries, which say nothing about an author's naming. -/
def libraryNames : List String := [
  "printf", "scanf", "fprintf", "sprintf", "snprintf", "puts", "gets", "fgets", "getchar",
  "putchar", "malloc", "calloc", "realloc", "free", "memset", "memcpy", "strlen", "strcpy",
  "strcmp", "strcat", "cout", "cin", "cerr", "endl", "vector", "map", "set", "pair", "stdin",
  "stdout", "stderr", "exit", "main", "FILE", "fopen", "fclose", "abs", "sqrt", "pow", "max",
  "min", "sort", "swap", "push_back", "size", "begin", "end"]

def genericNames : List String := [
  "i", "j", "k", "n", "m", "x", "y", "z", "a", "b", "c", "temp", "tmp", "val", "value", "data",
  "item", "var"]

def functionVerbs : List String :=
  ["get", "set", "calculate", "compute", "process", "handle", "create", "delete", "update"]

def controlWords : List String := ["if", "for", "while", "switch", "do"]

def typeQualifiers : List String := [
  "const", "static", "unsigned", "signed", "long", "short", "register", "volatile", "extern",
  "inline", "constexpr"]

def variableTypes : List String := [
  "int", "float", "double", "char", "bool", "long", "short", "size_t", "auto", "unsigned",
  "signed", "std::string", "string"]

def returnTypes : List String := [
  "int", "void", "float", "double", "char", "bool", "long", "short", "size_t", "auto",
  "unsigned", "string"]

def listed (words : List String) (name : List Char) : Bool := words.contains (String.ofList name)

def isReserved (name : List Char) : Bool := listed keywords name || listed libraryNames name

end Authorship.Lexicon

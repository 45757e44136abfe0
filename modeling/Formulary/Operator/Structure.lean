import Formulary.Operator

/-! # Operators with syntax of their own, and the two that log -/

namespace Formulary.Operator

/-- An operator with syntax of its own. -/
def structural (symbol name : String) (form : Form) : Operator where
  symbol := symbol
  name := name
  priority := structuralPriority
  form := form

def memberAccess : Operator := structural "." "Member Access" .dot

def grouping : Operator := structural "( )" "Parenthesis" .parenthesis

def functionCall : Operator := structural "()" "Function Call" .functionCall

def methodCall : Operator := structural ".()" "Method Call" .methodCall

def indexing : Operator := structural "[]" "Indexer" .indexer

def dump : Operator where
  symbol := "@@"
  name := "Dump"
  priority := prefixPriority
  form := .dump
  unary := true

def log : Operator where
  symbol := "@"
  name := "Log"
  priority := prefixPriority
  form := .log
  unary := true

end Formulary.Operator

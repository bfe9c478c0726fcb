/-!
# Faults

What the grammar finds wrong with a text.

* `Fault`: the causes;
* `Fault.message`: the wording;
* `Misfit`: a cause and the position of the token where it shows.
-/

namespace SchemaAlign.Parser

/-- Why a list of tokens is outside the grammar. Most causes name what was expected instead. -/
inductive Fault where
  | notExists
  | tableName
  | openingParenthesis
  | closingParenthesis
  | columnOrConstraint
  | unknownTableOption
  | rowid
  | unbalancedParenthesis
  | expression
  | constraintName
  | columnConstraint
  | key
  | null
  | conflictResolution
  | defaultValue
  | collationName
  | always
  | as
  | columnName
  | nullOrDefault
  | action
  | foreignKeyAction
  | matchName
  | deferredOrImmediate
  deriving DecidableEq, Repr

/-- The wording of a fault. -/
def Fault.message : Fault → String
  | .notExists => "Expected NOT EXISTS"
  | .tableName => "Expected a table name"
  | .openingParenthesis => "Expected opening parenthesis"
  | .closingParenthesis => "Expected closing parenthesis"
  | .columnOrConstraint => "Expected column definition or constraint"
  | .unknownTableOption => "Unknown table option"
  | .rowid => "Expected ROWID"
  | .unbalancedParenthesis => "Unbalanced parenthesis"
  | .expression => "Expected expression"
  | .constraintName => "Expected constraint name"
  | .columnConstraint => "Expected column constraint"
  | .key => "Expected KEY"
  | .null => "Expected NULL"
  | .conflictResolution => "Expected conflict resolution"
  | .defaultValue => "Expected default value"
  | .collationName => "Expected collation name"
  | .always => "Expected ALWAYS"
  | .as => "Expected AS"
  | .columnName => "Expected a column name"
  | .nullOrDefault => "Expected NULL or DEFAULT"
  | .action => "Expected ACTION"
  | .foreignKeyAction => "Expected foreign key action"
  | .matchName => "Expected match name"
  | .deferredOrImmediate => "Expected DEFERRED or IMMEDIATE"

/-- A fault and the position of the token where it shows. At the end of the tokens, the position
    is their number. -/
structure Misfit where
  fault : Fault
  position : Nat
  deriving DecidableEq, Repr

end SchemaAlign.Parser

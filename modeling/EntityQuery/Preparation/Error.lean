import EntityQuery.ParseError
import EntityQuery.Translator

/-!
Faults found while a query is prepared.
-/

namespace EntityQuery

/-- Why an operand does not fit a property. -/
inductive OperandFault where
  | takesNone (operator : Operator)
  | needsOne (operator : Operator)
  | takesNoList (operator : Operator)
  | nestedList
  | unknownEntity (name : String)
  | notConstant (constants : List String)
  | unconvertible
  | emptyList
  | nullInList
  | nullCompared
  | badPattern (e : EvaluationError)
  | patternNotText
  | notSingle
  deriving DecidableEq

/-- The wording of an operand fault. -/
def OperandFault.message : OperandFault → String
  | takesNone operator => "'" ++ operator.token ++ "' takes no operand"
  | needsOne operator => "'" ++ operator.token ++ "' needs an operand"
  | takesNoList operator => "'" ++ operator.token ++ "' does not take a list"
  | nestedList => "nested lists are not supported"
  | unknownEntity name => "unknown entity type " ++ name
  | notConstant constants => "expected one of " ++ String.intercalate ", " constants
  | unconvertible => "value does not convert"
  | emptyList => "the list of values is empty"
  | nullInList => "null in a list of values"
  | nullCompared => "null cannot be compared"
  | badPattern e => e.message
  | patternNotText => "pattern must be text"
  | notSingle => "expected a single value"

/-- Why a function has no value. -/
inductive FunctionFault where
  | notTemporal (type : PropertyType)
  | noPrincipal
  deriving DecidableEq

/-- The wording of a function fault. -/
def FunctionFault.message : FunctionFault → String
  | notTemporal type => "a date is not comparable with " ++ type.shown
  | noPrincipal => "no authenticated principal"

/-- Why a property cannot be sorted on. -/
inductive SortFault where
  | multiValuedPath
  | multiValuedProperty
  deriving DecidableEq

/-- The wording of a sort fault. -/
def SortFault.message : SortFault → String
  | multiValuedPath => "path traverses a multi-valued association"
  | multiValuedProperty => "property is multi-valued"

/-- How deeply rules may be applied to the conditions that rules yield. -/
def maxRuleDepth : Nat :=
  50

/-- Why a query cannot be prepared. -/
inductive PrepareError where
  | resolve (e : ResolveError)
  | operand (property given : String) (expected : PropertyType) (fault : OperandFault)
  | invalidOperator (property : PropertyPath) (operator : Operator)
  | unsortable (property : PropertyPath) (fault : SortFault)
  | function (function : Function) (property : String) (fault : FunctionFault)
  | translator (e : TranslatorError)
  | unsettled (property : PropertyPath)
  /-- What a preparation that never ends comes to; nothing ever reports it. -/
  | endless

/-- The wording of a preparation error. -/
def PrepareError.message : PrepareError → String
  | resolve e => e.message
  | operand property given expected fault =>
    "Cannot use " ++ given ++ " as " ++ expected.shown ++ " for property '" ++ property ++ "': "
      ++ fault.message
  | invalidOperator property operator =>
    "Operator '" ++ operator.token ++ "' cannot be applied to property '" ++ property.text
      ++ "' of type " ++ property.type.shown
  | unsortable property fault => "Cannot sort on '" ++ property.text ++ "': " ++ fault.message
  | function f property fault =>
    "Cannot resolve " ++ f.call ++ " for property '" ++ property ++ "': " ++ fault.message
  | translator e => e.message
  | unsettled property =>
    "Translation of conditions on '" ++ property.text ++ "' did not settle after "
      ++ Text.integerText maxRuleDepth ++ " steps"
  | endless => "Preparation does not end"

/-- Why a text cannot be made a prepared query. -/
inductive QueryTextError where
  | parse (e : ParseError)
  | prepare (e : PrepareError)

/-- The wording of the error of a query text. -/
def QueryTextError.message : QueryTextError → String
  | parse e => e.message
  | prepare e => e.message

end EntityQuery

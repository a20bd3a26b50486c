import ScriptLens.Number.Decimal

/-!
# Failures

Every way in which an operation of this library can end without a result.
-/

namespace ScriptLens

inductive Problem where
  | illegalToken
  | unexpectedToken (value : Text)
  | unexpected
  | unexpectedEnd
  | unexpectedIdentifier
  | unexpectedNumber
  | unexpectedString
  | unexpectedTemplate (raw : Text)
  | unexpectedReserved
  | getterArity
  | setterArity
  | setterRest
  | asyncConstructor
  | specialConstructor
  | missingInitializer (declared : Text)
  | defaultRest
  | duplicateBinding (name : Text)
  | duplicateConstructor
  | duplicateProto
  | loopInitializer (loop : Text)
  | legacyGenerator
  | strayBreak
  | strayContinue
  | strayReturn
  | languageMode
  | escapedKeyword
  | hexEscape
  | assignmentTarget
  | forInTarget
  | forOfTarget
  | invalidRegexp
  | unterminatedRegexp
  | letBinding
  | severalDefaults
  | brokenThrow
  | bareTry
  | afterRest
  | redeclaredLabel (name : Text)
  | unknownLabel (name : Text)
  | staticPrototype
  | strictCatch
  | strictDelete
  | strictFunction
  | strictFunctionName
  | strictAssignment
  | strictPostfix
  | strictIncrement
  | strictWith
  | strictOctal
  | strictDuplicate
  | strictParameter
  | strictReserved
  | strictVariable
  | templateOctal
  | emptyAttribute
  | closingTag (name : Text)
deriving DecidableEq

def Problem.message : Problem → Text
  | .illegalToken => "Unexpected token ILLEGAL"
  | .unexpectedToken value => ("Unexpected token " : Text) ++ value
  | .unexpected => "Unexpected token"
  | .unexpectedEnd => "Unexpected end of input"
  | .unexpectedIdentifier => "Unexpected identifier"
  | .unexpectedNumber => "Unexpected number"
  | .unexpectedString => "Unexpected string"
  | .unexpectedTemplate raw => ("Unexpected quasi " : Text) ++ raw
  | .unexpectedReserved => "Unexpected reserved word"
  | .getterArity => "Getter must not have any formal parameters"
  | .setterArity => "Setter must have exactly one formal parameter"
  | .setterRest => "Setter function argument must not be a rest parameter"
  | .asyncConstructor => "Class constructor may not be an async method"
  | .specialConstructor => "Class constructor may not be an accessor"
  | .missingInitializer declared => ("Missing initializer in " : Text) ++ declared ++ (" declaration" : Text)
  | .defaultRest => "Unexpected token ="
  | .duplicateBinding name => ("Duplicate binding " : Text) ++ name
  | .duplicateConstructor => "A class may only have one constructor"
  | .duplicateProto => "Duplicate __proto__ fields are not allowed in object literals"
  | .loopInitializer loop => loop ++ (" loop variable declaration may not have an initializer" : Text)
  | .legacyGenerator => "Generator declarations are not allowed in legacy contexts"
  | .strayBreak => "Illegal break statement"
  | .strayContinue => "Illegal continue statement"
  | .strayReturn => "Illegal return statement"
  | .languageMode => "Illegal 'use strict' directive in function with non-simple parameter list"
  | .escapedKeyword => "Keyword must not contain escaped characters"
  | .hexEscape => "Invalid hexadecimal escape sequence"
  | .assignmentTarget => "Invalid left-hand side in assignment"
  | .forInTarget => "Invalid left-hand side in for-in"
  | .forOfTarget => "Invalid left-hand side in for-loop"
  | .invalidRegexp => "Invalid regular expression"
  | .unterminatedRegexp => "Invalid regular expression: missing /"
  | .letBinding => "let is disallowed as a lexically bound name"
  | .severalDefaults => "More than one default clause in switch statement"
  | .brokenThrow => "Illegal newline after throw"
  | .bareTry => "Missing catch or finally after try"
  | .afterRest => "Rest parameter must be last formal parameter"
  | .redeclaredLabel name => ("Label '" : Text) ++ name ++ ("' has already been declared" : Text)
  | .unknownLabel name => ("Undefined label '" : Text) ++ name ++ ("'" : Text)
  | .staticPrototype => "Classes may not have static property named prototype"
  | .strictCatch => "Catch variable may not be eval or arguments in strict mode"
  | .strictDelete => "Delete of an unqualified identifier in strict mode."
  | .strictFunction => "In strict mode code, functions can only be declared at top level or inside a block"
  | .strictFunctionName => "Function name may not be eval or arguments in strict mode"
  | .strictAssignment => "Assignment to eval or arguments is not allowed in strict mode"
  | .strictPostfix => "Postfix increment/decrement may not have eval or arguments operand in strict mode"
  | .strictIncrement => "Prefix increment/decrement may not have eval or arguments operand in strict mode"
  | .strictWith => "Strict mode code may not include a with statement"
  | .strictOctal => "Octal literals are not allowed in strict mode."
  | .strictDuplicate => "Strict mode function may not have duplicate parameter names"
  | .strictParameter => "Parameter name eval or arguments is not allowed in strict mode"
  | .strictReserved => "Use of future reserved word in strict mode"
  | .strictVariable => "Variable name may not be eval or arguments in strict mode"
  | .templateOctal => "Octal literals are not allowed in template strings."
  | .emptyAttribute => "JSX attributes must only be assigned a non-empty expression"
  | .closingTag name => ("Expected corresponding JSX closing tag for " : Text) ++ name

structure Diagnostic where
  problem : Problem
  index : Nat
  line : Nat
  column : Int
deriving DecidableEq

def Diagnostic.message (d : Diagnostic) : Text :=
  ("Line " : Text) ++ Decimal.natText d.line ++ (": " : Text) ++ d.problem.message

inductive Failure where
  | source (d : Diagnostic)
  | missingPart
  | missingEntry
  /-- A position lies outside a sequence. -/
  | missingItem
  /-- A name stands for nothing; the text says more, if there is more to say. -/
  | missingName (message : Text)
  | wrongKind
  /-- A value is outside the domain of an operation; the text says which, if there is more to say. -/
  | badValue (message : Text)
  | tooLarge
  | dividedByZero
  /-- A value cannot be handed to the operators of scripts. -/
  | notConvertible
  /-- A text holds surrogates where characters are needed. -/
  | notEncodable
  /-- Bytes are not the encoding of a text. -/
  | notDecodable
  | badBase64
  | badPattern
  /-- A condition that should hold does not. -/
  | broken (message : Text)
  | exit (code : Nat)
  /-- A computation was cut off before it ended. -/
  | unfinished
deriving DecidableEq

end ScriptLens

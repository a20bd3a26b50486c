/-!
# Kinds of syntax nodes

Every node of a syntax tree has a kind; the kind's name is what the tree shows as its type.
-/

namespace ScriptLens

inductive Kind where
  | arrayExpression
  | arrayPattern
  | arrowFunctionExpression
  | assignmentExpression
  | assignmentPattern
  | awaitExpression
  | binaryExpression
  | blockStatement
  | breakStatement
  | callExpression
  | catchClause
  | classBody
  | classDeclaration
  | classExpression
  | conditionalExpression
  | continueStatement
  | debuggerStatement
  | doWhileStatement
  | emptyStatement
  | exportAllDeclaration
  | exportDefaultDeclaration
  | exportDefaultSpecifier
  | exportNamedDeclaration
  | exportSpecifier
  | expressionStatement
  | fieldDefinition
  | forInStatement
  | forOfStatement
  | forStatement
  | functionDeclaration
  | functionExpression
  | identifier
  | ifStatement
  | importCall
  | importDeclaration
  | importDefaultSpecifier
  | importNamespaceSpecifier
  | importSpecifier
  | labeledStatement
  | literal
  | logicalExpression
  | memberExpression
  | metaProperty
  | methodDefinition
  | newExpression
  | objectExpression
  | objectPattern
  | program
  | property
  | restElement
  | returnStatement
  | sequenceExpression
  | spreadElement
  | superReference
  | switchCase
  | switchStatement
  | taggedTemplateExpression
  | templateElement
  | templateLiteral
  | thisExpression
  | throwStatement
  | tryStatement
  | unaryExpression
  | updateExpression
  | variableDeclaration
  | variableDeclarator
  | whileStatement
  | withStatement
  | yieldExpression
  | arrowParameterPlaceHolder
  | blockComment
  | lineComment
  | lineNote
  | blockNote
  | markupAttribute
  | markupClosingElement
  | markupElement
  | markupEmptyExpression
  | markupExpressionContainer
  | markupIdentifier
  | markupMemberExpression
  | markupNamespacedName
  | markupOpeningElement
  | markupSpreadAttribute
  | markupText
  /-- A bundle of attributes without a type. -/
  | record
  /-- Where a node starts and ends in the source. -/
  | location
deriving DecidableEq, Hashable

namespace Kind

/-- The type that a node of this kind shows. -/
def name? : Kind → Option String
  | .arrayExpression => some "ArrayExpression"
  | .arrayPattern => some "ArrayPattern"
  | .arrowFunctionExpression => some "ArrowFunctionExpression"
  | .assignmentExpression => some "AssignmentExpression"
  | .assignmentPattern => some "AssignmentPattern"
  | .awaitExpression => some "AwaitExpression"
  | .binaryExpression => some "BinaryExpression"
  | .blockStatement => some "BlockStatement"
  | .breakStatement => some "BreakStatement"
  | .callExpression => some "CallExpression"
  | .catchClause => some "CatchClause"
  | .classBody => some "ClassBody"
  | .classDeclaration => some "ClassDeclaration"
  | .classExpression => some "ClassExpression"
  | .conditionalExpression => some "ConditionalExpression"
  | .continueStatement => some "ContinueStatement"
  | .debuggerStatement => some "DebuggerStatement"
  | .doWhileStatement => some "DoWhileStatement"
  | .emptyStatement => some "EmptyStatement"
  | .exportAllDeclaration => some "ExportAllDeclaration"
  | .exportDefaultDeclaration => some "ExportDefaultDeclaration"
  | .exportDefaultSpecifier => some "ExportDefaultSpecifier"
  | .exportNamedDeclaration => some "ExportNamedDeclaration"
  | .exportSpecifier => some "ExportSpecifier"
  | .expressionStatement => some "ExpressionStatement"
  | .fieldDefinition => some "FieldDefinition"
  | .forInStatement => some "ForInStatement"
  | .forOfStatement => some "ForOfStatement"
  | .forStatement => some "ForStatement"
  | .functionDeclaration => some "FunctionDeclaration"
  | .functionExpression => some "FunctionExpression"
  | .identifier => some "Identifier"
  | .ifStatement => some "IfStatement"
  | .importCall => some "Import"
  | .importDeclaration => some "ImportDeclaration"
  | .importDefaultSpecifier => some "ImportDefaultSpecifier"
  | .importNamespaceSpecifier => some "ImportNamespaceSpecifier"
  | .importSpecifier => some "ImportSpecifier"
  | .labeledStatement => some "LabeledStatement"
  | .literal => some "Literal"
  | .logicalExpression => some "LogicalExpression"
  | .memberExpression => some "MemberExpression"
  | .metaProperty => some "MetaProperty"
  | .methodDefinition => some "MethodDefinition"
  | .newExpression => some "NewExpression"
  | .objectExpression => some "ObjectExpression"
  | .objectPattern => some "ObjectPattern"
  | .program => some "Program"
  | .property => some "Property"
  | .restElement => some "RestElement"
  | .returnStatement => some "ReturnStatement"
  | .sequenceExpression => some "SequenceExpression"
  | .spreadElement => some "SpreadElement"
  | .superReference => some "Super"
  | .switchCase => some "SwitchCase"
  | .switchStatement => some "SwitchStatement"
  | .taggedTemplateExpression => some "TaggedTemplateExpression"
  | .templateElement => some "TemplateElement"
  | .templateLiteral => some "TemplateLiteral"
  | .thisExpression => some "ThisExpression"
  | .throwStatement => some "ThrowStatement"
  | .tryStatement => some "TryStatement"
  | .unaryExpression => some "UnaryExpression"
  | .updateExpression => some "UpdateExpression"
  | .variableDeclaration => some "VariableDeclaration"
  | .variableDeclarator => some "VariableDeclarator"
  | .whileStatement => some "WhileStatement"
  | .withStatement => some "WithStatement"
  | .yieldExpression => some "YieldExpression"
  | .arrowParameterPlaceHolder => some "ArrowParameterPlaceHolder"
  | .blockComment => some "BlockComment"
  | .lineComment => some "LineComment"
  | .lineNote => some "Line"
  | .blockNote => some "Block"
  | .markupAttribute => some "JSXAttribute"
  | .markupClosingElement => some "JSXClosingElement"
  | .markupElement => some "JSXElement"
  | .markupEmptyExpression => some "JSXEmptyExpression"
  | .markupExpressionContainer => some "JSXExpressionContainer"
  | .markupIdentifier => some "JSXIdentifier"
  | .markupMemberExpression => some "JSXMemberExpression"
  | .markupNamespacedName => some "JSXNamespacedName"
  | .markupOpeningElement => some "JSXOpeningElement"
  | .markupSpreadAttribute => some "JSXSpreadAttribute"
  | .markupText => some "JSXText"
  | .record | .location => none

/-- The type that a node of this kind shows; bundles show the empty name. -/
def name (k : Kind) : String := k.name?.getD ""

/-- Whether nodes of this kind are syntax, and not plain bundles. -/
def isNode (k : Kind) : Bool := k.name?.isSome

end Kind

end ScriptLens

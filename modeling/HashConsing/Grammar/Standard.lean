import HashConsing.Frontend.Dialect
import HashConsing.Grammar.Declaration
import HashConsing.Grammar.NodeClass
import HashConsing.Log

/-!
# The grammar of Python's syntax trees

The declarations below cover the syntax trees of several versions of Python.
Which of them are in force is decided against the node classes there are: a kind
without a class is left out, and so are declared properties that are no fields
of the class. A class with a field that is not declared would be labeled without
looking at the field, so its kind is left out as well, and a warning is logged.

Properties can be ignored by name, for all kinds or, with the name of the kind
before it, for one.
-/

namespace HashConsing

/-- **The declared node kinds.** -/
def declaredKinds : String := "
Module(stmt* body, type_ignore* type_ignores)
Interactive(stmt* body)
Expression(expr body)
FunctionType(expr* argtypes, expr returns)

FunctionDef(identifier name, arguments args, stmt* body, expr* decorator_list,
            expr? returns, string? type_comment, type_param* type_params)
AsyncFunctionDef(identifier name, arguments args, stmt* body, expr* decorator_list,
                 expr? returns, string? type_comment, type_param* type_params)
ClassDef(identifier name, expr* bases, keyword* keywords, stmt* body,
         expr* decorator_list, type_param* type_params)
Return(expr? value)
Delete(expr* targets)
Assign(expr* targets, expr value, string? type_comment)
TypeAlias(expr name, type_param* type_params, expr value)
AugAssign(expr target, operator op, expr value)
AnnAssign(expr target, expr annotation, expr? value, int simple)
For(expr target, expr iter, stmt* body, stmt* orelse, string? type_comment)
AsyncFor(expr target, expr iter, stmt* body, stmt* orelse, string? type_comment)
While(expr test, stmt* body, stmt* orelse)
If(expr test, stmt* body, stmt* orelse)
With(withitem* items, stmt* body, string? type_comment)
AsyncWith(withitem* items, stmt* body, string? type_comment)
Match(expr subject, match_case* cases)
Raise(expr? exc, expr? cause)
Try(stmt* body, excepthandler* handlers, stmt* orelse, stmt* finalbody)
TryStar(stmt* body, excepthandler* handlers, stmt* orelse, stmt* finalbody)
Assert(expr test, expr? msg)
Import(alias* names)
ImportFrom(identifier? module, alias* names, int? level)
Global(identifier* names)
Nonlocal(identifier* names)
Expr(expr value)
Pass
Break
Continue

BoolOp(boolop op, expr* values)
NamedExpr(expr target, expr value)
BinOp(expr left, operator op, expr right)
UnaryOp(unaryop op, expr operand)
Lambda(arguments args, expr body)
IfExp(expr test, expr body, expr orelse)
Dict(expr* keys, expr* values)
Set(expr* elts)
ListComp(expr elt, comprehension* generators)
SetComp(expr elt, comprehension* generators)
DictComp(expr key, expr value, comprehension* generators)
GeneratorExp(expr elt, comprehension* generators)
Await(expr value)
Yield(expr? value)
YieldFrom(expr value)
Compare(expr left, cmpop* ops, expr* comparators)
Call(expr func, expr* args, keyword* keywords)
FormattedValue(expr value, int conversion, expr? format_spec)
Interpolation(expr value, constant str, int conversion, expr? format_spec)
JoinedStr(expr* values)
TemplateStr(expr* values)
Constant(constant value, string? kind)
Attribute(expr value, identifier attr, expr_context ctx)
Subscript(expr value, expr slice, expr_context ctx)
Starred(expr value, expr_context ctx)
Name(identifier id, expr_context ctx)
List(expr* elts, expr_context ctx)
Tuple(expr* elts, expr_context ctx)
Slice(expr? lower, expr? upper, expr? step)

Load
Store
Del
And
Or
Add
Sub
Mult
MatMult
Div
Mod
Pow
LShift
RShift
BitOr
BitXor
BitAnd
FloorDiv
Invert
Not
UAdd
USub
Eq
NotEq
Lt
LtE
Gt
GtE
Is
IsNot
In
NotIn

comprehension(expr target, expr iter, expr* ifs, int is_async)
ExceptHandler(expr? type, identifier? name, stmt* body)
arguments(arg* posonlyargs, arg* args, arg? vararg, arg* kwonlyargs,
          expr* kw_defaults, arg? kwarg, expr* defaults)
arg(identifier arg, expr? annotation, string? type_comment)
keyword(identifier? arg, expr value)
alias(identifier name, identifier? asname)
withitem(expr context_expr, expr? optional_vars)
match_case(pattern pattern, expr? guard, stmt* body)

MatchValue(expr value)
MatchSingleton(constant value)
MatchSequence(pattern* patterns)
MatchMapping(expr* keys, pattern* patterns, identifier? rest)
MatchClass(expr cls, pattern* patterns, identifier* kwd_attrs, pattern* kwd_patterns)
MatchStar(identifier? name)
MatchAs(pattern? pattern, identifier? name)
MatchOr(pattern* patterns)

TypeIgnore(int lineno, string tag)

TypeVar(identifier name, expr? bound, expr? default_value)
ParamSpec(identifier name, expr? default_value)
TypeVarTuple(identifier name, expr? default_value)
"

/-- A property is to be left out of a kind. -/
def isIgnored (ignored : List String) (kind name : String) : Bool :=
  ignored.contains name || ignored.contains (kind ++ "." ++ name)

/-- The declared property of a name. Of several the last one counts. -/
def findProperty? (declared : List Property) (name : String) : Option Property :=
  declared.reverse.find? (·.name == name)

/-- The warning about a kind that is left out. -/
def LogLine.excludedKind (kind : String) (undeclared : List String) : LogLine :=
  ⟨.warning, "Excluding ast." ++ kind ++ ": fields " ++ ", ".intercalate undeclared
    ++ " are not declared in the grammar table"⟩

/-- The line that says how many kinds are in force. -/
def LogLine.loadedKinds (count : Nat) : LogLine :=
  ⟨.debug, s!"Loaded Python grammar table with {count} node kinds"⟩

/-- What becomes of a declared kind. -/
inductive Admission where
  /-- There is no class of that name. -/
  | unknown
  /-- The class has fields that are not declared. -/
  | excluded (undeclared : List String)
  /-- The kind is in force, with the properties in the order of the fields. -/
  | admitted (properties : List Property)

/-- **Decides about a declared kind.** -/
def admission (ignored : List String) (kind : String) (declared : List Property) : Admission :=
  match nodeFields? kind with
  | none => .unknown
  | some fields =>
    let undeclared := fields.filter fun name => (findProperty? declared name).isNone
    if undeclared.isEmpty then
      .admitted ((fields.filter fun name => !isIgnored ignored kind name).filterMap
        (findProperty? declared))
    else .excluded undeclared

/-- **The part of a grammar that is in force.** -/
def Grammar.inForce (declared : Grammar) (ignored : List String) : Grammar :=
  declared.filterMap fun (kind, properties) =>
    match admission ignored kind properties with
    | .admitted properties => some (kind, properties)
    | _ => none

/-- **What is logged** while a grammar is put in force. -/
def Grammar.inForceLog (declared : Grammar) (ignored : List String) : List LogLine :=
  (declared.filterMap fun (kind, properties) =>
    match admission ignored kind properties with
    | .excluded undeclared => some (.excludedKind kind undeclared)
    | _ => none) ++ [.loadedKinds (declared.inForce ignored).length]

/-- The declared grammar. -/
def declaredGrammar : Grammar := (readGrammar declaredKinds).toOption.getD []

/-- **The front-end for Python's syntax trees**, which leaves out the ignored
properties. Every node is a node to it, whatever its kind. -/
def Frontend.python (ignored : List String) : Frontend :=
  Dialect.frontend
    { grammar := declaredGrammar.inForce ignored
      nodeType := none
      freezesLeaves := true
      unknownReason := some "not a node kind of this interpreter\x27s ast grammar" }

/-- **The front-end of a given grammar.** Nodes are recognized by their type;
raw data is taken as it is. -/
def Frontend.ofGrammar (grammar : Grammar) (nodeType : String) : Frontend :=
  Dialect.frontend
    { grammar, nodeType := some nodeType, freezesLeaves := false, unknownReason := none }

end HashConsing

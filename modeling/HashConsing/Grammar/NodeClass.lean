/-!
# Classes of syntax nodes

The table below lists the node classes of Python 3.11 syntax trees, with the
fields that nodes of each class have, in their order. A declared node kind is
of use only if it is the name of a class, and a declared property only if it is
a field of it.
-/

namespace HashConsing

/-- **The node classes and their fields.** The classes that others are derived
from have no fields. -/
def nodeClasses : List (String × List String) :=
  [
    ("AST", []),
    ("Add", []),
    ("And", []),
    ("AnnAssign", ["target", "annotation", "value", "simple"]),
    ("Assert", ["test", "msg"]),
    ("Assign", ["targets", "value", "type_comment"]),
    ("AsyncFor", ["target", "iter", "body", "orelse", "type_comment"]),
    ("AsyncFunctionDef", ["name", "args", "body", "decorator_list", "returns", "type_comment"]),
    ("AsyncWith", ["items", "body", "type_comment"]),
    ("Attribute", ["value", "attr", "ctx"]),
    ("AugAssign", ["target", "op", "value"]),
    ("AugLoad", []),
    ("AugStore", []),
    ("Await", ["value"]),
    ("BinOp", ["left", "op", "right"]),
    ("BitAnd", []),
    ("BitOr", []),
    ("BitXor", []),
    ("BoolOp", ["op", "values"]),
    ("Break", []),
    ("Bytes", ["s"]),
    ("Call", ["func", "args", "keywords"]),
    ("ClassDef", ["name", "bases", "keywords", "body", "decorator_list"]),
    ("Compare", ["left", "ops", "comparators"]),
    ("Constant", ["value", "kind"]),
    ("Continue", []),
    ("Del", []),
    ("Delete", ["targets"]),
    ("Dict", ["keys", "values"]),
    ("DictComp", ["key", "value", "generators"]),
    ("Div", []),
    ("Ellipsis", []),
    ("Eq", []),
    ("ExceptHandler", ["type", "name", "body"]),
    ("Expr", ["value"]),
    ("Expression", ["body"]),
    ("ExtSlice", []),
    ("FloorDiv", []),
    ("For", ["target", "iter", "body", "orelse", "type_comment"]),
    ("FormattedValue", ["value", "conversion", "format_spec"]),
    ("FunctionDef", ["name", "args", "body", "decorator_list", "returns", "type_comment"]),
    ("FunctionType", ["argtypes", "returns"]),
    ("GeneratorExp", ["elt", "generators"]),
    ("Global", ["names"]),
    ("Gt", []),
    ("GtE", []),
    ("If", ["test", "body", "orelse"]),
    ("IfExp", ["test", "body", "orelse"]),
    ("Import", ["names"]),
    ("ImportFrom", ["module", "names", "level"]),
    ("In", []),
    ("Index", []),
    ("Interactive", ["body"]),
    ("Invert", []),
    ("Is", []),
    ("IsNot", []),
    ("JoinedStr", ["values"]),
    ("LShift", []),
    ("Lambda", ["args", "body"]),
    ("List", ["elts", "ctx"]),
    ("ListComp", ["elt", "generators"]),
    ("Load", []),
    ("Lt", []),
    ("LtE", []),
    ("MatMult", []),
    ("Match", ["subject", "cases"]),
    ("MatchAs", ["pattern", "name"]),
    ("MatchClass", ["cls", "patterns", "kwd_attrs", "kwd_patterns"]),
    ("MatchMapping", ["keys", "patterns", "rest"]),
    ("MatchOr", ["patterns"]),
    ("MatchSequence", ["patterns"]),
    ("MatchSingleton", ["value"]),
    ("MatchStar", ["name"]),
    ("MatchValue", ["value"]),
    ("Mod", []),
    ("Module", ["body", "type_ignores"]),
    ("Mult", []),
    ("Name", ["id", "ctx"]),
    ("NameConstant", ["value", "kind"]),
    ("NamedExpr", ["target", "value"]),
    ("Nonlocal", ["names"]),
    ("Not", []),
    ("NotEq", []),
    ("NotIn", []),
    ("Num", ["n"]),
    ("Or", []),
    ("Param", []),
    ("Pass", []),
    ("Pow", []),
    ("RShift", []),
    ("Raise", ["exc", "cause"]),
    ("Return", ["value"]),
    ("Set", ["elts"]),
    ("SetComp", ["elt", "generators"]),
    ("Slice", ["lower", "upper", "step"]),
    ("Starred", ["value", "ctx"]),
    ("Store", []),
    ("Str", ["s"]),
    ("Sub", []),
    ("Subscript", ["value", "slice", "ctx"]),
    ("Suite", []),
    ("Try", ["body", "handlers", "orelse", "finalbody"]),
    ("TryStar", ["body", "handlers", "orelse", "finalbody"]),
    ("Tuple", ["elts", "ctx"]),
    ("TypeIgnore", ["lineno", "tag"]),
    ("UAdd", []),
    ("USub", []),
    ("UnaryOp", ["op", "operand"]),
    ("While", ["test", "body", "orelse"]),
    ("With", ["items", "body", "type_comment"]),
    ("Yield", ["value"]),
    ("YieldFrom", ["value"]),
    ("alias", ["name", "asname"]),
    ("arg", ["arg", "annotation", "type_comment"]),
    ("arguments", ["posonlyargs", "args", "vararg", "kwonlyargs", "kw_defaults", "kwarg",
      "defaults"]),
    ("boolop", []),
    ("cmpop", []),
    ("comprehension", ["target", "iter", "ifs", "is_async"]),
    ("excepthandler", []),
    ("expr", []),
    ("expr_context", []),
    ("keyword", ["arg", "value"]),
    ("match_case", ["pattern", "guard", "body"]),
    ("mod", []),
    ("operator", []),
    ("pattern", []),
    ("slice", []),
    ("stmt", []),
    ("type_ignore", []),
    ("unaryop", []),
    ("withitem", ["context_expr", "optional_vars"])]

/-- The fields of a node class, if there is a class of that name. -/
def nodeFields? (name : String) : Option (List String) := nodeClasses.lookup name

end HashConsing

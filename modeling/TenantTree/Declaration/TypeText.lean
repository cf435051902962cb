/-
  TenantTree.Declaration.TypeText — what a declaration needs to know of the type of a field.

  The shape of a type follows from the last segment of its path; its element is the last type among
  the arguments of that segment. A type that is no path is a plain value, and an element of itself.
-/
import TenantTree.Declaration.Lexer
import TenantTree.Field

namespace TenantTree.Declaration

/-- A type that refers to its value instead of holding it. -/
inductive Indirection where
  | reference
  | pointer
  deriving DecidableEq, Repr

/-- The type of a declared field. -/
structure TypeText where
  text : String
  shape : FieldShape
  /-- The text of the type of its elements. -/
  element : String
  /-- How it refers to its value, when it does not hold it. -/
  indirection : Option Indirection
  deriving DecidableEq, Repr

/-- The last segment of a path. -/
structure PathSegment where
  name : String
  /-- Its arguments in angle brackets; none without them. -/
  arguments : List Token
  deriving Repr

/-- The last segment of the path that tokens write, when they write one. -/
def lastSegment? : List Token → Option PathSegment
  | [.word name] => some ⟨name, []⟩
  | [.word name, .group .angle args] => some ⟨name, args⟩
  | [.word name, .sign ':' true, .sign ':' _, .group .angle args] => some ⟨name, args⟩
  | [.word name, .group .round _] => some ⟨name, []⟩
  | .word name :: .group .round _ :: .sign '-' true :: .sign '>' _ :: _ :: _ => some ⟨name, []⟩
  | .word _ :: .group .angle _ :: .sign ':' true :: .sign ':' _ :: rest => lastSegment? rest
  | .word _ :: .sign ':' true :: .sign ':' _ :: .group .angle _ :: .sign ':' true :: .sign ':' _
      :: rest => lastSegment? rest
  | .word _ :: .sign ':' true :: .sign ':' _ :: rest => lastSegment? rest
  | _ => none

/-- The last segment of a type, when it is a path; the path may start with colons. -/
def pathOf? : List Token → Option PathSegment
  | .sign ':' true :: .sign ':' _ :: rest => lastSegment? rest
  | tokens => lastSegment? tokens

/-- The shape that the name of a segment stands for. -/
def shapeOfName : String → FieldShape
  | "Option" => .optional
  | "Vec" => .sequence
  | "HashMap" | "BTreeMap" | "IndexMap" => .mapping
  | _ => .scalar

/-- Whether a colon, and not the first of two, is the next token. -/
def startsBound : List Token → Bool
  | .sign ':' true :: .sign ':' _ :: _ => false
  | .sign ':' _ :: _ => true
  | _ => false

/-- Whether an equals sign is the next token. -/
def startsValue (tokens : List Token) : Bool := tokens.head?.any (Token.isSign '=')

/-- Whether an argument binds an associated item: a name, then an equals sign or a bound. -/
def isBinding : List Token → Bool
  | .word _ :: .group .angle _ :: rest => startsValue rest || startsBound rest
  | .word _ :: rest => startsValue rest || startsBound rest
  | _ => false

/-- Whether an argument is a type: neither a lifetime nor a constant nor a binding. -/
def isTypeArgument (tokens : List Token) : Bool :=
  match tokens with
  | [] | [.lifetime _] | [.word "true"] | [.word "false"] => false
  | .literal _ _ :: _ | .group .curly _ :: _ | .sign '-' _ :: .literal _ _ :: _ => false
  | _ => !isBinding tokens

/-- The text of a type without blanks. -/
def typeText (tokens : List Token) : String :=
  String.ofList ((Token.texts tokens).filter fun c => c != ' ')

/-- The last type among type arguments. -/
def elementOf? (arguments : List Token) : Option (List Token) :=
  ((entries arguments).map Prod.fst).reverse.find? isTypeArgument

/-- How a type refers to its value. -/
def indirectionOf : List Token → Option Indirection
  | .sign '&' _ :: _ => some .reference
  | .sign '*' _ :: _ => some .pointer
  | _ => none

/-- What the tokens of a type say. -/
def TypeText.ofTokens (tokens : List Token) : TypeText :=
  let segment := pathOf? tokens
  let element := (segment.bind fun s => elementOf? s.arguments).getD tokens
  { text := typeText tokens
    shape := (segment.map fun s => shapeOfName s.name).getD .scalar
    element := typeText element
    indirection := indirectionOf tokens }

/-- What the text of a type says; none when it has no tokens. -/
def TypeText.read? (s : String) : Option TypeText := (tokens? true s).map TypeText.ofTokens

end TenantTree.Declaration

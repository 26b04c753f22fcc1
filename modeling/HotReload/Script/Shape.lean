import HotReload.Script.Token

/-!
# Shapes of expressions

What has to be known of an expression once it has been read: whether it may be assigned to, whether
it can be taken for the parameters of an arrow function, and whether it may be an operand.

An object or array literal is read before it is known whether it is a value or a pattern.  A
shorthand member with an initializer is allowed in a pattern only; a literal that holds one is
`pending` until an assignment or an arrow makes it a pattern.
-/

namespace HotReload
namespace Script

/-- The place of an expression in an array literal. -/
inductive Slot where
  | hole
  | item
  /-- Spread; `comma` says that a comma follows. -/
  | spread (comma : Bool)
  deriving DecidableEq, Repr

/-- The place of an expression in an object literal. -/
inductive Role where
  | value
  | shorthand
  | method
  /-- Spread; `comma` says that a comma follows. -/
  | spread (comma : Bool)
  deriving DecidableEq, Repr

/-- The shape of an expression. -/
inductive Shape where
  | name (n : String)
  /-- A property of another expression, outside of an optional chain. -/
  | member
  | array (pending : Bool) (elements : List (Slot × Shape))
  | object (pending : Bool) (members : List (Role × Shape))
  /-- An assignment, `plain` if it applies no operator first, with what is assigned to. -/
  | assignment (plain : Bool) (target : Shape)
  | parenthesized (inner : Shape)
  /-- The parameters of an arrow function, whose arrow is the next token. -/
  | parameters (async : Bool)
  /-- An expression that starts with a unary operator. -/
  | unary
  /-- Operands joined by `&&` or `||`. -/
  | logical
  /-- Operands joined by `??`. -/
  | coalesce
  /-- The loading of a module by a call of `import`. -/
  | importCall
  | other
  deriving Repr

namespace Shape

/-- Whether a shorthand member with an initializer still waits for a pattern. -/
def pending : Shape → Bool
  | .array p _ => p
  | .object p _ => p
  | _ => false

/-- Whether the expression may be an operand. -/
def isOperand : Shape → Bool
  | .parameters _ => false
  | s => !s.pending

/-- An array or object literal. -/
def isLiteral : Shape → Bool
  | .array _ _ => true
  | .object _ _ => true
  | _ => false

/-- A name or a property, perhaps in parentheses. -/
def isSimpleTarget : Shape → Bool
  | .name _ => true
  | .member => true
  | .parenthesized s => !s.isLiteral && s.isSimpleTarget
  | _ => false

/-- A plain name. -/
def isName : Shape → Bool
  | .name _ => true
  | _ => false

mutual
/-- Whether the expression may be assigned to. -/
def isTarget : Shape → Bool
  | .array _ elements => areTargetElements elements
  | .object _ members => areTargetMembers members
  | .name _ => true
  | .member => true
  | .parenthesized s => !s.isLiteral && s.isSimpleTarget
  | _ => false

/-- Whether the expression may be assigned to, or is such an expression with a default. -/
def isTargetItem : Shape → Bool
  | .assignment plain _ => plain
  | .array _ elements => areTargetElements elements
  | .object _ members => areTargetMembers members
  | .name _ => true
  | .member => true
  | .parenthesized s => !s.isLiteral && s.isSimpleTarget
  | _ => false

/-- Whether the elements form an assignment pattern: a spread stands last. -/
def areTargetElements : List (Slot × Shape) → Bool
  | [] => true
  | (.hole, _) :: rest => areTargetElements rest
  | (.item, s) :: rest => s.isTargetItem && areTargetElements rest
  | (.spread comma, s) :: rest => !comma && rest.isEmpty && s.isTarget

/-- Whether the members form an assignment pattern: a spread stands last and is no pattern. -/
def areTargetMembers : List (Role × Shape) → Bool
  | [] => true
  | (.value, s) :: rest => s.isTargetItem && areTargetMembers rest
  | (.shorthand, _) :: rest => areTargetMembers rest
  | (.method, _) :: _ => false
  | (.spread comma, s) :: rest => !comma && rest.isEmpty && s.isTarget && !s.isLiteral
end

mutual
/-- Whether the expression can be a parameter without a default. -/
def isBinding : Shape → Bool
  | .name _ => true
  | .array _ elements => areBindingElements elements
  | .object _ members => areBindingMembers members
  | _ => false

/-- Whether the expression can be a parameter, perhaps with a default. -/
def isParameter : Shape → Bool
  | .assignment plain target => plain && target.isBinding
  | .name _ => true
  | .array _ elements => areBindingElements elements
  | .object _ members => areBindingMembers members
  | _ => false

/-- Whether the elements form a parameter pattern. -/
def areBindingElements : List (Slot × Shape) → Bool
  | [] => true
  | (.hole, _) :: rest => areBindingElements rest
  | (.item, s) :: rest => s.isParameter && areBindingElements rest
  | (.spread comma, s) :: rest => !comma && rest.isEmpty && s.isBinding

/-- Whether the members form a parameter pattern. -/
def areBindingMembers : List (Role × Shape) → Bool
  | [] => true
  | (.value, s) :: rest => s.isParameter && areBindingMembers rest
  | (.shorthand, _) :: rest => areBindingMembers rest
  | (.method, _) :: _ => false
  | (.spread comma, s) :: rest => !comma && rest.isEmpty && s.isName
end

end Shape
end Script
end HotReload

import HotReload.Json.Printer
import HotReload.Script.Token

/-!
# Results of a transformation

What a caller is told about a module: its code, or the text of what went wrong.
-/

namespace HotReload

/-- What went wrong with the module of a file. -/
inductive TransformFault where
  /-- The text is no module. -/
  | parse (file : String) (fault : Script.Fault)
  /-- The transpiler refused the text. -/
  | transpile (file reason : String)
  /-- The minifier refused the code. -/
  | minify (file reason : String)
  deriving DecidableEq, Repr

/-- The wording of a fault. -/
def TransformFault.message : TransformFault → String
  | .parse file fault => "failed to parse `" ++ file ++ "`: " ++ fault.message
  | .transpile file reason => "failed to transpile `" ++ file ++ "`: " ++ reason
  | .minify file reason => "failed to minify `" ++ file ++ "`: " ++ reason

/-- The code of a module, or an error; an error counts even if there is code beside it. -/
structure TransformResult where
  error : Option String := none
  data : Option String := none
  deriving DecidableEq, Repr

namespace TransformResult

/-- The result that holds code. -/
def ofCode (code : String) : TransformResult := { data := some code }

/-- The result that holds an error. -/
def ofError (error : String) : TransformResult := { error := some error }

/-- Whether there is no error. -/
def isOk (r : TransformResult) : Bool := r.error.isNone

/-- The code or the error of a result; a result may hold neither. -/
def toExcept (r : TransformResult) : Except String String :=
  match r.error, r.data with
  | some error, _ => .error error
  | none, some data => .ok data
  | none, none => .error "empty transform result"

/-- A text or `null`. -/
def optionalText : Option String → Json.Value
  | some s => .string s
  | none => .null

/-- The JSON value of a result. -/
def value (r : TransformResult) : Json.Value :=
  .object [("error", optionalText r.error), ("data", optionalText r.data)]

end TransformResult
end HotReload

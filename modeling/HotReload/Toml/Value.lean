/-!
# TOML values

What a TOML document holds.  Tables keep their entries in the order of the document; a date or time
is kept as it is written.
-/

namespace HotReload
namespace Toml

/-- A TOML value. -/
inductive Value where
  | string (s : String)
  | integer (n : Int)
  | decimal (x : Float)
  | boolean (b : Bool)
  | moment (lexeme : String)
  | array (items : List Value)
  | table (entries : List (String × Value))
  deriving Inhabited

end Toml
end HotReload

import HotReload.Text.Bytes

/-!
# Stamped URLs

A module is loaded anew when its URL is new.  Reloading therefore asks for the path with a time
stamp as one more query parameter, after those that the path already has.
-/

namespace HotReload
namespace Change

/-- A path with a time stamp as its last query parameter. -/
def stampedUrl (path : String) (timestamp : UInt64) : String :=
  let cs := path.toList
  let separator := if cs.contains '?' then '&' else '?'
  String.ofList (cs ++ separator :: 't' :: '=' :: Text.decimal timestamp.toNat)

end Change
end HotReload

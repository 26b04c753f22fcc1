import HotReload.Proofs.Cache.Keys
import HotReload.Proofs.Json.Likeness

/-!
# What the digest of a configuration tells

A configuration is hashed by the text of its canonical form, and none or `null` as `{}`.  Two
configurations have one text exactly if they are alike (`Cache.configurationText_eq_iff`): the text
is that of the canonical form, which a text determines when the numbers in it are finite, and a
canonical form is one for the values alike.  With digests that tell the two texts apart the digests
agree exactly then.
-/

namespace HotReload
namespace Cache

open Json

variable {v w : Option Value}

/-- Digests that tell texts apart agree exactly on equal texts. -/
theorem configurationDigest_eq_iff
    (apart : Digest.Distinguishes
      [Text.utf8 (configurationText v), Text.utf8 (configurationText w)]) :
    configurationDigest v = configurationDigest w ↔ configurationText v = configurationText w := by
  constructor
  · intro digests
    exact Text.utf8_injective (apart _ (by simp) _ (by simp) digests)
  · intro texts
    exact congrArg Digest.ofText texts

end Cache
end HotReload

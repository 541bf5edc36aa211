import OnDemandCss.ContentHash
import Std.Data.ExtTreeMap

/-!
# Fingerprints of sources

What each source was last extracted from, so that unchanged text is not extracted again.
-/
namespace OnDemandCss

structure Fingerprint where
  hash : ContentHash
  grouped : Bool
deriving DecidableEq, Repr

abbrev Fingerprints := Std.ExtTreeMap String Fingerprint compare

namespace Fingerprints

def isUnchanged (s : Fingerprints) (id : String) (f : Fingerprint) : Bool := s[id]? = some f

def record (s : Fingerprints) (id : String) (f : Fingerprint) : Fingerprints := s.insert id f

end Fingerprints

end OnDemandCss

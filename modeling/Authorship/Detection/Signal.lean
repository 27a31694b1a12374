import Authorship.Detection.Verdict
import Authorship.Feature.Vector

/- When a feature vector says anything at all. -/
namespace Authorship.Detection

open Scalar

variable {α : Type} [Scalar α]

def hasSignal (features : FeatureVector α) : Bool :=
  !features.isEmpty && !(features.get? "basic.loc").any fun loc => loc ≤ zero

end Authorship.Detection

import Authorship.Decimal.Text
import Authorship.Detection.Verdict
import Authorship.Document.Decode

/- The outcome of a detection as it is shown, with its reasons as text. -/
namespace Authorship.Detection

open Document

def noCodeText : String := "Insufficient signal: no lines of code to analyze"

def Reason.text : Reason Float → String
  | .noCode => noCodeText
  | .term description x => description ++ " (" ++ Decimal.signedFixedText 3 x ++ ")"

structure Result where
  prediction : Prediction
  confidence : Float
  score : Float
  reasoning : List String
  contributions : Table Float
  method : Method

def Assessment.result (a : Assessment Float) : Result where
  prediction := a.prediction
  confidence := a.confidence
  score := a.score
  reasoning := a.reasons.map (·.text)
  contributions := a.contributions
  method := a.method

namespace Result

def toJson (r : Result) : Json.Value := .object [
  ("prediction", .text r.prediction.key),
  ("confidence", .real r.confidence),
  ("score", .real r.score),
  ("reasoning", .texts r.reasoning),
  ("contributions", .object (r.contributions.entries.map fun (key, x) => (key, .real x))),
  ("method", .text r.method.key)]

def decode (e : Encoding) (n : Node Float) : Option Result := do
  let fields ←
    e.fields? ["prediction", "confidence", "score", "reasoning", "contributions", "method"] n
  let prediction ← required? fields "prediction" (e.choice? Prediction.ofKey?)
  let confidence ← required? fields "confidence" Node.number?
  let score ← required? fields "score" Node.number?
  let reasoning ← required? fields "reasoning" (Node.items? Node.text?)
  let contributions ← required? fields "contributions" (Node.entries? Node.number?)
  let method ← required? fields "method" (e.choice? Method.ofKey?)
  return ⟨prediction, confidence, score, reasoning, .ofList contributions, method⟩

end Result

end Authorship.Detection

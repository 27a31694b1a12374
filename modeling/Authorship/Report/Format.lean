import Authorship.Text.Lines

/- The forms that a report can take. -/
namespace Authorship.Report

inductive Format where
  | text
  | json
  | jsonl
deriving DecidableEq, Repr

namespace Format

def key : Format → String
  | .text => "text"
  | .json => "json"
  | .jsonl => "jsonl"

def unknownMessage (text : String) : String :=
  "Unknown format '" ++ text ++ "'. Valid formats: text, json, jsonl"

def parse (text : String) : Except String Format :=
  match String.ofList (Text.lowerAscii text.toList) with
  | "text" | "txt" | "terminal" => .ok .text
  | "json" => .ok .json
  | "jsonl" | "ndjson" => .ok .jsonl
  | _ => .error (unknownMessage text)

end Format

end Authorship.Report

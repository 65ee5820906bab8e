import ShapeCodec.Json.Parser
/-! Filters: from one JSON document to any number of them. What filters there are is up to a
language. A language gives its outputs as text, which is read again. -/
namespace ShapeCodec

namespace Filter

/-- What is wrong with the text of a filter, in the words of its language. -/
inductive Flaw where
  | malformed (code detail : String)
  | undefined (code name detail : String)
  deriving DecidableEq

def Flaw.text : Flaw → String
  | malformed code detail => "parse error: " ++ detail ++ " in `" ++ code ++ "`\n"
  | undefined code name detail =>
    "undefined `" ++ name ++ "`: " ++ detail ++ " in `" ++ code ++ "`\n"

/-- A language turns the text of a filter into one that runs on documents, or tells what is wrong
with it. The outputs of a run come in order, each as text or as a fault. -/
abbrev Language := String → Except (List Flaw) (Json → List (Except String String))

end Filter

inductive FilterError where
  | refused (flaws : List Filter.Flaw)
  | failed (detail : String)
  /-- An output is no JSON text. -/
  | unreadable (text : String) (error : Json.SyntaxError)
  deriving DecidableEq

def FilterError.message : FilterError → String
  | refused flaws => String.join (flaws.map Filter.Flaw.text)
  | failed detail => "jq: " ++ detail
  | unreadable text error => "jq produced invalid JSON: " ++ text ++ ": " ++ error.message

namespace Filter

/-- The document that an output stands for. -/
def document : Except String String → Except FilterError Json
  | .error detail => .error (.failed detail)
  | .ok text =>
    match Json.parse text with
    | .ok json => .ok json
    | .error e => .error (.unreadable text e)

/-- The documents that a filter makes of one, if every output is one. -/
def apply (language : Language) (filter : String) (json : Json) : Except FilterError (List Json) :=
  match language filter with
  | .error flaws => .error (.refused flaws)
  | .ok run => (run json).mapM document

end Filter

end ShapeCodec

import MiningClient.Error
import MiningClient.Rpc.Metadata

namespace MiningClient.Trailers

def line (name : HeaderName) (value : HeaderValue) : String :=
  name.text ++ ": " ++ Utf8.lossy value.bytes ++ "\r\n"

def text (m : Metadata) : String := String.join (m.toList.map fun f => line f.1 f.2)

def splitColon : List Char → Option (List Char × List Char)
  | [] => none
  | ':' :: rest => some ([], rest)
  | c :: rest => (splitColon rest).map fun (name, value) => (c :: name, value)

def dropReturns (line : List Char) : List Char := (line.reverse.dropWhile (· == '\r')).reverse

/-- The name and the value of a line, nothing for a blank one. -/
def parseLine (line : List Char) : Except ProtocolError (Option (HeaderName × HeaderValue)) :=
  if line.all Text.isBlank then .ok none
  else
    match splitColon line with
    | none => .error (.trailerWithoutColon (String.ofList line))
    | some (name, value) =>
      match HeaderName.ofText? (Text.trim (String.ofList name)) with
      | none => .error (.trailerName (String.ofList name))
      | some name =>
        match HeaderValue.ofText? (Text.trim (String.ofList value)) with
        | none => .error (.trailerValue name.text)
        | some value => .ok (some (name, value))

/-- Adds the lines to `m`, up to the first that breaks a rule. Blank lines and white space around names
and values mean nothing. -/
def parseLines (m : Metadata) : List (List Char) → Except ProtocolError Metadata
  | [] => .ok m
  | line :: lines =>
    match parseLine (dropReturns line) with
    | .error e => .error e
    | .ok none => parseLines m lines
    | .ok (some (name, value)) => parseLines (m.append name value) lines

def parse (payload : Bytes) : Except ProtocolError Metadata :=
  match Utf8.decode? payload with
  | none => .error .trailersNotUtf8
  | some text => parseLines ∅ (Text.splitOn '\n' text.toList)

end MiningClient.Trailers

import Blackgeorge.Data.Records

/-! What a failed run keeps of an exception's text: keys, tokens and absolute paths are
taken out. The patterns are matched from left to right; none of them needs to backtrack. -/

namespace Blackgeorge.Data.Text

/-- A pattern at a place: the character before it, the text from it on; what replaces
the match and the text behind the match. -/
abbrev Pattern := Option Char → List Char → Option (List Char × List Char)

/-- `pattern.sub`; the first number bounds the places that are looked at. -/
def substitute (pattern : Pattern) : ℕ → Option Char → List Char → List Char
  | 0, _, text => text
  | _, _, [] => []
  | fuel + 1, before, c :: text =>
    match pattern before (c :: text) with
    | some (replacement, rest) => replacement ++ substitute pattern fuel (some c) rest
    | none => c :: substitute pattern fuel (some c) text

/-- A character as `(?i)` compares it: the dotted and the dotless i, the long s and the Kelvin
sign are among the letters. -/
def foldChar (c : Char) : Char :=
  if c.toNat = 304 ∨ c.toNat = 305 then 'i' else if c.toNat = 383 then 's' else lowerChar c

def redacted : List Char := "[redacted]".toList

/-- A word in any case at the start of a text. -/
def takeWord (text : List Char) (word : String) : Option (List Char × List Char) :=
  if (text.take word.length).map foldChar = word.toList then
    some (text.take word.length, text.drop word.length)
  else none

/-- The longest start of a text in a class, if it is not empty. -/
def takeSome (cls : Char → Bool) (text : List Char) : Option (List Char × List Char) :=
  match text.takeWhile cls with
  | [] => none
  | run => some (run, text.dropWhile cls)

/-- `sk-[A-Za-z0-9_-]+`. -/
def secretKey : Pattern := fun _ text => do
  if text.take 3 = "sk-".toList then
    let (_, rest) ← takeSome (fun c => c.isAlphanum || c = '_' || c = '-') (text.drop 3)
    pure (redacted, rest)
  else none

/-- `bearer`, spaces and a token, of which the token is replaced. -/
def bearerToken : Pattern := fun _ text => do
  let (word, rest) ← takeWord text "bearer"
  let (spaces, rest) ← takeSome isSpace rest
  let (_, rest) ← takeSome
    (fun c => (foldChar c).isAlphanum || ['.', '_', '~', '+', '/', '-'].contains c) rest
  pure (word ++ spaces ++ redacted, rest.dropWhile (· = '='))

def secretNames : List String :=
  ["apikey", "api_key", "api-key", "token", "secret", "password", "authorization"]

/-- `((?:api[_-]?key|token|secret|password|authorization)\s*[=:]\s*)\S+`. -/
def assignedSecret : Pattern := fun _ text => do
  let (word, rest) ← secretNames.findSome? (takeWord text)
  let spaces := rest.takeWhile isSpace
  match rest.dropWhile isSpace with
  | mark :: rest =>
    if mark = '=' || mark = ':' then
      let (_, behind) ← takeSome (fun c => !isSpace c) (rest.dropWhile isSpace)
      pure (word ++ spaces ++ [mark] ++ rest.takeWhile isSpace ++ redacted, behind)
    else none
  | [] => none

/-- `(?<!\w)/(?:[^\s:/]+/)+[^\s:]+`. -/
def absolutePath : Pattern := fun before text => do
  let inPath (c : Char) : Bool := !isSpace c && c ≠ ':'
  match before.any isWord, text with
  | false, '/' :: rest =>
    let (_, rest) ← takeSome (fun c => inPath c && c ≠ '/') rest
    match rest with
    | '/' :: rest =>
      let (_, rest) ← takeSome inPath rest
      pure ("[path]".toList, rest)
    | _ => none
  | _, _ => none

def redact (text : String) : String :=
  let patterns := [secretKey, bearerToken, assignedSecret, absolutePath]
  String.ofList (patterns.foldl
    (fun text pattern => substitute pattern (text.length + 1) none text) text.toList)

def unexpectedFailureMessage : String := "An unexpected error occurred"

/-- `_sanitize_exception_message`. -/
def sanitizeExceptionMessage (e : Exn) : String :=
  if e.kind = .cancelled then "Run cancelled"
  else
    let message := strip e.text
    if message = "" then unexpectedFailureMessage
    else if redact message = "" then unexpectedFailureMessage else redact message

end Blackgeorge.Data.Text

import LogScript.Json.Reader
import LogScript.Language
import LogScript.Vocabulary.Basic

/-!
Where vocabularies come from: those that come with the tools, and those of a host. In a host's
vocabulary every list may be missing; what is there has to be a list of texts.
-/

namespace LogScript

private def wordList (words : List String) : List (List Char) :=
  words.map String.toList

namespace Vocabulary

def wpl : Vocabulary where
  keywords := wordList
    ["package", "rule", "plg_pipe", "alt", "opt", "some_of", "seq", "order", "tag",
     "copy_raw", "include", "macro"]
  types := wordList
    ["peek_symbol", "symbol", "bool", "chars", "digit", "float", "time_3339", "time_2822",
     "time/clf", "time_timestamp", "ip", "ip_net", "port", "kvarr", "json", "array",
     "http/request", "http/status", "http/agent", "http/method", "hex", "base64", "sn", "_"]
  functions := wordList
    ["decode/base64", "decode/hex", "unquote/unescape", "take", "last", "f_has",
     "f_chars_has", "f_chars_not_has", "f_chars_in", "f_digit_has", "f_digit_in", "f_ip_in",
     "has", "chars_has", "chars_not_has", "chars_in", "digit_has", "ip_in", "json_unescape",
     "base64_decode"]
  typePrefixes := wordList
    ["array/"]
  functionPrefixes := wordList
    ["plg_pipe/"]

def oml : Vocabulary where
  keywords := wordList
    ["match", "object", "pipe", "option", "collect", "fmt", "select", "from", "where", "in",
     "get", "and", "or", "not", "name", "rule"]
  declaredTypes := wordList
    ["auto", "chars", "digit", "float", "bool", "ip", "time", "obj", "array"]
  privacyTypes := wordList
    ["privacy_ip", "privacy_phone", "privacy_email", "privacy_id_card", "privacy_bank_card",
     "privacy_name", "privacy_address", "privacy_domain", "privacy_keymsg"]
  functions := wordList
    ["read", "take", "Now::time", "Now::date", "Now::hour", "Time::to_ts_zone",
     "Time::to_ts", "Time::to_ts_ms", "Time::to_ts_us", "base64_decode", "base64_encode",
     "html_escape", "html_unescape", "json_escape", "json_unescape", "str_escape", "to_str",
     "to_json", "ip4_to_int", "nth", "get", "path", "url", "skip_empty"]
  constants := wordList
    ["true", "false"]

def builtin : Language → Vocabulary
  | .wpl => wpl
  | .oml => oml

def fieldNames : List (List Char) :=
  ["keywords", "types", "declaredTypes", "privacyTypes", "functions", "constants", "typePrefixes",
    "functionPrefixes"].map String.toList

def ofJson? (value : Json) : Option Vocabulary := do
  let fields ← value.fields? fieldNames
  let list (name : String) := Json.field? fields name Json.texts? []
  return {
    keywords := ← list "keywords"
    types := ← list "types"
    declaredTypes := ← list "declaredTypes"
    privacyTypes := ← list "privacyTypes"
    functions := ← list "functions"
    constants := ← list "constants"
    typePrefixes := ← list "typePrefixes"
    functionPrefixes := ← list "functionPrefixes" }

def read (language : Language) (text : List Char) : Except ToolError Vocabulary :=
  match (Json.read? text).bind ofJson? with
  | some v => .ok v
  | none => .error (.unreadableVocabulary language)

end Vocabulary

end LogScript

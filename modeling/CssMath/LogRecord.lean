import CssMath.Glyph

/-! Log records, and the quoted form in which they show foreign text. -/
namespace CssMath

inductive LogLevel where
  | debug | warn
  deriving DecidableEq

def LogLevel.name : LogLevel → String
  | debug => "DEBUG"
  | warn => "WARN"

structure LogRecord where
  level : LogLevel
  message : String
  deriving DecidableEq

def LogRecord.line (r : LogRecord) : String := r.level.name ++ " " ++ r.message

/-- What neither has a glyph nor a short escape is shown by its code point. -/
def escaped (c : Char) : List Char :=
  match c with
  | '"' => ['\\', '"']
  | '\\' => ['\\', '\\']
  | '\n' => ['\\', 'n']
  | '\r' => ['\\', 'r']
  | '\t' => ['\\', 't']
  | '\x00' => ['\\', '0']
  | c =>
    if hasGlyph c then [c]
    else "\\u\x7b".toList ++ Nat.toDigits 16 c.toNat ++ "\x7d".toList

def quoted (text : String) : String :=
  String.ofList ('"' :: text.toList.flatMap escaped ++ ['"'])

end CssMath

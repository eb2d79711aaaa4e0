import FlowCorpus.Text.Digit
import FlowCorpus.Text.Printable

/-!
# Quoted text

A text in quotes, as messages show it: single quotes unless the text holds a single quote and no
double one; a backslash before the quote in use and before a backslash; short escapes for tab,
line feed and carriage return; code points for the other characters that are not printable.
-/

set_option autoImplicit false

namespace FlowCorpus.Text

def quoteFor (s : List Char) : Char :=
  if s.contains '\'' && !s.contains '"' then '"' else '\''

def quoteChar (quote c : Char) : List Char :=
  if c = quote || c = '\\' then ['\\', c]
  else if c = '\t' then ['\\', 't']
  else if c = '\n' then ['\\', 'n']
  else if c = '\r' then ['\\', 'r']
  else if isPrintable c then [c]
  else
    let n := c.toNat
    if n < 0x100 then '\\' :: 'x' :: hex 2 n
    else if n < 0x10000 then '\\' :: 'u' :: hex 4 n
    else '\\' :: 'U' :: hex 8 n

def quoted (s : String) : String :=
  let quote := quoteFor s.toList
  String.ofList (quote :: (s.toList.flatMap (quoteChar quote) ++ [quote]))

end FlowCorpus.Text

import FlowCorpus.Assembly.Opcode
import FlowCorpus.Fault
import FlowCorpus.Text.Blank
import FlowCorpus.Text.Case

/-!
# Architecture names

An architecture named by a user or by disassembly: any of its aliases, in either case, between
blanks.
-/

set_option autoImplicit false

namespace FlowCorpus.Assembly

open FlowCorpus.Text

def Architecture.ofAlias? (name : String) : Option Architecture :=
  Architecture.all.find? fun a => a.aliases.contains name

def Architecture.parse (text : String) : Except Fault Architecture :=
  match Architecture.ofAlias? (String.ofList ((trim text.toList).map lower)) with
  | some architecture => .ok architecture
  | none => .error (.unsupportedArchitecture text)

end FlowCorpus.Assembly

/-!
# Substitution

Replacing the parts of a text that a rule recognises, from left to right and without overlap. What
has been put in is not looked at again.
-/

set_option autoImplicit false

namespace FlowCorpus.Text

/-- What a rule finds at the start of a text: the number of characters it takes, at least one, and
what they become. -/
abbrev Rule := List Char → Option (Nat × List Char)

/-- The text after substitution, where the given number of characters at its start have already
been replaced. -/
def substituteAfter (rule : Rule) : Nat → List Char → List Char
  | _, [] => []
  | taken + 1, _ :: rest => substituteAfter rule taken rest
  | 0, c :: rest =>
    match rule (c :: rest) with
    | some (taken + 1, replacement) => replacement ++ substituteAfter rule taken rest
    | _ => c :: substituteAfter rule 0 rest

def substitute (rule : Rule) (s : List Char) : List Char :=
  substituteAfter rule 0 s

/-- Rules applied one after the other, each to the text the one before it leaves. -/
def substituteAll (rules : List Rule) (s : List Char) : List Char :=
  rules.foldl (fun s rule => substitute rule s) s

end FlowCorpus.Text

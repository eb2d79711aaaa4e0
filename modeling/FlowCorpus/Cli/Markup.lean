import FlowCorpus.Cli.Literal
import FlowCorpus.Cli.Style
import FlowCorpus.Text.Word

/-!
# Markup

Texts to be shown may hold tags in brackets. A tag gives the text behind it a style, and a tag with
a slash ends a style that was begun. A backslash before a tag makes it text.
-/

set_option autoImplicit false

namespace FlowCorpus.Cli

open FlowCorpus.Number FlowCorpus.Text

structure Tag where
  name : List Char
  parameters : Option (List Char) := none
deriving DecidableEq, Repr

/-- A piece of a text to be shown. -/
inductive Piece where
  | chars (s : List Char)
  | tag (t : Tag)
deriving DecidableEq, Repr

def beginsTag (c : Char) : Bool :=
  ('a'.toNat ≤ c.toNat && c.toNat ≤ 'z'.toNat) || c == '#' || c == '/' || c == '@'

def tagBody? (s : List Char) : Option (List Char) :=
  let body := s.takeWhile fun c => c != '[' && c != ']'
  if s.head?.any beginsTag && (s.drop body.length).head? = some ']' then some body else none

def Tag.ofBody (body : List Char) : Tag :=
  let name := body.takeWhile (· != '=')
  match body.drop name.length with
  | [] => { name }
  | _ :: parameters => ⟨name, some parameters⟩

def backslashes (count : Nat) : List Char :=
  List.replicate count '\\'

/-- The pieces of a text after some characters that are skipped, and after some backslashes. -/
def piecesFrom (skipped slashes : Nat) : List Char → List Piece
  | [] => [.chars (backslashes slashes)]
  | c :: rest =>
    if 0 < skipped then piecesFrom (skipped - 1) 0 rest
    else if c == '\\' then piecesFrom 0 (slashes + 1) rest
    else if c == '[' then
      match tagBody? rest with
      | some body =>
        let piece :=
          if slashes % 2 = 1 then Piece.chars ('[' :: (body ++ [']'])) else .tag (.ofBody body)
        .chars (backslashes (slashes / 2)) :: piece :: piecesFrom (body.length + 1) 0 rest
      | none => .chars (backslashes (slashes - 1) ++ ['[']) :: piecesFrom 0 0 rest
    else .chars (backslashes slashes ++ [c]) :: piecesFrom 0 0 rest

def pieces (s : List Char) : List Piece :=
  piecesFrom 0 0 s

def isActionChar (c : Char) : Bool :=
  isWord c || c == '.'

/-- Whether the parameters of an action can be read: the name of the action, and behind it nothing
or a written value in brackets on one line; or else a written value alone. -/
def isAction (parameters : List Char) : Bool :=
  let parameters := trim parameters
  let behindName := parameters.dropWhile isActionChar
  if behindName.isEmpty then true
  else if behindName.head? = some '(' && behindName.getLast? = some ')' &&
      !behindName.contains '\n' then isLiteral behindName
  else isLiteral parameters

/-- A style is ended. That of an action has to be an action. -/
def endStyle (t : Tag) : Except Fault Unit :=
  if t.name.head? = some '@' && !(t.parameters.getD []).isEmpty then
    if isAction (t.parameters.getD []) then .ok () else .error .brokenMarkup
  else .ok ()

/-- The tags that are open after a tag that ends a style: the last one that was opened, or the last
one with the name. -/
def closeTag (name : List Char) (openTags : List Tag) : Except Fault (List Tag) := do
  if (trim name).isEmpty then
    match openTags with
    | [] => throw .brokenMarkup
    | t :: rest => do
      endStyle t
      return rest
  else
    let style ← normalStyle (trim name)
    match openTags.find? fun t => t.name == style.toList with
    | none => throw .brokenMarkup
    | some t => do
      endStyle t
      return openTags.erase t

def readPiece (openTags : List Tag) : Piece → Except Fault (List Tag)
  | .chars _ => .ok openTags
  | .tag t =>
    match t.name with
    | '/' :: name => closeTag name openTags
    | name => do
      let style ← normalStyle name
      return { t with name := style.toList } :: openTags

/-- Whether a text can be shown: every tag that ends a style has one to end. -/
def checkMarkup (s : String) : Except Fault Unit := do
  let _ ← (pieces s.toList).foldlM readPiece []

def plainText (s : String) : String :=
  String.ofList ((pieces s.toList).flatMap fun piece =>
    match piece with
    | .chars s => s
    | .tag _ => [])

end FlowCorpus.Cli

import FlowCorpus.Config.Environment
import FlowCorpus.Proofs.Text.Runs
import FlowCorpus.Proofs.Text.Substitution

/-!
# Placeholders in settings

A text of settings is made of plain segments and placeholders. Interpolation keeps the plain
segments and puts its value in the place of every placeholder, whatever stands in the values and
defaults. In a document it changes the texts and nothing else.
-/

set_option autoImplicit false

namespace FlowCorpus.Config

open FlowCorpus.Schema FlowCorpus.Text

/-! ## Texts -/

structure Placeholder where
  name : List Char
  default : Option (List Char)
  named : name ≠ []
  words : name.all isWord = true
  closed : ∀ d ∈ default, closing ∉ d

namespace Placeholder

def ending (p : Placeholder) : List Char :=
  match p.default with
  | none => [closing]
  | some d => ':' :: (d ++ [closing])

def text (p : Placeholder) : List Char :=
  '$' :: '\x7b' :: (p.name ++ p.ending)

/-- The value of the variable when it is set, else the default, else nothing. -/
def value (env : Environment) (p : Placeholder) : List Char :=
  match env.lookup (String.ofList p.name), p.default with
  | some v, _ => v.toList
  | none, some d => d
  | none, none => []

end Placeholder

/-- A part of a text: one without dollar signs, or a placeholder. -/
inductive Segment where
  | plain (s : List Char) (noDollar : '$' ∉ s)
  | placeholder (p : Placeholder)

namespace Segment

def text : Segment → List Char
  | .plain s _ => s
  | .placeholder p => p.text

def value (env : Environment) : Segment → List Char
  | .plain s _ => s
  | .placeholder p => p.value env

end Segment

def opening : List Char :=
  ['$', '\x7b']

def isInert : Datum → Bool
  | .text _ | .halved _ | .list _ | .mapping _ => false
  | _ => true

/-- A value and another one of the same shape with the same keys, in which every text is
interpolated and every other leaf is as it was. -/
inductive Interpolated (env : Environment) : Datum → Datum → Prop where
  | text (s : String) : Interpolated env (.text s) (.text (interpolate env s))
  | halved (s : String) : Interpolated env (.halved s) (.halved (interpolate env s))
  | inert {d : Datum} : isInert d = true → Interpolated env d d
  | list {items results : List Datum} :
      List.Forall₂ (Interpolated env) items results → Interpolated env (.list items) (.list results)
  | mapping {entries results : List (Datum × Datum)} :
      entries.map Prod.fst = results.map Prod.fst →
      List.Forall₂ (Interpolated env) (entries.map Prod.snd) (results.map Prod.snd) →
      Interpolated env (.mapping entries) (.mapping results)

mutual

theorem interpolated_mapTexts (env : Environment) (d : Datum) :
    Interpolated env d (mapTexts (interpolate env) d) := by
  cases d with
  | text s => exact .text s
  | halved s => exact .halved s
  | list items => exact .list (interpolated_mapItems env items)
  | mapping entries =>
      obtain ⟨keys, values⟩ := interpolated_mapEntries env entries
      exact .mapping keys values
  | null | bool | int | float | bytes | date | moment | pairs | set => exact .inert rfl

theorem interpolated_mapItems (env : Environment) (items : List Datum) :
    List.Forall₂ (Interpolated env) items (mapItems (interpolate env) items) := by
  cases items with
  | nil => exact .nil
  | cons item rest => exact .cons (interpolated_mapTexts env item) (interpolated_mapItems env rest)

theorem interpolated_mapEntries (env : Environment) (entries : List (Datum × Datum)) :
    entries.map Prod.fst = (mapEntries (interpolate env) entries).map Prod.fst ∧
      List.Forall₂ (Interpolated env) (entries.map Prod.snd)
        ((mapEntries (interpolate env) entries).map Prod.snd) := by
  cases entries with
  | nil => exact ⟨rfl, .nil⟩
  | cons entry rest =>
      obtain ⟨key, value⟩ := entry
      obtain ⟨keys, values⟩ := interpolated_mapEntries env rest
      constructor
      · exact congrArg (key :: ·) keys
      · exact .cons (interpolated_mapTexts env value) values

end

/-- A text that stands in a value, not counting keys and inert values. -/
inductive HasText (s : String) : Datum → Prop where
  | text : HasText s (.text s)
  | halved : HasText s (.halved s)
  | item {items : List Datum} {item : Datum} :
      item ∈ items → HasText s item → HasText s (.list items)
  | value {entries : List (Datum × Datum)} {entry : Datum × Datum} :
      entry ∈ entries → HasText s entry.2 → HasText s (.mapping entries)

section

variable {f : String → String}

mutual

theorem mapTexts_eq_self (d : Datum) (same : ∀ s, HasText s d → f s = s) : mapTexts f d = d := by
  cases d with
  | text s => exact congrArg Datum.text (same s .text)
  | halved s => exact congrArg Datum.halved (same s .halved)
  | list items =>
      apply congrArg Datum.list
      apply mapItems_eq_self
      intro item member s inside
      exact same s (.item member inside)
  | mapping entries =>
      apply congrArg Datum.mapping
      apply mapEntries_eq_self
      intro entry member s inside
      exact same s (.value member inside)
  | null | bool | int | float | bytes | date | moment | pairs | set => rfl

theorem mapItems_eq_self (items : List Datum)
    (same : ∀ item ∈ items, ∀ s, HasText s item → f s = s) : mapItems f items = items := by
  cases items with
  | nil => rfl
  | cons item rest =>
      rw [List.forall_mem_cons] at same
      rw [mapItems, mapTexts_eq_self item same.1, mapItems_eq_self rest same.2]

theorem mapEntries_eq_self (entries : List (Datum × Datum))
    (same : ∀ entry ∈ entries, ∀ s, HasText s entry.2 → f s = s) :
    mapEntries f entries = entries := by
  cases entries with
  | nil => rfl
  | cons entry rest =>
      obtain ⟨key, value⟩ := entry
      rw [List.forall_mem_cons] at same
      rw [mapEntries, mapTexts_eq_self value same.1, mapEntries_eq_self rest same.2]

end

end

end FlowCorpus.Config

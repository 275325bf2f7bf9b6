import LogCatalog.Yaml.Tag

/-!
# Tokens

What a text is made of once its indentation is spelt out. Anchors have numbers in place of their names.
-/
namespace LogCatalog.Yaml

inductive Token where
  | version
  | handle (name : String) (start : Octets)
  | documentStart
  | documentEnd
  | openBlockSequence
  | openBlockMapping
  | closeBlock
  /-- The dash of a block sequence. -/
  | dash
  | openSequence
  | closeSequence
  | openMapping
  | closeMapping
  | comma
  | key
  | value
  | anchor (number : Nat)
  | reference (number : Nat)
  | tag (t : Tag.Shorthand)
  | scalar (plain : Bool) (text : String)
deriving DecidableEq

end LogCatalog.Yaml

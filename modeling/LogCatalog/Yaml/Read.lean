import LogCatalog.Yaml.Tokens
import LogCatalog.Yaml.Value

/-!
# Reading YAML text

The value of the only document of a text, as JSON whose members stand in the order of the text.
-/
namespace LogCatalog.Yaml

def read? (text : String) : Option Json := do
  let tokens ← Token.ofText? text
  let node ← Node.ofTokens? tokens
  node.json?

end LogCatalog.Yaml

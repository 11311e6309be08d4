import Cobalt.ConfigValidator.MetricDefinitions

/-!
# The registry as a message

The tools that write and compare registries handle them as messages: a list of customers, each with
a list of projects, each with a list of metrics. The lists are in any order, and nothing in the
messages keeps two entries of a list from having the same name or the same id.

## Main definitions

* `ProjectConfig`, `CustomerConfig`, `CobaltRegistry`.
-/

namespace Cobalt.Config

/-- `ProjectConfig`. -/
structure ProjectConfig where
  projectName : String
  projectId : ℕ
  projectContact : String := ""
  metrics : List ConfigValidator.MetricDefinition := []

/-- `CustomerConfig`. -/
structure CustomerConfig where
  customerName : String
  customerId : ℕ
  projects : List ProjectConfig := []

/-- `CobaltRegistry`. -/
structure CobaltRegistry where
  customers : List CustomerConfig := []

end Cobalt.Config

import SupportOps.Python.Models

/-!
# The rule engine

`RuleEngine.match`: the enabled rule of the event's category with the highest threshold that
the event's severity reaches. Rules with equal thresholds come in storage order, which stands
for any order the database may return them in.
-/
namespace SupportOps.Python

open Library

namespace RuleEngine

/-- The `WHERE` clauses of `match`. -/
def applies (event : OperationalEvent) (rule : AutomationRule) : Bool :=
  rule.enabled && decide (rule.category = event.category) &&
    decide (rule.minimumSeverity ≤ event.severity)

/-- `ORDER BY minimum_severity DESC`. -/
def before (r₁ r₂ : AutomationRule) : Prop := r₂.minimumSeverity ≤ r₁.minimumSeverity

instance : DecidableRel before := fun r₁ r₂ =>
  inferInstanceAs (Decidable (r₂.minimumSeverity ≤ r₁.minimumSeverity))

def matchRule (rules : Table AutomationRule) (event : OperationalEvent) : Option AutomationRule :=
  (rules.select (applies event) before 1).head?

theorem matchRule_mem {rules : Table AutomationRule} {event : OperationalEvent}
    {rule : AutomationRule} (h : matchRule rules event = some rule) :
    rule ∈ rules.rows ∧ applies event rule = true :=
  Table.mem_of_mem_select rules (List.mem_of_mem_head? h)

end RuleEngine

end SupportOps.Python

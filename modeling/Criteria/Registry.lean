import Criteria.Field
import Criteria.NameTable

/-!
Which models there are, the tables they read from and the fields they can be filtered by. The last
write of a binding or a field counts, whatever is written in between. A registry is a value: what
was read from it stays as it was, however the registry goes on.
-/

namespace Criteria

/-- The table that a model reads from. -/
structure TableBinding where
  table : String
  primaryKey : String
deriving DecidableEq, Repr, Inhabited

structure Model {ι : Type} (E : ι → Type) where
  /-- The model's table, once it is bound to one. -/
  binding : Option TableBinding := none
  fields : NameTable (Field E) := ∅

structure Registry {ι : Type} (E : ι → Type) where
  models : NameTable (Model E) := ∅

namespace Registry

variable {ι : Type} {E : ι → Type}

def empty : Registry E where
  models := ∅

instance : EmptyCollection (Registry E) := ⟨empty⟩

instance : Inhabited (Registry E) := ⟨empty⟩

/-- What is known of the model of a name. -/
def model? (registry : Registry E) (name : String) : Option (Model E) :=
  registry.models.get? name

/-- True of the models that some write has named. -/
def contains (registry : Registry E) (name : String) : Bool :=
  registry.models.contains name

def names (registry : Registry E) : List String :=
  registry.models.names

/-- Changes what is known of a model, starting from nothing if it is new. -/
def modify (registry : Registry E) (name : String) (change : Model E → Model E) : Registry E where
  models := registry.models.insert name (change ((registry.model? name).getD {}))

def bind (registry : Registry E) (name : String) (binding : TableBinding) : Registry E :=
  registry.modify name fun model => { model with binding := some binding }

/-- Gives a model a field. Its other fields stay. -/
def addField (registry : Registry E) (name field : String) (how : Field E) : Registry E :=
  registry.modify name fun model => { model with fields := model.fields.insert field how }

theorem model?_modify (registry : Registry E) (name other : String)
    (change : Model E → Model E) :
    (registry.modify name change).model? other =
      if other = name then some (change ((registry.model? name).getD {}))
      else registry.model? other := by
  simp [model?, modify, NameTable.get?_insert]

end Registry

end Criteria

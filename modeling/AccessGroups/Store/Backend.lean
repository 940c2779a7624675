import AccessGroups.Event
import AccessGroups.Store.Memory
import AccessGroups.Store.Registry

/-!
# Stores of either kind

Rows and resources are kept together either in memory or in a database. Both kinds answer the same
calls.

## Main definitions

* `Backend`: a store with its resources, with `Backend.performStore` and
  `Backend.performRegistry`.
* `Backend.entries`, `Backend.resources`: what is stored.
-/

namespace AccessGroups

/-- A store together with the resources. -/
inductive Backend where
  | memory (store : MemoryStore) (registry : MemoryRegistry)
  | database (tables : ResourceTables) (data : Database)

namespace Backend

/-- Answer a call to the store; there may be no answer. -/
def performStore (b : Backend) (c : StoreCall) : Option (c.Answer × Backend) :=
  match b with
  | .memory store registry => (store.perform c).map fun r => (r.1, .memory r.2 registry)
  | .database tables data =>
    let (answer, data) := data.performStore c
    some (answer, .database tables data)

/-- Answer a call to the resources. -/
def performRegistry (b : Backend) (c : RegistryCall) : c.Answer × Backend :=
  match b with
  | .memory store registry =>
    let (answer, registry) := registry.perform c
    (answer, .memory store registry)
  | .database tables data =>
    let (answer, data) := data.performRegistry tables c
    (answer, .database tables data)

/-- What a database says in the log about the answer to a call. -/
def remarks (b : Backend) : (c : RegistryCall) → c.Answer → List Event
  | .delete kind resource, .error .notFound =>
    match b with
    | .memory _ _ => []
    | .database _ _ => [.resourceGone kind resource]
  | _, _ => []

/-- The rows in ascending order of their identifiers; a table that is gone shows none. -/
def entries : Backend → List Entry
  | .memory store _ => store.entries.rows
  | .database _ data => (data.entries.map fun t => t.rows).getD []

/-- The resources of one kind with their references, which may be empty. -/
def resourcesOf : Backend → ResourceKind → List HostRow
  | .memory _ registry, kind =>
    (registry.refs kind).rows.map fun r => ⟨r.resource, some r.group⟩
  | .database tables data, kind => data.resources tables kind

/-- The resources of all kinds in scan order. -/
def resources (b : Backend) : List (ResourceKind × HostRow) :=
  ResourceKind.all.flatMap fun kind => (b.resourcesOf kind).map (kind, ·)

end Backend

end AccessGroups

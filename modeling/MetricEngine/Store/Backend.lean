import MetricEngine.Store.Memory

/-!
What a stage sees of a store: after some latency a query is answered, fails, or is never answered
because the store breaks down. A scripted store answers by the name of a query's first metric.
-/
namespace MetricEngine

inductive StoreOutcome where
  | answered (response : Response)
  | failed (error : StoreError)
  | broken

structure StoreReply where
  latencyMillis : Nat
  outcome : StoreOutcome

namespace MemoryStore

/-- A failure that was set wins over the evaluation. -/
def outcome (store : MemoryStore) (query : Query) : StoreOutcome :=
  match store.failure with
  | some error => .failed error
  | none =>
    match query.metrics.mapM fun metric => metric.answer store.series query.range with
    | .ok queries => .answered ⟨queries, []⟩
    | .error .periodOverflow => .broken
    | .error error => .failed (.invalidQuery error.message)

def reply (store : MemoryStore) (query : Query) : StoreReply :=
  ⟨store.latencyMillis, store.outcome query⟩

end MemoryStore

/-- Replies by metric name. -/
structure ScriptedStore where
  replies : Table StoreReply

def ScriptedStore.reply (store : ScriptedStore) (query : Query) : StoreReply :=
  let name := (query.metrics.head?.map (·.name)).getD ""
  match store.replies.get? name with
  | some reply => reply
  | none => ⟨0, .failed (.backend ("no script for " ++ name))⟩

inductive Backend where
  | memory (store : MemoryStore)
  | scripted (store : ScriptedStore)

def Backend.reply : Backend → Query → StoreReply
  | memory store => store.reply
  | scripted store => store.reply

end MetricEngine

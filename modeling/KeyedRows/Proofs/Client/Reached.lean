/-
# What clients put into requests

A client has made some calls before and has received what it has received; its
cache of encoded filters is whatever these left. The payload of its next request
does not depend on any of it: no filter travels as no bytes, and a filter as its
encoding, which is never empty, so the two cannot be mistaken for each other.

Main statement: `filterBytes_eq`.
-/

import KeyedRows.Client
import KeyedRows.Proofs.Wire.Messages

namespace KeyedRows

/-- An optional filter as it travels. -/
def filterPayload : Option Filter → Bytes
  | none => []
  | some f => Wire.encode f

/-- Only no filter travels as no bytes. -/
theorem isEmpty_filterPayload (filter : Option Filter) :
    (filterPayload filter).isEmpty = filter.isNone := by
  cases filter with
  | none => rfl
  | some f => exact List.isEmpty_eq_false_iff.2 (Wire.write_ne_nil f)

namespace Call

theorem sound_filterBytes {cache : FilterCache} (h : cache.Sound) (filter : Option Filter) :
    (filterBytes cache filter).2.Sound := by
  cases filter with
  | none => exact h
  | some f => exact FilterCache.sound_encode h f

/-- Making the payload of a call leaves the cache right. -/
theorem sound_payload {cache : FilterCache} (h : cache.Sound) (call : Call) :
    (call.payload cache).2.Sound := by
  cases call with
  | query _ filter | delete _ filter | update _ filter => exact sound_filterBytes h filter
  | aggregate _ filter => exact sound_filterBytes h (some filter)
  | ping | stats | createDatabase | createTable | dropTable | save | saveBatch | request => exact h

end Call

namespace Client

/-- The clients there can be: connected once, they send calls and receive bytes. -/
inductive Reached : Client → Prop
  | create (limit : Nat) : Reached (create limit)
  | send {c : Client} (h : Reached c) (call : Call) : Reached (c.send call).2
  | receive {c : Client} (h : Reached c) (call : Call) (id : UInt64) (chunk : Bytes)
      (closed : Bool) : Reached (c.receive call id chunk closed).2

theorem cache_send (c : Client) (call : Call) :
    (c.send call).2.cache = (call.payload c.cache).2 := by
  rw [send]
  split <;> rfl

theorem cache_receive (c : Client) (call : Call) (id : UInt64) (chunk : Bytes) (closed : Bool) :
    (c.receive call id chunk closed).2.cache = c.cache := by
  rw [receive]
  split <;> rfl

theorem Reached.sound {c : Client} (h : c.Reached) : c.cache.Sound := by
  induction h with
  | create limit => exact FilterCache.sound_create 256
  | send _ call ih =>
    rw [cache_send]
    exact call.sound_payload ih
  | receive _ call id chunk closed ih => rwa [cache_receive]

/-- **What travels for a filter is the same for every client.** -/
theorem filterBytes_eq {c : Client} (h : c.Reached) (filter : Option Filter) :
    (Call.filterBytes c.cache filter).1 = filterPayload filter := by
  cases filter with
  | none => rfl
  | some f => exact FilterCache.bytes_encode h.sound f

end Client
end KeyedRows

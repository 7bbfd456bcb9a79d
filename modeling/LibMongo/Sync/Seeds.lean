import LibMongo.Net.Grammar
import LibMongo.Sync.Carry

/-!
# Seeds

A seed is the text that `mongo_sync_connect` and the two functions that add one make of a host and
a port.  Nothing else is kept of the address, so what is dialled later is what
`mongo_util_parse_addr` finds in that text.
-/

namespace LibMongo

open Bytes Program

variable {σ : Type} (N : Net σ)

/-- The text stands for the address, wherever a seed is dialled. -/
structure Seed (text host : CString) (port : Int) : Prop where
  parse : mongoUtilParseAddr text = .ok (host, port)
  /-- `mongo_sync_reconnect` connects to it. -/
  dial : ∀ w, (connectAddr N text).exec w
    = (mongoSyncConnect N host port w.conn.slaveok).exec w
  /-- So does connecting from a recovery cache. -/
  recover : ∀ reconnect id slaveok cache rest,
    recoveryCachePickConnectFromList N reconnect id slaveok cache (text :: rest) = (do
      match ← recoveryCacheConnect N id slaveok cache host port with
      | none => recoveryCachePickConnectFromList N reconnect id slaveok cache rest
      | some c => recoveryCacheAdopt reconnect slaveok cache c)

/-- What parses to the address is dialled as it. -/
theorem Seed.of_parse {text host : CString} {port : Int}
    (h : mongoUtilParseAddr text = .ok (host, port)) : Seed N text host port := by
  constructor
  · exact h
  · intro w
    rw [connectAddr, h]
    rfl
  · intro reconnect id slaveok cache rest
    rw [recoveryCachePickConnectFromList, h]
    rfl

theorem formatAddr_seed {host : CString} {port : Int} (hne : host.bytes ≠ [])
    (hhead : host.bytes.head? ≠ some 91) (hport : PortRange port) :
    Seed N (formatAddr host port) host port :=
  .of_parse N (mongoUtilParseAddr_formatAddr hne hhead hport)

/-- A new connection has one seed. -/
theorem mongoSyncConnect_seeds {host : CString} {port : Int} {slaveok : Bool} {w w' : World σ}
    {c : MongoSyncConnection}
    (h : (mongoSyncConnect N host port slaveok).exec w = (.ok (some c), w')) :
    c.rs.seeds = [formatAddr host port] := by
  rw [mongoSyncConnect, exec_bind_eq_ok] at h
  obtain ⟨opened, u, -, hrest⟩ := h
  cases opened with
  | none => cases hrest
  | some c =>
      cases hrest
      rfl

theorem mongoSyncConnSeedAdd_seeds {host : CString} {port : Int} {w w' : World σ}
    (h : (mongoSyncConnSeedAdd host port).exec w = (.ok true, w')) :
    w'.conn.rs.seeds = w.conn.rs.seeds ++ [formatAddr host port] := by
  unfold mongoSyncConnSeedAdd at h
  split at h
  next => cases h
  next =>
    cases h
    rfl

/-- The seeds that are stored for an address stand for it. -/
structure SeedsSurvive (host : CString) (port : Int) : Prop where
  connect : ∀ {slaveok w c w'},
    (mongoSyncConnect N host port slaveok).exec w = (.ok (some c), w') →
    ∃ seed, c.rs.seeds = [seed] ∧ Seed N seed host port
  seedAdd : ∀ {w w' : World σ}, (mongoSyncConnSeedAdd host port).exec w = (.ok true, w') →
    ∃ seed, w'.conn.rs.seeds = w.conn.rs.seeds ++ [seed] ∧ Seed N seed host port
  cacheSeedAdd : ∀ cache : RecoveryCache,
    ∃ seed, (cache.seedAdd host port).rs.seeds = cache.rs.seeds ++ [seed] ∧ Seed N seed host port

end LibMongo

import LibMongo.Gridfs.Agree
import LibMongo.Sync.Carry

/-!
# The ids of new files

`mongo-utils.c` makes an ObjectID of what a process was given once, the second of the clock
and a sequence number.  For a new file the sequence number is the id of the last request on
its connection, which other calls advance and a new connection starts anew.

`Host` is a net with the clocks of the host, and `GridCall.serve` runs the calls of GridFS on
a connection.  `ProcessRun` follows a process that works on any number of connections and
lists the files it creates.  Two of them get the same id exactly if the clock and the last
request id were the same (`created_ids_nodup_iff`), which they are for two streams opened one
right after the other (`created_ids_collide`).
-/

namespace LibMongo

open Bytes Interaction Program

/-! ## ObjectIDs -/

/-- The static variables of `mongo-utils.c`. -/
structure OidStatics where
  machineId : BitVec 32
  pid : BitVec 16
deriving DecidableEq

/-- `p` is what `getpid` returns and `r` what `rand` does.  The process id that is shifted is
the one of an earlier call. -/
def mongoUtilOidInit (s : OidStatics) (mid p r : BitVec 32) : OidStatics where
  machineId := (if mid = 0 then r else mid) ^^^ (s.pid.signExtend 32).sshiftRight 16
  pid := p.setWidth 16

/-- The bytes at 8 to 11 are those of the sequence number, before the process id
overwrites the first of them. -/
def mongoUtilOidNewWithTime (o : ByteOrder) (s : OidStatics) (ts seq : BitVec 32) : Option Oid :=
  if s.machineId = 0 ∨ s.pid = 0 then none
  else some
    { bytes := o.mem32 (o.be32 ts) ++ (o.mem32 s.machineId).take 3 ++ o.mem16 s.pid
        ++ (o.mem32 (o.be32 seq)).drop 1
      length_eq := by simp }

/-- Three bytes are the number up to `2 ^ 24`. -/
theorem leBytes3_inj {x y : BitVec 32} :
    leBytes 3 x.toNat = leBytes 3 y.toNat ↔ x.setWidth 24 = y.setWidth 24 := by
  rw [← BitVec.toNat_inj, BitVec.toNat_setWidth, BitVec.toNat_setWidth]
  constructor
  · intro h
    simpa [leNat_leBytes] using congrArg leNat h
  · intro h
    have hmod (n : Nat) : leBytes 3 n = leBytes 3 (n % 2 ^ 24) := by
      have hlen := leBytes_leNat (leBytes 3 n)
      rw [leBytes_length, leNat_leBytes] at hlen
      exact hlen.symm
    rw [hmod, h, ← hmod]

/-- Two ids of a process are the same exactly if they were made in the same second from
sequence numbers that agree in their last 24 bits. -/
theorem oid_eq_iff {o : ByteOrder} {s : OidStatics} {ts ts' seq seq' : BitVec 32} {id id' : Oid}
    (h : mongoUtilOidNewWithTime o s ts seq = some id)
    (h' : mongoUtilOidNewWithTime o s ts' seq' = some id') :
    id = id' ↔ ts = ts' ∧ seq.setWidth 24 = seq'.setWidth 24 := by
  have htail (x : BitVec 32) : ((leBytes 4 x.toNat).reverse).drop 1 = (leBytes 3 x.toNat).reverse := by
    simp [leBytes]
  unfold mongoUtilOidNewWithTime at h h'
  split at h
  next => cases h
  next hset =>
    rw [if_neg hset] at h'
    cases h
    cases h'
    simp only [Oid.mk.injEq, ByteOrder.mem32_be32, htail]
    constructor
    · intro hbytes
      obtain ⟨hfront, hseq⟩ := List.append_inj' hbytes (by simp)
      obtain ⟨hts, -⟩ := List.append_inj (List.append_inj' hfront rfl).1 (by simp)
      constructor
      · apply BitVec.eq_of_toNat_eq
        exact leBytes_inj ts.isLt ts'.isLt (List.reverse_injective hts)
      · exact leBytes3_inj.mp (List.reverse_injective hseq)
    · rintro ⟨rfl, hseq⟩
      rw [leBytes3_inj.mpr hseq]

/-! ## GridFS on a connection -/

variable {σ : Type}

/-- A net with the clocks of the host. -/
structure Host (σ : Type) extends Net σ where
  /-- The seconds, as a `gint32`. -/
  time : σ → BitVec 32 × σ
  getCurrentTime : σ → GTimeVal × σ

/-- The name of a collection. -/
def MongoSyncGridfs.ns (gfs : MongoSyncGridfs) : Collection → CString
  | .files => gfs.nsPrefix.append (.ascii ['.', 'f', 'i', 'l', 'e', 's'])
  | .chunks => gfs.nsPrefix.append (.ascii ['.', 'c', 'h', 'u', 'n', 'k', 's'])

section Serve

variable (H : Host σ) (statics : OidStatics) (fuel : Nat) (gfs : MongoSyncGridfs)

/-- `mongo_util_oid_new`, with the second and the last request id. -/
def mongoUtilOidNew : Program (World σ) (Option Oid) := do
  let w ← get
  let ts ← system H.time
  return mongoUtilOidNewWithTime H.order statics ts w.conn.requestId

/-- Freeing the packet of a cursor whose last `get_more` failed, that is `NULL`, stores
`EINVAL`. -/
def mongoSyncCursorFree (c : MongoSyncCursor) : Program (World σ) Errno := do
  setErrno .ok
  let _ ← mongoSyncCmdKillCursors H.toNet (mongoSyncReconnect H.toNet fuel) [c.ph.cursorId]
  if c.results.isNone then setErrno .EINVAL
  let w ← get
  return w.errno

/-- The calls on the connection of a GridFS. -/
def GridCall.serve : Handler GridCall GridCall.Response (World σ)
  | .oidNew => mongoUtilOidNew H statics
  | .getCurrentTime => system H.getCurrentTime
  | .insert coll doc => do
      let ok ← mongoSyncCmdInsert H.toNet (mongoSyncReconnect H.toNet fuel) (some (gfs.ns coll))
        doc.toList
      orFailure (if ok then some () else none)
  | .delete coll sel => do
      let ok ← mongoSyncCmdDelete H.toNet (mongoSyncReconnect H.toNet fuel) (some (gfs.ns coll)) 0
        sel
      orFailure (if ok then some () else none)
  | .query coll count q => do
      let p ← mongoSyncCmdQuery H.toNet (mongoSyncReconnect H.toNet fuel) (some (gfs.ns coll)) 0 0
        count q none
      orFailure p
  | .cursorNew coll packet => do
      let c ← mongoSyncCursorNew (some (gfs.ns coll)) packet
      orFailure c
  | .cursorNext c =>
      mongoSyncCursorNext
        (fun ns => mongoSyncCmdGetMore H.toNet (mongoSyncReconnect H.toNet fuel) (some ns)) c
  | .cursorGetData c => mongoSyncCursorGetData c
  | .cursorFree c => mongoSyncCursorFree H fuel c

end Serve

/-! ## Creating files -/

/-- A file that was created: the second and the request id its id was made from, and the
id. -/
structure Creation where
  second : BitVec 32
  requestId : BitVec 32
  id : Oid

/-- What an id keeps of the second and the request id. -/
def Creation.stamp (c : Creation) : BitVec 32 × BitVec 24 := (c.second, c.requestId.setWidth 24)

/-- The opening of a stream asks for an id if its metadata has none, and the stream keeps it. -/
theorem streamNew_begins {gfs : MongoSyncGridfs} {metadata : Option Bson}
    (hmeta : bsonFind metadata (some idKey) = .ok none) {S : Type}
    {h : Handler GridCall GridCall.Response S} {s s' : S} {w : GridfsWriter}
    (hnew : ((mongoSyncGridfsStreamNew gfs metadata).run h).exec s = (.ok (.ok (.writer w)), s')) :
    (h .oidNew).exec s = (.ok (some w.id), s') := by
  unfold mongoSyncGridfsStreamNew streamId at hnew
  obtain ⟨copy, s₁, hcopy, hnew⟩ := exec_run_bind_eq_ok.mp hnew
  rw [exec_run_ofExcept] at hcopy
  obtain ⟨-, rfl⟩ := Prod.mk.inj hcopy
  rw [hmeta] at hnew
  obtain ⟨chosen, s₂, hid, hnew⟩ := exec_run_bind_eq_ok.mp hnew
  rw [ofExcept_ok, ret_bind] at hid
  obtain ⟨oid, s₃, hoid, hid⟩ := exec_run_bind_eq_ok.mp hid
  rw [exec_run_perform] at hoid
  cases oid with
  | none =>
      cases hid
      cases hnew
  | some oid =>
      cases hid
      cases hnew
      exact hoid

/-! ## Processes -/

/-- A process with its open connections.  The connection of the world is the one of the last
call. -/
structure Process (σ : Type) where
  world : World σ
  conns : List MongoSyncConnection
  caches : Nat → RecoveryCache

namespace Process

/-- A call on the connection of this number begins in this state. -/
def On (p : Process σ) (i : Nat) (w : World σ) : Prop :=
  ∃ c, p.conns[i]? = some c ∧ w = { p.world with conn := c }

/-- The process after a call on a connection. -/
def after (p : Process σ) (i : Nat) (w : World σ) : Process σ :=
  { p with world := w, conns := p.conns.set i w.conn }

end Process

section Runs

variable (H : Host σ) (statics : OidStatics) (fuel : Nat)

/-- A run of a process and the files it creates.  A stream is opened for metadata without an
id. -/
inductive ProcessRun (start : Process σ) : List Creation → Process σ → Prop
  | start : ProcessRun start [] start
  | connect {cs : List Creation} {p : Process σ} {w : World σ} {host : CString} {port : Int}
      {slaveok : Bool} {c : Option MongoSyncConnection} : ProcessRun start cs p →
      (mongoSyncConnect H.toNet host port slaveok).exec p.world = (.ok c, w) →
      ProcessRun start cs { p with world := w, conns := p.conns ++ c.toList }
  | recover {cs : List Creation} {p : Process σ} {w : World σ} {id : Nat} {slaveok : Bool}
      {cache : RecoveryCache} {c : Option MongoSyncConnection} : ProcessRun start cs p →
      (mongoSyncConnectRecoveryCache H.toNet (mongoSyncReconnect H.toNet fuel) id slaveok
        (p.caches id)).exec p.world = (.ok (c, cache), w) →
      ProcessRun start cs
        { world := w
          conns := p.conns ++ c.toList
          caches := Function.update p.caches id cache }
  | disconnect {cs : List Creation} {p : Process σ} {i : Nat} {v w : World σ}
      {caches : Nat → RecoveryCache} : ProcessRun start cs p → p.On i v →
      (mongoSyncDisconnect H.toNet p.caches).exec v = (.ok caches, w) →
      ProcessRun start cs { world := w, conns := p.conns.eraseIdx i, caches := caches }
  | command {cs : List Creation} {p : Process σ} {i : Nat} {v w : World σ} {c : Command}
      {ok : Bool} : ProcessRun start cs p → p.On i v →
      (c.run H.toNet fuel).exec v = (.ok ok, w) → ProcessRun start cs (p.after i w)
  /-- Anything else that is done with a GridFS. -/
  | grid {cs : List Creation} {p : Process σ} {i : Nat} {v w : World σ} {gfs : MongoSyncGridfs}
      {α : Type} {t : Grid α} {a : α} : ProcessRun start cs p → p.On i v →
      (t.run (GridCall.serve H statics fuel gfs)).exec v = (.ok a, w) →
      ProcessRun start cs (p.after i w)
  | streamNew {cs : List Creation} {p : Process σ} {i : Nat} {v w : World σ}
      {gfs : MongoSyncGridfs} {metadata : Option Bson} {s : GridfsWriter} :
      ProcessRun start cs p → p.On i v → bsonFind metadata (some idKey) = .ok none →
      ((mongoSyncGridfsStreamNew gfs metadata).run (GridCall.serve H statics fuel gfs)).exec v
        = (.ok (.ok (.writer s)), w) →
      ProcessRun start (cs ++ [⟨(H.time v.net).1, v.conn.requestId, s.id⟩]) (p.after i w)
  /-- The id is the one the upload is given when it asks for one, as it does first. -/
  | upload {cs : List Creation} {p : Process σ} {i : Nat} {v u w : World σ}
      {gfs : MongoSyncGridfs} {metadata : Option Bson} {data : Bytes}
      {file : MongoSyncGridfsChunkedFile} {id : Oid} : ProcessRun start cs p → p.On i v →
      (GridCall.serve H statics fuel gfs .oidNew).exec v = (.ok (some id), u) →
      ((mongoSyncGridfsChunkedFileNewFromBuffer H.md5 gfs metadata (some data)).run
        (GridCall.serve H statics fuel gfs)).exec v = (.ok (.ok file), w) →
      ProcessRun start (cs ++ [⟨(H.time v.net).1, v.conn.requestId, id⟩]) (p.after i w)

variable {H statics fuel}

/-- Asking for an id. -/
theorem exec_serve_oidNew {gfs : MongoSyncGridfs} {v w : World σ} {id : Oid}
    (h : (GridCall.serve H statics fuel gfs .oidNew).exec v = (.ok (some id), w)) :
    mongoUtilOidNewWithTime H.order statics (H.time v.net).1 v.conn.requestId = some id := by
  have hrun : (GridCall.serve H statics fuel gfs .oidNew).exec v =
      (.ok (mongoUtilOidNewWithTime H.order statics (H.time v.net).1 v.conn.requestId),
        { v with net := (H.time v.net).2 }) := rfl
  rw [hrun] at h
  obtain ⟨hid, -⟩ := Prod.mk.inj h
  exact Except.ok.inj hid

/-- The id of a file is made from its second and its request id. -/
theorem ProcessRun.made {start p : Process σ} {cs : List Creation}
    (h : ProcessRun H statics fuel start cs p) {c : Creation} (hc : c ∈ cs) :
    mongoUtilOidNewWithTime H.order statics c.second c.requestId = some c.id := by
  induction h with
  | start => cases hc
  | connect _ _ ih => exact ih hc
  | recover _ _ ih => exact ih hc
  | disconnect _ _ _ ih => exact ih hc
  | command _ _ _ ih => exact ih hc
  | grid _ _ _ ih => exact ih hc
  | streamNew _ _ hmeta hnew ih =>
      rcases List.mem_append.mp hc with hc | hc
      · exact ih hc
      · cases List.mem_singleton.mp hc
        exact exec_serve_oidNew (streamNew_begins hmeta hnew)
  | upload _ _ hid _ ih =>
      rcases List.mem_append.mp hc with hc | hc
      · exact ih hc
      · cases List.mem_singleton.mp hc
        exact exec_serve_oidNew hid

/-- Two files have the same id exactly if they have the same stamp. -/
theorem ProcessRun.id_eq_iff {start p : Process σ} {cs : List Creation}
    (h : ProcessRun H statics fuel start cs p) {c c' : Creation} (hc : c ∈ cs) (hc' : c' ∈ cs) :
    c.id = c'.id ↔ c.stamp = c'.stamp := by
  rw [oid_eq_iff (h.made hc) (h.made hc'), Creation.stamp, Creation.stamp, Prod.mk.injEq]

end Runs

/-- After `mongo_util_oid_init` the files of a run have different ids exactly if no two of
them have the same second and request ids that agree in their last 24 bits. -/
theorem created_ids_nodup_iff (H : Host σ) (s : OidStatics) (mid pid r : BitVec 32) (fuel : Nat)
    {start p : Process σ} {cs : List Creation}
    (h : ProcessRun H (mongoUtilOidInit s mid pid r) fuel start cs p) :
    (cs.map Creation.id).Nodup ↔ (cs.map Creation.stamp).Nodup := by
  rw [List.Nodup, List.Nodup, List.pairwise_map, List.pairwise_map]
  apply List.Pairwise.iff_of_mem
  intro c c' hc hc'
  exact not_congr (h.id_eq_iff hc hc')

/-- A host on which nothing answers.  The clock shows another second at every fourth look. -/
def quietHost : Host Nat :=
  { silentNet with
    time := fun n => (BitVec.ofNat 32 (n / 4), n + 1)
    getCurrentTime := fun n => (⟨n, 0⟩, n) }

/-- The statics before `mongo_util_oid_init`. -/
def noStatics : OidStatics := ⟨0, 0⟩

/-- A process before its first connection. -/
def freshProcess : Process Nat := ⟨{ staleWorld with net := 0 }, [], fun _ => .discard⟩

/-- A process with one connection, just before the clock shows another second. -/
def lateProcess : Process Nat :=
  ⟨{ staleWorld with net := 3 }, [staleWorld.conn], fun _ => .discard⟩

/-- A stream without metadata. -/
theorem ProcessRun.bare {H : Host σ} {statics : OidStatics} {fuel : Nat} {start p : Process σ}
    {cs : List Creation} (h : ProcessRun H statics fuel start cs p) {i : Nat} {v w : World σ}
    (hi : p.On i v) {s : GridfsWriter}
    (hnew : ((mongoSyncGridfsStreamNew smallGridfs none).run
      (GridCall.serve H statics fuel smallGridfs)).exec v = (.ok (.ok (.writer s)), w)) :
    ProcessRun H statics fuel start (cs ++ [⟨(H.time v.net).1, v.conn.requestId, s.id⟩])
      (p.after i w) :=
  h.streamNew hi rfl hnew

/-- Two streams opened within different seconds have different ids. -/
theorem created_ids_late :
    ∃ cs p, ProcessRun quietHost (mongoUtilOidInit noStatics 1 1 0) 1 lateProcess cs p ∧
      cs.length = 2 ∧ (cs.map Creation.id).Nodup := by
  have hstart : ProcessRun quietHost (mongoUtilOidInit noStatics 1 1 0) 1 lateProcess [] lateProcess :=
    .start
  have hrun := (hstart.bare (i := 0) ⟨_, rfl, rfl⟩ rfl).bare (i := 0) ⟨_, rfl, rfl⟩ rfl
  exact ⟨_, _, hrun, rfl, (created_ids_nodup_iff quietHost noStatics 1 1 0 1 hrun).mpr (by decide)⟩

/-- Two streams opened within one second on a new connection have the same id. -/
theorem created_ids_collide :
    ∃ cs p, ProcessRun quietHost (mongoUtilOidInit noStatics 1 1 0) 1 freshProcess cs p ∧
      cs.length = 2 ∧ ¬ (cs.map Creation.id).Nodup := by
  have hstart : ProcessRun quietHost (mongoUtilOidInit noStatics 1 1 0) 1 freshProcess []
    freshProcess := .start
  have hopen := hstart.connect
    (show (mongoSyncConnect quietHost.toNet (.ascii ['a']) 1 false).exec _ = _ from rfl)
  have hrun := (hopen.bare (i := 0) ⟨_, rfl, rfl⟩ rfl).bare (i := 0) ⟨_, rfl, rfl⟩ rfl
  exact ⟨_, _, hrun, rfl, by decide⟩

end LibMongo

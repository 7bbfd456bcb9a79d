import LibMongo.Sync.Bulk
import LibMongo.Sync.IndexName
import LibMongo.Sync.Stream
import LibMongo.Sync.Topology

/-!
# Indexes

A call `Declines` when it returns `FALSE` and nothing was handed to `mongo_packet_send`.  Creating
an index refuses a key pattern without a name.  Dropping one does not look whether there is a
name (`index_agree_iff`).
-/

namespace LibMongo

open Bytes Program

variable {σ : Type} (N : Net σ)

/-! ## Refusals -/

/-- The call returns `FALSE`, and nothing was handed to `mongo_packet_send`. -/
def Declines (m : Program (World σ) Bool) (w : World σ) : Prop :=
  ∃ e, m.exec w = (.ok false, { w with errno := e })

/-- The log gets longer, also if the program halts. -/
def Speaks {α : Type} (m : Program (World σ) α) (w : World σ) : Prop :=
  wp m (fun _ w' => w.log.length < w'.log.length) (fun w' => w.log.length < w'.log.length) w

theorem Speaks.not_declines {m : Program (World σ) Bool} {w : World σ} (h : Speaks m w) :
    ¬ Declines m w := by
  rintro ⟨e, hrun⟩
  unfold Speaks wp at h
  rw [hrun] at h
  exact Nat.lt_irrefl w.log.length h

/-- A program that speaks, and then whatever. -/
theorem Speaks.bind {α β : Type} {m : Program (World σ) α} {f : α → Program (World σ) β}
    {w : World σ} (h : Speaks m w) (hf : ∀ a, Keeps World.Grows (f a)) : Speaks (m >>= f) w := by
  unfold Speaks
  rw [wp_bind]
  refine wp_mono h (fun a u hu => ?_) (fun _ h => h)
  exact wp_mono (hf a u) (fun _ _ h => Nat.lt_of_lt_of_le hu h.length_le)
    (fun _ h => Nat.lt_of_lt_of_le hu h.length_le)

/-- A packet is handed over, whatever becomes of it. -/
theorem mongoPacketSend_speaks (p : MongoPacket) (w : World σ) : Speaks (mongoPacketSend N p) w := by
  refine wp_mono (mongoPacketSend_spec N p w) (fun sent w' h => ?_) (fun _ h => h.elim)
  obtain ⟨count, hlog, -⟩ := h
  simp [hlog]

theorem mongoPacketSend_grows (p : MongoPacket) : Keeps World.Grows (mongoPacketSend N p) := by
  intro w
  refine wp_mono (mongoPacketSend_spec N p w) (fun sent w' h => ?_) (fun _ h => h.elim)
  obtain ⟨count, hlog, -⟩ := h
  exact ⟨_, hlog⟩

theorem World.Since.grows {w w' : World σ} {P : List Event → Prop} (h : w.Since w' P) :
    w.Grows w' := by
  obtain ⟨es, hes, -⟩ := h
  exact ⟨es, hes⟩

/-- Nothing is taken out of the log. -/
theorem clientRule_grows : ClientRule N World.Grows where
  frame := World.Grows.frame
  conn _ _ := .of_log rfl
  errno _ _ := .of_log rfl
  event _ e _ := ⟨[e], rfl⟩
  send _ := mongoPacketSend_grows N _
  recv := (clientRule_sendsSealed N).recv.mono fun _ _ h => h.grows
  connect host port := ((clientRule_sendsSealed N).connect host port).mono fun _ _ h => h.grows
  close fd := ((clientRule_sendsSealed N).close fd).mono fun _ _ h => h.grows

section Speaking

/-- Sending speaks if the connection is not checked before. -/
theorem packetSendWith_speaks {ensureConn reconnect : Bool → Program (World σ) Bool}
    (hreconnect : Keeps World.Grows (reconnect false)) (p : MongoPacket) (autoReconnect : Bool)
    (w : World σ) :
    Speaks (mongoSyncPacketSendWith N ensureConn reconnect p false autoReconnect) w := by
  have hF := World.Grows.frame (σ := σ)
  have herrno : ∀ e, Keeps (World.Grows (σ := σ)) (setErrno e) := (clientRule_grows N).setErrno
  have hfail : ∀ e, Keeps (World.Grows (σ := σ)) (do setErrno e; return false) := fun e =>
    Keeps.bind hF (herrno e) fun _ => Keeps.pure hF _
  refine (mongoPacketSend_speaks N p w).bind fun sent => ?_
  refine Keeps.ite (Keeps.pure hF _) (Keeps.bind hF (Keeps.get hF) fun u => ?_)
  refine Keeps.ite (hfail _) (Keeps.bind hF hreconnect fun connected => ?_)
  refine Keeps.ite ?_ (hfail _)
  exact sendRound_keeps N hF.halts herrno (mongoPacketSend_grows N p) hreconnect
    (Keeps.pure hF _) _ _

/-- So does a command whose packet can be built. -/
theorem customWith_speaks {ensureConn reconnect : Bool → Program (World σ) Bool}
    (hreconnect : Keeps World.Grows (reconnect false)) {db : Option CString}
    {command : Option Bson} {w : World σ} {p : MongoPacket}
    (hp : mongoWireCmdCustom N.order (w.conn.requestId + 1) db (slaveFlag w.conn) command = .ok p)
    (checkConn : Bool) :
    Speaks (mongoSyncCmdCustomWith N ensureConn reconnect db command checkConn false) w := by
  have hF := World.Grows.frame (σ := σ)
  have hC := (clientRule_grows N).socket
  unfold Speaks
  rw [mongoSyncCmdCustomWith, wp_bind, wp_get]
  dsimp only
  rw [hp, wp_bind]
  refine (packetSendWith_speaks N hreconnect p checkConn w).bind fun sent => ?_
  exact Keeps.ite (hC.command.reply _) (Keeps.pure hF _)

/-- Asking whether a node is a master speaks. -/
theorem cmdIsMaster_speaks (w : World σ) : Speaks (mongoSyncCmdIsMaster N) w := by
  refine (clientRule_grows N).socket.asking.cmdIsMaster_after
    (fun hu hv => Nat.lt_of_lt_of_le hu hv.length_le) ?_
  obtain ⟨p, hp, -⟩ := question_packet N.order (w.conn.requestId + 1) w.conn.slaveok
    (show ismasterKey.length < 256 by decide)
  exact customWith_speaks N (unreached_keeps World.Grows.frame false) hp false

theorem ensureMaster_speaks {reconnect : Bool → Program (World σ) Bool}
    (hreconnect : ∀ force, Keeps World.Grows (reconnect force)) (w : World σ) :
    Speaks (ensureMaster N reconnect) w := by
  have hF := World.Grows.frame (σ := σ)
  have hfail : ∀ e, Keeps (World.Grows (σ := σ)) (do setErrno e; return false) := fun e =>
    (clientRule_grows N).fail e false
  refine (cmdIsMaster_speaks N { w with errno := .ok }).bind fun master => ?_
  refine Keeps.ite (Keeps.pure hF _) (Keeps.bind hF (Keeps.get hF) fun u => ?_)
  refine Keeps.ite (Keeps.pure hF _) (Keeps.ite (hfail _) (hreconnect true))

/-- Sending a packet speaks, with or without a check. -/
theorem packetSend_speaks (fuel : Nat) {p : MongoPacket} (hp : p.Sealed N.order)
    (forceMaster autoReconnect : Bool) (w : World σ) :
    Speaks (mongoSyncPacketSend N (mongoSyncReconnect N fuel) p forceMaster autoReconnect) w := by
  have hcall := (clientRule_grows N).calls fuel
  cases forceMaster with
  | false => exact packetSendWith_speaks N (hcall.reconnect false) p autoReconnect w
  | true =>
      refine (ensureMaster_speaks N hcall.reconnect w).bind fun ready => ?_
      refine Keeps.ite ?_ (Keeps.pure hcall.frame _)
      refine sendRound_keeps N hcall.frame.halts hcall.errno (hcall.sendSealed hp)
        (hcall.reconnect true) ?_ _ _
      exact sendRound_keeps N hcall.frame.halts hcall.errno (hcall.sendSealed hp)
        (hcall.reconnect true) (Keeps.pure hcall.frame _) _ _

theorem insertBatch_speaks (fuel : Nat) {ns : CString} {c : Int} {docs : List (Option Bson)}
    {w : World σ} {p : MongoPacket}
    (hp : mongoWireCmdInsertN N.order (w.conn.requestId + 1) (some ns) c (some docs) = .ok p) :
    Speaks (insertBatch N (mongoSyncReconnect N fuel) ns c docs) w := by
  have hcall := (clientRule_grows N).calls fuel
  unfold Speaks
  rw [insertBatch, nextPacket, wp_bind, wp_bind, wp_get, hp]
  refine (packetSend_speaks N fuel (mongoWireCmdInsertN_sealed hp) true true w).bind fun sent => ?_
  refine Keeps.ite (Keeps.get_bind fun u => ?_) (hcall.cmdVerifyResult _)
  exact Keeps.bind hcall.frame (hcall.lastError _) (fun _ => Keeps.pure hcall.frame _) u

/-- The packet of a round for one document. -/
theorem batchPacket_one (ns : CString) (doc : Option Bson) {w : World σ}
    (h : bsonSize doc < w.conn.maxInsertSize) :
    (0 < bsonSize doc → ∃ p, batchPacket N ns [doc] w = .ok p) ∧
      (¬ 0 < bsonSize doc → ∃ e, batchPacket N ns [doc] w = .error e) := by
  have hlength : batchLength w.conn.maxInsertSize [doc]
      = if 0 < w.conn.maxInsertSize then 1 else -1 := by
    by_cases hmax : 0 < w.conn.maxInsertSize
    · simp [batchLength, countDocuments, hmax]
    · simp [batchLength, countDocuments, hmax]
  rw [batchPacket, hlength]
  constructor
  · intro hpos
    rw [if_pos (by omega), mongoWireCmdInsertN]
    have hle : ¬ bsonSize doc ≤ 0 := by omega
    simp [hle]
  · intro hneg
    rw [mongoWireCmdInsertN]
    by_cases hmax : 0 < w.conn.maxInsertSize
    · have hle : bsonSize doc ≤ 0 := by omega
      simp [hmax, hle]
    · simp [hmax]

theorem insertLoop_speaks (fuel rounds : Nat) {ns : CString} {docs : List (Option Bson)}
    {w : World σ} {p : MongoPacket} (hp : batchPacket N ns docs w = .ok p) :
    Speaks (insertLoop N (mongoSyncReconnect N fuel) ns (rounds + 1) docs) w := by
  have hcall := (clientRule_grows N).calls fuel
  unfold Speaks
  rw [insertLoop, wp_bind, wp_get]
  refine (insertBatch_speaks N fuel hp).bind fun ok => ?_
  refine Keeps.ite (Keeps.pure hcall.frame _) (Keeps.ite (Keeps.pure hcall.frame _) ?_)
  exact hcall.insertLoop ns rounds _

theorem insertLoop_declines {reconnect : Bool → Program (World σ) Bool} (rounds : Nat)
    {ns : CString} {docs : List (Option Bson)} {w : World σ} {e : Errno}
    (he : batchPacket N ns docs w = .error e) :
    Declines (insertLoop N reconnect ns (rounds + 1) docs) w := by
  have hnext : (nextPacket (fun rid => mongoWireCmdInsertN N.order rid (some ns)
      (batchLength w.conn.maxInsertSize docs) (some docs))).exec w
        = (.ok none, { w with errno := e }) := by
    rw [batchPacket] at he
    rw [nextPacket, exec_get_bind, he]
    rfl
  refine ⟨e, ?_⟩
  rw [exec_insertLoop N rounds rfl, insertBatch, exec_bind_ok hnext]
  rfl

/-- A single document is refused exactly if it does not have a size that is allowed. -/
theorem insertOne_refuses_iff (fuel : Nat) (ns : CString) (doc : Option Bson) (w : World σ) :
    Declines (mongoSyncCmdInsertN N (mongoSyncReconnect N fuel) (some ns) (some [doc])) w ↔
      ¬ (0 < bsonSize doc ∧ bsonSize doc < w.conn.maxInsertSize) := by
  by_cases hmax : w.conn.maxInsertSize ≤ bsonSize doc
  · have hrefuse : Declines (mongoSyncCmdInsertN N (mongoSyncReconnect N fuel) (some ns)
        (some [doc])) w := by
      refine ⟨.EMSGSIZE, ?_⟩
      rw [mongoSyncCmdInsertN, if_neg (by simp), exec_get_bind, if_pos (by simpa using hmax)]
      rfl
    simpa [hrefuse] using fun _ => hmax
  · have hexec : (mongoSyncCmdInsertN N (mongoSyncReconnect N fuel) (some ns) (some [doc])).exec w
        = (insertLoop N (mongoSyncReconnect N fuel) ns (0 + 1) [doc]).exec w := by
      rw [mongoSyncCmdInsertN, if_neg (by simp), exec_get_bind, if_neg (by simpa using hmax)]
      rfl
    have hsmall : bsonSize doc < w.conn.maxInsertSize := Int.lt_of_not_ge hmax
    have hpacket := batchPacket_one N ns doc hsmall
    rw [Declines, hexec, ← Declines]
    by_cases hpos : 0 < bsonSize doc
    · obtain ⟨p, hp⟩ := hpacket.1 hpos
      simpa [hpos, hsmall] using (insertLoop_speaks N fuel 0 hp).not_declines
    · obtain ⟨e, he⟩ := hpacket.2 hpos
      simpa [hpos] using insertLoop_declines N 0 he

/-- The packet of a command is built exactly if the command has a size. -/
theorem mongoWireCmdCustom_cases (o : ByteOrder) (id : BitVec 32) (db : CString) (flags : BitVec 32)
    (command : Option Bson) :
    (0 ≤ bsonSize command → ∃ p, mongoWireCmdCustom o id (some db) flags command = .ok p) ∧
      (bsonSize command < 0 →
        mongoWireCmdCustom o id (some db) flags command = .error .EINVAL) := by
  cases command with
  | none =>
      constructor
      · intro hsize
        cases hsize
      · intro _
        rfl
  | some command =>
      constructor
      · intro hsize
        have hneg : ¬ bsonSize (some command) < 0 := by omega
        have hempty : ¬ bsonSize (bsonFinish (some bsonNew)).2 < 0 := by decide
        rw [mongoWireCmdCustom, if_neg hneg, mongoWireCmdQuery, if_neg (by simp [hneg, hempty])]
        exact ⟨_, rfl⟩
      · intro hsize
        rw [mongoWireCmdCustom, if_pos hsize]

/-- A command is refused exactly if it has no size. -/
theorem custom_refuses_iff (fuel : Nat) (db : CString) (command : Option Bson) (w : World σ) :
    Declines (Option.isSome <$> mongoSyncCmdCustom N (mongoSyncReconnect N fuel) (some db) command) w
      ↔ bsonSize command < 0 := by
  have hcall := (clientRule_grows N).calls fuel
  have hpacket := mongoWireCmdCustom_cases N.order (w.conn.requestId + 1) db (slaveFlag w.conn)
    command
  rw [map_eq_pure_bind]
  by_cases hsize : bsonSize command < 0
  · have hexec : (mongoSyncCmdCustom N (mongoSyncReconnect N fuel) (some db) command).exec w
        = (.ok none, { w with errno := .EINVAL }) := by
      rw [mongoSyncCmdCustom, mongoSyncCmdCustomWith, exec_get_bind]
      dsimp only
      rw [hpacket.2 hsize]
      rfl
    simp only [hsize, iff_true]
    exact ⟨.EINVAL, exec_bind_ok hexec _⟩
  · obtain ⟨p, hp⟩ := hpacket.1 (Int.le_of_not_gt hsize)
    have hspeaks : Speaks (mongoSyncCmdCustom N (mongoSyncReconnect N fuel) (some db) command) w :=
      customWith_speaks N (hcall.reconnect false) hp true
    simp only [hsize, iff_false]
    exact (hspeaks.bind fun reply => Keeps.pure hcall.frame _).not_declines

end Speaking

/-! ## Agreement -/

section Agreement

variable (host : GDouble → BitVec 64) {key : Bson} {d : Doc} {ns db coll : CString}

theorem splitNs_isSome (h : 46 ∈ ns.bytes) : ∃ db coll, splitNs ns = some (db, coll) := by
  cases hfind : ns.bytes.findIdx? (· == 46) with
  | none =>
      rw [List.findIdx?_eq_none_iff] at hfind
      simpa using hfind 46 h
  | some i => exact ⟨_, _, by rw [splitNs, hfind, Option.map_some]⟩

/-- A pattern with a name: the insert of its document. -/
theorem indexCreate_named (reconnect : Bool → Program (World σ) Bool) (h : key.Encodes d)
    (hns : splitNs ns = some (db, coll)) {name : CString}
    (hname : d.indexName host (.ascii ['_']) = some name) (options : BitVec 32) :
    mongoSyncCmdIndexCreate N host reconnect (some ns) (some key) options
      = mongoSyncCmdInsertN N reconnect (some (db.append indexesSuffix))
          (some [indexDocument key ns name options]) := by
  rw [mongoSyncCmdIndexCreate]
  simp only [hns, mongoIndexGenName_eq host h, hname]
  rfl

/-- The command that deletes it. -/
theorem indexDrop_named (reconnect : Bool → Program (World σ) Bool) (h : key.Encodes d)
    (hns : splitNs ns = some (db, coll)) {name : CString}
    (hname : d.indexName host (.ascii ['_']) = some name) :
    mongoSyncCmdIndexDrop N host reconnect (some ns) (some key)
      = Option.isSome <$> mongoSyncCmdCustom N reconnect (some db) (dropCommand coll name) := by
  rw [mongoSyncCmdIndexDrop]
  simp only [mongoIndexGenName_eq host h, hname]
  show mongoSyncCmdIndexDropName N reconnect (some ns) name = _
  rw [mongoSyncCmdIndexDropName, map_eq_pure_bind]
  simp only [hns]
  congr 1
  funext reply
  cases reply with
  | none => rfl
  | some p => rfl

/-- A pattern without a name is refused when the index is made. -/
theorem indexCreate_unnamed (reconnect : Bool → Program (World σ) Bool) (h : key.Encodes d)
    (hns : splitNs ns = some (db, coll)) (hname : d.indexName host (.ascii ['_']) = none)
    (options : BitVec 32) (w : World σ) :
    Declines (mongoSyncCmdIndexCreate N host reconnect (some ns) (some key) options) w := by
  refine ⟨.EOPNOTSUPP, ?_⟩
  rw [mongoSyncCmdIndexCreate]
  simp only [hns, mongoIndexGenName_eq host h, hname]
  rfl

/-- When it is dropped, the name that is not there is read. -/
theorem indexDrop_unnamed (reconnect : Bool → Program (World σ) Bool) (h : key.Encodes d)
    (hname : d.indexName host (.ascii ['_']) = none) (ns : Option CString) (w : World σ) :
    (mongoSyncCmdIndexDrop N host reconnect ns (some key)).exec w = (.error .outside, w) := by
  rw [mongoSyncCmdIndexDrop]
  simp only [mongoIndexGenName_eq host h, hname]
  rfl

/-- Making and dropping the index of a pattern refuse it together, and if they do not, the name
of the index that is made is the name of the one that is dropped. -/
structure IndexAgrees (fuel : Nat) (ns : CString) (key : Bson) (options : BitVec 32)
    (w : World σ) : Prop where
  refuse :
    Declines (mongoSyncCmdIndexDrop N host (mongoSyncReconnect N fuel) (some ns) (some key)) w ↔
      Declines (mongoSyncCmdIndexCreate N host (mongoSyncReconnect N fuel) (some ns) (some key)
        options) w
  name : ¬ Declines (mongoSyncCmdIndexCreate N host (mongoSyncReconnect N fuel) (some ns) (some key)
      options) w → ∃ db coll name, splitNs ns = some (db, coll) ∧
    (mongoSyncCmdIndexCreate N host (mongoSyncReconnect N fuel) (some ns) (some key) options).exec w
      = (mongoSyncCmdInsertN N (mongoSyncReconnect N fuel) (some (db.append indexesSuffix))
          (some [indexDocument key ns name options])).exec w ∧
    (mongoSyncCmdIndexDrop N host (mongoSyncReconnect N fuel) (some ns) (some key)).exec w
      = (Option.isSome <$> mongoSyncCmdCustom N (mongoSyncReconnect N fuel) (some db)
          (dropCommand coll name)).exec w

/-- The two agree on a pattern exactly if its values all have a number, and the document of its
index may be inserted if and only if the command that deletes the index has a size. -/
theorem index_agree_iff (fuel : Nat) (h : key.Encodes d) (hdot : 46 ∈ ns.bytes)
    (options : BitVec 32) (w : World σ) :
    IndexAgrees N host fuel ns key options w ↔
      d.indexable = true ∧ ∀ db coll name, splitNs ns = some (db, coll) →
        d.indexName host (.ascii ['_']) = some name →
        (0 ≤ bsonSize (dropCommand coll name) ↔
          0 < bsonSize (indexDocument key ns name options) ∧
            bsonSize (indexDocument key ns name options) < w.conn.maxInsertSize) := by
  obtain ⟨db, coll, hns⟩ := splitNs_isSome hdot
  have hsome := d.indexName_isSome host (.ascii ['_'])
  cases hname : d.indexName host (.ascii ['_']) with
  | none =>
      -- a pattern without a name: only one of the two refuses it
      rw [hname] at hsome
      have hcreate := indexCreate_unnamed N host (mongoSyncReconnect N fuel) h hns hname
        options w
      have hdrop := indexDrop_unnamed N host (mongoSyncReconnect N fuel) h hname
        (some ns) w
      constructor
      · intro hagrees
        obtain ⟨e, hrun⟩ := hagrees.refuse.mpr hcreate
        cases hdrop.symm.trans hrun
      · rintro ⟨hindexable, -⟩
        rw [← hsome] at hindexable
        cases hindexable
  | some name =>
      rw [hname] at hsome
      have hcreate := indexCreate_named N host (mongoSyncReconnect N fuel) h hns hname
        options
      have hdrop := indexDrop_named N host (mongoSyncReconnect N fuel) h hns hname
      have hcreated := insertOne_refuses_iff N fuel (db.append indexesSuffix)
        (indexDocument key ns name options) w
      have hdropped := custom_refuses_iff N fuel db (dropCommand coll name) w
      constructor
      · intro hagrees
        have hrefuse := hagrees.refuse
        rw [hcreate, hdrop, hcreated, hdropped] at hrefuse
        refine ⟨hsome.symm, ?_⟩
        intro db' coll' name' hns' hname'
        cases hns.symm.trans hns'
        cases hname'
        omega
      · rintro ⟨-, hsizes⟩
        have hsize := hsizes db coll name hns rfl
        constructor
        · rw [hcreate, hdrop, hcreated, hdropped]
          omega
        · intro _
          exact ⟨db, coll, name, hns, by rw [hcreate], by rw [hdrop]⟩

/-- The conversion of the hosts that take a number out of the range for the smallest there is. -/
def smallestOutside : GDouble → BitVec 64 := fun _ => 0x8000000000000000

/-- A pattern with the key `a`. -/
def patternOf (v : Value) : Bson := ⟨(Doc.cons (.ascii ['a']) v .nil).encode, true⟩

theorem index_agree_number :
    IndexAgrees playNet smallestOutside 2 someNs (patternOf (.int32 1)) 0
      (talkingWorld deadSocket) := by
  refine (index_agree_iff playNet smallestOutside (d := .cons (.ascii ['a']) (.int32 1) .nil) 2
    ⟨rfl, rfl, by decide⟩ (by decide) 0 (talkingWorld deadSocket)).mpr ⟨rfl, ?_⟩
  have hsizes : ∀ r ∈ splitNs someNs, ∀ name ∈ (Doc.cons (.ascii ['a']) (.int32 1) .nil).indexName
      smallestOutside (.ascii ['_']),
      0 ≤ bsonSize (dropCommand r.2 name) ∧
        0 < bsonSize (indexDocument (patternOf (.int32 1)) someNs name 0) ∧
        bsonSize (indexDocument (patternOf (.int32 1)) someNs name 0) < 4000000 := by
    decide +kernel
  intro db coll name hns hname
  obtain ⟨hdrop, hcreate⟩ := hsizes _ hns _ hname
  exact iff_of_true hdrop hcreate

/-- A string has no number. -/
theorem index_not_agree :
    (patternOf (.string [120])).Encodes (.cons (.ascii ['a']) (.string [120]) .nil) ∧
      ¬ IndexAgrees playNet smallestOutside 2 someNs (patternOf (.string [120])) 0
        (talkingWorld deadSocket) := by
  have h : (patternOf (.string [120])).Encodes (.cons (.ascii ['a']) (.string [120]) .nil) :=
    ⟨rfl, rfl, by decide⟩
  refine ⟨h, fun hagrees => ?_⟩
  obtain ⟨db, coll, hns⟩ := splitNs_isSome (show 46 ∈ someNs.bytes by decide)
  obtain ⟨e, hrun⟩ := hagrees.refuse.mpr
    (indexCreate_unnamed playNet smallestOutside _ h hns rfl 0 (talkingWorld deadSocket))
  cases (indexDrop_unnamed playNet smallestOutside _ h rfl (some someNs) _).symm.trans hrun

end Agreement

end LibMongo

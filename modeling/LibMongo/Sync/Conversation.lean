import LibMongo.Sync.Dialogue

/-!
# Conversations

Over the bytes of a socket that stays open, the operations of `mongo-sync.c` are the
dialogues of `Dialogue.lean`: the same results, the same connection and `errno` afterwards,
and the same messages served, each of them once and in the same order.

The lemmas are one for each function.  `conversation` is the theorem for a list of
operations, one after the other.
-/

namespace LibMongo

open Bytes Program

namespace Service

variable {S : Type} (V : Service S) {reconnect : Bool → Program (World (Desk S)) Bool}
  {ensureConn : Bool → Program (World (Desk S)) Bool} {ready : Program (Dialogue S) Bool}

/-! ## Steps -/

theorem setErrno_refines (e : Errno) : Refines V.view Eq (setErrno e) (Dialogue.setErrno e) :=
  Refines.modify fun _ hw => ⟨hw, rfl⟩

/-- What a function does to the connection, if it stays on the socket. -/
theorem setConn_refines {f : MongoSyncConnection → MongoSyncConnection}
    (hf : ∀ c, (f c).fd = c.fd ∧ (f c).autoReconnect = c.autoReconnect) :
    Refines V.view Eq (setConn f) (Dialogue.setConn f) := by
  refine Refines.modify fun w hw => ⟨?_, rfl⟩
  obtain ⟨hfd, hauto⟩ := hf w.conn
  simp only [view] at hw ⊢
  rwa [hfd, hauto]

theorem setSafeMode_refines (safeMode : Bool) :
    Refines V.view Eq (mongoSyncConnSetSafeMode safeMode) (Dialogue.setSafeMode safeMode) :=
  fun _ hw => .of_exec rfl rfl rfl hw rfl

theorem setSlaveok_refines (slaveok : Bool) :
    Refines V.view Eq (mongoSyncConnSetSlaveok slaveok) (Dialogue.setSlaveok slaveok) :=
  fun _ hw => .of_exec rfl rfl rfl hw rfl

theorem setMaxInsertSize_refines (maxSize : Int) :
    Refines V.view Eq (mongoSyncConnSetMaxInsertSize maxSize) (Dialogue.setMaxInsertSize maxSize) :=
  .ite (fun _ _ hw => .of_exec rfl rfl rfl hw rfl) fun _ _ hw => .of_exec rfl rfl rfl hw rfl

theorem atOnce_refines (ensureConn : Bool → Program (World (Desk S)) Bool) :
    Refines V.view Eq (if false then ensureConn false else pure true) Dialogue.atOnce :=
  Refines.pure rfl

/-! ## Commands -/

/-- The packet of a call that fits. -/
theorem exec_packet {c : WireCall} (id : BitVec 32) {p : Except Errno MongoPacket}
    (hne : c.Nonempty) (hsmall : 16 + c.dataSize < 2147483648) (hp : p = c.packet V.order id)
    (w : World (Desk S)) :
    (orErrno p).exec w = (.ok (some (commandPacket V.order id c.opcode c.body c.dataSize)), w) := by
  rw [hp, c.packet_eq V.order id hne (by omega)]
  rfl

/-- The room a command takes. -/
def Room (db : CString) (command : Bytes) : Prop := db.length + command.length < 2147483000

theorem Room.fits {db : CString} {command : Document} (h : Room db command.bytes)
    (flags : BitVec 32) : 16 + (WireCall.custom db flags command).dataSize < 2147483648 := by
  rw [Room] at h
  rw [WireCall.dataSize]
  omega

theorem command_refines {db : CString} {command : Document} (hroom : Room db command.bytes)
    {forceMaster : Bool}
    (hready : Refines V.view Eq (if forceMaster then ensureConn forceMaster else pure true) ready)
    (checkConn : Bool) :
    Refines V.view V.Same
      (mongoSyncCmdCustomWith V.net ensureConn reconnect (some db) (some command.bson) checkConn
        forceMaster)
      (Dialogue.command V ready db command.bytes) := by
  refine Refines.get_bind fun w hw => ?_
  have hfits := hroom.fits (slaveFlag w.conn)
  exact .after_silent (V.exec_packet (c := .custom db (slaveFlag w.conn) command) _ trivial hfits rfl w)
    rfl (V.exchange_refines rfl hfits hready checkConn replyFlagQueryFail true w hw)

/-- A command that is given as a tree. -/
theorem commandDoc_refines {db : CString} {d : Doc} {cmd : Option Bson}
    (hcmd : cmd = some ⟨d.encode, true⟩) (hroom : Room db d.encode) {forceMaster : Bool}
    (hready : Refines V.view Eq (if forceMaster then ensureConn forceMaster else pure true) ready)
    (checkConn : Bool) :
    Refines V.view V.Same
      (mongoSyncCmdCustomWith V.net ensureConn reconnect (some db) cmd checkConn forceMaster)
      (Dialogue.command V ready db d.encode) := by
  have hsmall : d.encode.length < 2147483648 := by
    rw [Room] at hroom
    omega
  subst hcmd
  have hcommand : Room db (Document.ofDoc d hsmall).bytes := hroom
  exact V.command_refines hcommand hready checkConn

/-- A command with a single integer 1, on the socket there is. -/
theorem commandOne_refines {db : CString} (hdb : db.length < 2147482000) {name : CString}
    (hname : name.length < 100) :
    Refines V.view V.Same (mongoSyncCmdCustomBare V.net (some db) (commandOne name))
      (Dialogue.command V Dialogue.atOnce db (oneDoc name).encode) := by
  refine V.commandDoc_refines (commandOne_eq name) ?_ (V.atOnce_refines _) false
  simp only [Room, Doc.encode_length, Doc.elems_cons, Doc.elems_nil, element_length,
    Value.encode, List.length_append, leBytes_length, List.length_nil]
  omega

theorem ping_refines : Refines V.view Eq (mongoSyncCmdPing V.net) (Dialogue.ping V) := by
  refine (V.commandOne_refines (by decide) (by decide)).bind fun p q hpq => ?_
  cases q with
  | none =>
      cases hpq
      exact .pure rfl
  | some r =>
      cases hpq
      exact fun w hw => .of_exec rfl rfl rfl hw rfl

/-- What `mongo_sync_cmd_is_master` stores. -/
theorem storeReplicaSet_refines (primary : Option CString) (hosts : Option (List CString)) :
    Refines V.view Eq (storeReplicaSet primary hosts)
      (Dialogue.setConn fun c =>
        { c with
          rs := { c.rs with primary := primary.or c.rs.primary, hosts := hosts.getD c.rs.hosts } }) :=
  V.setConn_refines fun _ => ⟨rfl, rfl⟩

theorem isMaster_refines : Refines V.view Eq (mongoSyncCmdIsMaster V.net) (Dialogue.isMaster V) := by
  refine (V.commandOne_refines (by decide) (by decide)).bind fun p q hpq => ?_
  cases q with
  | none =>
      cases hpq
      exact .pure rfl
  | some r =>
      cases hpq
      intro w hw
      obtain ⟨b, hread, b', hfinish, hfirst⟩ := r.exec_read V.order w
      have hmaster := find_getBoolean hfirst ismasterKey
      refine .after_silent hread rfl ?_
      dsimp only
      rw [hfinish]
      refine .after_silent (by rw [hmaster]; rfl) rfl ?_
      rw [show (Doc.lookup ismasterKey r.first).bind Value.asBoolean = r.first.isMaster from rfl]
      cases r.first.isMaster with
      | none => exact .of_exec rfl rfl rfl hw rfl
      | some x =>
          dsimp only
          refine .after_silent (exec_of_fst (replyPrimary_encodes hfirst x) rfl) rfl ?_
          refine .after_silent (exec_of_fst (replyHosts_encodes hfirst) rfl) rfl ?_
          refine (V.storeReplicaSet_refines _ _ w hw).bind fun _ _ _ => ?_
          refine (V.setErrno_refines .ok).bind_eq fun _ => ?_
          by_cases hx : x = 0
          · rw [if_pos hx]
            exact .pure (by simp [hx])
          · rw [if_neg hx]
            refine fun u hu => .of_exec rfl rfl ?_ hu rfl
            simpa using hx

/-- The connection is checked before a packet is sent to a master. -/
theorem ensureConn_refines (reconnect : Bool → Program (World (Desk S)) Bool) :
    Refines V.view Eq (ensureMaster V.net reconnect) (Dialogue.ensureMaster V) := by
  refine (V.setErrno_refines .ok).bind_eq fun _ => ?_
  refine V.isMaster_refines.bind_eq fun master => .ite (fun _ => .pure rfl) fun _ => ?_
  refine Refines.get_bind fun w hw => .ite Iff.rfl (fun _ => .pure rfl hw) fun _ => ?_
  -- a connection that does not reconnect
  have hauto : (!w.conn.autoReconnect) = true := by rw [hw.2.2]; rfl
  rw [if_pos hauto]
  exact (V.setErrno_refines .ENOTCONN w hw).bind fun _ _ _ => .pure rfl

/-- The part that is done if a master is asked for. -/
theorem ready_refines (reconnect : Bool → Program (World (Desk S)) Bool) :
    Refines V.view Eq (if true then mongoCmdEnsureConn V.net reconnect true else pure true)
      (Dialogue.ensureMaster V) := by
  intro w hw
  exact .after_silent rfl rfl (V.ensureConn_refines reconnect w hw)

theorem verifySlaveok_refines (reconnect : Bool → Program (World (Desk S)) Bool) :
    Refines V.view Eq (mongoCmdVerifySlaveok V.net reconnect) (Dialogue.verifySlaveok V) :=
  Refines.get_bind fun w hw => .ite Iff.rfl (fun _ => .pure rfl hw)
    fun _ => V.ensureConn_refines reconnect w hw

/-! ## The last error -/

theorem setLastError_refines (e : Errno) :
    Refines V.view Eq (setLastError V.net e) (Dialogue.setLastError V e) :=
  V.setConn_refines fun _ => ⟨rfl, rfl⟩

/-- The object that stands for a document. -/
def SameDoc (b : Option (Option Bson)) (d : Option Doc) : Prop :=
  match b, d with
  | none, none => True
  | some (some b), some d => b.Encodes d
  | _, _ => False

theorem lastErrorDoc_refines {db : CString} (hdb : db.length < 2147482000) :
    Refines V.view SameDoc (mongoSyncCmdGetLastErrorFull V.net (some db))
      (Dialogue.lastErrorDoc V db) := by
  refine (V.commandOne_refines hdb (by decide)).bind fun p q hpq => ?_
  cases q with
  | none =>
      cases hpq
      refine Refines.get_bind fun w hw => ?_
      exact (V.setLastError_refines w.errno w hw).bind fun _ _ _ => .pure trivial
  | some r =>
      cases hpq
      intro w hw
      obtain ⟨b, hread, b', hfinish, hfirst⟩ := r.exec_read V.order w
      refine .after_silent hread rfl ?_
      dsimp only
      rw [hfinish]
      exact .pure hfirst hw

theorem getLastError_refines {db : CString} (hdb : db.length < 2147482000) :
    Refines V.view Eq (mongoSyncCmdGetLastError V.net (some db)) (Dialogue.getLastError V db) := by
  refine (V.lastErrorDoc_refines hdb).bind fun b d hbd => ?_
  cases d with
  | none =>
      cases b with
      | none => exact .pure rfl
      | some b => cases b <;> cases hbd
  | some d =>
      cases b with
      | none => cases hbd
      | some b =>
          cases b with
          | none => cases hbd
          | some b =>
              dsimp only
              rw [mongoSyncGetError_encodes hbd]
              cases d.report with
              | error e => exact fun w hw => .of_exec rfl rfl rfl hw rfl
              | ok err =>
                  cases err with
                  | none => exact fun w hw => .of_exec rfl rfl rfl hw rfl
                  | some error => exact fun w hw => .of_exec rfl rfl rfl hw rfl

theorem resetError_refines {db : CString} (hdb : db.length < 2147482000) :
    Refines V.view Eq (mongoSyncCmdResetError V.net (some db)) (Dialogue.resetError V db) := by
  have hclear := V.setConn_refines (f := fun c => { c with lastError := none })
    fun _ => ⟨rfl, rfl⟩
  refine hclear.bind_eq fun _ => ?_
  refine (V.commandOne_refines hdb (by decide)).bind fun p q hpq => ?_
  cases q with
  | none =>
      cases hpq
      exact .pure rfl
  | some r =>
      cases hpq
      exact .pure rfl

theorem nsDb_length_le (ns : CString) : (nsDb ns).length ≤ ns.length := by
  have hdb := (List.takeWhile_prefix (l := ns.bytes) (· ≠ 46)).length_le
  have hcut := (List.takeWhile_prefix (l := ns.bytes.takeWhile (· ≠ 46)) (· ≠ 0)).length_le
  exact hcut.trans hdb

theorem verifyResult_refines {ns : CString} (hns : ns.length < 2147482000) :
    Refines V.view Eq (mongoSyncCmdVerifyResult V.net (some ns)) (Dialogue.verifyResult V ns) := by
  refine Refines.get_bind fun w hw => .ite Iff.rfl (fun _ => .pure rfl hw) fun _ => ?_
  have hdb := nsDb_length_le ns
  refine (V.getLastError_refines (by omega) w hw).bind fun a b hab => ?_
  subst hab
  cases a with
  | none => exact .pure rfl
  | some error => exact .pure rfl

/-! ## Writes -/

section Writes

variable (reconnect : Bool → Program (World (Desk S)) Bool)

/-- A call that fits into a packet and is not answered. -/
structure Tells (c : WireCall) : Prop where
  nonempty : c.Nonempty
  asks : c.message.asks = false
  small : 16 + c.dataSize < 2147483648

variable {c : WireCall} {build : BitVec 32 → Except Errno MongoPacket}

/-- The packet of a call, under the next request id. -/
theorem packet_refines {α β : Type} {W : α → β → Prop}
    {f : Option MongoPacket → Program (World (Desk S)) α} {g : Dialogue S → Program (Dialogue S) β}
    (hne : c.Nonempty) (hsmall : 16 + c.dataSize < 2147483648)
    (hbuild : ∀ id, build id = c.packet V.order id)
    (h : ∀ w, V.view.valid w → RefinesAt V.view W
      (f (some (commandPacket V.order (w.conn.requestId + 1) c.opcode c.body c.dataSize)))
      (g (V.view.view w)) w) :
    Refines V.view W (nextPacket build >>= f) (get >>= g) := by
  intro w hw
  have hpacket : (nextPacket build).exec w
      = (.ok (some (commandPacket V.order (w.conn.requestId + 1) c.opcode c.body c.dataSize)), w) := by
    rw [nextPacket, exec_get_bind]
    exact V.exec_packet _ hne hsmall (hbuild _) w
  obtain ⟨hresult, hvalid, hview⟩ := h w hw
  refine .after_silent hpacket rfl ⟨?_, hvalid, ?_⟩
  · rwa [exec_get_bind]
  · rwa [exec_get_bind]

theorem packetSend_refines (h : Tells c) (id : BitVec 32) :
    Refines V.view Eq
      (mongoSyncPacketSend V.net reconnect
        (commandPacket V.order id c.opcode c.body c.dataSize) true true)
      (Dialogue.send V (Dialogue.ensureMaster V) id c.message) :=
  V.send_refines h.asks h.small (V.ready_refines reconnect) true

/-- A write, from its packet to the verdict. -/
theorem write_refines {ns : CString} (hns : ns.length < 2147482000) (h : Tells c)
    (hbuild : ∀ id, build id = c.packet V.order id) :
    Refines V.view Eq
      (do
        match ← nextPacket build with
        | none => return false
        | some p => sendAndVerify V.net reconnect p (some ns))
      (Dialogue.write V ns c.message) := by
  rw [Dialogue.write, Dialogue.sendMaster, bind_assoc]
  refine V.packet_refines h.nonempty h.small hbuild fun w hw => ?_
  refine (V.packetSend_refines reconnect h _ w hw).bind fun a b hab => ?_
  subst hab
  exact .ite (fun _ => V.verifyResult_refines hns) fun _ => .pure rfl

theorem update_refines {ns : CString} (hns : ns.length < 2147482000) (flags : BitVec 32)
    {selector update : Document}
    (hsmall : 16 + (WireCall.update ns flags selector update).dataSize < 2147483648) :
    Refines V.view Eq
      (mongoSyncCmdUpdate V.net reconnect (some ns) flags (some selector.bson) (some update.bson))
      (Dialogue.write V ns (.update ns flags selector.bytes update.bytes)) :=
  V.write_refines reconnect (c := .update ns flags selector update) hns ⟨trivial, rfl, hsmall⟩
    fun _ => rfl

theorem delete_refines {ns : CString} (flags : BitVec 32) {sel : Document}
    (hsmall : 16 + (WireCall.delete ns flags sel).dataSize < 2147483648) :
    Refines V.view Eq (mongoSyncCmdDelete V.net reconnect (some ns) flags (some sel.bson))
      (Dialogue.sendMaster V (.delete ns flags sel.bytes)) :=
  V.packet_refines (c := .delete ns flags sel) trivial hsmall (fun _ => rfl) fun w hw =>
    V.packetSend_refines reconnect (c := .delete ns flags sel) ⟨trivial, rfl, hsmall⟩ _ w hw

theorem killCursors_refines {cids : List (BitVec 64)} (hne : cids ≠ [])
    (hsmall : 16 + (WireCall.killCursors cids).dataSize < 2147483648) :
    Refines V.view Eq (mongoSyncCmdKillCursors V.net reconnect cids)
      (Dialogue.killCursors V cids) :=
  V.packet_refines (c := .killCursors cids) hne hsmall (fun _ => rfl) fun w hw =>
    V.send_refines (c := .killCursors cids) rfl hsmall (V.atOnce_refines _) true w hw

/-! ### Bulk inserts -/

theorem dataSize_take_le (ns : CString) (docs : List Document) (n : Nat) :
    (WireCall.insertN ns (docs.take n)).dataSize ≤ (WireCall.insertN ns docs).dataSize := by
  have hlen : (docs.flatMap Document.bytes).length
      = ((docs.take n).flatMap Document.bytes).length
        + ((docs.drop n).flatMap Document.bytes).length := by
    rw [← List.length_append, ← List.flatMap_append, List.take_append_drop]
  simp only [WireCall.dataSize]
  omega

theorem dataSize_drop_le (ns : CString) (docs : List Document) (n : Nat) :
    (WireCall.insertN ns (docs.drop n)).dataSize ≤ (WireCall.insertN ns docs).dataSize := by
  have hlen : (docs.flatMap Document.bytes).length
      = ((docs.take n).flatMap Document.bytes).length
        + ((docs.drop n).flatMap Document.bytes).length := by
    rw [← List.length_append, ← List.flatMap_append, List.take_append_drop]
  simp only [WireCall.dataSize]
  omega

/-- A packet takes no more documents than there are. -/
theorem batchLength_le (maxInsertSize : Int) (docs : List Document) :
    (batchLength maxInsertSize (pointers docs)).toNat ≤ docs.length := by
  have hbounds := countDocuments_bounds maxInsertSize (pointers docs) 0
  have hlen : (pointers docs).length = docs.length := by simp [pointers]
  rw [batchLength]
  dsimp only
  split <;> omega

theorem insertBatch_refines {ns : CString} (hns : ns.length < 2147482000) {docs : List Document}
    {c : Int} (hc : c.toNat ≤ docs.length) (hne : docs ≠ [])
    (hsmall : 16 + (WireCall.insertN ns docs).dataSize < 2147483648) :
    Refines V.view Eq (insertBatch V.net reconnect ns c (pointers docs))
      (Dialogue.insertBatch V ns (docs.take c.toNat)) := by
  rw [Dialogue.insertBatch]
  by_cases hpos : 0 < c
  · have hfront : docs.take c.toNat ≠ [] := by
      rw [ne_eq, List.take_eq_nil_iff]
      rintro (h | h)
      · omega
      · exact hne h
    have hfits := dataSize_take_le ns docs c.toNat
    have hbuild : ∀ id, mongoWireCmdInsertN V.order id (some ns) c (some (pointers docs))
        = (WireCall.insertN ns (docs.take c.toNat)).packet V.order id := by
      intro id
      rw [← mongoWireCmdInsertN_take V.order id ns docs _ hc, Int.toNat_of_nonneg (by omega)]
    rw [if_neg (by simpa using hfront), Dialogue.sendMaster, bind_assoc]
    refine V.packet_refines (c := .insertN ns (docs.take c.toNat)) hfront (by omega) hbuild
      fun w hw => ?_
    refine (V.packetSend_refines reconnect (c := .insertN ns (docs.take c.toNat))
      ⟨hfront, rfl, by omega⟩ _ w hw).bind fun a b hab => ?_
    subst hab
    refine .ite (fun _ => ?_) fun _ => V.verifyResult_refines hns
    exact Refines.get_bind fun u hu =>
      (V.setLastError_refines u.errno u hu).bind fun _ _ _ => .pure rfl
  · -- an empty packet cannot be built
    have hfront : docs.take c.toNat = [] := by
      rw [Int.toNat_of_nonpos (by omega), List.take_zero]
    rw [hfront, List.isEmpty_nil, if_pos rfl]
    intro w hw
    have hempty : ∀ id, mongoWireCmdInsertN V.order id (some ns) c (some (pointers docs))
        = .error .ERANGE := fun id => if_pos (by omega)
    have hpacket : (nextPacket fun rid => mongoWireCmdInsertN V.net.order rid (some ns) c
        (some (pointers docs))).exec w = (.ok none, { w with errno := .ERANGE }) := by
      rw [nextPacket, exec_get_bind]
      show (orErrno (mongoWireCmdInsertN V.order _ _ _ _)).exec w = _
      rw [hempty]
      rfl
    exact .of_exec (exec_bind_ok hpacket _) rfl rfl hw rfl

theorem insertLoop_refines {ns : CString} (hns : ns.length < 2147482000) (fuel : Nat) :
    ∀ docs : List Document, docs ≠ [] →
      16 + (WireCall.insertN ns docs).dataSize < 2147483648 →
      Refines V.view Eq (insertLoop V.net reconnect ns fuel (pointers docs))
        (Dialogue.insertLoop V ns fuel docs) := by
  induction fuel with
  | zero => exact fun _ _ _ => .throw .endless
  | succ fuel ih =>
      intro docs hne hsmall
      refine Refines.get_bind fun w hw => ?_
      have hle := batchLength_le w.conn.maxInsertSize docs
      have hdrop := dataSize_drop_le ns docs (batchLength w.conn.maxInsertSize (pointers docs)).toNat
      refine (V.insertBatch_refines reconnect hns hle hne hsmall w hw).bind fun a b hab => ?_
      subst hab
      refine .ite (fun _ => .pure rfl) fun _ => ?_
      intro u hu
      have hrest : (pointers docs).drop (batchLength w.conn.maxInsertSize (pointers docs)).toNat
          = pointers (docs.drop (batchLength w.conn.maxInsertSize (pointers docs)).toNat) :=
        List.map_drop.symm
      dsimp only
      rw [hrest]
      refine .ite (by simp [pointers, view]) (fun _ => .pure rfl hu) fun hmore => ?_
      exact ih _ (by simpa [pointers] using hmore) (by omega) u hu

theorem insertN_refines {ns : CString} (hns : ns.length < 2147482000) (docs : List Document)
    (hsmall : 16 + (WireCall.insertN ns docs).dataSize < 2147483648) :
    Refines V.view Eq (mongoSyncCmdInsertN V.net reconnect (some ns) (some (pointers docs)))
      (Dialogue.insertN V ns docs) := by
  rw [Dialogue.insertN]
  by_cases hne : docs = []
  · subst hne
    exact (V.setErrno_refines .EINVAL).bind_eq fun _ => .pure rfl
  · have hlen : (pointers docs).length = docs.length := by simp [pointers]
    have hpos : ¬ (pointers docs).length = 0 := by simpa [pointers] using hne
    rw [mongoSyncCmdInsertN, if_neg hpos, if_neg (by simpa using hne)]
    refine Refines.get_bind fun w hw => .ite ?_ (fun _ => ?_) fun _ => ?_
    · have hsize : ∀ d : Document, bsonSize (some d.bson) = (d.bytes.length : Int) :=
        Document.size_eq
      simp only [pointers, List.any_map, Function.comp_def, hsize]
      rfl
    · exact (V.setErrno_refines .EMSGSIZE w hw).bind fun _ _ _ => .pure rfl
    · rw [hlen]
      exact V.insertLoop_refines reconnect hns docs.length docs hne hsmall w hw

end Writes

/-! ## Queries -/

section Queries

variable (reconnect : Bool → Program (World (Desk S)) Bool)

/-- A master is asked for unless a slave will do. -/
theorem ready_refines_or (b : Bool) :
    Refines V.view Eq (if !b then mongoCmdEnsureConn V.net reconnect (!b) else pure true)
      (if b then Dialogue.atOnce else Dialogue.ensureMaster V) := by
  cases b with
  | true => exact V.atOnce_refines _
  | false => exact V.ready_refines reconnect

/-- A question, from its packet to the check of the reply. -/
theorem question_refinesAt {c : WireCall} (hne : c.Nonempty) (hasks : c.message.asks = true)
    (hsmall : 16 + c.dataSize < 2147483648) {id : BitVec 32} {p : Except Errno MongoPacket}
    (hp : p = c.packet V.order id) (flags : BitVec 32) {w : World (Desk S)}
    (hw : V.view.valid w) {forceMaster : Bool} {ready : Program (Dialogue S) Bool}
    (hready : Refines V.view Eq
      (if forceMaster then mongoCmdEnsureConn V.net reconnect forceMaster else pure true) ready) :
    RefinesAt V.view V.Same
      (do
        match ← orErrno p with
        | none => return none
        | some p => sendAndReceive V.net reconnect p id flags forceMaster)
      (Dialogue.exchange V ready id c.message flags false) w := by
  exact .after_silent (V.exec_packet _ hne hsmall hp w) rfl (V.exchange_refines hasks hsmall hready true flags false w hw)

theorem query_refines {ns : CString} (flags skip ret : BitVec 32) {query : Document}
    {sel : Option Document}
    (hsmall : 16 + (WireCall.query ns flags skip ret query sel).dataSize < 2147483648) :
    Refines V.view V.Same
      (mongoSyncCmdQuery V.net reconnect (some ns) flags skip ret (some query.bson)
        (sel.map fun d => d.bson))
      (Dialogue.query V ns flags skip ret query.bytes (sel.map Document.bytes)) := by
  refine (V.verifySlaveok_refines reconnect).bind_eq fun verified => .ite (fun _ => ?_)
    fun _ => .pure rfl
  exact Refines.get_bind fun w hw =>
    V.question_refinesAt reconnect (c := .query ns (flags ||| slaveFlag w.conn) skip ret query sel)
      trivial rfl hsmall rfl replyFlagQueryFail hw (V.ready_refines_or reconnect _)

theorem getMore_refines {ns : CString} (hns : ns.length < 2147482000) (ret : BitVec 32)
    (cursorId : BitVec 64) :
    Refines V.view V.Same (mongoSyncCmdGetMore V.net reconnect (some ns) ret cursorId)
      (Dialogue.getMore V ns ret cursorId) := by
  refine (V.verifySlaveok_refines reconnect).bind_eq fun verified => .ite (fun _ => ?_)
    fun _ => .pure rfl
  refine Refines.get_bind fun w hw =>
    V.question_refinesAt reconnect (c := .getMore ns ret cursorId) trivial rfl ?_ rfl
      replyFlagNoCursor hw (V.atOnce_refines _)
  rw [WireCall.dataSize]
  omega

/-! ## Collections -/

theorem replyNumber_encodes {b : Bson} {d : Doc} (h : b.Encodes d) :
    replyNumber (some b) = .ok d.number := by
  have hget := find_getDouble h numberKey
  rw [replyNumber, Doc.number]
  cases hl : d.lookup numberKey with
  | none =>
      rw [bsonFind_none h hl]
      rfl
  | some v =>
      obtain ⟨d₁, d₂, rfl, -, hfind⟩ := bsonFind_some h hl
      rw [hfind, Program.ok_bind, hl, Option.bind_some] at hget
      rw [hfind, Program.ok_bind]
      dsimp only
      rw [hget, Program.ok_bind]
      cases v.asDouble with
      | none => rfl
      | some x => rfl

theorem count_refines {db coll : CString} {query : Option Doc}
    (hroom : Room db (countDoc coll query).encode) :
    Refines V.view Eq
      (mongoSyncCmdCount V.net reconnect (some db) (some coll)
        (query.map fun q => ⟨q.encode, true⟩))
      (Dialogue.count V db coll query) := by
  have hquery : ∀ q ∈ query, q.encode.length < 2147483648 := by
    rintro q rfl
    simp only [Room, countDoc, Doc.encode_length, Doc.elems_cons, element_length, Value.encode,
      List.length_append] at hroom
    rw [Doc.encode]
    omega
  refine (V.commandDoc_refines (countCommand_eq coll hquery) hroom (V.atOnce_refines _) true).bind
    fun p q hpq => ?_
  cases q with
  | none =>
      cases hpq
      exact .pure rfl
  | some r =>
      cases hpq
      intro w hw
      obtain ⟨b, hread, b', hfinish, hfirst⟩ := r.exec_read V.order w
      refine .after_silent hread rfl ?_
      dsimp only
      rw [hfinish, replyNumber_encodes hfirst]
      cases r.first.number with
      | error e => exact .of_exec rfl rfl rfl hw rfl
      | ok x => exact .of_exec rfl rfl rfl hw rfl

theorem isSome_refines {m : Program (World (Desk S)) (Option MongoPacket)}
    {n : Program (Dialogue S) (Option Received)} (h : Refines V.view V.Same m n) :
    Refines V.view Eq (m >>= fun p => return p.isSome) (n >>= fun r => return r.isSome) := by
  refine h.bind fun p q hpq => .pure ?_
  subst hpq
  exact Option.isSome_map

theorem create_refines {db coll : CString} (flags : BitVec 32) (size max : BitVec 64)
    (hroom : Room db (createDoc coll flags size max).encode) :
    Refines V.view Eq
      (mongoSyncCmdCreate V.net reconnect (some db) (some coll) flags size max)
      (Dialogue.create V db coll flags size max) := by
  rw [mongoSyncCmdCreate, Dialogue.create, createCommand_eq]
  by_cases hfits : CreateFits flags size max
  · rw [if_pos hfits, if_pos hfits]
    intro w hw
    exact .after_silent rfl rfl (V.isSome_refines (V.commandDoc_refines rfl hroom
      (V.ready_refines reconnect) true) w hw)
  · rw [if_neg hfits, if_neg hfits]
    exact fun w hw => .of_exec rfl rfl rfl hw rfl

theorem dropCollectionCommand_eq (coll : CString) :
    dropCollectionCommand (some coll) = some ⟨(Dialogue.dropDoc coll).encode, true⟩ :=
  ((builds_new 64).string dropKey coll).finish

theorem drop_refines {db coll : CString} (hroom : Room db (Dialogue.dropDoc coll).encode) :
    Refines V.view Eq (mongoSyncCmdDrop V.net reconnect (some db) (some coll))
      (Dialogue.drop V db coll) :=
  V.isSome_refines (V.commandDoc_refines (dropCollectionCommand_eq coll) hroom (V.ready_refines reconnect) true)

theorem existsQuery_eq (ns : CString) :
    existsQuery ns = some ⟨(Dialogue.existsDoc ns).encode, true⟩ :=
  ((builds_new 128).string namespaceKey ns).finish

theorem stringDoc_length (key s : CString) :
    (Doc.cons key (.string s.bytes) .nil).encode.length = key.length + s.length + 12 := by
  simp only [Doc.encode_length, Doc.elems_cons, Doc.elems_nil, element_length, Value.encode,
    textImage, List.length_append, leBytes_length, List.length_nil, List.length_singleton,
    CString.length]
  omega

theorem length_append (s t : CString) : (s.append t).length = s.length + t.length :=
  List.length_append

theorem describe_refines {db coll : CString} (hnames : db.length + coll.length < 1000000000) :
    Refines V.view (fun b d => b = d.map fun d => ⟨d.encode, true⟩)
      (mongoSyncCmdExists V.net reconnect (some db) (some coll)) (Dialogue.describe V db coll) := by
  refine Refines.get_bind fun w hw => ?_
  have hlen : (Dialogue.existsDoc ((db.append dot).append coll)).encode.length
      = db.length + coll.length + 17 := by
    rw [Dialogue.existsDoc, stringDoc_length, length_append, length_append]
    show 4 + (db.length + 1 + coll.length) + 12 = _
    omega
  have hns : (db.append systemNamespaces).length = db.length + 18 := length_append db systemNamespaces
  have hquery : (Dialogue.existsDoc ((db.append dot).append coll)).encode.length < 2147483648 := by
    omega
  have hsize : 16 + (WireCall.query (db.append systemNamespaces) (slaveFlag w.conn) 0 1
      (.ofDoc _ hquery) none).dataSize < 2147483648 := by
    simp only [WireCall.dataSize, hns, Document.bytes, Document.ofDoc, Option.map_none,
      Option.getD_none, List.length_nil]
    omega
  have hbuilt := V.exec_packet (c := .query (db.append systemNamespaces) (slaveFlag w.conn) 0 1
    (.ofDoc _ hquery) none) (w.conn.requestId + 1) trivial hsize rfl w
  rw [existsQuery_eq]
  refine .after_silent hbuilt rfl ((V.exchange_refines rfl hsize
    (V.ready_refines_or reconnect w.conn.slaveok) true replyFlagQueryFail false w hw).bind
    fun p q hpq => ?_)
  cases q with
  | none =>
      cases hpq
      exact .pure rfl
  | some r =>
      cases hpq
      intro u hu
      obtain ⟨b, hread, b', hfinish, hfirst⟩ := r.exec_read V.order u
      refine .after_silent hread rfl ?_
      dsimp only
      rw [hfinish, hfirst.eq_encode]
      exact .pure rfl hu

/-! ## Users -/

/-- The room that adding a user takes. -/
def UserRoom (db user pw : CString) (roles : Option Doc) : Prop :=
  db.length + user.length + (userUpdateDoc (Dialogue.digest V user pw) roles).encode.length
    < 2147480000

theorem length_systemUsers (db : CString) : (db.append systemUsers).length = db.length + 13 :=
  length_append db systemUsers

/-- The parts of what is set take no more room than the whole. -/
theorem userUpdateDoc_parts (digest : CString) (roles : Option Doc) :
    digest.length ≤ (userUpdateDoc digest roles).encode.length ∧
      ∀ r ∈ roles, r.encode.length ≤ (userUpdateDoc digest roles).encode.length := by
  cases roles with
  | none =>
      simp only [userUpdateDoc, Doc.encode_length, Doc.elems_cons, Doc.elems_nil, element_length,
        Value.encode, textImage, frame, List.length_append, List.length_singleton, CString.length]
      exact ⟨by omega, fun r hr => by cases hr⟩
  | some r =>
      simp only [userUpdateDoc, Doc.encode_length, Doc.elems_cons, Doc.elems_nil, element_length,
        Value.encode, textImage, frame, List.length_append, List.length_singleton, CString.length,
        leBytes_length, Option.mem_some_iff, forall_eq']
      omega

theorem userAdd_refines {db user pw : CString} {roles : Option Doc}
    (hroom : V.UserRoom db user pw roles) :
    Refines V.view Eq
      (mongoSyncCmdUserAddWithRoles V.net reconnect (some db) (some user) (some pw)
        (roles.map fun r => ⟨r.encode, true⟩))
      (Dialogue.userAdd V db user pw roles) := by
  rw [UserRoom] at hroom
  have husers := length_systemUsers db
  have hlen : (userDoc user).encode.length = user.length + 16 := by
    rw [userDoc, stringDoc_length]
    show 4 + user.length + 12 = _
    omega
  obtain ⟨hdigest, hroles⟩ := userUpdateDoc_parts (Dialogue.digest V user pw) roles
  have hsel : (userDoc user).encode.length < 2147483648 := by omega
  have hupd : (userUpdateDoc (Dialogue.digest V user pw) roles).encode.length < 2147483648 := by
    omega
  rw [mongoSyncCmdUserAddWithRoles, userSelector_eq,
    show passDigest V.net user pw = Dialogue.digest V user pw from rfl,
    userUpdate_eq _ (fun r hr => (hroles r hr).trans_lt hupd) (by omega)]
  have hsmall : 16 + (WireCall.update (db.append systemUsers) flagUpdateUpsert
      (.ofDoc (userDoc user) hsel)
      (.ofDoc (userUpdateDoc (Dialogue.digest V user pw) roles) hupd)).dataSize < 2147483648 := by
    simp only [WireCall.dataSize, Document.bytes, Document.ofDoc, husers]
    omega
  have hupdate := V.update_refines reconnect (by omega) _ hsmall
  exact hupdate

theorem userRemove_refines {db user : CString} (hroom : db.length + user.length < 2147480000) :
    Refines V.view Eq (mongoSyncCmdUserRemove V.net reconnect (some db) (some user))
      (Dialogue.userRemove V db user) := by
  have husers := length_systemUsers db
  have hlen : (userDoc user).encode.length = user.length + 16 := by
    rw [userDoc, stringDoc_length]
    show 4 + user.length + 12 = _
    omega
  have hsel : (userDoc user).encode.length < 2147483648 := by omega
  rw [mongoSyncCmdUserRemove, userSelector_eq]
  have hsmall : 16 + (WireCall.delete (db.append systemUsers) 0
      (.ofDoc (userDoc user) hsel)).dataSize < 2147483648 := by
    simp only [WireCall.dataSize, Document.bytes, Document.ofDoc, husers]
    omega
  have hdelete := V.delete_refines reconnect 0 hsmall
  exact hdelete

/-! ## Authentication -/

theorem replyNonce_encodes {b : Bson} {d : Doc} (h : b.Encodes d) :
    replyNonce (some b) = .ok ((d.lookup nonceKey).bind Value.asText) := by
  have hget := find_getString h nonceKey
  rw [replyNonce, ← hget]
  cases hl : d.lookup nonceKey with
  | none =>
      rw [bsonFind_none h hl]
      rfl
  | some v =>
      obtain ⟨d₁, d₂, rfl, -, hfind⟩ := bsonFind_some h hl
      rw [hfind]
      rfl

/-- The room that authenticating takes, for every challenge a server can send. -/
def AuthRoom (db user pw : CString) : Prop :=
  db.length < 2147482000 ∧ ∀ nonce, nonce.length < 1073741824 →
    Room db (authenticateDoc user nonce (Dialogue.respond V nonce user pw)).encode

/-- A value takes no more room than the elements it is among. -/
theorem lookup_length_le {key : CString} {v : Value} :
    ∀ {d : Doc}, d.lookup key = some v → v.encode.length ≤ d.elems.length
  | .nil, h => by cases h
  | .cons name w rest, h => by
      rw [Doc.elems_cons, List.length_append, element_length]
      rw [Doc.lookup] at h
      split at h
      · cases h
        omega
      · have hrest := lookup_length_le h
        omega

/-- A challenge is as short as the reply. -/
theorem nonce_length {r : Received} {nonce : CString}
    (h : (r.first.lookup nonceKey).bind Value.asText = some nonce) : nonce.length < 1073741824 := by
  have hsmall := r.small
  obtain ⟨v, hv, htext⟩ := Option.bind_eq_some_iff.mp h
  have hle := lookup_length_le hv
  cases v with
  | string s =>
      cases htext
      have hcut : (CString.ofBytes s).length ≤ s.length :=
        (List.takeWhile_prefix (l := s) (· ≠ 0)).length_le
      rw [Doc.encode_length] at hsmall
      simp only [Value.encode, textImage, List.length_append, leBytes_length] at hle
      omega
  | _ => cases htext

theorem storeCredentials_refines (db user pw : CString) :
    Refines V.view Eq (storeCredentials V.net none db user pw)
      (Dialogue.setConn fun c =>
        { c with auth := ⟨some db, some user, some pw⟩, stored := c.stored + 1 }) :=
  fun _ hw => .of_exec rfl rfl rfl hw rfl

theorem authenticate_refines {db user pw : CString} (hroom : V.AuthRoom db user pw) :
    Refines V.view Eq (mongoSyncCmdAuthenticate V.net reconnect db user pw)
      (Dialogue.authenticate V db user pw) := by
  obtain ⟨hdb, hroom⟩ := hroom
  have hnonce : Room db (oneDoc getnonceKey).encode := by
    have hkey : getnonceKey.length = 8 := rfl
    simp only [Room, oneDoc, Doc.encode_length, Doc.elems_cons, Doc.elems_nil, element_length,
      Value.encode, List.length_append, leBytes_length, List.length_nil, hkey]
    omega
  refine (V.commandDoc_refines (commandOne_eq getnonceKey) hnonce (V.atOnce_refines _) true).bind
    fun p q hpq => ?_
  cases q with
  | none =>
      cases hpq
      exact .pure rfl
  | some r =>
      cases hpq
      intro w hw
      obtain ⟨b, hread, b', hfinish, hfirst⟩ := r.exec_read V.order w
      refine .after_silent hread rfl ?_
      dsimp only
      rw [hfinish]
      refine .after_silent (exec_of_fst (replyNonce_encodes hfirst) rfl) rfl ?_
      cases hlookup : (r.first.lookup nonceKey).bind Value.asText with
      | none => exact .of_exec rfl rfl rfl hw rfl
      | some nonce =>
          have hkey := hroom nonce (nonce_length hlookup)
          have hread : ∀ s, (readString V.net none s).exec w = (.ok s, w) := fun _ => rfl
          refine .after_silent (hread user) rfl (.after_silent (hread pw) rfl
            (.after_silent (hread db) rfl ?_))
          refine ((V.commandDoc_refines (authenticateCommand_eq user nonce _) hkey
            (V.atOnce_refines _) true) w hw).bind fun p q hpq => ?_
          cases q with
          | none =>
              cases hpq
              exact .pure rfl
          | some r =>
              cases hpq
              exact (V.storeCredentials_refines db user pw).bind_eq fun _ => .pure rfl

end Queries

end Service

/-! ## Operations -/

/-- A call of an operation. -/
inductive Request where
  | setSafeMode (safeMode : Bool)
  | setSlaveok (slaveok : Bool)
  | setMaxInsertSize (maxSize : Int)
  | ping
  | isMaster
  | getLastError (db : CString)
  | resetError (db : CString)
  | custom (db : CString) (command : Document)
  | update (ns : CString) (flags : BitVec 32) (selector update : Document)
  | delete (ns : CString) (flags : BitVec 32) (sel : Document)
  | insertN (ns : CString) (docs : List Document)
  | killCursors (cids : List (BitVec 64))
  | query (ns : CString) (flags skip ret : BitVec 32) (query : Document) (sel : Option Document)
  | getMore (ns : CString) (ret : BitVec 32) (cursorId : BitVec 64)
  | count (db coll : CString) (query : Option Doc)
  | create (db coll : CString) (flags : BitVec 32) (size max : BitVec 64)
  | drop (db coll : CString)
  | exists (db coll : CString)
  | userAdd (db user pw : CString) (roles : Option Doc)
  | userRemove (db user : CString)
  | authenticate (db user pw : CString)

/-- What an operation returns, with replies of type `ρ` and documents of type `δ`. -/
inductive Returned (ρ δ : Type) where
  | verdict (ok : Bool)
  | lastError (error : Option (Option CString))
  | reply (reply : Option ρ)
  | document (document : Option δ)
  | number (number : GDouble)

/-- Replies and documents are replaced by what they show. -/
def Returned.map {ρ ρ' δ δ' : Type} (f : ρ → ρ') (g : δ → δ') : Returned ρ δ → Returned ρ' δ'
  | .verdict ok => .verdict ok
  | .lastError e => .lastError e
  | .reply r => .reply (r.map f)
  | .document d => .document (d.map g)
  | .number x => .number x

namespace Request

variable {σ S : Type}

/-- The operation on a connection. -/
def run (N : Net σ) (reconnect : Bool → Program (World σ) Bool) :
    Request → Program (World σ) (Returned MongoPacket Bson)
  | setSafeMode safeMode => .verdict <$> mongoSyncConnSetSafeMode safeMode
  | setSlaveok slaveok => .verdict <$> mongoSyncConnSetSlaveok slaveok
  | setMaxInsertSize maxSize => .verdict <$> mongoSyncConnSetMaxInsertSize maxSize
  | ping => .verdict <$> mongoSyncCmdPing N
  | isMaster => .verdict <$> mongoSyncCmdIsMaster N
  | getLastError db => .lastError <$> mongoSyncCmdGetLastError N (some db)
  | resetError db => .verdict <$> mongoSyncCmdResetError N (some db)
  | custom db command => .reply <$> mongoSyncCmdCustom N reconnect (some db) (some command.bson)
  | update ns flags selector upd =>
      .verdict <$> mongoSyncCmdUpdate N reconnect (some ns) flags (some selector.bson)
        (some upd.bson)
  | delete ns flags sel =>
      .verdict <$> mongoSyncCmdDelete N reconnect (some ns) flags (some sel.bson)
  | insertN ns docs => .verdict <$> mongoSyncCmdInsertN N reconnect (some ns) (some (pointers docs))
  | killCursors cids => .verdict <$> mongoSyncCmdKillCursors N reconnect cids
  | query ns flags skip ret qry sel =>
      .reply <$> mongoSyncCmdQuery N reconnect (some ns) flags skip ret (some qry.bson)
        (sel.map fun d => d.bson)
  | getMore ns ret cursorId => .reply <$> mongoSyncCmdGetMore N reconnect (some ns) ret cursorId
  | count db coll qry =>
      .number <$> mongoSyncCmdCount N reconnect (some db) (some coll)
        (qry.map fun q => ⟨q.encode, true⟩)
  | create db coll flags size max =>
      .verdict <$> mongoSyncCmdCreate N reconnect (some db) (some coll) flags size max
  | drop db coll => .verdict <$> mongoSyncCmdDrop N reconnect (some db) (some coll)
  | «exists» db coll => .document <$> mongoSyncCmdExists N reconnect (some db) (some coll)
  | userAdd db user pw roles =>
      .verdict <$> mongoSyncCmdUserAddWithRoles N reconnect (some db) (some user) (some pw)
        (roles.map fun r => ⟨r.encode, true⟩)
  | userRemove db user => .verdict <$> mongoSyncCmdUserRemove N reconnect (some db) (some user)
  | authenticate db user pw => .verdict <$> mongoSyncCmdAuthenticate N reconnect db user pw

/-- The operation as a dialogue. -/
def dialogue (V : Service S) : Request → Program (Dialogue S) (Returned Received Doc)
  | setSafeMode safeMode => .verdict <$> Dialogue.setSafeMode safeMode
  | setSlaveok slaveok => .verdict <$> Dialogue.setSlaveok slaveok
  | setMaxInsertSize maxSize => .verdict <$> Dialogue.setMaxInsertSize maxSize
  | ping => .verdict <$> Dialogue.ping V
  | isMaster => .verdict <$> Dialogue.isMaster V
  | getLastError db => .lastError <$> Dialogue.getLastError V db
  | resetError db => .verdict <$> Dialogue.resetError V db
  | custom db command => .reply <$> Dialogue.command V Dialogue.atOnce db command.bytes
  | update ns flags selector upd =>
      .verdict <$> Dialogue.write V ns (.update ns flags selector.bytes upd.bytes)
  | delete ns flags sel => .verdict <$> Dialogue.sendMaster V (.delete ns flags sel.bytes)
  | insertN ns docs => .verdict <$> Dialogue.insertN V ns docs
  | killCursors cids => .verdict <$> Dialogue.killCursors V cids
  | query ns flags skip ret qry sel =>
      .reply <$> Dialogue.query V ns flags skip ret qry.bytes (sel.map Document.bytes)
  | getMore ns ret cursorId => .reply <$> Dialogue.getMore V ns ret cursorId
  | count db coll qry => .number <$> Dialogue.count V db coll qry
  | create db coll flags size max => .verdict <$> Dialogue.create V db coll flags size max
  | drop db coll => .verdict <$> Dialogue.drop V db coll
  | «exists» db coll => .document <$> Dialogue.describe V db coll
  | userAdd db user pw roles => .verdict <$> Dialogue.userAdd V db user pw roles
  | userRemove db user => .verdict <$> Dialogue.userRemove V db user
  | authenticate db user pw => .verdict <$> Dialogue.authenticate V db user pw

/-- Every packet of the operation can be built, and is no longer than its length can say. -/
def Fits (V : Service S) : Request → Prop
  | getLastError db => db.length < 2147482000
  | resetError db => db.length < 2147482000
  | custom db command => Service.Room db command.bytes
  | update ns flags selector upd =>
      ns.length < 2147482000 ∧
        16 + (WireCall.update ns flags selector upd).dataSize < 2147483648
  | delete ns flags sel => 16 + (WireCall.delete ns flags sel).dataSize < 2147483648
  | insertN ns docs =>
      ns.length < 2147482000 ∧ 16 + (WireCall.insertN ns docs).dataSize < 2147483648
  | killCursors cids =>
      cids ≠ [] ∧ 16 + (WireCall.killCursors cids).dataSize < 2147483648
  | query ns flags skip ret qry sel =>
      16 + (WireCall.query ns flags skip ret qry sel).dataSize < 2147483648
  | getMore ns _ _ => ns.length < 2147482000
  | count db coll qry => Service.Room db (countDoc coll qry).encode
  | create db coll flags size max => Service.Room db (createDoc coll flags size max).encode
  | drop db coll => Service.Room db (Dialogue.dropDoc coll).encode
  | «exists» db coll => db.length + coll.length < 1000000000
  | userAdd db user pw roles => V.UserRoom db user pw roles
  | userRemove db user => db.length + user.length < 2147480000
  | authenticate db user pw => V.AuthRoom db user pw
  | _ => True

/-- The outcome on a connection, and that of the dialogue. -/
def Same (V : Service S) (a : Returned MongoPacket Bson) (b : Returned Received Doc) : Prop :=
  a = b.map (Received.packet V.order) fun d => ⟨d.encode, true⟩

theorem dialogue_total (V : Service S) (r : Request) : Total (r.dialogue V) := by
  cases r with
  | setSafeMode safeMode => exact (Dialogue.setSafeMode_total safeMode).map _
  | setSlaveok slaveok => exact (Dialogue.setSlaveok_total slaveok).map _
  | setMaxInsertSize maxSize => exact (Dialogue.setMaxInsertSize_total maxSize).map _
  | ping => exact (Dialogue.ping_total V).map _
  | isMaster => exact (Dialogue.isMaster_total V).map _
  | getLastError db => exact (Dialogue.getLastError_total V db).map _
  | resetError db => exact (Dialogue.resetError_total V db).map _
  | custom db command => exact (Dialogue.command_total V Dialogue.atOnce_total _ _).map _
  | update ns flags selector upd => exact (Dialogue.write_total V _ _).map _
  | delete ns flags sel => exact (Dialogue.sendMaster_total V _).map _
  | insertN ns docs => exact (Dialogue.insertN_total V ns docs).map _
  | killCursors cids => exact (Dialogue.killCursors_total V cids).map _
  | query ns flags skip ret qry sel => exact (Dialogue.query_total V _ _ _ _ _ _).map _
  | getMore ns ret cursorId => exact (Dialogue.getMore_total V _ _ _).map _
  | count db coll qry => exact (Dialogue.count_total V db coll qry).map _
  | create db coll flags size max => exact (Dialogue.create_total V _ _ _ _ _).map _
  | drop db coll => exact (Dialogue.drop_total V db coll).map _
  | «exists» db coll => exact (Dialogue.describe_total V db coll).map _
  | userAdd db user pw roles => exact (Dialogue.write_total V _ _).map _
  | userRemove db user => exact (Dialogue.sendMaster_total V _).map _
  | authenticate db user pw => exact (Dialogue.authenticate_total V db user pw).map _

/-- Over the bytes of a socket an operation is its dialogue. -/
theorem refines (V : Service S) (reconnect : Bool → Program (World (Desk S)) Bool) (r : Request)
    (h : r.Fits V) : Refines V.view (Same V) (r.run V.net reconnect) (r.dialogue V) := by
  have hverdict : ∀ {m n}, Refines V.view Eq m n →
      Refines V.view (Same V) (Returned.verdict <$> m) (Returned.verdict <$> n) :=
    fun hmn => hmn.map fun _ _ hab => congrArg Returned.verdict hab
  have hreply : ∀ {m n}, Refines V.view V.Same m n →
      Refines V.view (Same V) (Returned.reply <$> m) (Returned.reply <$> n) :=
    fun hmn => hmn.map fun _ _ hab => congrArg Returned.reply hab
  cases r with
  | setSafeMode safeMode => exact hverdict (V.setSafeMode_refines safeMode)
  | setSlaveok slaveok => exact hverdict (V.setSlaveok_refines slaveok)
  | setMaxInsertSize maxSize => exact hverdict (V.setMaxInsertSize_refines maxSize)
  | ping => exact hverdict V.ping_refines
  | isMaster => exact hverdict V.isMaster_refines
  | getLastError db =>
      exact (V.getLastError_refines h).map fun _ _ hab => congrArg Returned.lastError hab
  | resetError db => exact hverdict (V.resetError_refines h)
  | custom db command => exact hreply (V.command_refines h (V.atOnce_refines _) true)
  | update ns flags selector upd => exact hverdict (V.update_refines reconnect h.1 flags h.2)
  | delete ns flags sel => exact hverdict (V.delete_refines reconnect flags h)
  | insertN ns docs => exact hverdict (V.insertN_refines reconnect h.1 docs h.2)
  | killCursors cids => exact hverdict (V.killCursors_refines reconnect h.1 h.2)
  | query ns flags skip ret qry sel => exact hreply (V.query_refines reconnect flags skip ret h)
  | getMore ns ret cursorId => exact hreply (V.getMore_refines reconnect h ret cursorId)
  | count db coll qry =>
      exact (V.count_refines reconnect h).map fun _ _ hab => congrArg Returned.number hab
  | create db coll flags size max => exact hverdict (V.create_refines reconnect flags size max h)
  | drop db coll => exact hverdict (V.drop_refines reconnect h)
  | «exists» db coll =>
      exact (V.describe_refines reconnect h).map fun _ _ hab => congrArg Returned.document hab
  | userAdd db user pw roles => exact hverdict (V.userAdd_refines reconnect h)
  | userRemove db user => exact hverdict (V.userRemove_refines reconnect h)
  | authenticate db user pw => exact hverdict (V.authenticate_refines reconnect h)

end Request

/-! ## Lists of operations -/

variable {S : Type} (V : Service S) (reconnect : Bool → Program (World (Desk S)) Bool)

/-- Any list of operations on a socket that stays open returns what the dialogues return,
leaves the connection, `errno` and the server as they do, and has read all that the server
sent. -/
theorem conversation (rs : List Request) (hfits : ∀ r ∈ rs, r.Fits V) (w : World (Desk S))
    (hfd : 0 ≤ w.conn.fd) (hpending : w.net.pending w.conn.fd = [])
    (hauto : w.conn.autoReconnect = false) :
    ∃ outcomes d w', (rs.mapM (Request.dialogue V)).exec ⟨w.net.server, w.conn, w.errno⟩
        = (.ok outcomes, d) ∧
      (rs.mapM (Request.run V.net reconnect)).exec w
        = (.ok (outcomes.map (Returned.map (Received.packet V.order) fun d => ⟨d.encode, true⟩)), w') ∧
      w'.net.server = d.server ∧ w'.conn = d.conn ∧ w'.errno = d.errno ∧
      w'.net.pending w'.conn.fd = [] := by
  have hrefines := Refines.mapM fun r hr => Request.refines V reconnect r (hfits r hr)
  obtain ⟨outcomes, d, hdialogue⟩ :=
    Total.mapM (Request.dialogue_total V) rs (V.view.view w)
  obtain ⟨as, w', hrun, hsame, hvalid, rfl⟩ := (hrefines w ⟨hfd, hpending, hauto⟩).run hdialogue
  have hequal : as = outcomes.map
      (Returned.map (Received.packet V.order) fun d => ⟨d.encode, true⟩) := by
    rw [← List.forall₂_eq_eq_eq, List.forall₂_map_right_iff]
    exact hsame
  exact ⟨outcomes, _, w', hdialogue, hequal ▸ hrun, rfl, rfl, rfl, hvalid.2.1⟩

/-- A server that keeps the messages and agrees to everything. -/
def agreeableService : Service (List WireMessage) where
  order := .big
  strerror _ := .ascii ['e', 'r', 'r', 'o', 'r']
  md5 _ := .ascii ['m', 'd', '5']
  accepts _ _ := true
  serve s m :=
    (s ++ [m], ⟨7, 8, 0, 0,
      [.cons ismasterKey (.boolean 1) (.cons errKey .null (.cons okKey (.double doubleOne) .nil))],
      by decide⟩)

/-- A connection in safe mode to that server. -/
def agreeableWorld : World (Desk (List WireMessage)) :=
  ⟨⟨[], fun _ => []⟩,
    { mongoSyncConnInit ⟨3, 0⟩ false with safeMode := true }, .ok, 4, []⟩

/-- A delete and a ping. -/
def agreeableRequests : List Request := [.delete someNs 0 emptyDocument, .ping]

theorem conversation_agreeable :
    ∃ outcomes d w', (agreeableRequests.mapM (Request.dialogue agreeableService)).exec
          ⟨agreeableWorld.net.server, agreeableWorld.conn, agreeableWorld.errno⟩
        = (.ok outcomes, d) ∧
      (agreeableRequests.mapM (Request.run agreeableService.net unreached)).exec agreeableWorld
        = (.ok (outcomes.map
            (Returned.map (Received.packet agreeableService.order) fun d => ⟨d.encode, true⟩)), w') ∧
      w'.net.server = d.server ∧ w'.conn = d.conn ∧ w'.errno = d.errno ∧
      w'.net.pending w'.conn.fd = [] := by
  refine conversation agreeableService unreached agreeableRequests ?_ agreeableWorld (by decide)
    rfl rfl
  intro r hr
  rcases List.mem_cons.mp hr with rfl | hr
  · show 16 + (WireCall.delete someNs 0 emptyDocument).dataSize < 2147483648
    decide
  · cases List.mem_singleton.mp hr
    trivial

end LibMongo

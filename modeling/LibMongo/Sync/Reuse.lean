import LibMongo.Sync.Numbering
import LibMongo.Sync.Stream

/-!
# Numbers that are used twice

No two packets on a socket should have the same number.  A command that only a master may get is
numbered first, and then `_mongo_cmd_ensure_conn` asks for a master on the same socket, with a
packet that is given the same number (`Late`).  Together with the two ways in which reconnecting
goes wrong (`Resent` and `Restarted`) these are the only ones.  If none of them happens, every
packet of a run has a number of its own, until a socket has used up all that there are
(`requestIds_differ`).
-/

namespace LibMongo

open Bytes Program Counter

variable {σ : Type} (N : Net σ)

/-! ## The numbers of requests -/

theorem mongoWireCmdUpdate_id {o : ByteOrder} {id flags : BitVec 32} {ns : Option CString}
    {selector update : Option Bson} {p : MongoPacket}
    (h : mongoWireCmdUpdate o id ns flags selector update = .ok p) :
    (mongoWirePacketGetHeader o p).id = id := by
  unfold mongoWireCmdUpdate at h
  split at h
  case h_1 =>
    dsimp only at h
    split at h
    · cases h
    · cases h
      exact commandPacket_id ..
  case h_2 => cases h

theorem mongoWireCmdInsertN_id {o : ByteOrder} {id : BitVec 32} {ns : Option CString} {n : Int}
    {docs : Option (List (Option Bson))} {p : MongoPacket}
    (h : mongoWireCmdInsertN o id ns n docs = .ok p) :
    (mongoWirePacketGetHeader o p).id = id := by
  unfold mongoWireCmdInsertN at h
  split at h
  case h_1 =>
    split at h
    · cases h
    · dsimp only at h
      split at h
      · cases h
      · cases h
        exact commandPacket_id ..
  case h_2 => cases h

theorem mongoWireCmdDelete_id {o : ByteOrder} {id flags : BitVec 32} {ns : Option CString}
    {sel : Option Bson} {p : MongoPacket} (h : mongoWireCmdDelete o id ns flags sel = .ok p) :
    (mongoWirePacketGetHeader o p).id = id := by
  unfold mongoWireCmdDelete at h
  split at h
  case h_1 =>
    dsimp only at h
    split at h
    · cases h
    · cases h
      exact commandPacket_id ..
  case h_2 => cases h

theorem mongoWireCmdKillCursors_id {o : ByteOrder} {id : BitVec 32} {cids : List (BitVec 64)}
    {p : MongoPacket} (h : mongoWireCmdKillCursors o id cids = .ok p) :
    (mongoWirePacketGetHeader o p).id = id := by
  unfold mongoWireCmdKillCursors at h
  split at h
  · cases h
  · cases h
    exact commandPacket_id ..

/-! ## Packets that come late -/

section Commands

variable (fuel : Nat)

/-- The packet is sent behind a check of the connection that has sent packets on the same
socket. -/
def Late (p : MongoPacket) (x : World σ) : Prop :=
  ∃ u es v, (ensureMaster N (mongoSyncReconnect N fuel)).exec x = (.ok true, u) ∧
    u.log = x.log ++ es ∧ sentIds u.conn.fd es ≠ [] ∧
    (sendLoop N (mongoSyncReconnect N fuel) p true true).exec u = (.ok true, v)

/-- The command has numbered a packet that only a master may get. -/
inductive Command.Forces : Command → World σ → MongoPacket → World σ → Prop
  | update {ns : Option CString} {flags : BitVec 32} {selector upd : Option Bson} {w : World σ}
      {p : MongoPacket} :
      mongoWireCmdUpdate N.order (w.conn.requestId + 1) ns flags selector upd = .ok p →
      Forces (.update ns flags selector upd) w p w
  | delete {ns : Option CString} {flags : BitVec 32} {sel : Option Bson} {w : World σ}
      {p : MongoPacket} :
      mongoWireCmdDelete N.order (w.conn.requestId + 1) ns flags sel = .ok p →
      Forces (.delete ns flags sel) w p w
  | batch {ns : CString} {docs rest : List (Option Bson)} {w u : World σ} {p : MongoPacket} :
      docs ≠ [] → (∀ b ∈ docs, bsonSize b < w.conn.maxInsertSize) →
      Batches N (mongoSyncReconnect N fuel) ns docs w rest u → batchPacket N ns rest u = .ok p →
      Forces (.insertN (some ns) (some docs)) w p u
  | query {ns : Option CString} {flags skip ret : BitVec 32} {query sel : Option Bson}
      {w u : World σ} {p : MongoPacket} :
      (mongoCmdVerifySlaveok N (mongoSyncReconnect N fuel)).exec w = (.ok true, u) →
      (QueryCall.query ns flags skip ret query sel).packet N.order u.conn = .ok p →
      (QueryCall.query ns flags skip ret query sel).forceMaster u.conn = true →
      Forces (.query ns flags skip ret query sel) w p u
  | create {db coll : CString} {flags : BitVec 32} {size max : BitVec 64} {command : Option Bson}
      {w : World σ} {p : MongoPacket} :
      createCommand coll flags size max = .ok command →
      mongoWireCmdCustom N.order (w.conn.requestId + 1) (some db) (slaveFlag w.conn) command
        = .ok p →
      Forces (.create (some db) (some coll) flags size max) w p w
  | drop {db coll : Option CString} {w : World σ} {p : MongoPacket} :
      mongoWireCmdCustom N.order (w.conn.requestId + 1) db (slaveFlag w.conn)
        (dropCollectionCommand coll) = .ok p →
      Forces (.drop db coll) w p w
  | «exists» {db coll : CString} {w : World σ} {p : MongoPacket} :
      w.conn.slaveok = false →
      mongoWireCmdQuery N.order (w.conn.requestId + 1) (some (db.append systemNamespaces))
        (slaveFlag w.conn) 0 1 (existsQuery ((db.append dot).append coll)) none = .ok p →
      Forces (.«exists» (some db) (some coll)) w p w
  | within {c write : Command} {w u : World σ} {p : MongoPacket} :
      c.Writes N write → Forces write w p u → Forces c w p u

/-- No packet of the command comes late. -/
def Command.Timely (c : Command) (w : World σ) : Prop :=
  ∀ p x, c.Forces N fuel w p x → ¬ Late N fuel p x

variable {N fuel}

theorem Command.Timely.within {c write : Command} {w : World σ} (h : c.Timely N fuel w)
    (hwrites : c.Writes N write) : write.Timely N fuel w :=
  fun p x hforces => h p x (.within hwrites hforces)

/-- A packet with the next number that does not come late. -/
theorem packetSend_numbers {p : MongoPacket} {x : World σ} {force : Bool}
    (hp : p.Next N.order x.conn) (htimely : force = true → ¬ Late N fuel p x) :
    wp (mongoSyncPacketSend N (mongoSyncReconnect N fuel) p force true)
      (fun _ => x.Numbers N.order) (x.Numbers N.order) x := by
  have hreconnect := mongoSyncReconnect_numbers N fuel
  cases force with
  | false => exact packetSendWith_numbers N (fun _ => hreconnect false) hp
  | true =>
      show wp (ensureMaster N (mongoSyncReconnect N fuel) >>= _) _ _ x
      rw [wp_bind]
      refine wp_of_exec (fun ready u hready => ?_) (fun e u hready => ?_)
      · have hu := wp_ok (ensureMaster_numbers N fuel x) hready
        refine wp_ite (fun hyes => ?_) (fun _ => hu)
        subst hyes
        refine wp_of_exec (fun sent v hsend => ?_) (fun e v hsend => ?_)
        · refine wp_ok (sendLoop_numbers N (fun _ => hreconnect true) hp hu) hsend ?_
          rintro rfl es hes
          by_contra hsent
          exact htimely rfl ⟨u, es, v, hready, hes, hsent, hsend⟩
        · exact wp_error (sendLoop_numbers N (fun _ => hreconnect true) hp hu) hsend
      · exact wp_error (ensureMaster_numbers N fuel x) hready

/-- A packet that is numbered and then sent, and what is done then. -/
theorem numbered_numbers {α : Type} {build : Except Errno MongoPacket} {w : World σ}
    {f : Option MongoPacket → Program (World σ) α}
    (hnone : Keeps (World.Numbers N.order) (f none))
    (hsome : ∀ p, build = .ok p →
      wp (f (some p)) (fun _ => w.Numbers N.order) (w.Numbers N.order) w) :
    wp (orErrno build >>= f) (fun _ => w.Numbers N.order) (w.Numbers N.order) w := by
  rw [wp_bind]
  refine wp_orErrno (fun p hp => hsome p hp) (fun e _ => ?_)
  exact wp_trans (World.Numbers.frame N.order) (setErrno_numbers N e w) (hnone _)

/-- A packet that is sent, and what is done if it is. -/
theorem sent_numbers {α : Type} {p : MongoPacket} {w : World σ} {force : Bool}
    (hp : p.Next N.order w.conn) (htimely : force = true → ¬ Late N fuel p w)
    {f : Bool → Program (World σ) α} (hf : ∀ sent, Keeps (World.Numbers N.order) (f sent)) :
    wp (mongoSyncPacketSend N (mongoSyncReconnect N fuel) p force true >>= f)
      (fun _ => w.Numbers N.order) (w.Numbers N.order) w := by
  rw [wp_bind]
  refine wp_mono (packetSend_numbers hp htimely) (fun sent u hu => ?_) (fun _ hu => hu)
  exact wp_trans (World.Numbers.frame N.order) hu (hf sent u)

/-! ## Commands -/

theorem update_numbers {ns : Option CString} {flags : BitVec 32} {selector upd : Option Bson}
    {w : World σ} (h : (Command.update ns flags selector upd).Timely N fuel w) :
    wp (mongoSyncCmdUpdate N (mongoSyncReconnect N fuel) ns flags selector upd)
      (fun _ => w.Numbers N.order) (w.Numbers N.order) w := by
  have hF := World.Numbers.frame (σ := σ) N.order
  refine numbered_numbers (Keeps.pure hF _) (fun p hp => ?_)
  refine sent_numbers (mongoWireCmdUpdate_id hp) (fun _ => h p w (.update hp)) (fun sent => ?_)
  exact Keeps.ite ((askRule_numbers N).cmdVerifyResult _) (Keeps.pure hF _)

theorem delete_numbers {ns : Option CString} {flags : BitVec 32} {sel : Option Bson} {w : World σ}
    (h : (Command.delete ns flags sel).Timely N fuel w) :
    wp (mongoSyncCmdDelete N (mongoSyncReconnect N fuel) ns flags sel)
      (fun _ => w.Numbers N.order) (w.Numbers N.order) w := by
  refine numbered_numbers (Keeps.pure (World.Numbers.frame N.order) _) (fun p hp => ?_)
  exact packetSend_numbers (mongoWireCmdDelete_id hp) (fun _ => h p w (.delete hp))

theorem insertBatch_numbers {ns : CString} {docs : List (Option Bson)} {w : World σ}
    (h : ∀ p, batchPacket N ns docs w = .ok p → ¬ Late N fuel p w) :
    wp (insertBatch N (mongoSyncReconnect N fuel) ns (batchLength w.conn.maxInsertSize docs) docs)
      (fun _ => w.Numbers N.order) (w.Numbers N.order) w := by
  have hF := World.Numbers.frame (σ := σ) N.order
  refine numbered_numbers (Keeps.pure hF _) (fun p hp => ?_)
  refine sent_numbers (mongoWireCmdInsertN_id hp) (fun _ => h p hp) (fun sent => ?_)
  exact Keeps.ite ((askRule_numbers N).failLastError _) ((askRule_numbers N).cmdVerifyResult _)

/-- Each round of a bulk insert. -/
theorem insertLoop_numbers {ns : CString} {rounds : Nat} {docs : List (Option Bson)} {w : World σ}
    (h : ∀ rest u p, Batches N (mongoSyncReconnect N fuel) ns docs w rest u →
      batchPacket N ns rest u = .ok p → ¬ Late N fuel p u) :
    wp (insertLoop N (mongoSyncReconnect N fuel) ns rounds docs)
      (fun _ => w.Numbers N.order) (w.Numbers N.order) w := by
  have hF := World.Numbers.frame (σ := σ) N.order
  induction rounds generalizing docs w with
  | zero => exact Keeps.throw hF _ w
  | succ rounds ih =>
      rw [insertLoop, wp_bind, wp_get, wp_bind]
      have hround := insertBatch_numbers (fun p hp => h docs w p .first hp)
      refine wp_of_exec (fun ok u hrun => ?_) (fun e u hrun => wp_error hround hrun)
      have hu := wp_ok hround hrun
      refine wp_ite (fun _ => hu) (fun hok => ?_)
      have htrue : ok = true := by simpa using hok
      subst htrue
      refine wp_ite (fun _ => hu) (fun hmore => ?_)
      refine wp_trans hF hu (ih fun rest t p hrest hp => ?_)
      exact h rest t p (.next _ rfl hrun hmore hrest) hp

theorem insertN_numbers {ns : Option CString} {docs : Option (List (Option Bson))} {w : World σ}
    (h : (Command.insertN ns docs).Timely N fuel w) :
    wp (mongoSyncCmdInsertN N (mongoSyncReconnect N fuel) ns docs)
      (fun _ => w.Numbers N.order) (w.Numbers N.order) w := by
  have hfail := fail_numbers (σ := σ) N
  cases ns with
  | none => exact hfail _ w
  | some ns =>
      cases docs with
      | none => exact hfail _ w
      | some docs =>
          refine wp_ite (fun _ => hfail _ w) (fun hne => ?_)
          rw [wp_bind, wp_get]
          refine wp_ite (fun _ => hfail _ w) (fun hsmall => ?_)
          refine insertLoop_numbers fun rest u p hbatches hp => h p u ?_
          refine .batch (fun hnil => hne ?_) (fun b hb => ?_) hbatches hp
          · simp [hnil]
          · simp at hsmall
            exact hsmall b hb

theorem verifySlaveok_numbers :
    Keeps (World.Numbers (σ := σ) N.order) (mongoCmdVerifySlaveok N (mongoSyncReconnect N fuel)) :=
  Keeps.get_bind fun w =>
    Keeps.ite (Keeps.pure (World.Numbers.frame N.order) _) (ensureMaster_numbers N fuel) w

theorem query_numbers {c : QueryCall} {w : World σ}
    (h : ∀ u p, (mongoCmdVerifySlaveok N (mongoSyncReconnect N fuel)).exec w = (.ok true, u) →
      c.packet N.order u.conn = .ok p → c.forceMaster u.conn = true → ¬ Late N fuel p u) :
    wp (c.run N (mongoSyncReconnect N fuel)) (fun _ => w.Numbers N.order) (w.Numbers N.order) w := by
  have hF := World.Numbers.frame (σ := σ) N.order
  have hreply : ∀ (rid flags : BitVec 32) (sent : Bool), Keeps (World.Numbers (σ := σ) N.order)
      (if sent then
        mongoSyncPacketRecv N rid flags >>= fun p => mongoSyncPacketCheckError p false
      else pure none) := fun rid flags sent => Keeps.ite (reply_numbers N _ _ _) (Keeps.pure hF _)
  cases c with
  | query ns flags skip ret q sel =>
      rw [QueryCall.run, mongoSyncCmdQuery, wp_bind]
      refine wp_of_exec (fun verified u hrun => ?_)
        (fun e u hrun => wp_error (verifySlaveok_numbers w) hrun)
      have hu := wp_ok (verifySlaveok_numbers w) hrun
      refine wp_ite (fun hyes => ?_) (fun _ => hu)
      subst hyes
      rw [wp_bind, wp_get]
      refine wp_trans hF hu (numbered_numbers (Keeps.pure hF _) fun p hp => ?_)
      exact sent_numbers (mongoWireCmdQuery_requests hp).id (h u p hrun hp) (hreply _ _)
  | getMore ns ret cursorId =>
      rw [QueryCall.run, mongoSyncCmdGetMore, wp_bind]
      refine wp_mono (verifySlaveok_numbers w) (fun verified u hu => ?_) (fun _ hu => hu)
      refine wp_ite (fun _ => ?_) (fun _ => hu)
      rw [wp_bind, wp_get]
      refine wp_trans hF hu (numbered_numbers (Keeps.pure hF _) fun p hp => ?_)
      exact sent_numbers (mongoWireCmdGetMore_requests hp).id (fun h => by cases h) (hreply _ _)

/-- A command that only a master may get. -/
theorem master_numbers {db : Option CString} {command : Option Bson} {w : World σ}
    (h : ∀ p, mongoWireCmdCustom N.order (w.conn.requestId + 1) db (slaveFlag w.conn) command
      = .ok p → ¬ Late N fuel p w) :
    wp (mongoSyncCmdMaster N (mongoSyncReconnect N fuel) db command) (fun _ => w.Numbers N.order)
      (w.Numbers N.order) w := by
  have hF := World.Numbers.frame (σ := σ) N.order
  rw [mongoSyncCmdMaster, mongoSyncCmdCustomWith, wp_bind, wp_get]
  refine numbered_numbers (Keeps.pure hF _) (fun p hp => ?_)
  refine sent_numbers (mongoWireCmdCustom_requests hp).id (fun _ => h p hp) (fun sent => ?_)
  exact Keeps.ite (reply_numbers N _ _ _) (Keeps.pure hF _)

theorem create_numbers {db coll : Option CString} {flags : BitVec 32} {size max : BitVec 64}
    {w : World σ} (h : (Command.create db coll flags size max).Timely N fuel w) :
    wp (mongoSyncCmdCreate N (mongoSyncReconnect N fuel) db coll flags size max)
      (fun _ => w.Numbers N.order) (w.Numbers N.order) w := by
  have hF := World.Numbers.frame (σ := σ) N.order
  cases db with
  | none => exact fail_numbers N _ w
  | some db =>
      cases coll with
      | none => exact fail_numbers N _ w
      | some coll =>
          rw [mongoSyncCmdCreate, wp_bind]
          refine wp_orErrno (fun command hcommand => ?_) (fun e _ => setErrno_numbers N e w)
          rw [wp_bind]
          refine wp_mono (master_numbers fun p hp => ?_) (fun _ _ hu => hu) (fun _ hu => hu)
          exact h p w (.create hcommand hp)

theorem exists_numbers {db coll : Option CString} {w : World σ}
    (h : (Command.«exists» db coll).Timely N fuel w) :
    wp (mongoSyncCmdExists N (mongoSyncReconnect N fuel) db coll) (fun _ => w.Numbers N.order)
      (w.Numbers N.order) w := by
  have hF := World.Numbers.frame (σ := σ) N.order
  cases db with
  | none => exact fail_numbers N _ w
  | some db =>
      cases coll with
      | none => exact fail_numbers N _ w
      | some coll =>
          have hforces := fun p hslave hp => h p w (.«exists» hslave hp)
          rw [mongoSyncCmdExists, wp_bind, wp_get]
          generalize db.append systemNamespaces = ns at hforces ⊢
          generalize existsQuery ((db.append dot).append coll) = query at hforces ⊢
          refine numbered_numbers (Keeps.pure hF _) (fun p hp => ?_)
          dsimp only
          rw [sendAndReceive, bind_assoc]
          refine sent_numbers (mongoWireCmdQuery_requests hp).id
            (fun hforce => hforces p (by simpa using hforce) hp) (fun sent => ?_)
          refine Keeps.bind hF (Keeps.ite (reply_numbers N _ _ _) (Keeps.pure hF _)) (fun reply => ?_)
          cases reply with
          | none => exact Keeps.pure hF _
          | some p =>
              refine document_keeps hF (setErrno_numbers N) p (fun b => ?_)
              cases b with
              | none => exact Keeps.pure hF _
              | some b => exact Keeps.pure hF _

theorem insert_numbers {ns : Option CString} {docs : List Bson} {w : World σ}
    (h : (Command.insert ns docs).Timely N fuel w) :
    wp (mongoSyncCmdInsert N (mongoSyncReconnect N fuel) ns docs)
      (fun _ => w.Numbers N.order) (w.Numbers N.order) w := by
  refine wp_ite (fun _ => fail_numbers N _ w) (fun hall => ?_)
  cases ns with
  | none => exact absurd (.inl rfl) hall
  | some ns => exact insertN_numbers (h.within (.insert (by simpa using hall)))

theorem userAdd_numbers {db user pw : Option CString} {roles : Option Bson} {w : World σ}
    (h : (Command.userAdd db user pw roles).Timely N fuel w) :
    wp (mongoSyncCmdUserAddWithRoles N (mongoSyncReconnect N fuel) db user pw roles)
      (fun _ => w.Numbers N.order) (w.Numbers N.order) w := by
  rw [mongoSyncCmdUserAddWithRoles.eq_def]
  split
  · exact update_numbers (h.within .userAdd)
  · exact fail_numbers N _ w

theorem userRemove_numbers {db user : Option CString} {w : World σ}
    (h : (Command.userRemove db user).Timely N fuel w) :
    wp (mongoSyncCmdUserRemove N (mongoSyncReconnect N fuel) db user)
      (fun _ => w.Numbers N.order) (w.Numbers N.order) w := by
  rw [mongoSyncCmdUserRemove.eq_def]
  split
  · next db user =>
    have hwrites : (Command.userRemove (some db) (some user)).Writes N
        (.delete (some (db.append systemUsers)) 0 (userSelector user)) := .userRemove
    generalize userSelector user = sel at hwrites ⊢
    generalize db.append systemUsers = ns at hwrites ⊢
    exact delete_numbers (h.within hwrites)
  · exact fail_numbers N _ w

theorem indexCreate_numbers {host : GDouble → BitVec 64} {ns : Option CString} {key : Option Bson}
    {options : BitVec 32} {w : World σ}
    (h : (Command.indexCreate host ns key options).Timely N fuel w) :
    wp (mongoSyncCmdIndexCreate N host (mongoSyncReconnect N fuel) ns key options)
      (fun _ => w.Numbers N.order) (w.Numbers N.order) w := by
  rw [mongoSyncCmdIndexCreate.eq_def]
  split
  · split
    · exact fail_numbers N _ w
    · next hsplit =>
      rw [wp_bind]
      refine wp_ofExcept (fun name hname => ?_) (fun _ _ => (World.Numbers.frame N.order).refl w)
      cases name with
      | none => exact fail_numbers N _ w
      | some name => exact insertN_numbers (h.within (.indexCreate hsplit hname))
  · exact fail_numbers N _ w

/-- A command none of whose packets comes late numbers its packets in order. -/
theorem command_numbers {c : Command} {w : World σ} (h : c.Timely N fuel w) :
    wp (c.run N fuel) (fun _ => w.Numbers N.order) (w.Numbers N.order) w := by
  have hF := World.Numbers.frame (σ := σ) N.order
  have hask := askRule_numbers (σ := σ) N
  have hset : ∀ {f : MongoSyncConnection → MongoSyncConnection},
      (∀ c, (f c).fd = c.fd ∧ (f c).requestId = c.requestId) →
      Keeps (World.Numbers N.order) (do setErrno .ok; setConn f; return true) := fun hf =>
    Keeps.bind hF (setErrno_numbers N _) fun _ =>
      Keeps.bind hF (setConn_numbers N hf) fun _ => Keeps.pure hF _
  have hsome : ∀ {α : Type} {m : Program (World σ) (Option α)},
      wp m (fun _ => w.Numbers N.order) (w.Numbers N.order) w →
      wp (Option.isSome <$> m) (fun _ => w.Numbers N.order) (w.Numbers N.order) w := by
    intro α m hm
    rw [map_eq_pure_bind, wp_bind]
    exact hm
  have hcustom := (customRule_numbers N (mongoSyncReconnect_numbers N fuel)).custom
  have hkeeps : ∀ {m : Program (World σ) Bool}, Keeps (World.Numbers N.order) m →
      wp m (fun _ => w.Numbers N.order) (w.Numbers N.order) w := fun hm => hm w
  cases c with
  | setMaxInsertSize maxSize =>
      exact hkeeps (Keeps.ite (fail_numbers N _) (hset fun _ => ⟨rfl, rfl⟩))
  | setSafeMode safeMode => exact hkeeps (hset fun _ => ⟨rfl, rfl⟩)
  | setAutoReconnect autoReconnect =>
      exact hkeeps (Keeps.bind hF (setConn_numbers N fun _ => ⟨rfl, rfl⟩) fun _ => Keeps.pure hF _)
  | setSlaveok slaveok => exact hkeeps (hset fun _ => ⟨rfl, rfl⟩)
  | seedAdd host port =>
      refine hkeeps (Keeps.ite (fail_numbers N _) ?_)
      exact Keeps.bind hF (setConn_numbers N fun _ => ⟨rfl, rfl⟩) fun _ => Keeps.pure hF _
  | reconnect forceMaster => exact hkeeps (mongoSyncReconnect_numbers N fuel forceMaster)
  | update => exact update_numbers h
  | insertN => exact insertN_numbers h
  | insert => exact insert_numbers h
  | delete => exact delete_numbers h
  | query ns flags skip ret q sel =>
      refine hsome (query_numbers (c := .query ns flags skip ret q sel) fun u p hverified hp hforce => ?_)
      exact h p u (.query hverified hp hforce)
  | getMore ns ret cursorId =>
      refine hsome (query_numbers (c := .getMore ns ret cursorId) fun u p _ _ hforce => ?_)
      cases hforce
  | killCursors cids =>
      refine numbered_numbers (Keeps.pure hF _) (fun p hp => ?_)
      exact packetSend_numbers (mongoWireCmdKillCursors_id hp) (fun h => by cases h)
  | custom db command => exact hsome (hcustom db command w)
  | ping => exact hask.cmdPing w
  | isMaster => exact hask.cmdIsMaster w
  | getLastError db => exact hsome (hask.cmdGetLastError db w)
  | getLastErrorFull db => exact hsome (hask.cmdGetLastErrorFull db w)
  | resetError db => exact hask.cmdResetError db w
  | authenticate db user pw =>
      exact authenticateWith_numbers N (mongoSyncReconnect_numbers N fuel) none db user pw w
  | count db coll q =>
      rw [Command.run, map_eq_pure_bind]
      exact Keeps.bind hF (mongoSyncCmdCount_keeps hF (setErrno_numbers N) hcustom db coll q)
        (fun _ => Keeps.pure hF _) w
  | create => exact create_numbers h
  | drop db coll =>
      rw [Command.run, mongoSyncCmdDrop, wp_bind]
      exact wp_mono (master_numbers fun p hp => h p w (.drop hp)) (fun _ _ hu => hu) (fun _ hu => hu)
  | «exists» => exact hsome (exists_numbers h)
  | userAdd => exact userAdd_numbers h
  | userRemove => exact userRemove_numbers h
  | indexCreate => exact indexCreate_numbers h
  | indexDrop host ns key =>
      exact mongoSyncCmdIndexDrop_keeps hF (setErrno_numbers N) hcustom host ns key w
  | indexDropAll ns =>
      exact mongoSyncCmdIndexDropName_keeps hF (setErrno_numbers N) hcustom ns _ w

/-! ## Opening a connection -/

variable (N fuel)

theorem mongoSyncConnect_numbers (host : CString) (port : Int) (slaveok : Bool) (w : World σ) :
    wp (mongoSyncConnect N host port slaveok)
      (fun c u => ∀ nc, c = some nc → w.Numbers N.order { u with conn := nc })
      (fun _ => False) w := by
  rw [mongoSyncConnect, wp_bind]
  refine wp_mono (mongoConnect_dials N host port w) (fun c u hu => ?_) (fun _ h => h)
  cases c with
  | none =>
      intro nc h
      cases h
  | some a =>
      intro nc h
      cases h
      obtain ⟨hopened, rfl, hconnect⟩ := hu.opened a rfl
      exact ((World.Numbers.frame N.order).refl _).nested rfl hopened hconnect
        (List.append_nil _).symm (fun _ => rfl) rfl (.inr ⟨rfl, .inl rfl⟩)

/-- What is sent until the connection is there, if there is one. -/
def World.Restores (o : ByteOrder) (w : World σ) (c : Option MongoSyncConnection) (u : World σ) :
    Prop := w.Numbers o { u with conn := c.getD u.conn }

variable (id : Nat) (slaveok : Bool)

/-- One address of the cache, and what comes after it. -/
theorem recoveryTry_numbers (cache : RecoveryCache) {host : CString} {port : Int} {w : World σ}
    {next : Program (World σ) (Option MongoSyncConnection × RecoveryCache)}
    (hnext : ∀ u, wp next (fun r x => u.Restores N.order r.1 x) (fun _ => True) u) :
    wp (do
      match ← recoveryCacheConnect N id slaveok cache host port with
      | none => next
      | some c => recoveryCacheAdopt (mongoSyncReconnect N fuel) slaveok cache c)
      (fun r x => w.Restores N.order r.1 x) (fun _ => True) w := by
  have hF := World.Numbers.frame (σ := σ) N.order
  rw [wp_bind, recoveryCacheConnect, wp_bind]
  refine wp_mono (mongoConnect_dials N host port w) (fun c u hu => ?_) (fun _ h => h.elim)
  cases c with
  | none =>
      have hwu : w.Numbers N.order u :=
        .same_log (hu.failed rfl) (by rw [hu.conn]) hu.nextFd_le (by rw [hu.conn])
      show wp next (fun r x => w.Restores N.order r.1 x) (fun _ => True) u
      exact wp_mono (hnext u) (fun _ _ hx => hF.trans hwu hx) (fun _ h => h)
  | some a =>
      obtain ⟨hopened, rfl, hconnect⟩ := hu.opened a rfl
      refine wp_ite (fun _ => ?_) (fun _ => ?_)
      · exact (hF.refl _).nested rfl hopened hconnect (List.append_nil _).symm (fun _ => rfl) rfl
          (.inr ⟨rfl, .inl rfl⟩)
      · rw [wp_bind, wp_onConnection]
        refine wp_mono (mongoSyncReconnect_numbers N fuel false _) (fun ok t ht => ?_)
          (fun _ _ => trivial)
        cases ok with
        | true =>
            exact ht.nested rfl hopened hconnect (List.append_nil _).symm (fun _ => rfl) rfl
              (.inr ⟨rfl, .inl rfl⟩)
        | false =>
            refine ht.nested rfl hopened hconnect (List.append_nil _).symm (fun _ => rfl) rfl
              (.inl ?_)
            show u.conn.fd = w.conn.fd ∧ u.conn.requestId = w.conn.requestId
            rw [hu.conn]
            exact ⟨rfl, rfl⟩

theorem recoveryPick_numbers (cache : RecoveryCache) (addrs : List CString) (w : World σ) :
    wp (recoveryCachePickConnectFromList N (mongoSyncReconnect N fuel) id slaveok cache addrs)
      (fun r x => w.Restores N.order r.1 x) (fun _ => True) w := by
  have hF := World.Numbers.frame (σ := σ) N.order
  induction addrs generalizing w with
  | nil => exact hF.refl w
  | cons addr addrs ih =>
      rw [recoveryCachePickConnectFromList, wp_bind]
      refine wp_orErrno (fun a _ => recoveryTry_numbers N fuel id slaveok cache ih) (fun e _ => ?_)
      exact wp_mono (ih _) (fun _ _ hx => hF.trans (setErrno_numbers N e w) hx) (fun _ h => h)

theorem recoveryLists_numbers (cache : RecoveryCache) (w : World σ) :
    wp (recoveryCacheLists N (mongoSyncReconnect N fuel) id slaveok cache)
      (fun r x => w.Restores N.order r.1 x) (fun _ => True) w := by
  rw [recoveryCacheLists, wp_bind]
  refine wp_mono (recoveryPick_numbers N fuel id slaveok cache _ w) (fun r u hu => ?_)
    (fun _ h => h)
  obtain ⟨c, cache'⟩ := r
  cases c with
  | some c => exact hu
  | none =>
      exact wp_mono (recoveryPick_numbers N fuel id slaveok cache' _ u)
        (fun _ _ hx => (World.Numbers.frame N.order).trans hu hx) (fun _ h => h)

/-- A connection that is opened from a recovery cache. -/
theorem recover_numbers (cache : RecoveryCache) (w : World σ) :
    wp (mongoSyncConnectRecoveryCache N (mongoSyncReconnect N fuel) id slaveok cache)
      (fun r x => w.Restores N.order r.1 x) (fun _ => True) w := by
  have hF := World.Numbers.frame (σ := σ) N.order
  have hlists := recoveryLists_numbers N fuel id slaveok cache
  rw [mongoSyncConnectRecoveryCache]
  cases cache.rs.primary with
  | none => exact hlists w
  | some addr =>
      rw [wp_bind]
      refine wp_orErrno (fun a _ => recoveryTry_numbers N fuel id slaveok cache hlists)
        (fun e _ => ?_)
      exact wp_mono (hlists _) (fun _ _ hx => hF.trans (setErrno_numbers N e w) hx) (fun _ h => h)

/-! ## Runs -/

/-- A run of a client in which no packet comes late. -/
inductive TimelyRun (w : World σ) : World σ → Prop
  | start : TimelyRun w w
  | command {v v' : World σ} {c : Command} {ok : Bool} : TimelyRun w v → c.Timely N fuel v →
      (c.run N fuel).exec v = (.ok ok, v') → TimelyRun w v'
  | connect {v v' : World σ} {host : CString} {port : Int} {slaveok : Bool}
      {c : MongoSyncConnection} : TimelyRun w v →
      (mongoSyncConnect N host port slaveok).exec v = (.ok (some c), v') →
      TimelyRun w { v' with conn := c }
  | recover {v v' : World σ} {id : Nat} {slaveok : Bool} {cache cache' : RecoveryCache}
      {c : MongoSyncConnection} : TimelyRun w v →
      (mongoSyncConnectRecoveryCache N (mongoSyncReconnect N fuel) id slaveok cache).exec v
        = (.ok (some c, cache'), v') →
      TimelyRun w { v' with conn := c }

/-- The state such a run is in, or in which its last command halts. -/
def TimelyRun.Ends (w w' : World σ) : Prop :=
  TimelyRun N fuel w w' ∨ ∃ v, ∃ c : Command, ∃ e, TimelyRun N fuel w v ∧ c.Timely N fuel v ∧
    (c.run N fuel).exec v = (.error e, w')

variable {N fuel} {w w' : World σ}

/-- It is a run of a client. -/
theorem TimelyRun.clientRun (h : TimelyRun N fuel w w') : ClientRun N fuel w w' := by
  induction h with
  | start => exact .start
  | command _ _ hexec ih => exact .command ih hexec
  | connect _ hexec ih => exact .connect ih hexec
  | recover _ hexec ih => exact .recover ih hexec

theorem TimelyRun.numbers (h : TimelyRun N fuel w w') : w.Numbers N.order w' := by
  have hF := World.Numbers.frame (σ := σ) N.order
  induction h with
  | start => exact hF.refl w
  | command _ htimely hexec ih =>
      have hstep := wp_ok (command_numbers htimely) hexec
      exact hF.trans ih hstep
  | connect _ hexec ih =>
      have hstep := wp_ok (mongoSyncConnect_numbers N _ _ _ _) hexec
      exact hF.trans ih (hstep _ rfl)
  | recover _ hexec ih =>
      have hstep := wp_ok (recover_numbers N fuel _ _ _ _) hexec
      exact hF.trans ih hstep

theorem TimelyRun.Ends.numbers (h : TimelyRun.Ends N fuel w w') : w.Numbers N.order w' := by
  rcases h with hrun | ⟨v, c, e, hrun, htimely, hexec⟩
  · exact hrun.numbers
  · exact (World.Numbers.frame N.order).trans hrun.numbers
      (wp_error (command_numbers htimely) hexec)

/-- No two packets that are sent completely on a socket have the same number, if no packet comes
late, none is sent again behind others, no socket is taken over on which packets have been sent,
and no socket uses up the numbers. -/
theorem requestIds_differ (hlog : w.log = []) (hnamed : w.conn.fd < w.nextFd)
    (hrun : TimelyRun.Ends N fuel w w') (horderly : Orderly w'.log) (fd : Int)
    (hcount : ∀ id, (sentIds fd w'.log).head? = some id →
      (sentIds fd w'.log).length ≤ Function.minimalPeriod (nextId N.order) id) :
    (sentIds fd w'.log).Nodup := by
  have hnumbered := hrun.numbers.numbered (by rw [hlog, List.nil_append]) hnamed horderly
  obtain ⟨r, r', -, hdrawn, -⟩ := hnumbered.drawn fd
  exact hdrawn.nodup hcount

end Commands

section Samples

/-- A socket that accepts everything, and what arrives on it. -/
def openSocket (bytes : Bytes) : Script := ⟨[], [], bytes⟩

/-- Killing a cursor asks for no master and takes no reply. -/
def killing (cid : BitVec 64) (w : World Script) : Except Halt Bool × World Script :=
  ((Command.killCursors [cid]).run playNet 2).exec w

theorem killing_timely {cid : BitVec 64} {w v : World Script} (h : TimelyRun playNet 2 w v)
    (hok : (killing cid v).1 = .ok true) : TimelyRun playNet 2 w (killing cid v).2 := by
  have htimely : (Command.killCursors [cid]).Timely playNet 2 v := by
    intro p x hforces
    cases hforces with
    | within hwrites _ => cases hwrites
  exact .command h htimely (exec_of_fst hok rfl)

/-- The state in which two cursors have been killed. -/
def killed : World Script := (killing 8 (killing 7 (talkingWorld (openSocket []))).2).2

/-- Their packets have the numbers 1 and 2. -/
theorem requestIds_differ_killed :
    sentIds 5 killed.log = [1, 2] ∧ (sentIds 5 killed.log).Nodup := by
  have hids : sentIds 5 killed.log = [1, 2] := by decide +kernel
  have hevents : killed.log.all (fun e => match e with
      | .send _ p count => p.Whole count
      | .replace .. => false
      | _ => true) = true := by decide +kernel
  rw [List.all_eq_true] at hevents
  have horderly : Orderly killed.log := by
    refine .of_whole (fun fd p n hmem => ?_) (fun force fd hmem => ?_)
    · simpa using hevents _ hmem
    · simpa using hevents _ hmem
  have hfirst : TimelyRun playNet 2 (talkingWorld (openSocket []))
      (killing 7 (talkingWorld (openSocket []))).2 := killing_timely .start (by decide +kernel)
  have hrun : TimelyRun playNet 2 (talkingWorld (openSocket [])) killed :=
    killing_timely hfirst (by decide +kernel)
  refine ⟨hids, requestIds_differ rfl (by decide) (.inl hrun) horderly 5 fun id _ => ?_⟩
  rw [hids]
  show 2 ≤ Function.minimalPeriod (nextId .little) id
  rw [minimalPeriod_little]
  decide

/-- A node that says it is a master. -/
def masterReply : Reply := ⟨7, 1, 0, 0, 0, [.cons ismasterKey (.boolean 1) okDoc]⟩

/-- An update with empty documents. -/
def updating : Except Halt Bool × World Script :=
  ((Command.update (some (.ascii ['d', '.', 'c'])) 0 (some ⟨Doc.nil.encode, true⟩)
    (some ⟨Doc.nil.encode, true⟩)).run playNet 2).exec (talkingWorld (openSocket masterReply.bytes))

/-- An update on a fresh connection.  The question for a master and the update are both sent
with the number 1. -/
theorem requestIds_same_update :
    ClientRun playNet 2 (talkingWorld (openSocket masterReply.bytes)) updating.2 ∧
      sentIds 5 updating.2.log = [1, 1] ∧ ¬ (sentIds 5 updating.2.log).Nodup := by
  have hids : sentIds 5 updating.2.log = [1, 1] := by decide +kernel
  have hok : updating.1 = .ok true := by decide +kernel
  refine ⟨.command .start (exec_of_fst hok rfl), hids, ?_⟩
  rw [hids]
  decide

end Samples

end LibMongo

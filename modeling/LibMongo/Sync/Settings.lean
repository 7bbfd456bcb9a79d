import LibMongo.Sync.Session
import LibMongo.Wire.Reply
import Mathlib.Logic.Relation

/-!
# What survives a reconnection

`mongo_sync_reconnect` leaves the settings of the user as they are, and the
connection does not keep what it learned over a socket that was replaced.

The credentials are another matter.  When it authenticates again,
`mongo_sync_reconnect` hands the strings of the connection to
`mongo_sync_cmd_authenticate`, whose commands may find the new socket dead and
reconnect.  That call authenticates as well, and if it succeeds the strings are
copied and freed.  Back in the first call, `mongo_sync_cmd_authenticate` goes on
to read the strings it was given.
-/

namespace LibMongo

open Bytes Program

variable {σ : Type} (N : Net σ)

/-! ## What is outside -/

/-- A system call is made. -/
inductive Net.Step : σ → σ → Prop
  | tcp (fd : Int) (host : CString) (port : Int) (s : σ) : Net.Step s (N.tcp fd host port s).2
  | unix (fd : Int) (path : CString) (s : σ) : Net.Step s (N.unix fd path s).2
  | sendmsg (fd : Int) (bytes : Bytes) (s : σ) : Net.Step s (N.sendmsg fd bytes s).2
  | recv (fd : Int) (n : Nat) (s : σ) : Net.Step s (N.recv fd n s).2
  | close (fd : Int) (s : σ) : Net.Step s (N.close fd s)

/-- What is outside has changed by system calls only. -/
def World.Calls (w w' : World σ) : Prop := Relation.ReflTransGen N.Step w.net w'.net

theorem World.Calls.frame : Frame (World.Calls N) where
  refl _ := .refl
  trans h h' := h.trans h'

variable {N} in
theorem World.Calls.of_net {w w' : World σ} (h : w'.net = w.net) : w.Calls N w' := by
  rw [World.Calls, h]

theorem orErrno_calls {α : Type} (x : Except Errno α) :
    Keeps (World.Calls N) (orErrno x) :=
  fun _ => wp_orErrno (fun _ _ => .of_net rfl) (fun _ _ => .of_net rfl)

theorem mongoPacketSend_calls (p : MongoPacket) : Keeps (World.Calls N) (mongoPacketSend N p) := by
  intro w
  rw [mongoPacketSend, wp_bind, wp_get]
  refine wp_ite (fun _ => .of_net rfl) (fun _ => ?_)
  cases mongoWirePacketGetData p with
  | error e => exact .of_net rfl
  | ok data =>
      obtain ⟨data, size⟩ := data
      have hcall : Relation.ReflTransGen N.Step w.net
          (N.sendmsg w.conn.fd (p.wireBytes N.order data) w.net).2 := .single (.sendmsg ..)
      dsimp only
      rw [wp_bind, wp_system]
      cases (N.sendmsg w.conn.fd (p.wireBytes N.order data) w.net).1 with
      | error e => exact hcall
      | ok count =>
          rw [wp_bind, wp_emit]
          exact wp_ite (fun _ => hcall) (fun _ => hcall)

theorem recvAll_calls (fd : Int) (size : BitVec 32) : Keeps (World.Calls N) (recvAll N fd size) := by
  intro w
  have hcall : Relation.ReflTransGen N.Step w.net (N.recv fd size.toNat w.net).2 :=
    .single (.recv ..)
  rw [recvAll, wp_bind, wp_system]
  cases (N.recv fd size.toNat w.net).1 with
  | error e => exact hcall
  | ok bytes => exact hcall

theorem mongoPacketRecv_calls : Keeps (World.Calls N) (mongoPacketRecv N) := by
  have hF := World.Calls.frame N
  refine Keeps.get_bind fun w => ?_
  refine wp_ite (fun _ => .of_net rfl) (fun _ => ?_)
  refine Keeps.bind hF (recvAll_calls N _ _) (fun head => ?_) w
  cases head with
  | none => exact Keeps.pure hF _
  | some head =>
      refine Keeps.bind hF (recvAll_calls N _ _) (fun data => ?_)
      cases data with
      | none => exact Keeps.pure hF _
      | some data => exact orErrno_calls N _

theorem callsRule : SocketRule N (World.Calls N) where
  frame := World.Calls.frame N
  errno _ _ := .of_net rfl
  send _ := mongoPacketSend_calls N _
  recv := mongoPacketRecv_calls N
  store _ _ := .of_net rfl
  ping _ := .of_net rfl
  isMaster _ := .of_net rfl

theorem mongoConnect_calls (address : CString) (port : Int) :
    Keeps (World.Calls N) (mongoConnect N address port) := by
  intro w
  rw [mongoConnect]
  refine wp_ite (fun _ => ?_) (fun _ => ?_)
  · have hcall : Relation.ReflTransGen N.Step w.net (N.unix w.nextFd address w.net).2 :=
      .single (.unix ..)
    rw [mongoUnixConnect]
    refine wp_ite (fun _ => .of_net rfl) (fun _ => ?_)
    rw [wp_bind, wp_newFd, wp_bind, wp_system]
    exact wp_ite (fun _ => hcall) (fun _ => hcall)
  · have hcall : Relation.ReflTransGen N.Step w.net (N.tcp w.nextFd address port w.net).2 :=
      .single (.tcp ..)
    rw [mongoTcpConnect, wp_bind, wp_newFd, wp_bind, wp_system]
    cases (N.tcp w.nextFd address port w.net).1 with
    | connected => exact hcall
    | refused => exact hcall
    | unresolved e =>
        cases e with
        | none => exact hcall
        | some e => exact hcall

theorem connectAddr_calls (addr : CString) : Keeps (World.Calls N) (connectAddr N addr) := by
  have hF := World.Calls.frame N
  refine Keeps.bind hF (orErrno_calls N _) (fun a => ?_)
  cases a with
  | none => exact Keeps.pure hF _
  | some a =>
      refine Keeps.bind hF (Keeps.get hF) (fun w => ?_)
      refine Keeps.bind hF (mongoConnect_calls N _ _) (fun c => ?_)
      cases c with
      | none => exact Keeps.pure hF _
      | some c => exact Keeps.pure hF _

/-! ## What a connection hears -/

/-- A step on a socket.  What is stored about errors and about the replica set comes
from a reply on that socket. -/
inductive World.Hears : World σ → World σ → Prop
  | still {w w' : World σ} (calls : w.Calls N w') (fd : w'.conn.fd = w.conn.fd)
      (lastError : w'.conn.lastError = w.conn.lastError) (rs : w'.conn.rs = w.conn.rs) :
      Hears w w'
  /-- The reply to a command is received and looked at. -/
  | reply (rid : BitVec 32) (w : World σ) :
      Hears w ((mongoSyncPacketRecv N rid replyFlagQueryFail >>= fun p =>
        mongoSyncPacketCheckError p true).exec w).2
  | isMaster (w : World σ) : Hears w ((mongoSyncCmdIsMaster N).exec w).2

/-- Some steps on a socket. -/
def World.Heard : World σ → World σ → Prop := Relation.ReflTransGen (World.Hears N)

theorem Keeps.of_exec {R : World σ → World σ → Prop} {α : Type} {m : Program (World σ) α}
    (h : ∀ w, R w (m.exec w).2) : Keeps R m := by
  intro w
  have hw := h w
  refine wp_of_exec (fun a w' hrun => ?_) (fun e w' hrun => ?_)
  · rwa [hrun] at hw
  · rwa [hrun] at hw

variable {N} in
theorem World.Hears.calls {w w' : World σ} (h : w.Hears N w') : w.Calls N w' := by
  cases h with
  | still calls => exact calls
  | reply rid => exact Keeps.exec ((callsRule N).talk.reply rid) w
  | isMaster => exact Keeps.exec (callsRule N).cmdIsMaster w

variable {N} in
/-- Hearing something is no change of the socket. -/
theorem World.Hears.fd {w w' : World σ} (h : w.Hears N w') : w'.conn.fd = w.conn.fd := by
  cases h with
  | still _ fd => exact fd
  | reply rid => exact (Keeps.exec ((pollsRule N).talk.reply rid) w).fd
  | isMaster => exact (Keeps.exec (mongoSyncCmdIsMaster_polls N) w).fd

variable {N} in
theorem World.Heard.fd {w w' : World σ} (h : w.Heard N w') : w'.conn.fd = w.conn.fd := by
  induction h with
  | refl => rfl
  | tail _ hlast ih => exact hlast.fd.trans ih

variable {N} in
theorem World.Heard.calls {w w' : World σ} (h : w.Heard N w') : w.Calls N w' := by
  induction h with
  | refl => exact .refl
  | tail _ hlast ih => exact ih.trans hlast.calls

/-- Nothing is known of the errors and the replica set. -/
structure MongoSyncConnection.Blank (c : MongoSyncConnection) : Prop where
  lastError : c.lastError = none
  hosts : c.rs.hosts = []
  primary : c.rs.primary = none

/-- What the connection knows it has heard on the socket it has, or it has had that
socket from the start. -/
def World.Relearns (w w' : World σ) : Prop :=
  w.Heard N w' ∨ ∃ u, w.Calls N u ∧ u.conn.Blank ∧ u.Heard N w'

variable {N} in
theorem World.Relearns.calls {w w' : World σ} (h : w.Relearns N w') : w.Calls N w' := by
  rcases h with hheard | ⟨u, hcalls, -, hheard⟩
  · exact hheard.calls
  · exact hcalls.trans hheard.calls

theorem World.Relearns.frame : Frame (World.Relearns N) where
  refl w := .inl .refl
  trans {u v w} h h' := by
    rcases h' with hheard | ⟨x, hcalls, hblank, hheard⟩
    · rcases h with hfirst | ⟨x, hcalls, hblank, hfirst⟩
      · exact .inl (hfirst.trans hheard)
      · exact .inr ⟨x, hcalls, hblank, hfirst.trans hheard⟩
    · exact .inr ⟨x, h.calls.trans hcalls, hblank, hheard⟩

variable {N} in
theorem relearns_still {w w' : World σ} (calls : w.Calls N w') (fd : w'.conn.fd = w.conn.fd)
    (lastError : w'.conn.lastError = w.conn.lastError) (rs : w'.conn.rs = w.conn.rs) :
    w.Relearns N w' :=
  .inl (.single (.still calls fd lastError rs))

variable {N} in
theorem relearns_conn {w w' : World σ} (calls : w.Calls N w') (conn : w'.conn = w.conn) :
    w.Relearns N w' :=
  relearns_still calls (by rw [conn]) (by rw [conn]) (by rw [conn])

/-- Talking to the node only teaches what it says. -/
theorem commandRule_relearns : CommandRule N (World.Relearns N) where
  frame := World.Relearns.frame N
  errno _ _ := relearns_conn (.of_net rfl) rfl
  send {p} _ w := by
    refine wp_mono (wp_and (mongoPacketSend_spec N p w) (mongoPacketSend_calls N p w))
      (fun ok w' h => ?_) (fun _ h => h.1.elim)
    obtain ⟨⟨_, _, _, _, hconn⟩, hcalls⟩ := h
    exact relearns_still hcalls (by rw [hconn]) (by rw [hconn]) (by rw [hconn])
  reply rid := Keeps.of_exec fun w => .inl (.single (.reply rid w))

theorem talkRule_relearns : TalkRule N (World.Relearns N) where
  toCommandRule := commandRule_relearns N
  cmdPing := (commandRule_relearns N).cmdPing fun _ => relearns_conn (.of_net rfl) rfl

theorem mongoSyncCmdIsMaster_relearns : Keeps (World.Relearns N) (mongoSyncCmdIsMaster N) :=
  Keeps.of_exec fun w => .inl (.single (.isMaster w))

/-! ## Reconnecting -/

/-- A socket that is taken over comes without knowledge. -/
theorem afterReplace_relearns {force ok : Bool} {nc : MongoSyncConnection} {w u : World σ}
    (hu : World.Calls N { w with conn := nc } u) :
    w.Relearns N (afterReplace N force ok w u) := by
  rw [afterReplace]
  split
  · split
    · exact .inr ⟨_, hu.tail (.close ..), ⟨rfl, rfl, rfl⟩, .refl⟩
    · refine .inr ⟨_, ?_, ⟨rfl, rfl, rfl⟩, .refl⟩
      exact hu
  · exact relearns_conn hu rfl

section Reconnecting

variable {reconnect : Bool → Program (World σ) Bool}
  (hreconnect : ∀ force, Keeps (World.Relearns N) (reconnect force))
include hreconnect

theorem adopt_relearns {force : Bool} {nc : MongoSyncConnection} {w : World σ} :
    wp (adopt N reconnect force nc) (fun _ => w.Relearns N) (w.Relearns N) w := by
  have hF := World.Relearns.frame N
  have htrans : ∀ {u v x : World σ}, u.Relearns N v → v.net = x.net → x.conn.fd = v.conn.fd →
      x.conn.lastError = v.conn.lastError → x.conn.rs = v.conn.rs → u.Relearns N x :=
    fun h hnet hfd herror hrs => hF.trans h (relearns_still (.of_net hnet.symm) hfd herror hrs)
  refine wp_adopt N reconnect (wp_mono (hreconnect force { w with conn := nc }) (fun ok u hu => ?_)
    (fun u hu => relearns_conn hu.calls rfl))
  refine wp_trans hF (afterReplace_relearns N hu.calls) ?_
  exact reauthenticate_wp ((talkRule_relearns N).custom N hF.halts (hreconnect _))
    (fun _ _ hu _ => htrans hu rfl rfl rfl rfl) (fun _ _ _ hu _ _ => htrans hu rfl rfl rfl rfl)

theorem reconnectRule_relearns (force : Bool) :
    ReconnectRule N reconnect force (World.Relearns N) (World.Relearns N) (World.Relearns N) where
  talk := talkRule_relearns N
  halts := (World.Relearns.frame N).halts
  trans := (World.Relearns.frame N).trans
  answer := by
    refine ReconnectRule.answer_of N (talkRule_relearns N) (World.Relearns.frame N).trans
      (fun _ w => ?_) (fun _ w => ?_)
    · exact wp_mono ((talkRule_relearns N).cmdPing w) (fun _ _ h _ => h) (fun _ _ => trivial)
    · exact wp_mono (mongoSyncCmdIsMaster_relearns N w) (fun _ _ h _ => h) (fun _ _ => trivial)
  refresh _ := mongoSyncCmdIsMaster_relearns N
  candidate addr w := by
    refine wp_mono (wp_and (connectAddr_opens N addr w) (connectAddr_calls N addr w))
      (fun c u hu => ?_) (fun _ h => h.1.elim)
    have hrelearns : w.Relearns N u := relearns_conn hu.2 hu.1.conn
    cases c with
    | none => exact hrelearns
    | some nc => exact wp_trans (World.Relearns.frame N) hrelearns (adopt_relearns N hreconnect)

end Reconnecting

theorem mongoSyncReconnect_relearns (fuel : Nat) (force : Bool) :
    Keeps (World.Relearns N) (mongoSyncReconnect N fuel force) := by
  induction fuel generalizing force with
  | zero => exact Keeps.throw (World.Relearns.frame N) _
  | succ fuel ih =>
      intro w
      refine wp_mono ((reconnectRule_relearns N ih force).call N w) (fun ok _ h => ?_) (fun _ h => h)
      cases ok with
      | false => exact h
      | true => exact h

/-- A call of `mongo_sync_reconnect` that returns leaves the settings as they were, and
the credentials too if it read no string that was freed.  The connection still has its
socket, or all it knows was heard on the new one. -/
theorem settings_survive {fuel : Nat} {force ok : Bool} {w w' : World σ}
    (hrun : (mongoSyncReconnect N fuel force).exec w = (.ok ok, w')) :
    w.conn.SameSettings w'.conn ∧
      w.Since w' (fun es => .dangling ∉ es → w'.conn.auth = w.conn.auth) ∧
      ((w'.conn.fd = w.conn.fd ∧ w.Heard N w') ∨
        ∃ u, w.Calls N u ∧ u.conn.Blank ∧ u.conn.fd = w'.conn.fd ∧ u.Heard N w') := by
  have hroams := wp_ok (mongoSyncReconnect_roams N fuel force w) hrun
  refine ⟨hroams.settings, hroams.auth, ?_⟩
  rcases wp_ok (mongoSyncReconnect_relearns N fuel force w) hrun with hheard | hblank
  · exact .inl ⟨hheard.fd, hheard⟩
  · obtain ⟨u, hcalls, hblank, hheard⟩ := hblank
    exact .inr ⟨u, hcalls, hblank, hheard.fd.symm, hheard⟩

/-! ## Credentials that survive, and some that do not -/

section Freed

/-- A reply with one document. -/
def answerTo (respTo : BitVec 32) (doc : Doc) : Bytes :=
  (Reply.mk 7 respTo 0 0 0 [doc]).bytes

/-- A document that reports success. -/
def okDoc : Doc := .cons okKey (.double doubleOne) .nil

/-- A document with a challenge. -/
def nonceDoc : Doc := .cons nonceKey (.string [110]) okDoc

/-- A connection for slaves on socket 5 that has authenticated and may reconnect. -/
def authenticatedWorld (s : Script) : World Script where
  net := s
  conn :=
    { mongoSyncConnInit ⟨5, 0⟩ true with
      autoReconnect := true
      rs := ⟨[.ascii ['c', ':', '1']], [], some (.ascii ['b', ':', '1'])⟩
      auth := ⟨some (.ascii ['d']), some (.ascii ['u']), some (.ascii ['p'])⟩ }
  errno := .ok
  nextFd := 6
  log := []

/-- Socket 5 is dead, and the primary answers everything. -/
def onceDead : Script where
  connects := [true]
  sends := [none]
  bytes := answerTo 1 okDoc ++ answerTo 0 nonceDoc ++ answerTo 1 okDoc

/-- The state after reconnecting. -/
def reconnected (s : Script) : Except Halt Bool × World Script :=
  (mongoSyncReconnect playNet 3 false).exec (authenticatedWorld s)

/-- The connection comes back on the socket of the primary. -/
theorem settings_survive_onceDead :
    let w' := (reconnected onceDead).2
    (authenticatedWorld onceDead).conn.SameSettings w'.conn ∧
      w'.conn.auth = (authenticatedWorld onceDead).conn.auth ∧
      ∃ u : World Script, u.conn.Blank ∧ u.conn.fd = 6 ∧ u.Heard playNet w' := by
  have hfd : (reconnected onceDead).2.conn.fd = 6 := by decide +kernel
  have hrun : reconnected onceDead = (.ok true, (reconnected onceDead).2) :=
    exec_of_fst (by decide +kernel) rfl
  obtain ⟨hsettings, ⟨es, hes, hauth⟩, hheard⟩ := settings_survive playNet hrun
  refine ⟨hsettings, hauth ?_, ?_⟩
  · have hlog : es = (reconnected onceDead).2.log := hes.symm
    rw [hlog]
    decide +kernel
  · rcases hheard with ⟨hsame, -⟩ | ⟨u, -, hblank, hu, hheard⟩
    · rw [hfd] at hsame
      cases hsame
    · exact ⟨u, hblank, hu.trans hfd, hheard⟩

/-- Socket 5 is dead.  The primary answers one ping and then dies as well, and the seed
answers everything. -/
def twiceDead : Script where
  connects := [true, true]
  sends := [none, some 100, none, none]
  bytes := answerTo 1 okDoc ++ answerTo 1 okDoc ++ answerTo 0 nonceDoc ++ answerTo 1 okDoc ++
    answerTo 0 nonceDoc ++ answerTo 1 okDoc

/-- The call returns the connection, and its credentials are what was freed. -/
theorem settings_freed :
    (reconnected twiceDead).1 = .ok true ∧
      (reconnected twiceDead).2.conn.auth ≠ (authenticatedWorld twiceDead).conn.auth := by
  decide +kernel

end Freed

end LibMongo

import LibMongo.Sync.Client
import LibMongo.Wire.Reply

/-!
# Packets on a socket

What a socket accepts should be packets, one behind the other, whenever the next
packet is handed to it.  A packet that is only accepted in part breaks this, and
the library goes on to use the socket: `mongo_sync_reconnect` begins with a ping
on it, and without automatic reconnection the next command does.

`requests_at_boundaries_iff` says that nothing else breaks it.
-/

namespace LibMongo

open Bytes Program

variable {σ : Type} (N : Net σ)

/-! ## What a socket accepts -/

/-- The bytes that an event adds to what the socket has accepted. -/
def Event.accepted (o : ByteOrder) (fd : Int) : Event → Bytes
  | .send fd' p (some count) => if fd' = fd then (p.bytes o).take count else []
  | _ => []

/-- The bytes that a socket has accepted. -/
def accepted (o : ByteOrder) (fd : Int) (es : List Event) : Bytes :=
  es.flatMap (Event.accepted o fd)

/-- Whenever a packet is handed to a socket, the socket has accepted packets only. -/
def AtBoundaries (o : ByteOrder) (es : List Event) : Prop :=
  ∀ pre fd p count post, es = pre ++ .send fd p count :: post →
    Framed IsPacket (accepted o fd pre)

/-- The socket has accepted a part of a packet. -/
def CutShort (o : ByteOrder) (fd : Int) (es : List Event) : Prop :=
  ∃ p count, .send fd p (some count) ∈ es ∧ 0 < count ∧ count < (p.bytes o).length

/-- A socket that has accepted a part of a packet is handed no other. -/
def Abandons (o : ByteOrder) (es : List Event) : Prop :=
  ∀ pre fd p count post, es = pre ++ .send fd p count :: post → ¬ CutShort o fd pre

/-- What is handed to a socket is a packet. -/
def Event.Delimited (o : ByteOrder) : Event → Prop
  | .send _ p _ => IsPacket (p.bytes o)
  | _ => True

/-- Without such a part a socket has accepted packets only. -/
theorem accepted_framed {o : ByteOrder} {fd : Int} {es : List Event} (hes : ∀ e ∈ es, e.Delimited o)
    (hcut : ¬ CutShort o fd es) : Framed IsPacket (accepted o fd es) := by
  induction es with
  | nil => exact .nil
  | cons e es ih =>
      have hrest := ih (fun e he => hes e (List.mem_cons_of_mem _ he)) (fun hcut' => by
        obtain ⟨p, count, hmem, hshort⟩ := hcut'
        exact hcut ⟨p, count, List.mem_cons_of_mem _ hmem, hshort⟩)
      refine Framed.append (s := e.accepted o fd) ?_ hrest
      have hpacket := hes e List.mem_cons_self
      match e with
      | .send fd' p (some count) =>
          rw [Event.accepted]
          split
          · next hfd =>
            subst hfd
            by_cases hzero : count = 0
            · rw [hzero, List.take_zero]
              exact .nil
            · have hwhole : (p.bytes o).length ≤ count := by
                by_contra hlt
                exact hcut ⟨p, count, List.mem_cons_self, by omega, by omega⟩
              rw [List.take_of_length_le hwhole]
              exact .one hpacket
          · exact .nil
      | .send _ _ none => exact .nil
      | .connect .. | .close _ | .ping _ | .isMaster _ | .replace .. | .dangling => exact .nil

/-- A packet is handed to the socket. -/
def Event.sendsOn (fd : Int) : Event → Bool
  | .send fd' _ _ => fd' = fd
  | _ => false

theorem accepted_nil {o : ByteOrder} {fd : Int} {es : List Event}
    (h : ∀ e ∈ es, e.sendsOn fd = false) : accepted o fd es = [] := by
  refine List.flatMap_eq_nil_iff.mpr fun e he => ?_
  have hno := h e he
  match e with
  | .send fd' p (some count) =>
      rw [Event.accepted, if_neg]
      simpa [Event.sendsOn] using hno
  | .send _ _ none => rfl
  | .connect .. | .close _ | .ping _ | .isMaster _ | .replace .. | .dangling => rfl

/-- The first packet that is handed to a socket behind a part of one. -/
theorem AtBoundaries.abandons {o : ByteOrder} {es : List Event} (hes : ∀ e ∈ es, e.Delimited o)
    (h : AtBoundaries o es) : Abandons o es := by
  rintro pre fd p count post rfl ⟨q, n, hmem, hpos, hshort⟩
  obtain ⟨a, b, rfl⟩ := List.append_of_mem hmem
  have hfound : ((b ++ [Event.send fd p count]).find? (Event.sendsOn fd)).isSome := by
    rw [List.find?_isSome]
    exact ⟨.send fd p count, by simp, by simp [Event.sendsOn]⟩
  obtain ⟨e, hfind⟩ := Option.isSome_iff_exists.mp hfound
  obtain ⟨hsends, b₁, b₂, hsplit, hno⟩ := List.find?_eq_some_iff_append.mp hfind
  have hall : (a ++ .send fd q (some n) :: b) ++ .send fd p count :: post
      = (a ++ .send fd q (some n) :: b₁) ++ e :: (b₂ ++ post) := by
    have happend : b ++ .send fd p count :: post = b₁ ++ e :: (b₂ ++ post) := by
      rw [show b ++ Event.send fd p count :: post = (b ++ [.send fd p count]) ++ post by simp,
        hsplit]
      simp
    rw [List.append_assoc, List.cons_append, happend, List.append_assoc, List.cons_append]
  have hq : (Event.send fd q (some n)).Delimited o := hes _ (by simp)
  have hfirst : Framed IsPacket (accepted o fd a) :=
    h a fd q (some n) (b ++ .send fd p count :: post) (by simp)
  have hnext : Framed IsPacket (accepted o fd (a ++ .send fd q (some n) :: b₁)) := by
    cases e with
    | send fd' p' count' =>
        have hfd : fd' = fd := by simpa [Event.sendsOn] using hsends
        subst hfd
        exact h _ _ p' count' _ hall
    | _ => cases hsends
  have htake : accepted o fd (a ++ .send fd q (some n) :: b₁)
      = accepted o fd a ++ (q.bytes o).take n := by
    have hb₁ : accepted o fd b₁ = [] := accepted_nil fun e he => by simpa using hno e he
    rw [accepted, accepted, List.flatMap_append, List.flatMap_cons, Event.accepted, if_pos rfl]
    rw [accepted] at hb₁
    rw [hb₁, List.append_nil]
  rw [htake] at hnext
  have hlen : ((q.bytes o).take n).length = n := by
    rw [List.length_take]
    omega
  refine framing_packets.not_framed hq (List.take_prefix n _) (fun hnil => ?_) (by omega)
    (framing_packets.of_append hfirst hnext)
  rw [hnil] at hlen
  simp at hlen
  omega

theorem atBoundaries_iff {o : ByteOrder} {es : List Event} (hes : ∀ e ∈ es, e.Delimited o) :
    AtBoundaries o es ↔ Abandons o es := by
  constructor
  · exact AtBoundaries.abandons hes
  · rintro h pre fd p count post rfl
    exact accepted_framed (fun e he => hes e (List.mem_append_left _ he)) (h pre fd p count post rfl)

/-! ## What a client hands to its sockets -/

/-- The packets that are handed to sockets state their length. -/
def World.SendsSealed (o : ByteOrder) (w w' : World σ) : Prop :=
  w.Since w' fun es => ∀ fd p count, .send fd p count ∈ es → p.Sealed o

theorem World.SendsSealed.frame (o : ByteOrder) : Frame (World.SendsSealed (σ := σ) o) where
  refl w := .nil fun _ _ _ h => by cases h
  trans h h' := h.append h' fun es es' hes hes' fd p count hmem =>
    (List.mem_append.mp hmem).elim (hes fd p count) (hes' fd p count)

/-- Events that are not sent packets. -/
theorem World.SendsSealed.of_log {o : ByteOrder} {w w' : World σ} {es : List Event}
    (hlog : w'.log = w.log ++ es) (hes : ∀ fd p count, .send fd p count ∉ es) :
    w.SendsSealed o w' :=
  ⟨es, hlog, fun fd p count hmem => absurd hmem (hes fd p count)⟩

theorem World.SendsSealed.of_same {o : ByteOrder} {w w' : World σ} (h : w'.log = w.log) :
    w.SendsSealed o w' :=
  ⟨[], by rw [h, List.append_nil], fun _ _ _ hmem => by cases hmem⟩

theorem clientRule_sendsSealed : ClientRule N (World.SendsSealed N.order) where
  frame := World.SendsSealed.frame N.order
  conn _ _ := .of_same rfl
  errno _ _ := .of_same rfl
  event w e he := .of_log rfl fun fd p count h => he fd p count (List.mem_singleton.mp h).symm
  send {p} hp w := by
    refine wp_mono (mongoPacketSend_spec N p w) (fun _ w' h => ?_) (fun _ h => h.elim)
    obtain ⟨count, hlog, _⟩ := h
    refine ⟨_, hlog, fun fd q n hmem => ?_⟩
    cases List.mem_singleton.mp hmem
    exact hp
  recv w := wp_mono (mongoPacketRecv_still N w) (fun _ _ h => .of_same h.log)
    (fun _ h => .of_same h.log)
  connect host port w := by
    refine wp_mono (mongoConnect_dials N host port w) (fun c w' h => ?_) (fun _ h => h.elim)
    cases c with
    | none => exact .of_same (h.failed rfl)
    | some c =>
        refine .of_log (h.opened c rfl).2.2 fun fd p count hmem => ?_
        cases List.mem_singleton.mp hmem
  close fd w := by
    rw [closeFd, wp_bind, wp_emit, wp_system]
    refine .of_log rfl fun _ _ _ hmem => ?_
    cases List.mem_singleton.mp hmem

/-- A packet starts behind complete packets, in every run, exactly if no packet is handed to
a socket that has accepted a part of one. -/
theorem requests_at_boundaries_iff {fuel : Nat} {w w' : World σ} (hlog : w.log = [])
    (hrun : ClientRun.Ends N fuel w w')
    (hlength : ∀ fd p count, .send fd p count ∈ w'.log → (p.bytes N.order).length < 2 ^ 32) :
    AtBoundaries N.order w'.log ↔ Abandons N.order w'.log := by
  obtain ⟨es, hes, hsealed⟩ := (clientRule_sendsSealed N).ends hrun
  rw [hlog, List.nil_append] at hes
  subst hes
  refine atBoundaries_iff fun e he => ?_
  cases e with
  | send fd p count => exact (hsealed fd p count he).isPacket (hlength fd p count he)
  | _ => trivial

/-! ## A packet that is cut short -/

section CutShort

/-- A connection on socket 5 that may reconnect. -/
def talkingWorld (s : Script) : World Script where
  net := s
  conn := { mongoSyncConnInit ⟨5, 0⟩ true with autoReconnect := true }
  errno := .ok
  nextFd := 6
  log := []

/-- A command on that connection. -/
def custom (s : Script) : Except Halt Bool × World Script :=
  ((Command.custom (some (.ascii ['d'])) (commandOne pingKey)).run playNet 2).exec (talkingWorld s)

/-- The socket is dead. -/
def deadSocket : Script where
  connects := []
  sends := [none, none]
  bytes := []

/-- The socket accepts 20 bytes of the packet, and then what it is handed. -/
def shortSend : Script where
  connects := []
  sends := [some 20]
  bytes := []

theorem custom_ends (s : Script) :
    ClientRun.Ends playNet 2 (talkingWorld s) (custom s).2 := by
  have hexec : ((Command.custom (some (.ascii ['d'])) (commandOne pingKey)).run playNet 2).exec
      (talkingWorld s) = ((custom s).1, (custom s).2) := rfl
  cases h : (custom s).1 with
  | ok ok => exact .inl (.command .start (hexec.trans (by rw [h])))
  | error e => exact .inr ⟨_, _, e, .start, hexec.trans (by rw [h])⟩

/-- The socket takes the first packet whole, and then it is dead. -/
def dyingSocket : Script where
  connects := []
  sends := [some 1024, none, none]
  bytes := []

/-- The command once more, after the first that got no reply. -/
def customAgain (s : Script) : Except Halt Bool × World Script :=
  ((Command.custom (some (.ascii ['d'])) (commandOne pingKey)).run playNet 2).exec (custom s).2

theorem customAgain_ends {s : Script} {a b : Bool} (h : (custom s).1 = .ok a)
    (h' : (customAgain s).1 = .ok b) :
    ClientRun.Ends playNet 2 (talkingWorld s) (customAgain s).2 := by
  have hfirst : ((Command.custom (some (.ascii ['d'])) (commandOne pingKey)).run playNet 2).exec
      (talkingWorld s) = (.ok a, (custom s).2) := Prod.ext h rfl
  have hsecond : ((Command.custom (some (.ascii ['d'])) (commandOne pingKey)).run playNet 2).exec
      (custom s).2 = (.ok b, (customAgain s).2) := Prod.ext h' rfl
  exact .inl ((ClientRun.start.command hfirst).command hsecond)

/-- A packet that the socket accepts whole, or not at all. -/
def Event.sentWhole : Event → Bool
  | .send _ p (some count) =>
      (p.bytes .little).length < 2 ^ 32 ∧ count = (p.bytes .little).length
  | .send _ p none => (p.bytes .little).length < 2 ^ 32
  | _ => true

/-- A whole packet, one that the dead socket refuses, and the ping of the reconnection. -/
theorem requests_at_boundaries_dyingSocket :
    (customAgain dyingSocket).2.log.map (fun e => match e with
      | .send fd _ count => (fd, count.isSome)
      | _ => (0, false)) = [(5, true), (5, false), (5, false)] ∧
      AtBoundaries playNet.order (customAgain dyingSocket).2.log := by
  have hwhole : (customAgain dyingSocket).2.log.all Event.sentWhole = true := by decide +kernel
  rw [List.all_eq_true] at hwhole
  refine ⟨by decide +kernel, (requests_at_boundaries_iff playNet rfl
    (customAgain_ends (s := dyingSocket) (a := false) (b := false) (by decide +kernel)
      (by decide +kernel)) ?_).mpr ?_⟩
  · intro fd p count hmem
    have hsent := hwhole _ hmem
    cases count with
    | none =>
        simp only [Event.sentWhole, decide_eq_true_eq] at hsent
        exact hsent
    | some n =>
        simp only [Event.sentWhole, decide_eq_true_eq] at hsent
        exact hsent.1
  · rintro pre fd p count post hlog ⟨q, n, hmem, -, hshort⟩
    have hsent := hwhole (.send fd q (some n)) (by rw [hlog]; simp [hmem])
    simp only [Event.sentWhole, decide_eq_true_eq] at hsent
    exact absurd hshort (Nat.not_lt.mpr hsent.2.ge)

/-- A packet that is cut short after 20 bytes, and another. -/
def cutAfter20 : List Event → Bool
  | [.send 5 p (some 20), .send 5 _ _] =>
      IsPacket (p.bytes .little) ∧ 20 < (p.bytes .little).length
  | _ => false

/-- The ping that reconnecting begins with is sent behind 20 bytes of the command. -/
theorem requests_cut_shortSend :
    ClientRun.Ends playNet 2 (talkingWorld shortSend) (custom shortSend).2 ∧
      ¬ AtBoundaries playNet.order (custom shortSend).2.log := by
  refine ⟨custom_ends shortSend, fun hat => ?_⟩
  have hcut : cutAfter20 (custom shortSend).2.log = true := by decide +kernel
  unfold cutAfter20 at hcut
  split at hcut
  · next p q count hlog =>
    rw [decide_eq_true_eq] at hcut
    rw [hlog] at hat
    have hframed : Framed IsPacket ((p.bytes .little).take 20) := by
      have hbefore := hat [.send 5 p (some 20)] 5 q count [] rfl
      rw [accepted, List.flatMap_singleton, Event.accepted, if_pos rfl] at hbefore
      exact hbefore
    have hlen : ((p.bytes .little).take 20).length = 20 := by
      rw [List.length_take, Nat.min_eq_left (Nat.le_of_lt hcut.2)]
    refine framing_packets.not_framed hcut.1 (List.take_prefix 20 _) (fun hnil => ?_) ?_ hframed
    · rw [hnil] at hlen
      cases hlen
    · rw [hlen]
      exact hcut.2
  · cases hcut

end CutShort

end LibMongo

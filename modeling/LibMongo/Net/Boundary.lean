import LibMongo.Net.Hostile

/-!
# Where a packet starts

`mongo_packet_recv` reads a packet in two steps and keeps no record of how far it got.  A
call that reads a whole packet, or nothing at all, leaves the socket where a packet
starts (`recv_step`).  A call that is cut short in between leaves it in the middle, so
the packets that are returned are those of the server as long as no call comes after
such a one (`returned_prefix`).
-/

namespace LibMongo

open Bytes Program

variable {σ : Type}

/-! ## A server that writes whole packets -/

/-- A packet as the server writes it. -/
structure ServedPacket where
  header : MongoPacketHeader
  body : Bytes
  length_eq : header.length.toNat = 16 + body.length
  fits : 16 + body.length < 2147483648
  body_ne : body ≠ []

namespace ServedPacket

/-- The packet on the wire. -/
def bytes (q : ServedPacket) : Bytes := q.header.wire ++ q.body

/-- The packet that is returned for it. -/
def packet (o : ByteOrder) (q : ServedPacket) : MongoPacket := receivedPacket o q.header q.body

variable (q : ServedPacket)

theorem length_toInt : q.header.length.toInt = 16 + q.body.length := by
  have hlen := q.length_eq
  have hfits := q.fits
  rw [BitVec.toInt_eq_toNat_of_lt (by omega), hlen]
  omega

theorem long : 16 < q.header.length.toInt := by
  have hpos := List.length_pos_of_ne_nil q.body_ne
  rw [q.length_toInt]
  omega

theorem size_eq : (q.header.length - 16).toNat = q.body.length := by
  have hsize := (body_size q.long).1
  rw [q.length_toInt] at hsize
  omega

end ServedPacket

/-- A reply is such a packet. -/
def Reply.served (r : Reply) (h : r.Fits) : ServedPacket where
  header := r.header
  body := r.body
  length_eq := h.length_eq
  fits := h
  body_ne := List.ne_nil_of_length_pos (by have := r.body_length_ge; omega)

/-- What `recv` delivers on a socket is the next part of what the server writes on it, and
a failure delivers nothing.  `arriving` is all that has not been read. -/
structure Net.Delivers (N : Net σ) (fd : Int) (arriving : σ → Bytes) : Prop where
  ok : ∀ {n s bytes s'}, N.recv fd n s = (.ok bytes, s') →
    bytes.length ≤ n ∧ arriving s = bytes ++ arriving s'
  error : ∀ {n s e s'}, N.recv fd n s = (.error e, s') → arriving s' = arriving s

/-! ## Runs of receives -/

/-- A call of `mongo_packet_recv`. -/
structure Receipt (σ : Type) where
  before : World σ
  packet : Option MongoPacket

/-- The calls of a run on a socket, between which the client does anything that reads
nothing from it. -/
inductive Receives (N : Net σ) (fd : Int) (arriving : σ → Bytes) :
    World σ → List (Receipt σ) → Prop
  | done {w} : Receives N fd arriving w []
  | elsewhere {w u calls} : arriving u.net = arriving w.net → Receives N fd arriving u calls →
      Receives N fd arriving w calls
  | call {w u p calls} : w.conn.fd = fd → (mongoPacketRecv N).exec w = (.ok p, u) →
      Receives N fd arriving u calls → Receives N fd arriving w (⟨w, p⟩ :: calls)

/-- A call gets a part of a packet: some of the header, or the header without the whole
body. -/
def World.CutShort (N : Net σ) (w : World σ) : Prop :=
  (∃ head, (N.recv w.conn.fd 16 w.net).1 = .ok head ∧ 0 < head.length ∧ head.length < 16) ∨
    ∃ h, N.header w = some h ∧ N.body w h = none

section Boundary

variable {N : Net σ} {fd : Int} {arriving : σ → Bytes} (hN : N.Delivers fd arriving)
include hN

/-- Without a header nothing was read, unless the call was cut short. -/
theorem arriving_noHeader {w : World σ} (hfd : w.conn.fd = fd) (hsocket : ¬ w.conn.fd < 0)
    (hheader : N.header w = none) (hcut : ¬ w.CutShort N) :
    arriving (N.recv w.conn.fd 16 w.net).2 = arriving w.net := by
  rw [Net.header, if_neg hsocket] at hheader
  cases hrecv : N.recv w.conn.fd 16 w.net with
  | mk r s =>
      rw [hrecv] at hheader
      have hrecv' := hrecv
      rw [hfd] at hrecv'
      cases r with
      | error e => exact hN.error hrecv'
      | ok head =>
          obtain ⟨hle, harriving⟩ := hN.ok hrecv'
          have hlen : head.length ≠ 16 := by
            intro hlen
            dsimp only at hheader
            rw [if_pos hlen] at hheader
            cases hheader
          have hempty : head = [] := by
            by_contra hne
            have hpos := List.length_pos_of_ne_nil hne
            exact hcut (.inl ⟨head, by rw [hrecv], hpos, by omega⟩)
          rw [harriving, hempty, List.nil_append]

/-- A whole header is that of the next packet, and its body comes next. -/
theorem arriving_header {w : World σ} (hfd : w.conn.fd = fd) {h : MongoPacketHeader}
    (hheader : N.header w = some h) {sent : List ServedPacket}
    (hsent : arriving w.net = sent.flatMap ServedPacket.bytes) :
    ∃ q rest, sent = q :: rest ∧ h = q.header ∧
      arriving (N.recv w.conn.fd 16 w.net).2 = q.body ++ rest.flatMap ServedPacket.bytes := by
  rw [Net.header] at hheader
  split at hheader
  next => cases hheader
  next =>
    cases hrecv : N.recv w.conn.fd 16 w.net with
    | mk r s =>
        rw [hrecv] at hheader
        rw [hfd] at hrecv
        cases r with
        | error e => cases hheader
        | ok head =>
            dsimp only at hheader
            split at hheader
            next hlen =>
              cases hheader
              obtain ⟨-, harriving⟩ := hN.ok hrecv
              rw [hsent] at harriving
              cases sent with
              | nil =>
                  have hnil := congrArg List.length harriving
                  simp only [List.flatMap_nil, List.length_nil, List.length_append] at hnil
                  omega
              | cons q rest =>
                  rw [List.flatMap_cons, ServedPacket.bytes, List.append_assoc] at harriving
                  obtain ⟨hhead, hrest⟩ := List.append_inj harriving (by simp [hlen])
                  refine ⟨q, rest, rfl, ?_, hrest.symm⟩
                  rw [← hhead, loadHeader_wire]
            next => cases hheader

/-- A call that is not cut short reads the next packet, or nothing. -/
theorem recv_step {w u : World σ} {p : Option MongoPacket} (hfd : w.conn.fd = fd)
    (hexec : (mongoPacketRecv N).exec w = (.ok p, u)) {sent : List ServedPacket}
    (hsent : arriving w.net = sent.flatMap ServedPacket.bytes) (hcut : ¬ w.CutShort N) :
    (p = none ∧ arriving u.net = arriving w.net) ∨
      ∃ q rest, sent = q :: rest ∧ p = some (q.packet N.order) ∧
        arriving u.net = rest.flatMap ServedPacket.bytes := by
  cases hheader : N.header w with
  | none =>
      obtain ⟨e, s, hnone, hs⟩ := exec_recv_noHeader N w hheader
      rw [hnone] at hexec
      cases hexec
      rcases hs with rfl | ⟨hsocket, rfl⟩
      · exact .inl ⟨rfl, rfl⟩
      · exact .inl ⟨rfl, arriving_noHeader hN hfd hsocket hheader hcut⟩
  | some h =>
      obtain ⟨q, rest, hq, rfl, harriving⟩ := arriving_header hN hfd hheader hsent
      obtain ⟨e, hrun⟩ := exec_recv_long hheader q.long
      cases hbody : N.body w q.header with
      | none => exact absurd (.inr ⟨q.header, hheader, hbody⟩) hcut
      | some body =>
          rw [hrun, hbody] at hexec
          cases hexec
          rw [Net.body, q.size_eq] at hbody
          cases hrecv : N.recv w.conn.fd q.body.length (N.recv w.conn.fd 16 w.net).2 with
          | mk r s =>
              rw [hrecv] at hbody
              have hrecv' := hrecv
              rw [hfd] at hrecv'
              cases r with
              | error e => cases hbody
              | ok bytes =>
                  dsimp only at hbody
                  split at hbody
                  next hlen =>
                    cases hbody
                    obtain ⟨-, hnext⟩ := hN.ok hrecv'
                    rw [← hfd, harriving] at hnext
                    obtain ⟨hbytes, hrest⟩ := List.append_inj hnext hlen.symm
                    refine .inr ⟨q, rest, hq, ?_, ?_⟩
                    · rw [ServedPacket.packet, hbytes]
                      rfl
                    · show arriving (N.recv w.conn.fd (q.header.length - 16).toNat
                        (N.recv w.conn.fd 16 w.net).2).2 = _
                      rw [q.size_eq, hrecv]
                      exact hrest.symm
                  next => cases hbody

/-- A call that is cut short returns nothing. -/
theorem recv_cutShort {w u : World σ} {p : Option MongoPacket} (hfd : w.conn.fd = fd)
    (hexec : (mongoPacketRecv N).exec w = (.ok p, u)) {sent : List ServedPacket}
    (hsent : arriving w.net = sent.flatMap ServedPacket.bytes) (hcut : w.CutShort N) :
    p = none := by
  cases hheader : N.header w with
  | none =>
      obtain ⟨e, s, hnone, -⟩ := exec_recv_noHeader N w hheader
      rw [hnone] at hexec
      cases hexec
      rfl
  | some h =>
      obtain ⟨q, rest, -, rfl, -⟩ := arriving_header hN hfd hheader hsent
      obtain ⟨e, hrun⟩ := exec_recv_long hheader q.long
      rcases hcut with ⟨head, hrecv, -, hlt⟩ | ⟨h, hheader', hbody⟩
      · rw [Net.header, hrecv] at hheader
        split at hheader
        next => cases hheader
        next =>
          dsimp only at hheader
          rw [if_neg (by omega)] at hheader
          cases hheader
      · cases hheader.symm.trans hheader'
        rw [hrun, hbody] at hexec
        cases hexec
        rfl

/-- As long as no call comes after one that was cut short, the packets returned are the
first of those the server wrote, in their order. -/
theorem returned_prefix {w : World σ} {calls : List (Receipt σ)}
    (hcalls : Receives N fd arriving w calls) {sent : List ServedPacket}
    (hsent : arriving w.net = sent.flatMap ServedPacket.bytes)
    (hcut : calls.Pairwise fun c _ => ¬ c.before.CutShort N) :
    calls.filterMap Receipt.packet <+: sent.map (ServedPacket.packet N.order) := by
  induction hcalls generalizing sent with
  | done => exact List.nil_prefix
  | elsewhere harriving _ ih => exact ih (harriving.trans hsent) hcut
  | @call w u p calls hfd hexec _ ih =>
      obtain ⟨hfirst, hrest⟩ := List.pairwise_cons.mp hcut
      by_cases hshort : w.CutShort N
      · have hnil : calls = [] := by
          cases calls with
          | nil => rfl
          | cons c calls => exact absurd hshort (hfirst c List.mem_cons_self)
        rw [recv_cutShort hN hfd hexec hsent hshort, hnil]
        exact List.nil_prefix
      · rcases recv_step hN hfd hexec hsent hshort with ⟨rfl, harriving⟩ | ⟨q, rest, rfl, rfl, harriving⟩
        · exact ih (harriving.trans hsent) hrest
        · exact List.cons_prefix_cons.mpr ⟨rfl, ih harriving hrest⟩

end Boundary

/-! ## A receive that is cut short -/

/-- A socket that delivers no more than the next number says at a time, and fails for a
zero. -/
def pausingNet : Net (List Nat × Bytes) where
  order := .little
  strerror _ := .ascii ['e', 'r', 'r', 'o', 'r']
  md5 _ := .ascii ['m', 'd', '5']
  tcp _ _ _ s := (.refused, s)
  unix _ _ s := (false, s)
  sendmsg _ bytes s := (.ok bytes.length, s)
  recv _ n s :=
    match s.1 with
    | [] => (.error (.system 11), s)
    | 0 :: ks => (.error (.system 11), (ks, s.2))
    | k :: ks => (.ok (s.2.take (min k n)), (ks, s.2.drop (min k n)))
  close _ s := s

theorem pausingNet_delivers (fd : Int) : pausingNet.Delivers fd Prod.snd where
  ok := by
    rintro n ⟨ks, bytes⟩ got s' h
    cases ks with
    | nil => cases h
    | cons k ks =>
        cases k with
        | zero => cases h
        | succ k =>
            cases h
            refine ⟨?_, (List.take_append_drop _ _).symm⟩
            rw [List.length_take]
            omega
  error := by
    rintro n ⟨ks, bytes⟩ e s' h
    cases ks with
    | nil =>
        cases h
        rfl
    | cons k ks =>
        cases k with
        | zero =>
            cases h
            rfl
        | succ k => cases h

/-- A reply with an empty document. -/
def emptyReply : Reply := ⟨0, 1, 0, 0, 0, [.nil]⟩

theorem emptyReply_fits : emptyReply.Fits := by
  rw [Reply.Fits]
  decide

/-- The reply without documents, as it is served. -/
def emptyServed : ServedPacket := emptyReply.served emptyReply_fits

/-- The reply arrives when the first call has already given up. -/
def lateWorld : World (List Nat × Bytes) := socketWorld ([0, 16, 25], emptyServed.bytes)

/-- The state after a receive. -/
def afterRecv (w : World (List Nat × Bytes)) : World (List Nat × Bytes) :=
  ((mongoPacketRecv pausingNet).exec w).2

/-- The first call gets no packet, and the second one gets it. -/
def lateCalls : List (Receipt (List Nat × Bytes)) :=
  [⟨lateWorld, none⟩, ⟨afterRecv lateWorld, some (emptyServed.packet .little)⟩]

theorem returned_prefix_late :
    lateCalls.filterMap Receipt.packet <+: [emptyServed].map (ServedPacket.packet .little) := by
  have hfirst : ((mongoPacketRecv pausingNet).exec lateWorld).1 = .ok none := by decide +kernel
  have hsecond : ((mongoPacketRecv pausingNet).exec (afterRecv lateWorld)).1
      = .ok (some (emptyServed.packet .little)) := by decide +kernel
  have hcalls : Receives pausingNet 5 Prod.snd lateWorld lateCalls :=
    .call rfl (exec_of_fst hfirst rfl) (.call rfl (exec_of_fst hsecond rfl) .done)
  refine returned_prefix (pausingNet_delivers 5) hcalls rfl (List.pairwise_pair.mpr ?_)
  rintro (⟨head, hrecv, -⟩ | ⟨h, hheader, -⟩)
  · cases hrecv
  · cases hheader

/-- A reply with a document that holds the bytes of the other. -/
def luringReply : Reply :=
  ⟨0, 0, 0, 0, 0, [.cons (.ascii ['a']) (.binary 0 emptyReply.bytes) .nil]⟩

theorem luringReply_fits : luringReply.Fits := by
  rw [Reply.Fits]
  decide +kernel

/-- The luring reply, as it is served. -/
def luringServed : ServedPacket := luringReply.served luringReply_fits

/-- The first call gets the header and 32 bytes of the body. -/
def luringWorld : World (List Nat × Bytes) := socketWorld ([16, 32, 16, 25], luringServed.bytes)

/-- The second call takes what comes then for a packet, and returns one that the server
never sent. -/
theorem returned_middle :
    pausingNet.Delivers 5 Prod.snd ∧
      luringWorld.net.2 = [luringServed].flatMap ServedPacket.bytes ∧
      Receives pausingNet 5 Prod.snd luringWorld
        [⟨luringWorld, none⟩, ⟨afterRecv luringWorld, some (emptyServed.packet .little)⟩] ∧
      emptyServed.packet .little ∉ [luringServed].map (ServedPacket.packet .little) := by
  have hfirst : ((mongoPacketRecv pausingNet).exec luringWorld).1 = .ok none := by decide +kernel
  have hsecond : ((mongoPacketRecv pausingNet).exec (afterRecv luringWorld)).1
      = .ok (some (emptyServed.packet .little)) := by decide +kernel
  refine ⟨pausingNet_delivers 5, (List.append_nil _).symm, ?_, by decide +kernel⟩
  exact .call rfl (exec_of_fst hfirst rfl) (.call rfl (exec_of_fst hsecond rfl) .done)

end LibMongo

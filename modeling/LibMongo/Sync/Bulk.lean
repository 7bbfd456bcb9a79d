import LibMongo.Sync.Write
import LibMongo.Sync.Ending

/-!
# Bulk inserts

`mongo_sync_cmd_insert_n` cuts an array of documents into packets.  Each packet
takes at least one document (`batchLength_pos`), so the loop ends, and it takes
the documents from the front of those that are left.  What is sent, read back
with the reference decoder of `Wire/Grammar.lean`, is therefore the array in its
order, or the front of it if a packet or a verdict fails (`bulk_insert_exact`).
-/

namespace LibMongo

open Bytes Program

variable {σ : Type} (N : Net σ)

/-! ## Counting documents -/

theorem countDocuments_bounds (maxInsertSize : Int) (docs : List (Option Bson)) (size : Int) :
    0 ≤ (countDocuments maxInsertSize size docs).1 ∧
      (countDocuments maxInsertSize size docs).1 ≤ docs.length ∧
      ((countDocuments maxInsertSize size docs).2 = false →
        (countDocuments maxInsertSize size docs).1 < docs.length) := by
  induction docs generalizing size with
  | nil => simp [countDocuments]
  | cons b docs ih =>
      have hrest := ih (size + bsonSize b)
      rw [countDocuments]
      split
      next =>
        simp only [List.length_cons]
        refine ⟨by omega, by omega, fun hall => ?_⟩
        have := hrest.2.2 hall
        omega
      next =>
        simp only [List.length_cons]
        omega

/-- The first document is counted. -/
theorem countDocuments_pos {maxInsertSize size : Int} (h : size < maxInsertSize) (b : Option Bson)
    (docs : List (Option Bson)) : 1 ≤ (countDocuments maxInsertSize size (b :: docs)).1 := by
  have hrest := countDocuments_bounds maxInsertSize docs (size + bsonSize b)
  rw [countDocuments, if_pos h]
  dsimp only
  omega

/-- A packet takes a document at least, and no more than there are. -/
theorem batchLength_pos {maxInsertSize : Int} {docs : List (Option Bson)} (hne : docs ≠ [])
    (hmax : 0 < maxInsertSize) (hsmall : ∀ b ∈ docs, bsonSize b < maxInsertSize) :
    1 ≤ batchLength maxInsertSize docs ∧ batchLength maxInsertSize docs ≤ docs.length := by
  have hbounds := countDocuments_bounds maxInsertSize docs 0
  unfold batchLength
  dsimp only
  cases docs with
  | nil => exact absurd rfl hne
  | cons b docs =>
      have hfirst := countDocuments_pos hmax b docs
      split
      next => exact ⟨hfirst, hbounds.2.1⟩
      next hall =>
        refine ⟨?_, by omega⟩
        -- the document that is taken back is not the first: that one is small enough
        have hb : bsonSize b < maxInsertSize := hsmall b List.mem_cons_self
        rw [countDocuments, if_pos hmax] at hall ⊢
        dsimp only at hall ⊢
        cases docs with
        | nil => exact absurd rfl hall
        | cons b' docs =>
            have hsecond : 1 ≤ (countDocuments maxInsertSize (0 + bsonSize b) (b' :: docs)).1 :=
              countDocuments_pos (by omega) b' docs
            omega

/-! ## Reading the log -/

/-- The documents of a packet, if it is that of an insert. -/
def MongoPacket.insertedDocuments (o : ByteOrder) (p : MongoPacket) : Option (List Bytes) :=
  if p.HasOpcode o .insert then
    match p.data with
    | none => none
    | some data =>
        match decodeMessage (p.wireBytes o data) with
        | some (_, .insert _ docs) => some docs
        | _ => none
  else none

/-- The documents of an insert that is handed to a socket. -/
def Event.handed (o : ByteOrder) : Event → Option (List Bytes)
  | .send _ p _ => p.insertedDocuments o
  | _ => none

/-- The documents of an insert that is sent. -/
def Event.inserted (o : ByteOrder) : Event → Option (List Bytes)
  | .send _ p count => if p.Whole count then p.insertedDocuments o else none
  | _ => none

/-- The packets of inserts that were sent, in order, each as its documents. -/
def inserted (o : ByteOrder) (es : List Event) : List (List Bytes) := es.filterMap (Event.inserted o)

@[simp] theorem inserted_nil (o : ByteOrder) : inserted o [] = [] := rfl

@[simp] theorem inserted_append (o : ByteOrder) (es es' : List Event) :
    inserted o (es ++ es') = inserted o es ++ inserted o es' := List.filterMap_append ..

theorem Event.Quiet.handed {o : ByteOrder} {e : Event} (h : e.Quiet o) : e.handed o = none := by
  cases e with
  | send fd p count =>
      have hne : ¬ p.HasOpcode o .insert := fun hi => by cases hi.unique h
      rw [Event.handed, MongoPacket.insertedDocuments, if_neg hne]
  | _ => rfl

theorem Event.Quiet.inserted {o : ByteOrder} {e : Event} (h : e.Quiet o) : e.inserted o = none := by
  cases e with
  | send fd p count =>
      have hhanded : p.insertedDocuments o = none := h.handed
      rw [Event.inserted, hhanded]
      exact ite_self none
  | _ => rfl

theorem Quiet.inserted {o : ByteOrder} {es : List Event} (h : Quiet o es) : inserted o es = [] :=
  List.filterMap_eq_nil_iff.mpr fun e he => (h e he).inserted

/-- Every packet of an insert that is handed to a socket carries a document. -/
def Carries (o : ByteOrder) (es : List Event) : Prop :=
  ∀ e ∈ es, ∀ docs, e.handed o = some docs → docs ≠ []

theorem Carries.append {o : ByteOrder} {es es' : List Event} (h : Carries o es)
    (h' : Carries o es') : Carries o (es ++ es') :=
  fun e he => (List.mem_append.mp he).elim (h e) (h' e)

theorem Quiet.carries {o : ByteOrder} {es : List Event} (h : Quiet o es) : Carries o es := by
  intro e he docs hdocs
  rw [(h e he).handed] at hdocs
  cases hdocs

/-- Sending a packet sends its documents once if it succeeds, and not if it fails. -/
theorem Attempts.inserted {o : ByteOrder} {p : MongoPacket} {docs : List Bytes} {ok : Bool}
    {es : List Event} (h : Attempts o p ok es) (hdocs : p.insertedDocuments o = some docs) :
    inserted o es = if ok then [docs] else [] := by
  have hsend : ∀ (fd : Int) (count : Option Nat), LibMongo.inserted o [.send fd p count]
      = if p.Whole count then [docs] else [] := by
    intro fd count
    by_cases hcount : p.Whole count
    · simp [LibMongo.inserted, Event.inserted, hcount, hdocs]
    · simp [LibMongo.inserted, Event.inserted, hcount]
  cases h with
  | none hq => simpa using hq.inserted
  | once hq _ hc => simp only [inserted_append, hq.inserted, hsend, hc, List.nil_append]
  | lost hq _ hc hq' =>
      simp only [inserted_append, hq.inserted, hsend, if_neg hc, hq'.inserted, List.append_nil]
      rfl
  | twice hq _ hc hq' _ hc' =>
      simp only [inserted_append, hq.inserted, hsend, if_neg hc, hq'.inserted, hc',
        List.nil_append]

theorem Attempts.carries {o : ByteOrder} {p : MongoPacket} {docs : List Bytes} {ok : Bool}
    {es : List Event} (h : Attempts o p ok es) (hdocs : p.insertedDocuments o = some docs)
    (hne : docs ≠ []) : Carries o es := by
  have hsend : ∀ (fd : Int) (count : Option Nat), Carries o [.send fd p count] := by
    intro fd count e he docs' hdocs'
    rw [List.mem_singleton] at he
    subst he
    rw [Event.handed, hdocs] at hdocs'
    cases hdocs'
    exact hne
  cases h with
  | none hq => exact hq.carries
  | once hq => exact hq.carries.append (hsend _ _)
  | lost hq _ _ hq' => exact (hq.carries.append (hsend _ _)).append hq'.carries
  | twice hq _ _ hq' =>
      exact ((hq.carries.append (hsend _ _)).append hq'.carries).append (hsend _ _)

/-! ## Packets of documents -/

/-- The array the caller passes. -/
def pointers (docs : List Document) : List (Option Bson) := docs.map fun d => some d.bson

/-- The packet of a batch is the one of a call with the documents of the batch. -/
theorem mongoWireCmdInsertN_take (o : ByteOrder) (id : BitVec 32) (ns : CString)
    (docs : List Document) (c : Nat) (hc : c ≤ docs.length) :
    mongoWireCmdInsertN o id (some ns) c (some (pointers docs))
      = (WireCall.insertN ns (docs.take c)).packet o id := by
  have htake : (pointers docs).take c = pointers (docs.take c) := by
    simp [pointers, List.map_take]
  have hlen : (docs.take c).length = c := by rw [List.length_take, Nat.min_eq_left hc]
  have hself : (pointers (docs.take c)).take c = pointers (docs.take c) := by
    refine List.take_of_length_le (Nat.le_of_eq ?_)
    rw [pointers, List.length_map, hlen]
  show _ = mongoWireCmdInsertN o id (some ns) ((docs.take c).length : Nat)
    (some (pointers (docs.take c)))
  simp only [mongoWireCmdInsertN, hlen, Int.toNat_natCast, htake, hself]

/-- The documents of a batch are read back from its packet. -/
theorem insertedDocuments_packet {o : ByteOrder} {id : BitVec 32} {ns : CString}
    {docs : List Document} {p : MongoPacket} (hne : docs ≠ [])
    (hsmall : 16 + (WireCall.insertN ns docs).dataSize < 2147483648)
    (h : (WireCall.insertN ns docs).packet o id = .ok p) :
    p.insertedDocuments o = some (docs.map Document.bytes) := by
  have hdecode := (WireCall.insertN ns docs).decode o id hsmall
  rw [WireCall.packet_eq o id (c := .insertN ns docs) hne (by omega)] at h
  cases h
  have hopcode : (commandPacket o id .insert (WireCall.insertN ns docs).body
      (WireCall.insertN ns docs).dataSize).HasOpcode o .insert := commandPacket_hasOpcode ..
  rw [WireCall.opcode] at hdecode ⊢
  rw [MongoPacket.insertedDocuments, if_pos hopcode]
  show (match decodeMessage ((commandPacket o id .insert (WireCall.insertN ns docs).body
      (WireCall.insertN ns docs).dataSize).header.image o ++ (WireCall.insertN ns docs).body) with
    | some (_, .insert _ docs) => some docs
    | _ => none) = _
  rw [hdecode]
  rfl

/-! ## The loop -/

/-- What the events of a bulk insert say: the documents that were sent, packet by packet,
are those of the array up to some packet, and all of them after a success. -/
def Delivers (o : ByteOrder) (docs : List Document) (ok : Bool) (es : List Event) : Prop :=
  ∃ batches : List (List Document),
    inserted o es = batches.map (fun batch => batch.map Document.bytes) ∧
    batches.flatten <+: docs ∧ (ok = true → batches.flatten = docs) ∧ Carries o es

theorem Delivers.nothing {o : ByteOrder} {docs : List Document} {es : List Event}
    (h : inserted o es = []) (hcarries : Carries o es) : Delivers o docs false es :=
  ⟨[], by simpa using h, by simp, (fun hok => by cases hok), hcarries⟩

/-- A packet with the front of the documents, and what comes after it. -/
theorem Delivers.cons {o : ByteOrder} {front rest : List Document} {ok : Bool}
    {es es' : List Event} (h : inserted o es = [front.map Document.bytes]) (hcarries : Carries o es)
    (h' : Delivers o rest ok es') : Delivers o (front ++ rest) ok (es ++ es') := by
  obtain ⟨batches, hbatches, hprefix, hall, hcarries'⟩ := h'
  refine ⟨front :: batches, ?_, ?_, fun hok => ?_, hcarries.append hcarries'⟩
  · rw [inserted_append, h, hbatches]
    rfl
  · rw [List.flatten_cons]
    exact List.prefix_append_right_inj front |>.mpr hprefix
  · rw [List.flatten_cons, hall hok]

theorem Delivers.weaken {o : ByteOrder} {docs : List Document} {ok : Bool} {es : List Event}
    (h : Delivers o docs ok es) : Delivers o docs false es := by
  obtain ⟨batches, hbatches, hprefix, -, hcarries⟩ := h
  exact ⟨batches, hbatches, hprefix, (fun hok => by cases hok), hcarries⟩

/-- A packet with the front of the documents, which are all of them if none are left. -/
theorem Delivers.front {o : ByteOrder} {docs : List Document} {c : Nat} {es : List Event}
    (h : inserted o es = [(docs.take c).map Document.bytes]) (hcarries : Carries o es) :
    Delivers o docs (decide (docs.drop c = [])) es := by
  refine ⟨[docs.take c], by simpa using h, by simpa using List.take_prefix c docs, ?_, hcarries⟩
  intro hlast
  have hcut : docs.take c ++ docs.drop c = docs := List.take_append_drop c docs
  rw [of_decide_eq_true hlast, List.append_nil] at hcut
  simpa using hcut

/-- A batch: its packet can be built and carries the front of the documents. -/
theorem batch_packet (o : ByteOrder) (id : BitVec 32) (ns : CString) {docs : List Document}
    {maxInsertSize : Int} (hne : docs ≠ [])
    (hsmall : ∀ d ∈ docs, (d.bytes.length : Int) < maxInsertSize)
    (htotal : 16 + (WireCall.insertN ns docs).dataSize < 2147483648) :
    ∃ c : Nat, batchLength maxInsertSize (pointers docs) = c ∧ docs.take c ≠ [] ∧
      (WireCall.insertN ns (docs.drop c)).dataSize ≤ (WireCall.insertN ns docs).dataSize ∧
      ∃ p, mongoWireCmdInsertN o id (some ns) c (some (pointers docs)) = .ok p ∧
        p.insertedDocuments o = some ((docs.take c).map Document.bytes) := by
  have hlen : (pointers docs).length = docs.length := by simp [pointers]
  have hmax : 0 < maxInsertSize := by
    obtain ⟨d, hd⟩ := List.exists_mem_of_ne_nil docs hne
    have := hsmall d hd
    omega
  have hsizes : ∀ b ∈ pointers docs, bsonSize b < maxInsertSize := by
    intro b hb
    obtain ⟨d, hd, rfl⟩ := List.mem_map.mp hb
    rw [d.size_eq]
    exact hsmall d hd
  have hbatch := batchLength_pos (by simpa [pointers] using hne) hmax hsizes
  obtain ⟨c, hc⟩ : ∃ c : Nat, batchLength maxInsertSize (pointers docs) = c :=
    ⟨_, (Int.toNat_of_nonneg (by omega)).symm⟩
  rw [hc, hlen] at hbatch
  have hfront : docs.take c ≠ [] := by
    intro h
    have := congrArg List.length h
    rw [List.length_take, List.length_nil] at this
    omega
  -- the sizes of the front and of the rest add up to the size of all
  have hsplit : (docs.flatMap Document.bytes).length
      = ((docs.take c).flatMap Document.bytes).length
        + ((docs.drop c).flatMap Document.bytes).length := by
    rw [← List.length_append, ← List.flatMap_append, List.take_append_drop]
  simp only [WireCall.dataSize] at htotal
  have hfits : 16 + (WireCall.insertN ns (docs.take c)).dataSize < 2147483648 := by
    simp only [WireCall.dataSize]
    omega
  have hp := WireCall.packet_eq o id (c := .insertN ns (docs.take c)) hfront (by omega)
  refine ⟨c, hc, hfront, ?_, _, ?_, insertedDocuments_packet hfront hfits hp⟩
  · simp only [WireCall.dataSize]
    omega
  · rw [mongoWireCmdInsertN_take o id ns docs c (by omega), hp]

/-- What a round does: it makes the attempts to send its packet, and then asks for the
verdict, which is no write. -/
theorem insertBatch_attempts (fuel : Nat) (ns : CString) {docs : List (Option Bson)} {c : Int}
    {p : MongoPacket} {w v : World σ} {r : Except Halt Bool}
    (hp : mongoWireCmdInsertN N.order (w.conn.requestId + 1) (some ns) c (some docs) = .ok p)
    (hrun : (insertBatch N (mongoSyncReconnect N fuel) ns c docs).exec w = (r, v)) :
    (∀ ok, r = .ok ok → v.conn.maxInsertSize = w.conn.maxInsertSize) ∧
      w.Since v fun es => ∃ sent q q', es = q ++ q' ∧ Attempts N.order p sent q ∧
        Quiet N.order q' ∧ (r = .ok true → sent = true) := by
  have hnext : (nextPacket (fun rid =>
      mongoWireCmdInsertN N.order rid (some ns) c (some docs))).exec w = (.ok (some p), w) := by
    rw [nextPacket, exec_get_bind, hp]
    rfl
  have hwp : wp (insertBatch N (mongoSyncReconnect N fuel) ns c docs)
      (fun ok v => v.conn.maxInsertSize = w.conn.maxInsertSize ∧
        w.Since v fun es => ∃ sent q q', es = q ++ q' ∧ Attempts N.order p sent q ∧
          Quiet N.order q' ∧ (ok = true → sent = true))
      (fun v => w.Since v fun es => ∃ sent q q', es = q ++ q' ∧ Attempts N.order p sent q ∧
        Quiet N.order q') w := by
    rw [insertBatch, wp_bind]
    refine wp_of_exec (fun a u h => ?_) (fun e u h => ?_)
    swap
    · rw [hnext] at h
      cases h
    rw [hnext] at h
    cases h
    dsimp only
    rw [wp_bind]
    refine wp_mono (mongoSyncPacketSend_attempts N fuel p w) (fun sent u hu => ?_) (fun u hu => ?_)
    swap
    · exact hu.mono fun es h => ⟨false, es, [], (List.append_nil es).symm, h, Quiet.nil⟩
    cases sent with
    | false =>
        refine ⟨hu.1.maxInsertSize, hu.2.mono fun es h => ?_⟩
        exact ⟨false, es, [], (List.append_nil es).symm, h, Quiet.nil, id⟩
    | true =>
        refine wp_ite (fun h => by cases h) (fun _ => ?_)
        have hsent : ∀ {v}, u.Polls N.order v → w.Since v fun es =>
            ∃ q q', es = q ++ q' ∧ Attempts N.order p true q ∧ Quiet N.order q' := fun hv =>
          hu.2.append hv.roams.log fun es es' h (hq : Quiet _ es') => ⟨es, es', rfl, h, hq⟩
        refine wp_mono (mongoSyncCmdVerifyResult_polls N (some ns) u) (fun ok v hv => ?_)
          (fun v hv => (hsent hv).mono fun es hes => ⟨true, hes⟩)
        refine ⟨hv.roams.settings.maxInsertSize.trans hu.1.maxInsertSize, (hsent hv).mono ?_⟩
        rintro es ⟨q, q', hes, hq, hq'⟩
        exact ⟨true, q, q', hes, hq, hq', fun _ => rfl⟩
  cases r with
  | ok ok =>
      obtain ⟨hmax, hes⟩ := wp_ok hwp hrun
      refine ⟨fun _ _ => hmax, hes.mono ?_⟩
      rintro es ⟨sent, q, q', hes, hq, hq', hsent⟩
      exact ⟨sent, q, q', hes, hq, hq', fun h => hsent (Except.ok.inj h)⟩
  | error e =>
      refine ⟨(fun _ h => by cases h), (wp_error hwp hrun).mono ?_⟩
      rintro es ⟨sent, q, q', hes, hq, hq'⟩
      exact ⟨sent, q, q', hes, hq, hq', fun h => by cases h⟩

/-- The documents of the packet are sent if the round succeeds, and sent or not if it
does not. -/
theorem insertBatch_delivers (fuel : Nat) (ns : CString) {docs : List Document} {c : Nat}
    {p : MongoPacket} {w v : World σ} {r : Except Halt Bool} (hfront : docs.take c ≠ [])
    (hp : mongoWireCmdInsertN N.order (w.conn.requestId + 1) (some ns) c (some (pointers docs))
      = .ok p)
    (hdocs : p.insertedDocuments N.order = some ((docs.take c).map Document.bytes))
    (hrun : (insertBatch N (mongoSyncReconnect N fuel) ns c (pointers docs)).exec w = (r, v)) :
    (∀ ok, r = .ok ok → v.conn.maxInsertSize = w.conn.maxInsertSize) ∧
      w.Since v fun es => Carries N.order es ∧
        (inserted N.order es = [(docs.take c).map Document.bytes] ∨
          inserted N.order es = [] ∧ r ≠ .ok true) := by
  have hcarry : (docs.take c).map Document.bytes ≠ [] := by simpa using hfront
  obtain ⟨hmax, hes⟩ := insertBatch_attempts N fuel ns hp hrun
  refine ⟨hmax, hes.mono ?_⟩
  rintro es ⟨sent, q, q', rfl, hq, hq', hsent⟩
  refine ⟨(hq.carries hdocs hcarry).append hq'.carries, ?_⟩
  rw [inserted_append, hq.inserted hdocs, hq'.inserted, List.append_nil]
  cases sent with
  | true => exact .inl rfl
  | false => exact .inr ⟨rfl, fun h => by cases hsent h⟩

/-! ## Rounds -/

section Rounds

variable {reconnect : Bool → Program (World σ) Bool} {ns : CString}

/-- The packet of a round can be sent or not, and so can be asked for the verdict on it,
but both return. -/
structure BatchReturns (reconnect : Bool → Program (World σ) Bool) (ns : CString)
    (docs : List (Option Bson)) (w : World σ) : Prop where
  send : ∀ p, batchPacket N ns docs w = .ok p →
    Returns (mongoSyncPacketSend N reconnect p true true) w
  verdict : ∀ p u, batchPacket N ns docs w = .ok p →
    (mongoSyncPacketSend N reconnect p true true).exec w = (.ok true, u) →
    Returns (mongoSyncCmdVerifyResult N (some ns)) u

/-- The packet of a round is not sent, or the verdict on it is bad. -/
def BatchFails (reconnect : Bool → Program (World σ) Bool) (ns : CString)
    (docs : List (Option Bson)) (w : World σ) : Prop :=
  ∃ p u, batchPacket N ns docs w = .ok p ∧
    ((mongoSyncPacketSend N reconnect p true true).exec w = (.ok false, u) ∨
      (mongoSyncPacketSend N reconnect p true true).exec w = (.ok true, u) ∧
        ∃ v, (mongoSyncCmdVerifyResult N (some ns)).exec u = (.ok false, v))

/-- A round whose packet is built. -/
theorem exec_insertBatch {docs : List (Option Bson)} {w : World σ} {c : Int} {p : MongoPacket}
    (hc : batchLength w.conn.maxInsertSize docs = c) (hp : batchPacket N ns docs w = .ok p) :
    (insertBatch N reconnect ns c docs).exec w
      = match (mongoSyncPacketSend N reconnect p true true).exec w with
        | (.ok true, u) => (mongoSyncCmdVerifyResult N (some ns)).exec u
        | (.ok false, u) =>
            (.ok false, { u with conn := { u.conn with lastError := some (N.strerror u.errno) } })
        | (.error e, u) => (.error e, u) := by
  have hnext : (nextPacket (fun rid =>
      mongoWireCmdInsertN N.order rid (some ns) c (some docs))).exec w = (.ok (some p), w) := by
    rw [batchPacket, hc] at hp
    rw [nextPacket, exec_get_bind, hp]
    rfl
  rw [insertBatch, exec_bind_ok hnext]
  dsimp only
  rw [exec_bind]
  cases (mongoSyncPacketSend N reconnect p true true).exec w with
  | mk r u =>
      cases r with
      | ok sent =>
          cases sent with
          | false => rfl
          | true => rfl
      | error e => rfl

theorem insertBatch_returns_iff {docs : List (Option Bson)} {w : World σ} {c : Int}
    {p : MongoPacket} (hc : batchLength w.conn.maxInsertSize docs = c)
    (hp : batchPacket N ns docs w = .ok p) :
    Returns (insertBatch N reconnect ns c docs) w ↔ BatchReturns N reconnect ns docs w := by
  have hexec := @exec_insertBatch _ N reconnect ns _ _ _ _ hc hp
  rw [Returns, hexec]
  cases hsend : (mongoSyncPacketSend N reconnect p true true).exec w with
  | mk r u =>
      constructor
      · rintro ⟨ok, v, h⟩
        refine ⟨fun p' hp' => ?_, fun p' u' hp' hsent => ?_⟩
        · cases hp.symm.trans hp'
          cases r with
          | ok sent => exact ⟨sent, u, hsend⟩
          | error e => cases h
        · cases hp.symm.trans hp'
          cases hsend.symm.trans hsent
          exact ⟨ok, v, h⟩
      · intro h
        obtain ⟨sent, u', hsent⟩ := h.send p hp
        cases hsend.symm.trans hsent
        cases sent with
        | false => exact ⟨false, _, rfl⟩
        | true => exact h.verdict p u hp hsend

theorem insertBatch_fails {docs : List (Option Bson)} {w v : World σ} {c : Int} {p : MongoPacket}
    (hc : batchLength w.conn.maxInsertSize docs = c) (hp : batchPacket N ns docs w = .ok p)
    (h : (insertBatch N reconnect ns c docs).exec w = (.ok false, v)) :
    BatchFails N reconnect ns docs w := by
  rw [exec_insertBatch N hc hp] at h
  cases hsend : (mongoSyncPacketSend N reconnect p true true).exec w with
  | mk r u =>
      rw [hsend] at h
      cases r with
      | ok sent =>
          cases sent with
          | false => exact ⟨p, u, hp, .inl hsend⟩
          | true => exact ⟨p, u, hp, .inr ⟨hsend, v, h⟩⟩
      | error e => cases h

/-- A round of the loop, and the rounds after it. -/
theorem exec_insertLoop {docs : List (Option Bson)} {w : World σ} {c : Int} (rounds : Nat)
    (hc : batchLength w.conn.maxInsertSize docs = c) :
    (insertLoop N reconnect ns (rounds + 1) docs).exec w
      = match (insertBatch N reconnect ns c docs).exec w with
        | (.ok true, v) =>
            if docs.drop c.toNat = [] then (.ok true, v)
            else (insertLoop N reconnect ns rounds (docs.drop c.toNat)).exec v
        | (.ok false, v) => (.ok false, v)
        | (.error e, v) => (.error e, v) := by
  rw [insertLoop, exec_get_bind]
  dsimp only
  rw [hc, exec_bind]
  cases (insertBatch N reconnect ns c docs).exec w with
  | mk r v =>
      cases r with
      | ok ok =>
          cases ok with
          | false => rfl
          | true =>
              dsimp only
              rw [if_neg (by decide)]
              by_cases hlast : docs.drop c.toNat = []
              · rw [if_pos hlast, if_pos hlast]
                rfl
              · rw [if_neg hlast, if_neg hlast]
      | error e => rfl

end Rounds

/-! ## The loop -/

/-- The documents a bulk insert has left. -/
structure Pending (ns : CString) (docs : List Document) (w : World σ) : Prop where
  ne : docs ≠ []
  small : ∀ d ∈ docs, (d.bytes.length : Int) < w.conn.maxInsertSize
  total : 16 + (WireCall.insertN ns docs).dataSize < 2147483648

section Loop

variable (fuel : Nat) {ns : CString}

/-- What is known of a round. -/
structure Round (ns : CString) (docs : List Document) (w : World σ) (c : Nat) (p : MongoPacket) :
    Prop where
  length : batchLength w.conn.maxInsertSize (pointers docs) = c
  front : docs.take c ≠ []
  rest : (WireCall.insertN ns (docs.drop c)).dataSize ≤ (WireCall.insertN ns docs).dataSize
  packet : batchPacket N ns (pointers docs) w = .ok p
  inserted : p.insertedDocuments N.order = some ((docs.take c).map Document.bytes)

theorem Pending.round {docs : List Document} {w : World σ} (h : Pending ns docs w) :
    ∃ c p, Round N ns docs w c p := by
  obtain ⟨c, hc, hfront, hrest, p, hp, hdocs⟩ :=
    batch_packet N.order (w.conn.requestId + 1) ns h.ne h.small h.total
  exact ⟨c, p, hc, hfront, hrest, by rw [batchPacket, hc, hp], hdocs⟩

namespace Round

variable {N} {docs : List Document} {w v : World σ} {c : Nat} {p : MongoPacket}
  {r : Except Halt Bool}

theorem pos (h : Round N ns docs w c p) : c ≠ 0 :=
  fun hc => h.front (by rw [hc, List.take_zero])

theorem drop (c : Nat) : (pointers docs).drop (c : Int).toNat = pointers (docs.drop c) := by
  simp [pointers, List.map_drop]

theorem delivers (h : Round N ns docs w c p)
    (hrun : (insertBatch N (mongoSyncReconnect N fuel) ns c (pointers docs)).exec w = (r, v)) :
    (∀ ok, r = .ok ok → v.conn.maxInsertSize = w.conn.maxInsertSize) ∧
      w.Since v fun es => Carries N.order es ∧
        (LibMongo.inserted N.order es = [(docs.take c).map Document.bytes] ∨
          LibMongo.inserted N.order es = [] ∧ r ≠ .ok true) := by
  have hp := h.packet
  rw [batchPacket, h.length] at hp
  exact insertBatch_delivers N fuel ns h.front hp h.inserted hrun

/-- The documents left after a round. -/
theorem pending (h : Round N ns docs w c p) (hw : Pending ns docs w)
    (hrun : (insertBatch N (mongoSyncReconnect N fuel) ns c (pointers docs)).exec w = (.ok true, v))
    (hmore : docs.drop c ≠ []) : Pending ns (docs.drop c) v := by
  refine ⟨hmore, fun d hd => ?_, ?_⟩
  · rw [(h.delivers fuel hrun).1 true rfl]
    exact hw.small d (List.mem_of_mem_drop hd)
  · have hrest := h.rest
    have htotal := hw.total
    omega

end Round

/-- Whenever a round begins, there are documents left, and the next packet takes one of
them at least. -/
theorem Batches.pending {from' rest : List (Option Bson)} {w u : World σ}
    (h : Batches N (mongoSyncReconnect N fuel) ns from' w rest u) {docs : List Document}
    (hdocs : from' = pointers docs) (hw : Pending ns docs w) :
    ∃ docs', rest = pointers docs' ∧ Pending ns docs' u := by
  induction h generalizing docs with
  | first => exact ⟨docs, hdocs, hw⟩
  | next c hc hrun hmore _ ih =>
      subst hdocs
      obtain ⟨n, p, hround⟩ := hw.round N
      cases hround.length.symm.trans hc
      rw [Round.drop] at hmore ih
      have hmore' : docs.drop n ≠ [] := fun h => hmore (by rw [h]; rfl)
      exact ih rfl (hround.pending fuel hw hrun hmore')

theorem insertLoop_delivers (rounds : Nat) (docs : List Document) (w t : World σ)
    {r : Except Halt Bool} (hw : Pending ns docs w) (hrounds : docs.length ≤ rounds)
    (h : (insertLoop N (mongoSyncReconnect N fuel) ns rounds (pointers docs)).exec w = (r, t)) :
    w.Since t (Delivers N.order docs (decide (r = .ok true))) := by
  induction rounds generalizing docs w with
  | zero =>
      have := List.length_pos_of_ne_nil hw.ne
      omega
  | succ rounds ih =>
      obtain ⟨c, p, hround⟩ := hw.round N
      rw [exec_insertLoop N rounds hround.length] at h
      cases hrun : (insertBatch N (mongoSyncReconnect N fuel) ns c (pointers docs)).exec w with
      | mk r' v =>
          rw [hrun] at h
          obtain ⟨-, hes⟩ := hround.delivers fuel hrun
          -- a round that does not succeed ends the loop
          have hstop : r' ≠ .ok true → w.Since v (Delivers N.order docs false) := by
            intro hr
            refine hes.mono fun es h => ?_
            rcases h.2 with hfront | hnone
            · exact (Delivers.front hfront h.1).weaken
            · exact .nothing hnone.1 h.1
          cases r' with
          | error e =>
              cases h
              simpa using hstop (fun h => by cases h)
          | ok ok =>
              cases ok with
              | false =>
                  cases h
                  simpa using hstop (fun h => by cases h)
              | true =>
                  have hsent : w.Since v fun es => Carries N.order es ∧
                      inserted N.order es = [(docs.take c).map Document.bytes] :=
                    hes.mono fun es h => ⟨h.1, h.2.elim id fun h => absurd rfl h.2⟩
                  dsimp only at h
                  rw [Round.drop] at h
                  by_cases hlast : docs.drop c = []
                  · rw [if_pos (by rw [hlast]; rfl)] at h
                    cases h
                    refine hsent.mono fun es h => ?_
                    simpa [hlast] using Delivers.front h.2 h.1
                  · rw [if_neg (by simpa [pointers] using hlast)] at h
                    have hshort : (docs.drop c).length ≤ rounds := by
                      have := hround.pos
                      rw [List.length_drop]
                      omega
                    have hloop := ih (docs.drop c) v (hround.pending fuel hw hrun hlast) hshort h
                    have hall := hsent.append hloop fun es es' h h' => Delivers.cons h.2 h.1 h'
                    rwa [List.take_append_drop] at hall

/-- The loop returns exactly if the rounds it comes to do. -/
theorem insertLoop_returns_iff (rounds : Nat) (docs : List Document) (w : World σ)
    (hw : Pending ns docs w) (hrounds : docs.length ≤ rounds) :
    Returns (insertLoop N (mongoSyncReconnect N fuel) ns rounds (pointers docs)) w
      ↔ ∀ rest u, Batches N (mongoSyncReconnect N fuel) ns (pointers docs) w rest u →
          BatchReturns N (mongoSyncReconnect N fuel) ns rest u := by
  induction rounds generalizing docs w with
  | zero =>
      have := List.length_pos_of_ne_nil hw.ne
      omega
  | succ rounds ih =>
      obtain ⟨c, p, hround⟩ := hw.round N
      have hfirst := @insertBatch_returns_iff _ N (mongoSyncReconnect N fuel) ns _ _ _ _
        hround.length hround.packet
      rw [Returns, exec_insertLoop N rounds hround.length]
      cases hrun : (insertBatch N (mongoSyncReconnect N fuel) ns c (pointers docs)).exec w with
      | mk r v =>
          -- the rounds after the first, if there are any
          have hnext : ∀ {rest u}, r = .ok true → docs.drop c ≠ [] →
              Batches N (mongoSyncReconnect N fuel) ns (pointers (docs.drop c)) v rest u →
              Batches N (mongoSyncReconnect N fuel) ns (pointers docs) w rest u := by
            intro rest u hr hmore h
            subst hr
            rw [← Round.drop] at h
            refine .next c hround.length hrun ?_ h
            rw [Round.drop]
            simpa [pointers] using hmore
          constructor
          · rintro ⟨ok, t, hreturns⟩ rest u h
            cases h with
            | first =>
                refine hfirst.mp ?_
                rw [Returns, hrun]
                cases r with
                | ok ok => exact ⟨ok, v, rfl⟩
                | error e => cases hreturns
            | next c' hc hrun' hmore h =>
                cases hround.length.symm.trans hc
                cases hrun.symm.trans hrun'
                rw [Round.drop] at hmore h
                have hmore' : docs.drop c ≠ [] := fun h => hmore (by rw [h]; rfl)
                dsimp only at hreturns
                rw [Round.drop, if_neg hmore] at hreturns
                have hshort : (docs.drop c).length ≤ rounds := by
                  have := hround.pos
                  rw [List.length_drop]
                  omega
                exact (ih _ v (hround.pending fuel hw hrun hmore') hshort).mp
                  ⟨ok, t, hreturns⟩ rest u h
          · intro hall
            obtain ⟨ok, v', hbatch⟩ := hfirst.mpr (hall _ _ .first)
            cases hrun.symm.trans hbatch
            cases ok with
            | false => exact ⟨false, v, rfl⟩
            | true =>
                dsimp only
                rw [Round.drop]
                by_cases hlast : docs.drop c = []
                · rw [hlast]
                  exact ⟨true, v, rfl⟩
                · have hmore : ¬ pointers (docs.drop c) = [] := by simpa [pointers] using hlast
                  rw [if_neg hmore]
                  have hshort : (docs.drop c).length ≤ rounds := by
                    have := hround.pos
                    rw [List.length_drop]
                    omega
                  exact (ih _ v (hround.pending fuel hw hrun hlast) hshort).mpr
                    fun rest u h => hall rest u (hnext rfl hlast h)

/-- The loop fails only if a round it comes to fails. -/
theorem insertLoop_fails (rounds : Nat) (docs : List Document) (w t : World σ)
    (hw : Pending ns docs w) (hrounds : docs.length ≤ rounds)
    (h : (insertLoop N (mongoSyncReconnect N fuel) ns rounds (pointers docs)).exec w
      = (.ok false, t)) :
    ∃ rest u, Batches N (mongoSyncReconnect N fuel) ns (pointers docs) w rest u ∧
      BatchFails N (mongoSyncReconnect N fuel) ns rest u := by
  induction rounds generalizing docs w with
  | zero => cases h
  | succ rounds ih =>
      obtain ⟨c, p, hround⟩ := hw.round N
      rw [exec_insertLoop N rounds hround.length] at h
      cases hrun : (insertBatch N (mongoSyncReconnect N fuel) ns c (pointers docs)).exec w with
      | mk r v =>
          rw [hrun] at h
          cases r with
          | error e => cases h
          | ok ok =>
              cases ok with
              | false =>
                  exact ⟨_, w, .first, insertBatch_fails N hround.length hround.packet hrun⟩
              | true =>
                  dsimp only at h
                  by_cases hlast : (pointers docs).drop (c : Int).toNat = []
                  · rw [if_pos hlast] at h
                    cases h
                  · rw [if_neg hlast, Round.drop] at h
                    have hmore : docs.drop c ≠ [] := fun heq => hlast (by rw [Round.drop, heq]; rfl)
                    have hshort : (docs.drop c).length ≤ rounds := by
                      have := hround.pos
                      rw [List.length_drop]
                      omega
                    obtain ⟨rest, u, hreach, hfails⟩ :=
                      ih _ v (hround.pending fuel hw hrun hmore) hshort h
                    rw [← Round.drop] at hreach
                    exact ⟨rest, u, .next c hround.length hrun hlast hreach, hfails⟩

end Loop

/-! ## The call -/

/-- What a bulk insert is to do.  It returns, and each packet that it builds has a
document.  The documents of the packets that it sends are the array up to some
packet, and the whole array if it returns `TRUE`.  It returns `FALSE` only if a packet
is not sent, or the verdict on it is bad. -/
structure BulkExact (fuel : Nat) (ns : CString) (docs : List Document) (w : World σ) : Prop where
  returns : Returns (mongoSyncCmdInsertN N (mongoSyncReconnect N fuel) (some ns)
    (some (pointers docs))) w
  builds : ∀ rest u, Batches N (mongoSyncReconnect N fuel) ns (pointers docs) w rest u →
    1 ≤ batchLength u.conn.maxInsertSize rest ∧
      batchLength u.conn.maxInsertSize rest ≤ rest.length
  delivers :
    let run := (mongoSyncCmdInsertN N (mongoSyncReconnect N fuel) (some ns)
      (some (pointers docs))).exec w
    w.Since run.2 (Delivers N.order docs (decide (run.1 = .ok true)))
  fails : ∀ t, (mongoSyncCmdInsertN N (mongoSyncReconnect N fuel) (some ns)
      (some (pointers docs))).exec w = (.ok false, t) →
    ∃ rest u, Batches N (mongoSyncReconnect N fuel) ns (pointers docs) w rest u ∧
      BatchFails N (mongoSyncReconnect N fuel) ns rest u

theorem Pending.builds {ns : CString} {docs : List Document} {w : World σ}
    (h : Pending ns docs w) :
    1 ≤ batchLength w.conn.maxInsertSize (pointers docs) ∧
      batchLength w.conn.maxInsertSize (pointers docs) ≤ (pointers docs).length := by
  obtain ⟨d, hd⟩ := List.exists_mem_of_ne_nil docs h.ne
  have hmax : 0 < w.conn.maxInsertSize := by
    have := h.small d hd
    omega
  refine batchLength_pos (by simpa [pointers] using h.ne) hmax fun b hb => ?_
  obtain ⟨d, hd, rfl⟩ := List.mem_map.mp hb
  rw [d.size_eq]
  exact h.small d hd

/-- The checks of the call pass, and the loop runs. -/
theorem exec_insertN_loop (reconnect : Bool → Program (World σ) Bool) (ns : CString)
    {docs : List (Option Bson)} {w : World σ} (hne : docs ≠ [])
    (hsmall : ∀ b ∈ docs, bsonSize b < w.conn.maxInsertSize) :
    (mongoSyncCmdInsertN N reconnect (some ns) (some docs)).exec w
      = (insertLoop N reconnect ns docs.length docs).exec w := by
  have hlen : ¬ docs.length = 0 := fun h => hne (List.length_eq_zero_iff.mp h)
  have hany : ¬ (docs.any fun b => w.conn.maxInsertSize ≤ bsonSize b) = true := by
    rw [List.any_eq_true]
    rintro ⟨b, hb, hle⟩
    have := hsmall b hb
    simp only [decide_eq_true_eq] at hle
    omega
  rw [mongoSyncCmdInsertN, if_neg hlen, exec_get_bind, if_neg hany]

theorem exec_insertN_accepted (reconnect : Bool → Program (World σ) Bool) (ns : CString)
    {docs : List Document} {w : World σ} (hne : docs ≠ [])
    (hsmall : ∀ d ∈ docs, (d.bytes.length : Int) < w.conn.maxInsertSize) :
    (mongoSyncCmdInsertN N reconnect (some ns) (some (pointers docs))).exec w
      = (insertLoop N reconnect ns (pointers docs).length (pointers docs)).exec w := by
  refine exec_insertN_loop N reconnect ns (by simpa [pointers] using hne) fun b hb => ?_
  obtain ⟨d, hd, rfl⟩ := List.mem_map.mp hb
  rw [d.size_eq]
  exact hsmall d hd

/-- A bulk insert does what it is to do exactly if each call it comes to of the
functions that send a packet and ask for the verdict on it returns. -/
theorem bulk_insert_exact (fuel : Nat) (ns : CString) (docs : List Document) (w : World σ)
    (hne : docs ≠ []) (hsmall : ∀ d ∈ docs, (d.bytes.length : Int) < w.conn.maxInsertSize)
    (htotal : 16 + (WireCall.insertN ns docs).dataSize < 2147483648) :
    BulkExact N fuel ns docs w
      ↔ ∀ rest u, Batches N (mongoSyncReconnect N fuel) ns (pointers docs) w rest u →
          BatchReturns N (mongoSyncReconnect N fuel) ns rest u := by
  have hw : Pending ns docs w := ⟨hne, hsmall, htotal⟩
  have hrounds : docs.length ≤ (pointers docs).length := by simp [pointers]
  have hloop := exec_insertN_accepted N (mongoSyncReconnect N fuel) ns hne hsmall
  have hreturns := insertLoop_returns_iff N fuel (pointers docs).length docs w hw hrounds
  constructor
  · intro h
    have hret := h.returns
    rw [Returns, hloop] at hret
    exact hreturns.mp hret
  · intro hall
    refine ⟨?_, fun rest u h => ?_, ?_, fun t ht => ?_⟩
    · rw [Returns, hloop]
      exact hreturns.mpr hall
    · obtain ⟨docs', rfl, hpending⟩ := h.pending N fuel rfl hw
      exact hpending.builds
    · exact insertLoop_delivers N fuel _ docs w _ hw hrounds (hloop.symm.trans rfl)
    · rw [hloop] at ht
      exact insertLoop_fails N fuel _ docs w t hw hrounds ht

/-! ## A call that does not return -/

section Endless

/-- The document without elements. -/
def emptyDocument : Document := Document.ofDoc .nil (by simp)

/-- A collection `c` of a database `d`. -/
def someNs : CString := .ascii ['d', '.', 'c']

/-- A connection with room for nine bytes of documents in a packet, to a node that says twice
that it is a master. -/
def splitWorld : World Bytes where
  net :=
    (Reply.mk 7 1 0 0 0 [.cons ismasterKey (.boolean 1) (.cons okKey (.double doubleOne) .nil)]).bytes ++
      (Reply.mk 8 2 0 0 0 [.cons ismasterKey (.boolean 1) (.cons okKey (.double doubleOne) .nil)]).bytes
  conn := { mongoSyncConnInit ⟨5, 0⟩ false with maxInsertSize := 9 }
  errno := .ok
  nextFd := 6
  log := []

/-- Three documents of five bytes, of which the first fills a packet. -/
theorem bulk_insert_exact_sample :
    BulkExact scriptNet 1 someNs [emptyDocument, emptyDocument, emptyDocument] splitWorld := by
  have hpending : Pending someNs [emptyDocument, emptyDocument, emptyDocument] splitWorld :=
    ⟨by simp, by decide, by decide⟩
  have hrun : ((mongoSyncCmdInsertN scriptNet (mongoSyncReconnect scriptNet 1) (some someNs)
      (some (pointers [emptyDocument, emptyDocument, emptyDocument]))).exec splitWorld).1
        = .ok true := by decide +kernel
  rw [exec_insertN_accepted scriptNet _ someNs hpending.ne hpending.small] at hrun
  refine (bulk_insert_exact scriptNet 1 someNs _ splitWorld hpending.ne hpending.small
    hpending.total).mpr ?_
  exact (insertLoop_returns_iff scriptNet 1 _ _ splitWorld hpending (Nat.le_refl _)).mp
    ⟨true, _, exec_of_fst hrun rfl⟩

/-- A connection to a node that says nothing, which may reconnect. -/
def patientWorld : World Sockets :=
  { silentWorld with conn := { silentWorld.conn with autoReconnect := true } }

/-- A bulk insert looks for a master for ever. -/
theorem bulk_insert_endless :
    ¬ ∃ fuel, Returns (mongoSyncCmdInsertN silentCluster.net
      (mongoSyncReconnect silentCluster.net fuel) (some someNs) (some (pointers [emptyDocument])))
        patientWorld := by
  rintro ⟨fuel, h⟩
  have hw : Pending someNs [emptyDocument] patientWorld := ⟨by simp, by decide, by decide⟩
  rw [Returns, exec_insertN_accepted _ _ _ hw.ne hw.small] at h
  have hfirst := (insertLoop_returns_iff silentCluster.net fuel _ _ _ hw (Nat.le_refl _)).mp h
    _ _ .first
  obtain ⟨c, p, hround⟩ := hw.round silentCluster.net
  obtain ⟨ok, v, hsend⟩ := hfirst.send p hround.packet
  -- before the packet is sent the connection asks for a master
  obtain ⟨ready, u, hready, -⟩ := exec_bind_eq_ok.mp hsend
  obtain ⟨w', hmaster, hserved⟩ := exec_isMaster silentCluster (w := patientWorld) ⟨rfl, by decide⟩
  have herrno : ((mongoSyncCmdIsMaster silentCluster.net).exec patientWorld).2.errno = .ok := by
    decide +kernel
  rw [hmaster] at herrno
  have hreconnect : Returns (mongoSyncReconnect silentCluster.net fuel true) w' := by
    have hensure : (ensureMaster silentCluster.net
        (mongoSyncReconnect silentCluster.net fuel)).exec patientWorld = (.ok ready, u) := hready
    have hno : (mongoSyncCmdIsMaster silentCluster.net).exec
        { patientWorld with errno := .ok } = (.ok false, w') := hmaster
    rw [ensureMaster, setErrno, exec_modify_bind, exec_bind_ok hno, if_neg (by decide),
      exec_get_bind, herrno, if_neg (by decide), hserved.autoReconnect_eq] at hensure
    exact ⟨ready, u, hensure⟩
  have hgoes : w'.goesTo silentCluster true = some silentAddr := by
    rw [World.goesTo, hserved.slaveok_eq, hserved.socket_eq, hserved.rs_eq]
    exact silentCluster_next true
  have hends := ends_of_returns silentCluster fuel true w' (hserved.idle ⟨rfl, by decide⟩)
    hserved.slaveok_eq hreconnect
  exact Chain.not_ends (P := fun a => a = silentAddr)
    (fun a ha => ⟨silentAddr, ha ▸ silentCluster_next true, rfl⟩) hends silentAddr hgoes rfl

end Endless

end LibMongo

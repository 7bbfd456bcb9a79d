import LibMongo.Sync.Limit

/-!
# Bad documents in a bulk insert

A document that is too large is found before anything is sent, as all sizes are looked
at first.  The size of a pointer that is `NULL`, or of an object that is not finished, is
-1 and passes.  Such a document is found by `mongo_wire_cmd_insert_n` only, when its own
packet is built, and the packets before that one have been sent by then
(`insert_refused_iff`).
-/

namespace LibMongo

open Bytes Program

variable {σ : Type} (N : Net σ)

/-! ## Documents -/

/-- A document that cannot be inserted. -/
inductive BadDocument (maxInsertSize : Int) : Option Bson → Prop where
  | missing : BadDocument maxInsertSize none
  | unfinished {b : Bson} : b.finished = false → BadDocument maxInsertSize (some b)
  | large {b : Option Bson} : maxInsertSize ≤ bsonSize b → BadDocument maxInsertSize b

/-- The array is refused before anything is sent: a document is too large, or the first
packet takes none or one without a size. -/
def RefusedAtOnce (maxInsertSize : Int) (docs : List (Option Bson)) : Prop :=
  (∃ b ∈ docs, maxInsertSize ≤ bsonSize b) ∨ batchLength maxInsertSize docs ≤ 0 ∨
    ∃ b ∈ docs.take (batchLength maxInsertSize docs).toNat, bsonSize b ≤ 0

/-- The packet of a batch is built unless the batch is empty or has a document without a
size. -/
theorem mongoWireCmdInsertN_error_iff (o : ByteOrder) (id : BitVec 32) (ns : CString) (n : Int)
    (docs : List (Option Bson)) :
    (∃ e, mongoWireCmdInsertN o id (some ns) n (some docs) = .error e) ↔
      n ≤ 0 ∨ ∃ b ∈ docs.take n.toNat, bsonSize b ≤ 0 := by
  rw [mongoWireCmdInsertN]
  by_cases hn : n ≤ 0
  · rw [if_pos hn]
    exact iff_of_true ⟨_, rfl⟩ (.inl hn)
  · rw [if_neg hn]
    by_cases hany : ((docs.take n.toNat).any fun b => bsonSize b ≤ 0) = true
    · dsimp only
      rw [if_pos hany]
      refine iff_of_true ⟨_, rfl⟩ (.inr ?_)
      simpa using List.any_eq_true.mp hany
    · dsimp only
      rw [if_neg hany]
      refine iff_of_false (by rintro ⟨e, ⟨⟩⟩) ?_
      rintro (hn' | ⟨b, hb, hsize⟩)
      · exact hn hn'
      · exact hany (List.any_eq_true.mpr ⟨b, hb, by simpa using hsize⟩)

/-! ## Packets that were sent -/

/-- The packet of an insert was taken by a socket as a whole. -/
def InsertSent (o : ByteOrder) (es : List Event) : Prop :=
  ∃ fd p count, Event.send fd p count ∈ es ∧ p.HasOpcode o .insert ∧ p.Whole count

section Sent

variable {o : ByteOrder} {es es' : List Event}

theorem InsertSent.append_left (h : InsertSent o es) (es' : List Event) :
    InsertSent o (es ++ es') := by
  obtain ⟨fd, p, count, hmem, hp⟩ := h
  exact ⟨fd, p, count, List.mem_append_left _ hmem, hp⟩

theorem insertSent_append : InsertSent o (es ++ es') ↔ InsertSent o es ∨ InsertSent o es' := by
  constructor
  · rintro ⟨fd, p, count, hmem, hp⟩
    rcases List.mem_append.mp hmem with hmem | hmem
    · exact .inl ⟨fd, p, count, hmem, hp⟩
    · exact .inr ⟨fd, p, count, hmem, hp⟩
  · rintro (⟨fd, p, count, hmem, hp⟩ | ⟨fd, p, count, hmem, hp⟩)
    · exact ⟨fd, p, count, List.mem_append_left _ hmem, hp⟩
    · exact ⟨fd, p, count, List.mem_append_right _ hmem, hp⟩

theorem insertSent_send {fd : Int} {p : MongoPacket} {count : Option Nat}
    (hp : p.HasOpcode o .insert) : InsertSent o [.send fd p count] ↔ p.Whole count := by
  constructor
  · rintro ⟨fd', p', count', hmem, -, hcount⟩
    cases List.mem_singleton.mp hmem
    exact hcount
  · intro hcount
    exact ⟨fd, p, count, List.mem_singleton_self _, hp, hcount⟩

theorem Quiet.not_insertSent (h : Quiet o es) : ¬ InsertSent o es := by
  rintro ⟨fd, p, count, hmem, hp, -⟩
  cases hp.unique (h _ hmem)

/-- The packet was sent exactly if the attempts to send it say so. -/
theorem Attempts.insertSent_iff {p : MongoPacket} {ok : Bool} (h : Attempts o p ok es)
    (hp : p.HasOpcode o .insert) : InsertSent o es ↔ ok = true := by
  cases h with
  | none hq => exact iff_of_false hq.not_insertSent (by simp)
  | once hq _ hc =>
      rw [insertSent_append, or_iff_right hq.not_insertSent, insertSent_send hp, hc]
  | lost hq _ hc hq' =>
      refine iff_of_false ?_ (by simp)
      rw [insertSent_append, insertSent_append, insertSent_send hp]
      rintro ((hsent | hsent) | hsent)
      · exact hq.not_insertSent hsent
      · exact hc hsent
      · exact hq'.not_insertSent hsent
  | twice hq _ hc hq' _ hc' =>
      rw [insertSent_append, insertSent_send hp, insertSent_append, insertSent_append,
        insertSent_send hp, hc']
      simp [hq.not_insertSent, hc, hq'.not_insertSent]

/-- A packet whose documents are read back was sent. -/
theorem insertSent_of_inserted (h : inserted o es ≠ []) : InsertSent o es := by
  obtain ⟨docs, hdocs⟩ := List.exists_mem_of_ne_nil _ h
  obtain ⟨e, he, hdocs⟩ := List.mem_filterMap.mp hdocs
  cases e with
  | send fd p count =>
      rw [Event.inserted] at hdocs
      split at hdocs
      next hcount =>
        rw [MongoPacket.insertedDocuments] at hdocs
        split at hdocs
        next hp => exact ⟨fd, p, count, he, hp, hcount⟩
        next => cases hdocs
      next => cases hdocs
  | _ => cases hdocs

end Sent

/-! ## Runs -/

section Runs

variable (fuel : Nat) {ns : CString} {docs : List (Option Bson)} {w t : World σ}
  {r : Except Halt Bool}

/-- A round whose packet is not built. -/
theorem exec_insertBatch_unbuilt {e : Errno} (hp : batchPacket N ns docs w = .error e)
    (reconnect : Bool → Program (World σ) Bool) :
    (insertBatch N reconnect ns (batchLength w.conn.maxInsertSize docs) docs).exec w
      = (.ok false, { w with errno := e }) := by
  have hnext : (nextPacket (fun rid => mongoWireCmdInsertN N.order rid (some ns)
      (batchLength w.conn.maxInsertSize docs) (some docs))).exec w
        = (.ok none, { w with errno := e }) := by
    rw [batchPacket] at hp
    rw [nextPacket, exec_get_bind, hp]
    rfl
  rw [insertBatch, exec_bind_ok hnext]
  rfl

/-- A round only adds to the log. -/
theorem insertBatch_since
    (hrun : (insertBatch N (mongoSyncReconnect N fuel) ns
      (batchLength w.conn.maxInsertSize docs) docs).exec w = (r, t)) :
    w.Since t fun _ => True := by
  cases hp : batchPacket N ns docs w with
  | error e =>
      rw [exec_insertBatch_unbuilt N hp] at hrun
      cases hrun
      exact ⟨[], (List.append_nil _).symm, trivial⟩
  | ok p => exact (insertBatch_attempts N fuel ns hp hrun).2.mono fun _ _ => trivial

/-- What a round leaves of the loop only adds to the log. -/
theorem rest_since {rounds : Nat} {u v : World σ} {r' : Except Halt Bool} {c : Nat}
    (hv : u.Since v fun _ => True)
    (hloop : (insertLoop N (mongoSyncReconnect N fuel) ns rounds (docs.drop c)).exec v = (r, t) →
      v.Since t fun _ => True)
    (hrun : (match (r', v) with
      | (.ok true, v) =>
          if docs.drop c = [] then (.ok true, v)
          else (insertLoop N (mongoSyncReconnect N fuel) ns rounds (docs.drop c)).exec v
      | (.ok false, v) => (.ok false, v)
      | (.error e, v) => (.error e, v)) = (r, t)) : u.Since t fun _ => True := by
  cases r' with
  | error e =>
      cases hrun
      exact hv
  | ok ok =>
      cases ok with
      | false =>
          cases hrun
          exact hv
      | true =>
          dsimp only at hrun
          split at hrun
          · cases hrun
            exact hv
          · exact hv.append (hloop hrun) fun _ _ _ _ => trivial

/-- And so do all rounds. -/
theorem insertLoop_since (rounds : Nat)
    (hrun : (insertLoop N (mongoSyncReconnect N fuel) ns rounds docs).exec w = (r, t)) :
    w.Since t fun _ => True := by
  induction rounds generalizing docs w with
  | zero =>
      cases hrun
      exact ⟨[], (List.append_nil _).symm, trivial⟩
  | succ rounds ih =>
      rw [exec_insertLoop N rounds rfl] at hrun
      cases hbatch : (insertBatch N (mongoSyncReconnect N fuel) ns
          (batchLength w.conn.maxInsertSize docs) docs).exec w with
      | mk r' v =>
          have hv := insertBatch_since N fuel hbatch
          rw [hbatch] at hrun
          exact rest_since N fuel hv (fun h => ih h) hrun

/-- The call refuses its array: it returns `FALSE`, and no packet of an insert was sent. -/
def Refuses (o : ByteOrder) (w : World σ) (run : Except Halt Bool × World σ) : Prop :=
  run.1 = .ok false ∧ w.Since run.2 fun es => ¬ InsertSent o es

/-- The first packet is built, and no socket takes it. -/
def FirstUnsent (reconnect : Bool → Program (World σ) Bool) (ns : CString)
    (docs : List (Option Bson)) (w : World σ) : Prop :=
  ∃ p u, batchPacket N ns docs w = .ok p ∧
    (mongoSyncPacketSend N reconnect p true true).exec w = (.ok false, u)

theorem batchPacket_error_iff :
    (∃ e, batchPacket N ns docs w = .error e) ↔ batchLength w.conn.maxInsertSize docs ≤ 0 ∨
      ∃ b ∈ docs.take (batchLength w.conn.maxInsertSize docs).toNat, bsonSize b ≤ 0 :=
  mongoWireCmdInsertN_error_iff ..

/-- The loop on an array whose first packet is not built. -/
theorem insertLoop_refuses {e : Errno} (hp : batchPacket N ns docs w = .error e) (rounds : Nat) :
    Refuses N.order w
      ((insertLoop N (mongoSyncReconnect N fuel) ns (rounds + 1) docs).exec w) := by
  rw [exec_insertLoop N rounds rfl, exec_insertBatch_unbuilt N hp]
  exact ⟨rfl, [], (List.append_nil _).symm, Quiet.nil.not_insertSent⟩

/-- The loop on an array whose first packet is built. -/
theorem insertLoop_refuses_iff {p : MongoPacket} (hp : batchPacket N ns docs w = .ok p)
    (rounds : Nat) :
    Refuses N.order w
        ((insertLoop N (mongoSyncReconnect N fuel) ns (rounds + 1) docs).exec w) ↔
      FirstUnsent N (mongoSyncReconnect N fuel) ns docs w := by
  have hopcode := mongoWireCmdInsertN_hasOpcode hp
  have hattempts := mongoSyncPacketSend_attempts N fuel p w
  cases hrun : (insertLoop N (mongoSyncReconnect N fuel) ns (rounds + 1) docs).exec w with
  | mk r t =>
      have hloop := hrun
      rw [exec_insertLoop N rounds rfl, exec_insertBatch N rfl hp] at hloop
      cases hsend : (mongoSyncPacketSend N (mongoSyncReconnect N fuel) p true true).exec w with
      | mk sent u =>
          rw [hsend] at hloop
          cases sent with
          | error e =>
              cases hloop
              refine iff_of_false (fun h => by cases h.1) ?_
              rintro ⟨p', u', hp', hunsent⟩
              cases hp.symm.trans hp'
              cases hsend.symm.trans hunsent
          | ok sent =>
              have hes := (wp_ok hattempts hsend).2
              cases sent with
              | false =>
                  cases hloop
                  refine iff_of_true ⟨rfl, ?_⟩ ⟨p, u, hp, hsend⟩
                  obtain ⟨es, hlog, h⟩ := hes
                  refine ⟨es, hlog, ?_⟩
                  exact (h.insertSent_iff hopcode).not.mpr (by simp)
              | true =>
                  refine iff_of_false ?_ ?_
                  · -- the packet is in the log, whatever comes after it
                    rintro ⟨-, es, hes', hnone⟩
                    obtain ⟨es₁, hlog₁, hsent⟩ := hes
                    obtain ⟨es₂, hlog₂, -⟩ : u.Since t fun _ => True := by
                      dsimp only at hloop
                      cases hverify : (mongoSyncCmdVerifyResult N (some ns)).exec u with
                      | mk r' v =>
                          have hpolls := (mongoSyncCmdVerifyResult_polls N (some ns)).exec u
                          rw [hverify] at hpolls
                          have hv : u.Since v fun _ => True :=
                            hpolls.roams.log.mono fun _ _ => trivial
                          rw [hverify] at hloop
                          exact rest_since N fuel hv (fun h => insertLoop_since N fuel rounds h) hloop
                    rw [hlog₂, hlog₁, List.append_assoc] at hes'
                    obtain rfl := List.append_cancel_left hes'
                    exact hnone (((hsent.insertSent_iff hopcode).mpr rfl).append_left es₂)
                  · rintro ⟨p', u', hp', hunsent⟩
                    cases hp.symm.trans hp'
                    cases hsend.symm.trans hunsent

end Runs

/-! ## Refused arrays -/

/-- **A bulk insert with a bad document may have sent what comes before it.**  The call
returns `FALSE` and sends nothing exactly if a document is too large, if the first packet
takes none or a bad one, or if the first packet is not taken by a socket. -/
theorem insert_refused_iff (fuel : Nat) (ns : CString) (docs : List (Option Bson)) (w : World σ)
    (hbad : ∃ b ∈ docs, BadDocument w.conn.maxInsertSize b) :
    Refuses N.order w
        ((mongoSyncCmdInsertN N (mongoSyncReconnect N fuel) (some ns) (some docs)).exec w) ↔
      RefusedAtOnce w.conn.maxInsertSize docs ∨
        FirstUnsent N (mongoSyncReconnect N fuel) ns docs w := by
  obtain ⟨rounds, hrounds⟩ : ∃ n, docs.length = n + 1 := by
    obtain ⟨b, hb, -⟩ := hbad
    exact Nat.exists_eq_succ_of_ne_zero (List.ne_nil_of_mem hb ∘ List.eq_nil_of_length_eq_zero)
  rw [mongoSyncCmdInsertN, if_neg (by omega), exec_get_bind, hrounds]
  by_cases hlarge : (docs.any fun b => w.conn.maxInsertSize ≤ bsonSize b) = true
  · rw [if_pos hlarge]
    refine iff_of_true ⟨rfl, [], ?_, Quiet.nil.not_insertSent⟩ (.inl (.inl ?_))
    · exact (List.append_nil _).symm
    · simpa using List.any_eq_true.mp hlarge
  · rw [if_neg hlarge]
    have hsmall : ¬ ∃ b ∈ docs, w.conn.maxInsertSize ≤ bsonSize b := by
      rintro ⟨b, hb, hle⟩
      exact hlarge (List.any_eq_true.mpr ⟨b, hb, by simpa using hle⟩)
    rw [RefusedAtOnce, or_iff_right hsmall, ← batchPacket_error_iff N]
    cases hp : batchPacket N ns docs w with
    | error e => exact iff_of_true (insertLoop_refuses N fuel hp rounds) (.inl ⟨e, rfl⟩)
    | ok p =>
        rw [insertLoop_refuses_iff N fuel hp rounds]
        exact (or_iff_right (by rintro ⟨e, ⟨⟩⟩)).symm

/-- A `NULL` between two documents of five bytes, where a packet takes nine. -/
def earlyDocuments : List (Option Bson) :=
  [some emptyDocument.bson, none, some emptyDocument.bson]

/-- The `NULL` is in the first packet. -/
theorem insert_refused_first :
    Refuses silentNet.order narrowWorld
      ((mongoSyncCmdInsertN silentNet (mongoSyncReconnect silentNet 2) (some someNs)
        (some earlyDocuments)).exec narrowWorld) :=
  (insert_refused_iff silentNet 2 someNs earlyDocuments narrowWorld
    ⟨none, by simp [earlyDocuments], .missing⟩).mpr (.inl (.inr (.inr ⟨none, by decide, by decide⟩)))

/-- A `NULL` behind two documents of five bytes, where a packet takes nine. -/
def lateDocuments : List (Option Bson) :=
  [some emptyDocument.bson, some emptyDocument.bson, none]

/-- The insert of these documents. -/
def lateInsert : Except Halt Bool × World Nat :=
  (mongoSyncCmdInsertN silentNet (mongoSyncReconnect silentNet 2) (some someNs)
    (some lateDocuments)).exec narrowWorld

/-- The first document is sent before the `NULL` is found. -/
theorem insert_refused_late :
    BadDocument narrowWorld.conn.maxInsertSize none ∧ none ∈ lateDocuments ∧
      lateInsert.1 = .ok false ∧
      inserted silentNet.order (lateInsert.2.log.drop narrowWorld.log.length)
        = [[emptyDocument.bytes]] ∧
      ¬ Refuses silentNet.order narrowWorld lateInsert := by
  have hinserted : inserted silentNet.order (lateInsert.2.log.drop narrowWorld.log.length)
      = [[emptyDocument.bytes]] := by decide +kernel
  refine ⟨.missing, by simp [lateDocuments], by decide +kernel, hinserted, ?_⟩
  rintro ⟨-, es, hlog, hnone⟩
  rw [hlog, List.drop_left] at hinserted
  exact hnone (insertSent_of_inserted (by rw [hinserted]; simp))

end LibMongo

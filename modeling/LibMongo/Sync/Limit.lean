import LibMongo.Sync.Bulk

/-!
# The limit of a bulk insert

`max_insert_size` is the size past which a bulk insert is cut.  The loop that counts
the documents of a packet stops only when their sizes have reached the limit, and the
last document counted is taken back, but not if it is the last of the array.

*Sizes.*  `lastPacketSize` adds the sizes up, and begins a new packet at each document
with which the limit would be reached, except the last.  It is the size of the last packet
(`batchLength_cut`).

*Packets.*  A packet that is not the last is smaller than the limit, so the limit is
kept exactly if the last packet keeps it (`insert_limit_iff`).
-/

namespace LibMongo

open Bytes Program

variable {σ : Type} (N : Net σ)

/-! ## Sizes -/

/-- The sizes of documents, added up. -/
def totalSize (docs : List Document) : Int := (docs.map fun d => (d.bytes.length : Int)).sum

@[simp] theorem totalSize_nil : totalSize [] = 0 := rfl

@[simp] theorem totalSize_cons (d : Document) (docs : List Document) :
    totalSize (d :: docs) = d.bytes.length + totalSize docs := by
  simp [totalSize]

/-- The size of the last packet, when the one that is being filled has `size` bytes.
A document with which the limit would be reached begins a packet, unless it is the last. -/
def lastPacketSize (maxInsertSize : Int) : Int → List Document → Int
  | size, [] => size
  | size, [d] => size + d.bytes.length
  | size, d :: d' :: docs =>
      if size + d.bytes.length < maxInsertSize then
        lastPacketSize maxInsertSize (size + d.bytes.length) (d' :: docs)
      else lastPacketSize maxInsertSize d.bytes.length (d' :: docs)

/-- The last packet of the documents is not larger than the limit. -/
def LastFits (maxInsertSize : Int) (docs : List Document) : Prop :=
  lastPacketSize maxInsertSize 0 docs ≤ maxInsertSize

/-- A packet that the next document would fill begins anew with that document. -/
theorem lastPacketSize_full {maxInsertSize size : Int} {d : Document} (d' : Document)
    (docs : List Document) (h : ¬ size + d.bytes.length < maxInsertSize)
    (hd : (d.bytes.length : Int) < maxInsertSize) :
    lastPacketSize maxInsertSize size (d :: d' :: docs)
      = lastPacketSize maxInsertSize 0 (d :: d' :: docs) := by
  rw [lastPacketSize, if_neg h, lastPacketSize, zero_add, if_pos hd]

theorem countDocuments_cons (maxInsertSize size : Int) (d : Document) (docs : List Document) :
    countDocuments maxInsertSize size (pointers (d :: docs))
      = if size < maxInsertSize then
          ((countDocuments maxInsertSize (size + d.bytes.length) (pointers docs)).1 + 1,
            (countDocuments maxInsertSize (size + d.bytes.length) (pointers docs)).2)
        else (0, false) := by
  rw [pointers, List.map_cons, countDocuments, d.size_eq]
  rfl

/-- When the documents run out, they are the last packet. -/
theorem countDocuments_all {maxInsertSize size : Int} {docs : List Document}
    (h : (countDocuments maxInsertSize size (pointers docs)).2 = true) :
    (countDocuments maxInsertSize size (pointers docs)).1 = docs.length ∧
      lastPacketSize maxInsertSize size docs = size + totalSize docs := by
  induction docs generalizing size with
  | nil => simp [lastPacketSize, pointers, countDocuments]
  | cons d docs ih =>
      rw [countDocuments_cons] at h ⊢
      by_cases hsize : size < maxInsertSize
      · rw [if_pos hsize] at h ⊢
        obtain ⟨hcount, hlast⟩ := ih h
        refine ⟨by simp [hcount], ?_⟩
        cases docs with
        | nil => simp [lastPacketSize]
        | cons d' docs =>
            have hnext : size + d.bytes.length < maxInsertSize := by
              by_contra hnext
              rw [countDocuments_cons, if_neg hnext] at h
              cases h
            rw [lastPacketSize, if_pos hnext, hlast, totalSize_cons d, add_assoc]
      · rw [if_neg hsize] at h
        cases h

/-- When the room runs out, the documents before the last one counted stay below the
limit, and that one begins the next packet. -/
theorem countDocuments_cut {maxInsertSize size : Int} {docs : List Document} {c : Nat}
    (hsmall : ∀ d ∈ docs, (d.bytes.length : Int) < maxInsertSize) (hsize : size < maxInsertSize)
    (h : countDocuments maxInsertSize size (pointers docs) = ((c : Int) + 1, false)) :
    size + totalSize (docs.take c) < maxInsertSize ∧
      lastPacketSize maxInsertSize size docs
        = lastPacketSize maxInsertSize 0 (docs.drop c) := by
  induction docs generalizing size c with
  | nil => cases h
  | cons d docs ih =>
      rw [countDocuments_cons, if_pos hsize] at h
      simp only [Prod.mk.injEq] at h
      obtain ⟨hcount, hall⟩ := h
      have hcount' : (countDocuments maxInsertSize (size + d.bytes.length) (pointers docs)).1 = c := by
        omega
      cases docs with
      | nil => cases hall
      | cons d' docs =>
          by_cases hnext : size + d.bytes.length < maxInsertSize
          · have hpos := countDocuments_pos hnext (some d'.bson) (pointers docs)
            obtain ⟨c, rfl⟩ : ∃ c', c = c' + 1 := Nat.exists_eq_succ_of_ne_zero fun hc => by
              have hzero : (countDocuments maxInsertSize (size + d.bytes.length)
                (some d'.bson :: pointers docs)).1 = (c : Int) := hcount'
              omega
            have hrest := ih (fun d hd => hsmall d (List.mem_cons_of_mem _ hd)) hnext
              (Prod.ext (by simpa using hcount') hall)
            rw [lastPacketSize, if_pos hnext]
            simp only [List.take_succ_cons, List.drop_succ_cons, totalSize_cons d]
            exact ⟨by omega, hrest.2⟩
          · rw [countDocuments_cons, if_neg hnext] at hcount'
            obtain rfl : c = 0 := by simpa using hcount'.symm
            simp only [List.take_zero, List.drop_zero, totalSize_nil, add_zero]
            exact ⟨hsize, lastPacketSize_full d' docs hnext (hsmall d List.mem_cons_self)⟩

/-- A packet either is the last, or stays below the limit. -/
theorem batchLength_cut {maxInsertSize : Int} {docs : List Document} (hne : docs ≠ [])
    (hsmall : ∀ d ∈ docs, (d.bytes.length : Int) < maxInsertSize) :
    ∃ c : Nat, batchLength maxInsertSize (pointers docs) = c ∧ 0 < c ∧ c ≤ docs.length ∧
      (docs.drop c = [] ∧ lastPacketSize maxInsertSize 0 docs = totalSize (docs.take c) ∨
        docs.drop c ≠ [] ∧ totalSize (docs.take c) < maxInsertSize ∧
          lastPacketSize maxInsertSize 0 docs = lastPacketSize maxInsertSize 0 (docs.drop c)) := by
  have hlen : (pointers docs).length = docs.length := by simp [pointers]
  have hmax : 0 < maxInsertSize := by
    obtain ⟨d, hd⟩ := List.exists_mem_of_ne_nil docs hne
    have := hsmall d hd
    omega
  have hsizes : ∀ b ∈ pointers docs, bsonSize b < maxInsertSize := by
    intro b hb
    obtain ⟨d, hd, rfl⟩ := List.mem_map.mp hb
    rw [d.size_eq]
    exact hsmall d hd
  have hbatch := batchLength_pos (by simpa [pointers] using hne) hmax hsizes
  have hbounds := countDocuments_bounds maxInsertSize (pointers docs) 0
  obtain ⟨c, hc⟩ : ∃ c : Nat, batchLength maxInsertSize (pointers docs) = c :=
    ⟨_, (Int.toNat_of_nonneg (by omega)).symm⟩
  rw [hc, hlen] at hbatch
  refine ⟨c, hc, by omega, by omega, ?_⟩
  rw [batchLength] at hc
  dsimp only at hc
  cases hall : (countDocuments maxInsertSize 0 (pointers docs)).2 with
  | true =>
      rw [if_pos hall] at hc
      obtain ⟨hcount, hlast⟩ := countDocuments_all hall
      obtain rfl : c = docs.length := by omega
      refine .inl ⟨List.drop_length, ?_⟩
      rw [hlast, zero_add, List.take_length]
  | false =>
      rw [if_neg (by simp [hall])] at hc
      have hcut := countDocuments_cut (c := c) hsmall hmax (Prod.ext (by dsimp only; omega) hall)
      have hshort := hbounds.2.2 hall
      refine .inr ⟨?_, by simpa using hcut.1, hcut.2⟩
      rw [Ne, List.drop_eq_nil_iff]
      omega

/-! ## Packets -/

/-- If it is the packet of an insert, it is that of documents whose sizes add up to at most
the limit. -/
def MongoPacket.Within (o : ByteOrder) (ns : CString) (maxInsertSize : Int) (p : MongoPacket) :
    Prop :=
  p.HasOpcode o .insert → ∃ id docs, docs ≠ [] ∧ (WireCall.insertN ns docs).packet o id = .ok p ∧
    totalSize docs ≤ maxInsertSize

/-- Every packet of an insert that is handed to a socket is within the limit. -/
def Within (o : ByteOrder) (ns : CString) (maxInsertSize : Int) (es : List Event) : Prop :=
  ∀ fd p count, Event.send fd p count ∈ es → p.Within o ns maxInsertSize

theorem totalSize_eq (docs : List Document) :
    totalSize docs = ((docs.flatMap Document.bytes).length : Int) := by
  induction docs with
  | nil => rfl
  | cons d docs ih => simp [ih]

/-- The packet tells the size of its documents. -/
theorem insertN_within (maxInsertSize : Int) {o : ByteOrder} {id : BitVec 32} {ns : CString}
    {docs : List Document} {p : MongoPacket} (hne : docs ≠ [])
    (hp : (WireCall.insertN ns docs).packet o id = .ok p) :
    p.Within o ns maxInsertSize ↔ totalSize docs ≤ maxInsertSize := by
  have hopcode : p.HasOpcode o .insert := by
    rw [insertN_data o id ns hne] at hp
    cases hp
    exact commandPacket_hasOpcode ..
  constructor
  · intro h
    obtain ⟨id', docs', hne', hp', hfits⟩ := h hopcode
    rw [insertN_data o id ns hne] at hp
    rw [insertN_data o id' ns hne'] at hp'
    have hdata := congrArg MongoPacket.data (Except.ok.inj (hp.trans hp'.symm))
    have hlength := congrArg List.length (Option.some.inj hdata)
    rw [WireCall.body_length, WireCall.body_length] at hlength
    simp only [WireCall.dataSize] at hlength
    rw [totalSize_eq] at hfits ⊢
    omega
  · intro h _
    exact ⟨id, docs, hne, hp, h⟩

section Within

variable {o : ByteOrder} {ns : CString} {maxInsertSize : Int} {es es' : List Event}

theorem within_append :
    Within o ns maxInsertSize (es ++ es')
      ↔ Within o ns maxInsertSize es ∧ Within o ns maxInsertSize es' := by
  constructor
  · intro h
    exact ⟨fun fd p count hmem => h fd p count (List.mem_append_left _ hmem),
      fun fd p count hmem => h fd p count (List.mem_append_right _ hmem)⟩
  · rintro ⟨h, h'⟩ fd p count hmem
    exact (List.mem_append.mp hmem).elim (h fd p count) (h' fd p count)

theorem within_send {fd : Int} {p : MongoPacket} {count : Option Nat} :
    Within o ns maxInsertSize (.send fd p count :: es)
      ↔ p.Within o ns maxInsertSize ∧ Within o ns maxInsertSize es := by
  constructor
  · intro h
    exact ⟨h fd p count List.mem_cons_self,
      fun fd p count hmem => h fd p count (List.mem_cons_of_mem _ hmem)⟩
  · rintro ⟨hp, h⟩ fd' p' count' hmem
    rcases List.mem_cons.mp hmem with heq | hmem
    · cases heq
      exact hp
    · exact h fd' p' count' hmem

theorem within_nil : Within o ns maxInsertSize [] := fun _ _ _ hmem => by cases hmem

theorem Quiet.within (h : Quiet o es) : Within o ns maxInsertSize es := by
  intro fd p count hmem hinsert
  cases hinsert.unique (h _ hmem)

/-- The attempts to send a packet are within the limit if the packet is. -/
theorem Attempts.within {p : MongoPacket} {ok : Bool} (h : Attempts o p ok es)
    (hp : p.Within o ns maxInsertSize) : Within o ns maxInsertSize es := by
  cases h with
  | none hq => exact hq.within
  | once hq => simp [within_append, within_send, within_nil, hp, hq.within]
  | lost hq _ _ hq' => simp [within_append, within_send, hp, hq.within, hq'.within]
  | twice hq _ _ hq' => simp [within_append, within_send, within_nil, hp, hq.within, hq'.within]

/-- One of them was made if the packet is sent. -/
theorem Attempts.packet_within {p : MongoPacket} (h : Attempts o p true es)
    (hes : Within o ns maxInsertSize es) : p.Within o ns maxInsertSize := by
  cases h with
  | once _ => exact (within_send.mp (within_append.mp hes).2).1
  | twice _ => exact (within_send.mp (within_append.mp hes).2).1

end Within

/-! ## Runs -/

/-- The limit is kept in the events of a call, exactly if `fits` in one that succeeds. -/
def Limits (o : ByteOrder) (ns : CString) (maxInsertSize : Int) (fits : Prop)
    (r : Except Halt Bool) (es : List Event) : Prop :=
  (fits → Within o ns maxInsertSize es) ∧ (r = .ok true → Within o ns maxInsertSize es → fits)

theorem Limits.append {o : ByteOrder} {ns : CString} {maxInsertSize : Int} {fits fits' : Prop}
    {r : Except Halt Bool} {es es' : List Event} (h : Limits o ns maxInsertSize fits (.ok true) es)
    (h' : Limits o ns maxInsertSize fits' r es') :
    Limits o ns maxInsertSize (fits ∧ fits') r (es ++ es') := by
  refine ⟨fun hfits => within_append.mpr ⟨h.1 hfits.1, h'.1 hfits.2⟩, fun hr hes => ?_⟩
  have hboth := within_append.mp hes
  exact ⟨h.2 rfl hboth.1, h'.2 hr hboth.2⟩

section Loop

variable (fuel : Nat) {ns : CString}

/-- A round keeps the limit exactly if the documents of its packet do. -/
theorem insertBatch_limits (maxInsertSize : Int) {docs : List Document} {c : Nat} {w v : World σ}
    {r : Except Halt Bool} (hpos : 0 < c) (hle : c ≤ docs.length)
    (hrun : (insertBatch N (mongoSyncReconnect N fuel) ns c (pointers docs)).exec w = (r, v)) :
    (∀ ok, r = .ok ok → v.conn.maxInsertSize = w.conn.maxInsertSize) ∧
      w.Since v (Limits N.order ns maxInsertSize (totalSize (docs.take c) ≤ maxInsertSize) r) := by
  have hfront : docs.take c ≠ [] := by
    simp only [Ne, List.take_eq_nil_iff, not_or]
    exact ⟨by omega, fun h => by simp [h] at hle; omega⟩
  have hp := insertN_data N.order (w.conn.requestId + 1) ns hfront
  have hwithin := insertN_within maxInsertSize hfront hp
  rw [← mongoWireCmdInsertN_take N.order _ ns docs c hle] at hp
  obtain ⟨hmax, hes⟩ := insertBatch_attempts N fuel ns hp hrun
  refine ⟨hmax, hes.mono ?_⟩
  rintro es ⟨sent, q, q', rfl, hq, hq', hsent⟩
  constructor
  · intro hfits
    exact within_append.mpr ⟨hq.within (hwithin.mpr hfits), hq'.within⟩
  · intro hr hes
    obtain rfl := hsent hr
    exact hwithin.mp (hq.packet_within (within_append.mp hes).1)

/-- The loop keeps the limit exactly if the last packet does. -/
theorem insertLoop_limits (rounds : Nat) (docs : List Document) (w t : World σ)
    {r : Except Halt Bool} (hne : docs ≠ [])
    (hsmall : ∀ d ∈ docs, (d.bytes.length : Int) < w.conn.maxInsertSize)
    (hrun : (insertLoop N (mongoSyncReconnect N fuel) ns rounds (pointers docs)).exec w = (r, t)) :
    w.Since t (Limits N.order ns w.conn.maxInsertSize (LastFits w.conn.maxInsertSize docs) r) := by
  induction rounds generalizing docs w with
  | zero =>
      cases hrun
      exact ⟨[], by simp, by simp [Limits, Within]⟩
  | succ rounds ih =>
      obtain ⟨c, hc, hpos, hle, hcut⟩ := batchLength_cut hne hsmall
      rw [exec_insertLoop N rounds hc] at hrun
      cases hbatch : (insertBatch N (mongoSyncReconnect N fuel) ns c (pointers docs)).exec w with
      | mk r' v =>
          rw [hbatch] at hrun
          obtain ⟨hmax, hlimits⟩ :=
            insertBatch_limits N fuel w.conn.maxInsertSize hpos hle hbatch
          -- the packet of a round keeps the limit if the last one does
          have hfits : LastFits w.conn.maxInsertSize docs →
              totalSize (docs.take c) ≤ w.conn.maxInsertSize := by
            intro h
            rcases hcut with ⟨-, hlast⟩ | ⟨-, hroom, -⟩
            · rwa [LastFits, hlast] at h
            · exact hroom.le
          have hstop : r' ≠ .ok true → w.Since v
              (Limits N.order ns w.conn.maxInsertSize (LastFits w.conn.maxInsertSize docs) r') :=
            fun hr => hlimits.mono fun es h => ⟨h.1 ∘ hfits, fun hr' => absurd hr' hr⟩
          match r', hrun with
          | .error e, hrun =>
              cases hrun
              exact hstop (by simp)
          | .ok false, hrun =>
              cases hrun
              exact hstop (by simp)
          | .ok true, hrun =>
              dsimp only at hrun
              rw [Round.drop] at hrun
              rcases hcut with ⟨hlast, hsize⟩ | ⟨hmore, hroom, hsize⟩
              · rw [if_pos (by rw [hlast]; rfl)] at hrun
                cases hrun
                rwa [LastFits, hsize]
              · rw [if_neg (by simpa [pointers] using hmore)] at hrun
                have hsmall' : ∀ d ∈ docs.drop c,
                    (d.bytes.length : Int) < v.conn.maxInsertSize := by
                  intro d hd
                  rw [hmax true rfl]
                  exact hsmall d (List.mem_of_mem_drop hd)
                have hrest := ih (docs.drop c) v hmore hsmall' hrun
                rw [hmax true rfl] at hrest
                refine hlimits.append hrest fun es es' h h' => ?_
                have hall := h.append h'
                rwa [and_iff_right hroom.le, LastFits, ← hsize] at hall

end Loop

/-! ## The call -/

/-- Nothing is sent if there is no document, or one is too large. -/
theorem exec_insertN_refused (reconnect : Bool → Program (World σ) Bool) (ns : CString)
    (docs : List Document) (w : World σ)
    (h : ¬ (docs ≠ [] ∧ ∀ d ∈ docs, (d.bytes.length : Int) < w.conn.maxInsertSize)) :
    ∃ e, (mongoSyncCmdInsertN N reconnect (some ns) (some (pointers docs))).exec w
      = (.ok false, { w with errno := e }) := by
  rw [mongoSyncCmdInsertN]
  by_cases hne : docs = []
  · subst hne
    exact ⟨_, rfl⟩
  · have hlarge : ((pointers docs).any fun b => w.conn.maxInsertSize ≤ bsonSize b) = true := by
      simp only [not_and, not_forall, not_lt] at h
      obtain ⟨d, hd, hle⟩ := h hne
      rw [List.any_eq_true]
      refine ⟨some d.bson, List.mem_map_of_mem hd, ?_⟩
      simpa [d.size_eq] using hle
    rw [if_neg (by simpa [pointers] using hne), exec_get_bind, if_pos hlarge]
    exact ⟨_, rfl⟩

/-- The limit is kept in every run in which the last packet of the documents is not larger,
and is not kept in a run that sends all packets if the last one is larger. -/
theorem insert_limit_iff (fuel : Nat) (ns : CString) (docs : List Document) (w : World σ) :
    let run := (mongoSyncCmdInsertN N (mongoSyncReconnect N fuel) (some ns)
      (some (pointers docs))).exec w
    w.Since run.2 fun es =>
      (LastFits w.conn.maxInsertSize docs → Within N.order ns w.conn.maxInsertSize es) ∧
        (run.1 = .ok true →
          (Within N.order ns w.conn.maxInsertSize es ↔ LastFits w.conn.maxInsertSize docs)) := by
  intro run
  have hboth : w.Since run.2 (Limits N.order ns w.conn.maxInsertSize
      (LastFits w.conn.maxInsertSize docs) run.1) := by
    by_cases h : docs ≠ [] ∧ ∀ d ∈ docs, (d.bytes.length : Int) < w.conn.maxInsertSize
    · have hloop := exec_insertN_accepted N (mongoSyncReconnect N fuel) ns h.1 h.2
      exact insertLoop_limits N fuel _ docs w _ h.1 h.2 (hloop.symm.trans rfl)
    · obtain ⟨e, hrun⟩ := exec_insertN_refused N (mongoSyncReconnect N fuel) ns docs w h
      refine ⟨[], ?_, fun _ => within_nil, fun hr => ?_⟩
      · simp only [run, hrun, List.append_nil]
      · simp only [run, hrun] at hr
        cases hr
  exact hboth.mono fun es h => ⟨h.1, fun hr => ⟨h.2 hr, h.1⟩⟩

/-- A connection with room for nine bytes of documents in a packet. -/
def narrowWorld : World Nat := ((mongoSyncConnSetMaxInsertSize 9).exec staleWorld).2

/-- Two documents of five bytes are inserted there. -/
def narrowInsert : Except Halt Bool × World Nat :=
  (mongoSyncCmdInsertN silentNet (mongoSyncReconnect silentNet 2) (some someNs)
    (some (pointers [emptyDocument, emptyDocument]))).exec narrowWorld

/-- They are accepted, and sent in one packet. -/
theorem insert_limit_exceeded :
    narrowWorld.conn.maxInsertSize = 9 ∧ narrowInsert.1 = .ok true ∧
      ¬ narrowWorld.Since narrowInsert.2 (Within silentNet.order someNs 9) := by
  have hmax : narrowWorld.conn.maxInsertSize = 9 := rfl
  have hrun : narrowInsert.1 = .ok true := by decide +kernel
  refine ⟨hmax, hrun, ?_⟩
  rintro ⟨es, hlog, hwithin⟩
  have hne : [emptyDocument, emptyDocument] ≠ [] := by simp
  have hsmall : ∀ d ∈ [emptyDocument, emptyDocument],
      (d.bytes.length : Int) < narrowWorld.conn.maxInsertSize := by decide
  have hloop := exec_insertN_accepted silentNet (mongoSyncReconnect silentNet 2) someNs hne hsmall
  rw [← narrowInsert, ← Prod.mk.eta (p := narrowInsert)] at hloop
  obtain ⟨es', hlog', hlimits⟩ := insertLoop_limits silentNet 2 _ _ _ _ hne hsmall hloop.symm
  obtain rfl : es = es' := List.append_cancel_left (hlog.symm.trans hlog')
  rw [hmax] at hlimits
  have hlast : LastFits 9 [emptyDocument, emptyDocument] := hlimits.2 hrun hwithin
  have hsize : lastPacketSize 9 0 [emptyDocument, emptyDocument] = 10 := by decide
  rw [LastFits, hsize] at hlast
  omega

end LibMongo

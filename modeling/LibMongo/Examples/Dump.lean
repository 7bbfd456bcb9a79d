import LibMongo.Sync.Carry
import LibMongo.Sync.Collections

/-!
# `mongo-dump`

`examples/mongo-dump.c` writes a collection to a file: it counts the documents, reads so many
of them through a cursor, and writes each one as it came.

The file system is given from outside: which files can be opened, and how many bytes a
`write` takes.  What is printed to `stderr` is left out, except that the progress of a dump is
a division by the number of documents.
-/

namespace LibMongo

open Bytes Program

/-! ## The program -/

/-- `config_t`. -/
structure DumpConfig where
  addr : CString
  port : Int
  db : CString
  coll : CString
  output : CString
  verbose : Bool
  slaveok : Bool
  masterSync : Bool

/-- How the process ends: it returns to `main`, leaves by `exit (1)`, or divides by zero. -/
inductive DumpExit where
  | done
  | failed
  | fault
deriving DecidableEq

/-- The files that the program writes: which can be opened, and what `write` takes. -/
structure Files where
  opens : CString → Bool
  /-- How many bytes the call of `write` with this number takes. -/
  write : Nat → Bytes → Nat

/-- The name that stands for the standard output. -/
def dash : CString := .ascii ['-']

/-- `MONGO_WIRE_FLAG_QUERY_NO_CURSOR_TIMEOUT`. -/
def flagQueryNoCursorTimeout : BitVec 32 := 16

section Program

variable {σ : Type} (N : Net σ) (fuel : Nat) (files : Files) (caches : Nat → RecoveryCache)
  (config : DumpConfig)

/-- The end of a dump that fails while it is connected. -/
def dumpFails : Program (World σ) Unit := do
  let _ ← mongoSyncCmdGetLastError N (some config.db)
  let _ ← mongoSyncDisconnect N caches

/-- The loop: as many rounds as there are documents left to count, `pos` being the number of
those that were written.  It returns the cursor, unless the process leaves. -/
def dumpLoop : Nat → Nat → MongoSyncCursor → Bytes →
    Program (World σ) (Option MongoSyncCursor × Bytes)
  | 0, _, c, out => return (some c, out)
  | n + 1, pos, c, out => do
      let (more, c) ← mongoSyncCursorNext (getMoreOn N (mongoSyncReconnect N fuel)) c
      if more then
        match ← mongoSyncCursorGetData c with
        | none =>
            dumpFails N caches config
            return (none, out)
        | some b =>
            let data := ((bsonData (some b)).getD []).take (bsonSize (some b)).toNat
            let written := files.write pos data
            if (written : Int) ≠ bsonSize (some b) then return (none, out ++ data.take written)
            else dumpLoop n (pos + 1) c (out ++ data)
      else return (some c, out)

/-- The end of a dump.  The progress is the number of documents written by their number. -/
def dumpEnd (cnt : Nat) (out : Bytes) (release : Program (World σ) Unit) :
    Program (World σ) (DumpExit × Bytes) := do
  if config.verbose ∧ cnt = 0 then return (.fault, out)
  else
    release
    let _ ← mongoSyncDisconnect N caches
    return (.done, out)

/-- The part of `mongo_dump` behind the opening of the file.  There are no documents in a
cursor that is `NULL`, and it is freed without a call to the server. -/
def dumpDocuments (cnt : Nat) : Program (World σ) (DumpExit × Bytes) := do
  let ns := collectionNs config.db config.coll
  let p ← mongoSyncCmdQuery N (mongoSyncReconnect N fuel) (some ns) flagQueryNoCursorTimeout 0 10
    (bsonFinish (some bsonNew)).2 none
  match ← mongoSyncCursorNew (some ns) p with
  | none => dumpEnd N caches config cnt [] (setErrno .ENOTCONN)
  | some c =>
      let (left, out) ← dumpLoop N fuel files caches config cnt 0 c []
      match left with
      | none => return (.failed, out)
      | some c => dumpEnd N caches config cnt out (mongoSyncCursorRelease N (mongoSyncReconnect N fuel) c)

/-- The part of `mongo_dump` behind the connection: the number of documents, and the file. -/
def dumpConnected : Program (World σ) (DumpExit × Bytes) := do
  let synced ← if config.masterSync then mongoSyncReconnect N fuel true else pure true
  if !synced then return (.failed, [])
  else
    let count ← mongoSyncCmdCount N (mongoSyncReconnect N fuel) (some config.db) (some config.coll) none
    let cnt := truncated count
    if cnt < 0 then
      dumpFails N caches config
      return (.failed, [])
    else if config.output ≠ dash ∧ files.opens config.output = false then
      let _ ← mongoSyncDisconnect N caches
      return (.failed, [])
    else dumpDocuments N fuel files caches config cnt.toNat

/-- `mongo_dump`, and what it has written. -/
def mongoDump : Program (World σ) (DumpExit × Bytes) := do
  match ← mongoSyncConnect N config.addr config.port config.slaveok with
  | none => return (.failed, [])
  | some conn =>
      setConn fun _ => conn
      dumpConnected N fuel files caches config

end Program

/-! ## What is written -/

namespace Files

variable (files : Files)

/-- Whether all of the documents are written, the first being the one with number `pos`, and
the bytes that are. -/
def writeAll : Nat → List Bytes → Bool × Bytes
  | _, [] => (true, [])
  | pos, b :: bs =>
      if files.write pos b = b.length then
        ((writeAll (pos + 1) bs).1, b ++ (writeAll (pos + 1) bs).2)
      else (false, b.take (files.write pos b))

theorem writeAll_front (bs : List Bytes) :
    ∀ pos, (files.writeAll pos bs).2 <+: bs.flatten ∧
      ((files.writeAll pos bs).1 = true → (files.writeAll pos bs).2 = bs.flatten) := by
  induction bs with
  | nil => exact fun _ => ⟨List.prefix_rfl, fun _ => rfl⟩
  | cons b bs ih =>
      intro pos
      obtain ⟨hfront, hall⟩ := ih (pos + 1)
      rw [writeAll, List.flatten_cons]
      split
      · exact ⟨(List.prefix_append_right_inj b).mpr hfront, fun h => by rw [hall h]⟩
      · exact ⟨(List.take_prefix _ b).trans (List.prefix_append b _), fun h => nomatch h⟩

/-- Every `write` takes all of its bytes. -/
theorem writeAll_of_full {bs : List Bytes} :
    ∀ {pos : Nat}, (∀ i (h : i < bs.length), files.write (pos + i) bs[i] = bs[i].length) →
      (files.writeAll pos bs).1 = true := by
  induction bs with
  | nil => exact fun _ => rfl
  | cons b bs ih =>
      intro pos hfull
      have hfirst : files.write pos b = b.length := hfull 0 (Nat.zero_lt_succ _)
      rw [writeAll, if_pos hfirst]
      refine ih fun i h => ?_
      have hnext := hfull (i + 1) (Nat.succ_lt_succ h)
      rwa [← Nat.add_assoc, Nat.add_right_comm] at hnext

end Files

/-! ## Dumping a database -/

section Dump

variable {S : Type} {V : Service S} (D : Database V) (fuel : Nat) (files : Files)
  (caches : Nat → RecoveryCache) (config : DumpConfig)

/-- A document that was found is written, or the process leaves. -/
theorem exec_dumpLoop_found {N : Net S} {n pos : Nat} {c c' : MongoSyncCursor} {out : Bytes} {d : Doc}
    {w w' w'' : World S}
    (hnext : (mongoSyncCursorNext (getMoreOn N (mongoSyncReconnect N fuel)) c).exec w
      = (.ok (true, c'), w'))
    (hdata : (mongoSyncCursorGetData c').exec w' = (.ok (some ⟨d.encode, true⟩), w''))
    (hsmall : d.encode.length < 2147483648) :
    (dumpLoop N fuel files caches config (n + 1) pos c out).exec w
      = if files.write pos d.encode = d.encode.length then
          (dumpLoop N fuel files caches config n (pos + 1) c' (out ++ d.encode)).exec w''
        else (.ok (none, out ++ d.encode.take (files.write pos d.encode)), w'') := by
  have hsize : bsonSize (some ⟨d.encode, true⟩) = d.encode.length := bsonSize_finished rfl hsmall
  have htake : ((bsonData (some ⟨d.encode, true⟩)).getD []).take
      (bsonSize (some ⟨d.encode, true⟩)).toNat = d.encode := by
    rw [hsize, Int.toNat_natCast, bsonData_finished rfl]
    exact List.take_length
  rw [dumpLoop, exec_bind_ok hnext]
  dsimp only
  rw [if_pos rfl, exec_bind_ok hdata]
  dsimp only
  rw [htake, hsize]
  by_cases hwrite : files.write pos d.encode = d.encode.length
  · rw [if_pos hwrite, if_neg (fun h => h (congrArg _ hwrite))]
  · rw [if_neg hwrite, if_pos (by exact_mod_cast hwrite)]
    rfl

/-- The loop writes what the cursor has left, as far as the file takes it. -/
theorem exec_dumpLoop (xs : List Doc) :
    ∀ (pos : Nat) {c : MongoSyncCursor} {p : Place} (out : Bytes) {w : World (Desk S)},
      V.view.valid w → c.At V.order p → p.held = true → p.ns.length < 2147482000 →
      D.rest w.net.server p = xs → (∀ x ∈ xs, x.Ordinary) →
      ∃ left w', (dumpLoop V.net fuel files caches config xs.length pos c out).exec w
          = (.ok (left, out ++ (files.writeAll pos (xs.map Doc.encode)).2), w') ∧
        D.contents w'.net.server = D.contents w.net.server ∧
        if (files.writeAll pos (xs.map Doc.encode)).1 then
          V.view.valid w' ∧ ∃ c' p', left = some c' ∧ c'.At V.order p'
        else left = none := by
  induction xs with
  | nil =>
      intro pos c p out w hw hat _ _ _ _
      refine ⟨some c, w, ?_, rfl, ?_⟩
      · rw [List.map_nil, Files.writeAll, List.append_nil]
        rfl
      · exact ⟨hw, c, p, rfl, hat⟩
  | cons x xs ih =>
      intro pos c p out w hw hat hheld hns hrest hordinary
      obtain ⟨p', d', hnext, hheld', hdata, hmem, hns', hrest', hsame⟩ :=
        D.exec_cursorNext_cons (d := V.view.view w) hheld hrest hordinary
      obtain ⟨⟨more, c'⟩, w', hrun, ⟨rfl, hat', -⟩, hw', hview⟩ :=
        (V.cursorNext_refines (mongoSyncReconnect V.net fuel) hat hns w hw).run hnext
      obtain ⟨b, w'', hget, hb, hw'', hview'⟩ :=
        (V.cursorGetData_refines hat' w' hw').run (hdata _)
      have hdoc : b = some ⟨x.encode, true⟩ := hb
      subst hdoc
      have hsmall := p'.reply.small_of_mem hmem
      have hserver : w''.net.server = d'.server := congrArg Dialogue.server (hview'.trans hview)
      have hcontents : D.contents w''.net.server = D.contents w.net.server := by
        rw [hserver]
        exact hsame.contents
      rw [List.length_cons, exec_dumpLoop_found fuel files caches config hrun hget hsmall, List.map_cons,
        Files.writeAll]
      by_cases hwrite : files.write pos x.encode = x.encode.length
      · obtain ⟨left, v, hloop, hunchanged, hleft⟩ := ih (pos + 1) (out ++ x.encode) hw''
          hat' hheld' (by rwa [hns']) (by rw [hserver, hrest'])
          fun y hy => hordinary y (List.mem_cons_of_mem x hy)
        rw [if_pos hwrite, if_pos hwrite]
        refine ⟨left, v, ?_, hunchanged.trans hcontents, hleft⟩
        rw [hloop, List.append_assoc]
      · rw [if_neg hwrite, if_neg hwrite]
        exact ⟨none, w'', rfl, hcontents, rfl⟩

/-- The server does not hear that the socket is closed. -/
theorem exec_disconnect (w : World (Desk S)) :
    ∃ caches' w', (mongoSyncDisconnect V.net caches).exec w = (.ok caches', w') ∧
      w'.net.server = w.net.server := by
  have hclosed : ∃ w', (mongoDisconnect V.net).exec w = (.ok (), w') ∧ w'.net.server = w.net.server := by
    rw [mongoDisconnect, exec_get_bind]
    split
    · exact ⟨_, rfl, rfl⟩
    · exact ⟨_, rfl, rfl⟩
  obtain ⟨w', hrun, hserver⟩ := hclosed
  have hreturn : ∀ c : Nat → RecoveryCache, (mongoDisconnect V.net >>= fun _ => pure c).exec w
      = (.ok c, w') :=
    fun c => (exec_bind_ok hrun _).trans rfl
  rw [mongoSyncDisconnect, exec_get_bind]
  exact ⟨_, w', hreturn _, hserver⟩

/-- How a dump ends in which everything is written. -/
def dumpExit (docs : List Doc) : DumpExit := if config.verbose ∧ docs = [] then .fault else .done

theorem exec_dumpEnd {release : Program (World (Desk S)) Unit} (docs : List Doc) {w w' : World (Desk S)}
    (out : Bytes) (hrelease : release.exec w = (.ok (), w'))
    (hcontents : D.contents w'.net.server = D.contents w.net.server) :
    ∃ w'', (dumpEnd V.net caches config docs.length out release).exec w
        = (.ok (dumpExit config docs, out), w'') ∧ D.contents w''.net.server = D.contents w.net.server := by
  rw [dumpEnd, dumpExit]
  simp only [List.length_eq_zero_iff]
  split
  · exact ⟨w, rfl, rfl⟩
  · obtain ⟨caches', w'', hrun, hserver⟩ := exec_disconnect (V := V) caches w'
    refine ⟨w'', ?_, by rw [hserver, hcontents]⟩
    rw [exec_bind_ok hrelease, exec_bind_ok hrun]
    rfl

/-- A query with a document that was built. -/
theorem queryDoc_refines (reconnect : Bool → Program (World (Desk S)) Bool) {ns : CString} {q : Doc}
    {query : Option Bson} (hquery : query = some ⟨q.encode, true⟩)
    (hroom : ns.length + q.encode.length < 2147482000) (flags ret : BitVec 32) :
    Refines V.view V.Same (mongoSyncCmdQuery V.net reconnect (some ns) flags 0 ret query none)
      (Dialogue.query V ns flags 0 ret q.encode none) := by
  subst hquery
  have hq : q.encode.length < 2147483648 := by omega
  have hsmall : 16 + (WireCall.query ns flags 0 ret (.ofDoc q hq) none).dataSize < 2147483648 := by
    simp only [WireCall.dataSize, Document.bytes, Document.ofDoc, Option.map_none,
      Option.getD_none, List.length_nil]
    omega
  have hrefines := V.query_refines reconnect flags 0 ret hsmall
  exact hrefines

/-- The documents of the collection are read and written, if there are so many. -/
theorem exec_dumpDocuments {docs : List Doc} {w : World (Desk S)} (hw : V.view.valid w)
    (hlen : (collectionNs config.db config.coll).length < 2147481000)
    (hns : ¬ IsCommand (collectionNs config.db config.coll))
    (hdocs : D.contents w.net.server (collectionNs config.db config.coll) = docs)
    (hordinary : ∀ x ∈ docs, x.Ordinary) :
    ∃ w', (dumpDocuments V.net fuel files caches config docs.length).exec w
        = (.ok (if (files.writeAll 0 (docs.map Doc.encode)).1 then dumpExit config docs else .failed,
            (files.writeAll 0 (docs.map Doc.encode)).2), w') ∧
      D.contents w'.net.server = D.contents w.net.server := by
  have hroom : (collectionNs config.db config.coll).length + Doc.nil.encode.length < 2147482000 := by
    rw [Doc.encode_length, Doc.elems_nil, List.length_nil]
    omega
  obtain ⟨rc, d, hfound, hturned, hsame⟩ := D.exec_query (q := .nil) hns flagQueryNoCursorTimeout
    (show (10 : BitVec 32) ≠ 1 by decide) (V.view.view w) (hdocs ▸ hordinary)
  have hall : (D.contents (V.view.view w).server (collectionNs config.db config.coll)).filter
      (D.selects .nil) = docs := by
    rw [List.filter_eq_self.mpr fun x _ => D.selects_nil x]
    exact hdocs
  rw [hall] at hturned
  have hempty : (bsonFinish (some bsonNew)).2 = some ⟨Doc.nil.encode, true⟩ := (builds_new 0).finish
  obtain ⟨p, u, hrun, hpr, hu, hview⟩ := (queryDoc_refines (mongoSyncReconnect V.net fuel) hempty hroom
    flagQueryNoCursorTimeout 10 w hw).run hfound
  have hcontents : D.contents u.net.server = D.contents w.net.server :=
    (congrArg (fun d => D.contents d.server) hview).trans hsame.contents
  rw [dumpDocuments]
  dsimp only
  rw [exec_bind_ok hrun]
  cases docs with
  | nil =>
      cases hturned.eq_none
      obtain ⟨cursor, v, hnew, hnone, -, hview'⟩ :=
        (V.cursorNew_refines (collectionNs config.db config.coll) hpr u hu).run rfl
      cases hnone
      have hcontents' : D.contents v.net.server = D.contents w.net.server :=
        (congrArg (fun d => D.contents d.server) hview').trans hcontents
      obtain ⟨w', hend, hsame'⟩ := exec_dumpEnd D caches config [] (w := v) []
        (show (setErrno .ENOTCONN).exec v = (.ok (), { v with errno := .ENOTCONN }) from rfl) rfl
      refine ⟨w', ?_, hsame'.trans hcontents'⟩
      rw [exec_bind_ok hnew]
      exact hend
  | cons x xs =>
      obtain ⟨r, rfl, hrest⟩ := hturned.eq_some
      obtain ⟨cursor, v, hnew, hsome, hv, hview'⟩ :=
        (V.cursorNew_refines (collectionNs config.db config.coll) hpr u hu).run rfl
      cases hsome with
      | @some c _ hcq =>
          obtain ⟨hat, hplace⟩ := hcq
          have hserver : v.net.server = d.server :=
            congrArg Dialogue.server (hview'.trans hview)
          have hcontents' : D.contents v.net.server = D.contents w.net.server :=
            (congrArg (fun d => D.contents d.server) hview').trans hcontents
          obtain ⟨left, v', hloop, hkept, hleft⟩ := exec_dumpLoop D fuel files caches config (x :: xs)
            0 [] hv hat rfl (by rw [hplace]; omega) (by rw [hserver]; exact hrest) hordinary
          rw [exec_bind_ok hnew]
          dsimp only
          rw [exec_bind_ok hloop, List.nil_append]
          by_cases hwritten : (files.writeAll 0 ((x :: xs).map Doc.encode)).1 = true
          · rw [if_pos hwritten] at hleft ⊢
            obtain ⟨hv', c', p', rfl, hat'⟩ := hleft
            obtain ⟨⟨⟩, v'', hrelease, -, -, hview''⟩ :=
              (V.cursorRelease_refines (mongoSyncReconnect V.net fuel) hat' v' hv').run rfl
            have hkilled := D.killCursors v'.net.server [p'.reply.reply.cursorId]
            obtain ⟨w', hend, hsame'⟩ := exec_dumpEnd D caches config (x :: xs)
              (files.writeAll 0 ((x :: xs).map Doc.encode)).2 hrelease
              ((congrArg (fun d => D.contents d.server) hview'').trans hkilled)
            exact ⟨w', hend, hsame'.trans (hkept.trans hcontents')⟩
          · rw [if_neg hwritten] at hleft ⊢
            subst hleft
            exact ⟨v', rfl, hkept.trans hcontents'⟩

/-- The documents are counted first. -/
theorem exec_dumpConnected {docs : List Doc} {w : World (Desk S)} (hw : V.view.valid w)
    (hmaster : config.masterSync = false) (hopens : config.output = dash ∨ files.opens config.output = true)
    (hlen : (collectionNs config.db config.coll).length < 2147481000)
    (hns : ¬ IsCommand (collectionNs config.db config.coll))
    (hdocs : D.contents w.net.server (collectionNs config.db config.coll) = docs)
    (hordinary : ∀ x ∈ docs, x.Ordinary) (hcount : docs.length < 9007199254740992) :
    ∃ w', (dumpConnected V.net fuel files caches config).exec w
        = (.ok (if (files.writeAll 0 (docs.map Doc.encode)).1 then dumpExit config docs else .failed,
            (files.writeAll 0 (docs.map Doc.encode)).2), w') ∧
      D.contents w'.net.server = D.contents w.net.server := by
  have hroom : Service.Room config.db (countDoc config.coll none).encode := by
    have hkey : countKey.bytes.length = 5 := rfl
    simp only [collectionNs, CString.length, CString.append, List.length_append] at hlen
    simp only [Service.Room, countDoc, Doc.encode_length, Doc.elems_cons, element_length, Value.encode,
      textImage_length, List.length_append, Doc.elems_nil, List.length_nil, hkey, CString.length]
    omega
  have hsmall : (countDoc config.coll none).encode.length < 2147483648 := by
    rw [Service.Room] at hroom
    omega
  obtain ⟨x, d, hcounted, hx, hsame⟩ := D.exec_count config.db hsmall (V.view.view w)
  obtain ⟨x', v, hrun, heq, hv, hview⟩ :=
    (V.count_refines (mongoSyncReconnect V.net fuel) hroom w hw).run hcounted
  subst heq
  have hcontents : D.contents v.net.server = D.contents w.net.server :=
    (congrArg (fun d => D.contents d.server) hview).trans hsame.contents
  have hdocs' : D.contents (V.view.view w).server (collectionNs config.db config.coll) = docs := hdocs
  rw [hdocs'] at hx
  have htruncated := hx hcount
  obtain ⟨w', hdumped, hkept⟩ := exec_dumpDocuments D fuel files caches config hv hlen hns
    (by rw [hcontents]; exact hdocs) hordinary
  have hopened : ¬ (config.output ≠ dash ∧ files.opens config.output = false) := by
    rintro ⟨hne, hclosed⟩
    rcases hopens with heq | hopen
    · exact hne heq
    · rw [hopen] at hclosed
      cases hclosed
  refine ⟨w', ?_, hkept.trans hcontents⟩
  rw [dumpConnected, hmaster, if_neg Bool.false_ne_true, pure_bind]
  show (if (!true) = true then _ else _ : Program (World (Desk S)) (DumpExit × Bytes)).exec w = _
  rw [if_neg (show ¬ (!true) = true by decide)]
  refine (exec_bind_ok hrun _).trans ?_
  dsimp only
  rw [htruncated, if_neg (by omega), if_neg hopened, Int.toNat_natCast]
  exact hdumped

end Dump

/-- Two documents in each collection of a shelf. -/
def dumpWorld : World (Desk Shelf) :=
  ⟨⟨⟨fun _ => [⟨noEntry.doc, noEntry.small⟩, ⟨noEntry.doc, noEntry.small⟩], fun _ => [], 0⟩, fun _ => []⟩,
    shelfWorld.conn, .ok, 4, []⟩

/-- The options of a dump to the standard output. -/
def dumpConfig : DumpConfig := ⟨shelfDb, 27017, shelfDb, shelfColl, dash, true, false, false⟩

/-- A file that takes everything. -/
def takesAll : Files := ⟨fun _ => true, fun _ b => b.length⟩

end LibMongo

import LibMongo.Gridfs.Reader
import LibMongo.Gridfs.Agree

/-!
# What is uploaded can be read

A file is uploaded from a buffer to a store and found again by its id.  The stream reports
the length and the size of the chunks, and reading returns the bytes of the buffer
(`upload_retrieved`).

The store refuses a second document with the same key.  So if the upload succeeds there was
no chunk with the id and the number of one of its chunks before, and the queries find those
of the upload (`insertChunks_stored`).
-/

namespace LibMongo

open Bytes Interaction Program Store

/-! ## The document of a file -/

/-- The metadata leaves the keys alone that GridFS uses, and those of an error. -/
def Doc.Unreserved (m : Doc) : Prop :=
  ∀ key ∈ [idKey, lengthKey, chunkSizeKey, uploadDateKey, md5Key, errKey, errmsgKey],
    m.lookup key = none

section File

variable {m : Doc} {md5 : CString} {gfs : MongoSyncGridfs} {oid : Oid} {size : Nat} {tv : GTimeVal}

theorem Doc.Unreserved.id (h : m.Unreserved) :
    (m.append (uploadFields md5 gfs oid size tv)).lookup idKey = some (.oid oid) := by
  rw [Doc.lookup_append, h idKey (by simp)]
  rfl

/-- The document is not taken for a report of an error. -/
theorem Doc.Unreserved.errorValue (h : m.Unreserved) :
    (m.append (uploadFields md5 gfs oid size tv)).errorValue = none := by
  have hkey : ∀ key, m.lookup key = none → (uploadFields md5 gfs oid size tv).lookup key = none →
      (m.append (uploadFields md5 gfs oid size tv)).lookup key = none := by
    intro key hm hfields
    rw [Doc.lookup_append, hm, hfields]
    rfl
  rw [Doc.errorValue, hkey errKey (h errKey (by simp)) rfl,
    hkey errmsgKey (h errmsgKey (by simp)) rfl]
  rfl

/-- The reader of a file, as it is found. -/
def newReader (gfs : MongoSyncGridfs) (oid : Oid) (size : Nat) : GridfsReader where
  gfs := gfs
  chunkSize := gfs.chunkSize
  length := size
  offset := 0
  currentChunk := 0
  id := oid
  bson := none
  data := none
  startOffset := 0
  size := 0
  chunkOffset := 0

/-- The id is the last field. -/
theorem uploadFields_eq : uploadFields md5 gfs oid size tv
    = (closeFields md5 gfs.chunkSize size tv).append (.cons idKey (.oid oid) .nil) := by
  simp [uploadFields, closeFields]

/-- The sizes are read from an element behind them. -/
theorem findSizes_upload {b : Bson}
    (h : b.Encodes (m.append (uploadFields md5 gfs oid size tv))) (hm : m.Unreserved)
    (hpos : 0 < size) (hlt : size < 2 ^ 63) :
    ∃ c, findSizes (some (.behind b (m.append (closeFields md5 gfs.chunkSize size tv)) idKey))
      = .ok (size, gfs.chunkSize, c) := by
  have hlength := hm lengthKey (by simp)
  rw [uploadFields_eq, ← Doc.append_assoc] at h
  have hfind := cursorFind_before lengthKey h rfl hlength
  rw [Doc.append_assoc, closeFields, Doc.cons_append, Doc.cons_append] at h
  have hlong := h.getInt64
  have hnext := cursorFind_behind (m := .nil) chunkSizeKey h (by decide) rfl
  have hshort : bsonCursorGetInt32 (some (.behind b (m.append (.cons lengthKey
      (.int64 (BitVec.ofNat 64 size)) .nil)) chunkSizeKey))
        = .ok (some (BitVec.ofNat 32 gfs.chunkSize)) := by
    have hsplit : ∀ r : Doc, m.append (.cons lengthKey (.int64 (BitVec.ofNat 64 size)) r)
        = (m.append (.cons lengthKey (.int64 (BitVec.ofNat 64 size)) .nil)).append r := by
      intro r
      rw [Doc.append_assoc, Doc.cons_append, Doc.nil_append]
    rw [hsplit] at h
    exact h.getInt32
  have hN : (BitVec.ofNat 64 size).toInt = size := by
    rw [BitVec.toInt_eq_toNat_of_lt (by rw [BitVec.toNat_ofNat]; omega), BitVec.toNat_ofNat]
    omega
  have hc : (BitVec.ofNat 32 gfs.chunkSize).toInt = gfs.chunkSize := by
    have := gfs.chunkSize_lt
    rw [BitVec.toInt_eq_toNat_of_lt (by rw [BitVec.toNat_ofNat]; omega), BitVec.toNat_ofNat]
    omega
  refine ⟨some (.behind b (m.append (.cons lengthKey (.int64 (BitVec.ofNat 64 size)) .nil))
    chunkSizeKey), ?_⟩
  rw [findSizes, closeFields, hfind, ok_bind]
  dsimp only
  rw [cursorLength, hlong, ok_bind]
  dsimp only
  rw [Option.map_some, Option.getD_some, hN, if_neg (by omega)]
  show (bsonCursorFind _ _ >>= _) = _
  rw [hnext, ok_bind]
  dsimp only
  rw [hshort, ok_bind, Option.map_some, Option.getD_some, hc]
  rfl

/-- The stream that is made of the document of an uploaded file. -/
theorem streamReader_upload {b : Bson}
    (h : b.Encodes (m.append (uploadFields md5 gfs oid size tv))) (hm : m.Unreserved)
    (hpos : 0 < size) (hlt : size < 2 ^ 63) :
    streamReader gfs (some b) = .ok (.ok (.reader (newReader gfs oid size))) := by
  obtain ⟨c, hsizes⟩ := findSizes_upload h hm hpos hlt
  have hchunk := gfs.chunkSize_pos
  have hnone : (m.append (closeFields md5 gfs.chunkSize size tv)).lookup idKey = none := by
    rw [Doc.lookup_append, hm idKey (by simp)]
    rfl
  rw [uploadFields_eq, ← Doc.append_assoc] at h
  have hid := bsonFind_first h hnone
  have hget := h.getOid
  rw [streamReader, hid, ok_bind, hget, ok_bind]
  dsimp only
  rw [hsizes, ok_bind]
  dsimp only
  rw [if_neg (by omega)]
  rfl

end File

/-! ## What is stored is found -/

namespace Store

variable {s : Store} {coll : Collection} {d e sel : Doc}

/-- What was found is still found when more is stored. -/
theorem find_add (h : s.find coll sel = some e) : (s.add coll d).find coll sel = some e := by
  cases coll with
  | files =>
      show (s.files ++ [d]).find? _ = _
      rw [List.find?_append, show s.files.find? _ = _ from h]
      rfl
  | chunks =>
      show (s.chunks ++ [d]).find? _ = _
      rw [List.find?_append, show s.chunks.find? _ = _ from h]
      rfl

/-- A document with a new key is found by a selector that asks for its key. -/
theorem find_accepted (h : s.accepts coll d = true) (hself : d.matchedBy sel = true)
    (hkey : ∀ e : Doc, d.clashes coll.keys e = e.matchedBy sel) :
    (s.add coll d).find coll sel = some d := by
  have hnone : (s.docs coll).find? (fun e => e.matchedBy sel) = none := by
    rw [List.find?_eq_none]
    intro e he hmatch
    have hnew := List.all_eq_true.mp h e he
    rw [hkey, hmatch] at hnew
    cases hnew
  cases coll with
  | files =>
      show (s.files ++ [d]).find? _ = _
      rw [List.find?_append, show s.files.find? _ = _ from hnone]
      simp [hself]
  | chunks =>
      show (s.chunks ++ [d]).find? _ = _
      rw [List.find?_append, show s.chunks.find? _ = _ from hnone]
      simp [hself]

end Store

theorem chunkDoc_clashes (oid : Oid) (n : Nat) (data : Bytes) (e : Doc) :
    (chunkDoc oid n data).clashes Collection.chunks.keys e = e.matchedBy (chunkSelector oid n) := by
  simp [Doc.clashes, Collection.keys, Doc.matchedBy, chunkSelector]

theorem chunkDoc_matchedBy (oid : Oid) (n : Nat) (data : Bytes) :
    (chunkDoc oid n data).matchedBy (chunkSelector oid n) = true := by
  simp [Doc.matchedBy, Doc.has, chunkSelector]

/-- The selector of a file. -/
def fileSelector (oid : Oid) : Doc := .cons idKey (.oid oid) .nil

theorem fileDoc_clashes {oid : Oid} {d : Doc} (h : d.lookup idKey = some (.oid oid)) (e : Doc) :
    d.clashes Collection.files.keys e = e.matchedBy (fileSelector oid) := by
  simp [Doc.clashes, Collection.keys, Doc.matchedBy, fileSelector, h]

theorem fileDoc_matchedBy {oid : Oid} {d : Doc} (h : d.lookup idKey = some (.oid oid)) :
    d.matchedBy (fileSelector oid) = true := by
  simp [Doc.matchedBy, Doc.has, fileSelector, h]

section Upload

variable {fate : Fate} {o : ByteOrder} {gfs : MongoSyncGridfs} {oid : Oid}

/-- What a step of an upload leaves alone: ids, and what chunks are found. -/
structure Store.Grows (s s' : Store) : Prop where
  oid : s'.oid = s.oid
  chunks : ∀ {sel d}, s.find .chunks sel = some d → s'.find .chunks sel = some d

theorem Store.Grows.refl (s : Store) : s.Grows s := ⟨rfl, fun h => h⟩

theorem Store.Grows.trans {s t u : Store} (h : s.Grows t) (h' : t.Grows u) : s.Grows u :=
  ⟨h'.oid.trans h.oid, fun hd => h'.chunks (h.chunks hd)⟩

theorem Store.grows_add (s : Store) (coll : Collection) (d : Doc) : s.Grows (s.tried.add coll d) := by
  cases coll with
  | files => exact ⟨rfl, fun h => h⟩
  | chunks => exact ⟨rfl, fun h => find_add (s := s.tried) h⟩

/-- The loop stores the chunks, if it succeeds. -/
theorem insertChunks_stored {fuel n : Nat} {rest : Bytes} {chk chk' : GChecksum} {w w' : World Store}
    (h : ((insertChunks gfs oid fuel n rest chk).run (serve fate o)).exec w
      = (.ok (.ok chk'), w')) :
    w.net.Grows w'.net ∧ ∀ k (hk : k < (pieces gfs.chunkSize rest).length),
      w'.net.find .chunks (chunkSelector oid (n + k : Nat))
          = some (chunkDoc oid (n + k) (pieces gfs.chunkSize rest)[k]) ∧
        (chunkDoc oid (n + k) (pieces gfs.chunkSize rest)[k]).encode.length < 2147483612 := by
  induction fuel generalizing n rest chk w with
  | zero => cases h
  | succ fuel ih =>
      by_cases hrest : rest = []
      · subst hrest
        rw [insertChunks, if_pos rfl] at h
        cases h
        refine ⟨.refl _, fun k hk => ?_⟩
        rw [pieces_nil gfs.chunkSize_pos] at hk
        exact absurd hk (Nat.not_lt_zero k)
      · obtain ⟨htake, hdrop⟩ := take_csize gfs rest
        rw [insertChunks, if_neg hrest] at h
        simp only [htake, hdrop] at h
        obtain ⟨r, v, hinsert, hnext⟩ := exec_run_bind_eq_ok.mp h
        cases r with
        | error e => cases hnext
        | ok u =>
            have hblock : rest.take gfs.chunkSize ≠ [] := by
              intro hnil
              have hc := gfs.chunkSize_pos
              rcases List.take_eq_nil_iff.mp hnil with hzero | hnil
              · omega
              · exact hrest hnil
            rw [chunkBson_eq oid n hblock] at hinsert
            obtain ⟨hfits, haccepts, hv⟩ := exec_insert_eq_ok hinsert
            have hgrows : w.net.Grows v.net := by
              rw [hv]
              exact w.net.grows_add .chunks _
            have hfound : v.net.find .chunks (chunkSelector oid n)
                = some (chunkDoc oid n (rest.take gfs.chunkSize)) := by
              rw [hv]
              exact find_accepted (show w.net.tried.accepts .chunks _ = true from haccepts)
                (chunkDoc_matchedBy oid n _) (chunkDoc_clashes oid n _)
            obtain ⟨hgrows', hchunks⟩ := ih hnext
            refine ⟨hgrows.trans hgrows', fun k hk => ?_⟩
            simp only [pieces_eq_cons gfs.chunkSize_pos hrest] at hk ⊢
            cases k with
            | zero => exact ⟨hgrows'.chunks hfound, hfits⟩
            | succ k =>
                have hchunk := hchunks k (Nat.lt_of_succ_lt_succ hk)
                rw [Nat.add_right_comm] at hchunk
                exact hchunk

/-- An upload that succeeds has stored the chunks and the document of its file. -/
theorem upload_stored {md5 : Bytes → CString} {metadata : Option Bson} {data : Bytes}
    {w w' : World Store} {file : MongoSyncGridfsChunkedFile}
    (hmeta : ∀ b, metadata = some b → ∃ m, b.Encodes m ∧ m.Unreserved) (hne : data ≠ [])
    (h : ((mongoSyncGridfsChunkedFileNewFromBuffer md5 gfs metadata (some data)).run
      (serve fate o)).exec w = (.ok (.ok file), w')) :
    ∃ (oid : Oid) (m : Doc) (sum : CString) (tv : GTimeVal), file.oid = some oid ∧ m.Unreserved ∧
      w'.net.HasChunks oid (pieces gfs.chunkSize data) ∧
      w'.net.find .files (fileSelector oid)
        = some (m.append (uploadFields sum gfs oid data.length tv)) ∧
      (m.append (uploadFields sum gfs oid data.length tv)).encode.length < 2147483612 := by
  unfold mongoSyncGridfsChunkedFileNewFromBuffer at h
  dsimp only at h
  rw [if_neg hne] at h
  obtain ⟨id, w₁, hid, h⟩ := exec_run_bind_eq_ok.mp h
  rw [exec_run_perform] at hid
  obtain rfl : w = w₁ := by
    cases hid
    rfl
  cases id with
  | none => cases h
  | some oid =>
      obtain ⟨inserted, w₂, hloop, h⟩ := exec_run_bind_eq_ok.mp h
      cases inserted with
      | error e => cases h
      | ok chk =>
          obtain ⟨front, w₃, hfront, h⟩ := exec_run_bind_eq_ok.mp h
          have hbuilds : w₂ = w₃ ∧ ∃ m, Builds front m ∧ m.Unreserved := by
            cases metadata with
            | none =>
                cases hfront
                exact ⟨rfl, .nil, builds_new 128, fun _ _ => rfl⟩
            | some b =>
                obtain ⟨m, hb, hm⟩ := hmeta b rfl
                obtain ⟨c, hc, hbuilds⟩ := builds_reopen hb
                rw [exec_run_ofExcept, hc] at hfront
                cases hfront
                exact ⟨rfl, m, hbuilds, hm⟩
          obtain ⟨rfl, m, hbuilds, hm⟩ := hbuilds
          obtain ⟨tv, w₄, htime, h⟩ := exec_run_bind_eq_ok.mp h
          obtain rfl : w₂ = w₄ := by
            rw [exec_run_perform] at htime
            cases htime
            rfl
          obtain ⟨stored, w₅, hinsert, h⟩ := exec_run_bind_eq_ok.mp h
          rw [uploadMeta_eq md5 gfs oid data.length tv chk hbuilds] at hinsert
          cases stored with
          | error e => cases h
          | ok u =>
              obtain ⟨hfits, haccepts, hw₅⟩ := exec_insert_eq_ok hinsert
              have hlast : w' = w₅ := by
                refine exec_run_silent ?_ h
                refine (calls_ofExcept _).bind fun c => (calls_ofExcept _).bind fun id => ?_
                exact (calls_ofExcept _).bind fun p => (calls_ofExcept _).bind fun sum => trivial
              obtain ⟨hgrows, hchunks⟩ := insertChunks_stored hloop
              have hfile : file.oid = some oid := by
                have henc : Bson.Encodes
                    ⟨(m.append (uploadFields (md5 chk.fed) gfs oid data.length tv)).encode, true⟩ _ :=
                  ⟨rfl, rfl, Nat.lt_trans hfits (by decide)⟩
                have hfind := find_getOid henc idKey
                rw [uploadMeta_eq md5 gfs oid data.length tv chk hbuilds] at h
                obtain ⟨c, s₁, hc, h⟩ := exec_run_bind_eq_ok.mp h
                obtain ⟨id, s₂, hget, h⟩ := exec_run_bind_eq_ok.mp h
                obtain ⟨p, s₃, -, h⟩ := exec_run_bind_eq_ok.mp h
                obtain ⟨sum, s₄, -, h⟩ := exec_run_bind_eq_ok.mp h
                rw [exec_run_ofExcept] at hc hget
                rw [(Prod.mk.inj hc).1, ok_bind, (Prod.mk.inj hget).1, hm.id] at hfind
                cases h
                exact Except.ok.inj hfind
              refine ⟨oid, m, md5 chk.fed, tv, hfile, hm, ?_, ?_, hfits⟩
              · constructor
                intro k hk
                obtain ⟨hfound, hlen⟩ := hchunks k hk
                rw [Nat.zero_add] at hfound hlen
                rw [hlast, hw₅]
                exact ⟨_, hfound, rfl, rfl, hlen⟩
              · rw [hlast, hw₅]
                exact find_accepted (show w₂.net.tried.accepts .files _ = true from haccepts)
                  (fileDoc_matchedBy hm.id) (fileDoc_clashes hm.id)

end Upload

/-! ## Finding and reading -/

/-- One read after the other, up to the first that fails. -/
def readAll (s : MongoSyncGridfsStream) :
    List Nat → Grid (Except Errno (List Bytes) × MongoSyncGridfsStream)
  | [] => return (.ok [], s)
  | n :: ns => do
      match ← mongoSyncGridfsStreamRead (n + 1) s (some n) with
      | (.error e, s) => return (.error e, s)
      | (.ok bytes, s) =>
          match ← readAll s ns with
          | (.error e, s) => return (.error e, s)
          | (.ok bs, s) => return (.ok (bytes :: bs), s)

/-- What reads of these sizes have to return: each the next bytes, up to its size. -/
def servings (data : Bytes) : List Nat → List Bytes
  | [] => []
  | n :: ns => data.take n :: servings (data.drop n) ns

@[simp] theorem servings_length (data : Bytes) (ns : List Nat) :
    (servings data ns).length = ns.length := by
  induction ns generalizing data with
  | nil => rfl
  | cons n ns ih => rw [servings, List.length_cons, ih, List.length_cons]

/-- Together they are the bytes of the file, as many as were asked for. -/
theorem flatten_servings (data : Bytes) (ns : List Nat) :
    (servings data ns).flatten = data.take ns.sum := by
  induction ns generalizing data with
  | nil => rfl
  | cons n ns ih => rw [servings, List.flatten_cons, ih, List.sum_cons, List.take_add]

/-- Each begins where the one before ends, and is as long as its size or as what is left. -/
theorem getElem_servings (data : Bytes) (ns : List Nat) {k : Nat} (hk : k < ns.length) :
    (servings data ns)[k]? = some ((data.drop (ns.take k).sum).take ns[k]) := by
  induction ns generalizing data k with
  | nil => exact absurd hk (Nat.not_lt_zero k)
  | cons n ns ih =>
      cases k with
      | zero => rfl
      | succ k =>
          rw [servings, List.getElem?_cons_succ, ih (data.drop n) (Nat.lt_of_succ_lt_succ hk),
            List.take_succ_cons, List.sum_cons, List.drop_drop, List.getElem_cons_succ]

section Reads

variable {o : ByteOrder} {oid : Oid} {c pos : Nat} {data : Bytes} {r : GridfsReader}
  {w : World Store}

/-- The reads of a stream from its position on. -/
theorem exec_readAll (hc : 0 < c) (hne : data ≠ []) (hchunks : w.net.HasChunks oid (pieces c data))
    (h : r.At oid c data pos) {ns : List Nat} (hns : ∀ n ∈ ns, 0 < n) :
    ∃ r' w', ((readAll (.reader r) ns).run (serve allServed o)).exec w
      = (.ok (.ok (servings (data.drop pos) ns), .reader r'), w') := by
  induction ns generalizing r w pos with
  | nil => exact ⟨r, w, rfl⟩
  | cons n ns ih =>
      obtain ⟨r₁, w₁, k, hread, hat, hnet⟩ := exec_read (o := o) hc hne hchunks h
        (hns n List.mem_cons_self) (fun _ => (rfl : allServed _ = none)) (fun _ _ => rfl)
      have hchunks₁ : w₁.net.HasChunks oid (pieces c data) := by
        rw [hnet]
        exact hchunks.after k
      obtain ⟨r₂, w₂, hrest⟩ := ih hchunks₁ hat fun m hm => hns m (List.mem_cons_of_mem n hm)
      refine ⟨r₂, w₂, ?_⟩
      have hdrop : data.drop (pos + min n (data.length - pos)) = (data.drop pos).drop n := by
        rw [List.drop_drop]
        by_cases hle : n ≤ data.length - pos
        · rw [Nat.min_eq_left hle]
        · rw [List.drop_of_length_le (by omega), List.drop_of_length_le (by omega)]
      rw [hdrop] at hrest
      rw [readAll, exec_run_bind_ok hread]
      exact (exec_run_bind_ok hrest _).trans rfl

end Reads

/-- An upload that succeeds can be read.  A stream that is opened for the id of the file
reports its length and the size of its chunks.  Each of any reads returns the next bytes, as
many as it asks for or as are left, and together they return the file. -/
theorem upload_retrieved (md5 : Bytes → CString) (gfs : MongoSyncGridfs) (o : ByteOrder)
    (fate : Fate) (metadata : Option Bson)
    (hmeta : ∀ b, metadata = some b → ∃ m, b.Encodes m ∧ m.Unreserved) (data : Bytes)
    (hne : data ≠ []) (hsize : data.length < 2 ^ 63) {w w' : World Store}
    {file : MongoSyncGridfsChunkedFile}
    (hupload : ((mongoSyncGridfsChunkedFileNewFromBuffer md5 gfs metadata (some data)).run
      (serve fate o)).exec w = (.ok (.ok file), w')) :
    ∃ oid r w₂, file.oid = some oid ∧
      ((mongoSyncGridfsStreamFind gfs (oidQuery idKey oid)).run (serve allServed o)).exec w'
        = (.ok (.ok (.reader r)), w₂) ∧
      r.length = data.length ∧ r.chunkSize = gfs.chunkSize ∧
      ∀ ns : List Nat, (∀ n ∈ ns, 0 < n) → ∃ bs r' w₃,
        ((readAll (.reader r) ns).run (serve allServed o)).exec w₂
          = (.ok (.ok bs, .reader r'), w₃) ∧
        (∀ k (hk : k < ns.length), bs[k]? = some ((data.drop (ns.take k).sum).take ns[k])) ∧
        bs.flatten = data.take ns.sum := by
  have hpos := List.length_pos_iff.mpr hne
  obtain ⟨oid, m, sum, tv, hoid, hm, hchunks, hfound, hfits⟩ := upload_stored hmeta hne hupload
  obtain ⟨b, hfirst, hb⟩ := firstDocument_oneDocument o hfits
  have hfind : ((mongoSyncGridfsStreamFind gfs (oidQuery idKey oid)).run
      (serve allServed o)).exec w' = (.ok (.ok (.reader (newReader gfs oid data.length))),
        answered w') := by
    have hserved : allServed w'.net.tries = none := rfl
    have hquery := exec_query (n := 1) (o := o) hserved (oidQuery_decode (by decide) oid) hfound hfits
      hm.errorValue
    rw [oidQuery_eq] at hquery ⊢
    rw [mongoSyncGridfsStreamFind]
    refine (exec_run_bind_ok hquery _).trans ?_
    dsimp only
    rw [hfirst, ofExcept_ok, ret_bind, streamReader_upload hb hm hpos hsize]
    rfl
  refine ⟨oid, _, _, hoid, hfind, rfl, rfl, fun ns hns => ?_⟩
  have hat : (newReader gfs oid data.length).At oid gfs.chunkSize data 0 :=
    ⟨rfl, rfl, rfl, rfl, rfl, Nat.zero_le _, fun _ => .inl ⟨rfl, rfl, rfl⟩⟩
  obtain ⟨r', w₃, hreads⟩ := exec_readAll (o := o) (w := answered w') gfs.chunkSize_pos hne
    (hchunks.after 1) hat hns
  exact ⟨_, r', w₃, hreads, fun k hk => getElem_servings data ns hk, flatten_servings data ns⟩

/-- An empty store that gives out an id. -/
def emptyWorld : World Store where
  net := ⟨[], [], some smallOid, ⟨0, 0⟩, 0⟩
  conn := mongoSyncConnInit ⟨5, 0⟩ true
  errno := .ok
  nextFd := 6
  log := []

/-- An upload of three bytes to it. -/
def smallUpload : Except Halt (Except Errno MongoSyncGridfsChunkedFile) × World Store :=
  ((mongoSyncGridfsChunkedFileNewFromBuffer CString.ofBytes smallGridfs none (some [1, 2, 3])).run
    (serve allServed .little)).exec emptyWorld

/-- The three bytes are read in two reads. -/
theorem upload_retrieved_small :
    ∃ oid r w, ((mongoSyncGridfsStreamFind smallGridfs (oidQuery idKey oid)).run
        (serve allServed .little)).exec smallUpload.2 = (.ok (.ok (.reader r)), w) ∧
      r.length = 3 ∧ ∃ bs r' w', ((readAll (.reader r) [2, 2]).run
        (serve allServed .little)).exec w = (.ok (.ok bs, .reader r'), w') ∧
        bs.flatten = [1, 2, 3] := by
  have hupload : ∃ file, smallUpload.1 = .ok (.ok file) := by
    have hdone : (smallUpload.1.toOption.bind Except.toOption).isSome = true := by decide +kernel
    cases hresult : smallUpload.1 with
    | error e =>
        rw [hresult] at hdone
        cases hdone
    | ok result =>
        cases result with
        | error e =>
            rw [hresult] at hdone
            cases hdone
        | ok file => exact ⟨file, rfl⟩
  obtain ⟨file, hfile⟩ := hupload
  have hrun : ((mongoSyncGridfsChunkedFileNewFromBuffer CString.ofBytes smallGridfs none
      (some [1, 2, 3])).run (serve allServed .little)).exec emptyWorld
        = (.ok (.ok file), smallUpload.2) := Prod.ext hfile rfl
  obtain ⟨oid, r, w, -, hfind, hlength, -, hreads⟩ := upload_retrieved CString.ofBytes smallGridfs
    .little allServed none (fun b hb => by cases hb) [1, 2, 3] (by decide) (by decide) hrun
  obtain ⟨bs, r', w', hexec, -, hflat⟩ := hreads [2, 2] (by decide)
  exact ⟨oid, r, w, hfind, hlength, bs, r', w', hexec, hflat⟩

end LibMongo
